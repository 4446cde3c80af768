import OxideMq.Lib.Bytes

/-! Decoders that may run off the end of their input. -/

namespace OxideMq.Lib

open List

inductive Outcome (E α : Type) where
  | ok (value : α) (rest : Bytes)
  | err (error : E)
  | panic
  deriving DecidableEq, Repr

structure Decoder (E α : Type) where
  run : Bytes → Outcome E α

namespace Decoder

variable {E α β : Type}
variable {d : Decoder E α}

instance : Monad (Decoder E) where
  pure a := ⟨fun src => .ok a src⟩
  bind d f := ⟨fun src =>
    match d.run src with
    | .ok a rest => (f a).run rest
    | .err e => .err e
    | .panic => .panic⟩

def fail (e : E) : Decoder E α := ⟨fun _ => .err e⟩

def atLeast (n : ℕ) (e : E) : Decoder E Unit :=
  ⟨fun src => if src.length < n then .err e else .ok () src⟩

def get (n : ℕ) : Decoder E Bytes :=
  ⟨fun src => if src.length < n then .panic else .ok (src.take n) (src.drop n)⟩

def getNat (n : ℕ) : Decoder E ℕ := do
  let bytes ← get n
  return beDecode bytes

def whenLeft (n : ℕ) (default : α) (d : Decoder E α) : Decoder E α :=
  ⟨fun src => if src.length < n then .ok default src else d.run src⟩

def times (d : Decoder E α) : ℕ → Decoder E (List α)
  | 0 => pure []
  | n + 1 => do
      let a ← d
      let as ← times d n
      return a :: as

theorem run_atLeast (n : ℕ) (e : E) (src : Bytes) :
    (atLeast n e).run src = if src.length < n then .err e else .ok () src := rfl

theorem rest_of_atLeast {n : ℕ} {e : E} {u : Unit} {src rest : Bytes}
    (h : (atLeast n e).run src = .ok u rest) : rest = src := by
  rw [run_atLeast] at h
  split at h
  · cases h
  · exact (Outcome.ok.inj h).2.symm

theorem run_get (n : ℕ) (src : Bytes) : (get n : Decoder E Bytes).run src =
      if src.length < n then .panic else .ok (src.take n) (src.drop n) := rfl

theorem run_whenLeft (n : ℕ) (default : α) (d : Decoder E α) (src : Bytes) :
    (whenLeft n default d).run src = if src.length < n then .ok default src else d.run src := rfl

theorem run_bind (d : Decoder E α) (f : α → Decoder E β) (src : Bytes) : (d >>= f).run src =
      match d.run src with
      | .ok a rest => (f a).run rest
      | .err e => .err e
      | .panic => .panic := rfl

theorem run_bind_of_ok {src rest : Bytes} {a : α} (h : d.run src = .ok a rest) (f : α → Decoder E β) :
    (d >>= f).run src = (f a).run rest := by
  rw [run_bind, h]

theorem run_bind_eq_ok {f : α → Decoder E β} {src rest : Bytes} {b : β}
    (h : (d >>= f).run src = .ok b rest) :
    ∃ a mid, d.run src = .ok a mid ∧ (f a).run mid = .ok b rest := by
  rw [run_bind] at h
  cases hrun : d.run src with
  | ok a mid => exact ⟨a, mid, rfl, by rwa [hrun] at h⟩
  | err e => cases hrun ▸ h
  | panic => cases hrun ▸ h

theorem run_bind_pure_eq_ok {g : α → β} {src rest : Bytes} {b : β}
    (h : (d >>= fun a => pure (g a)).run src = .ok b rest) :
    ∃ a, d.run src = .ok a rest ∧ b = g a := by
  obtain ⟨a, mid, hd, hpure⟩ := run_bind_eq_ok h
  obtain ⟨rfl, rfl⟩ := Outcome.ok.inj hpure
  exact ⟨a, hd, rfl⟩

theorem bind_assoc {γ : Type} (d : Decoder E α) (f : α → Decoder E β) (g : β → Decoder E γ) :
    d >>= f >>= g = d >>= fun a => f a >>= g := by
  show mk _ = mk _
  congr 1
  funext src
  rw [run_bind]
  cases d.run src with
  | ok a rest => rfl
  | err e => rfl
  | panic => rfl

end Decoder

namespace Decoder

variable {E α β : Type} {buf : Bytes} {i n : ℕ}

theorem run_get_at (h : i + n ≤ buf.length) (f : Bytes → Decoder E β) :
    (get n >>= f).run (buf.drop i) = (f (field buf i n)).run (buf.drop (i + n)) := by
  rw [run_bind, run_get, if_neg (by rw [length_drop]; omega)]
  rw [drop_drop, field]

theorem run_getNat_at (h : i + n ≤ buf.length) (f : ℕ → Decoder E β) :
    (getNat n >>= f).run (buf.drop i) = (f (beDecode (field buf i n))).run (buf.drop (i + n)) := by
  rw [getNat, bind_assoc, run_get_at h]
  rfl

theorem run_atLeast_at (h : i ≤ buf.length) {e : E} (f : Unit → Decoder E β) :
    (atLeast n e >>= f).run (buf.drop i) =
      if buf.length < i + n then .err e else (f ()).run (buf.drop i) := by
  rw [run_bind, run_atLeast, length_drop]
  by_cases hshort : buf.length < i + n
  · rw [if_pos (by omega), if_pos hshort]
  · rw [if_neg (by omega), if_neg hshort]

end Decoder

def slice (buf : Bytes) (i j : ℕ) : Option Bytes :=
  if i ≤ j ∧ j ≤ buf.length then some (field buf i (j - i)) else none

theorem slice_of_le {buf : Bytes} {i j : ℕ} (hij : i ≤ j) (hj : j ≤ buf.length) :
    slice buf i j = some (field buf i (j - i)) := by
  rw [slice, if_pos ⟨hij, hj⟩]

abbrev Attempt (E α : Type) := Option (Except E α)

def Outcome.attempt {E α : Type} : Outcome E α → Attempt E α
  | .ok value _ => some (.ok value)
  | .err error => some (.error error)
  | .panic => none

namespace Attempt

variable {E α β : Type}
variable {attempts : List (Attempt E (List α))}

def andThen : Attempt E α → (α → Attempt E β) → Attempt E β
  | some (.ok a), f => f a
  | some (.error e), _ => some (.error e)
  | none, _ => none

@[simp] theorem andThen_ok (a : α) (f : α → Attempt E β) :
    andThen (some (.ok a) : Attempt E α) f = f a := rfl

theorem andThen_eq_ok {x : Attempt E α} {f : α → Attempt E β} {b : β} :
    x.andThen f = some (.ok b) ↔ ∃ a, x = some (.ok a) ∧ f a = some (.ok b) := by
  cases x with
  | none => exact iff_of_false nofun nofun
  | some res =>
    cases res with
    | error e => exact iff_of_false nofun nofun
    | ok a => exact ⟨fun h => ⟨a, rfl, h⟩, fun ⟨_, ha, h⟩ => Except.ok.inj (Option.some.inj ha) ▸ h⟩

theorem andThen_ne_none {x : Attempt E α} {f : α → Attempt E β} (hx : x ≠ none)
    (hf : ∀ a, f a ≠ none) : x.andThen f ≠ none := by
  cases x with
  | none => exact absurd rfl hx
  | some res =>
    cases res with
    | error e => exact Option.some_ne_none _
    | ok a => exact hf a

def concat : List (Attempt E (List α)) → Attempt E (List α) → Attempt E (List α)
  | [], last => last
  | first :: others, last =>
      first.andThen fun xs => (concat others last).andThen fun ys => some (.ok (xs ++ ys))

theorem concat_eq_ok_iff {last : Attempt E (List α)} {out : List α} :
    concat attempts last = some (.ok out) ↔
      ∃ parts behind, List.Forall₂ (fun x xs => x = some (.ok xs)) attempts parts ∧
        last = some (.ok behind) ∧ out = parts.flatten ++ behind := by
  induction attempts generalizing out with
  | nil => simp [concat]
  | cons first others ih =>
    rw [concat, andThen_eq_ok]
    constructor
    · rintro ⟨xs, hfirst, hrest⟩
      obtain ⟨ys, hoths, heq⟩ := andThen_eq_ok.mp hrest
      obtain ⟨parts, behind, hparts, hlast, rfl⟩ := ih.mp hoths
      refine ⟨xs :: parts, behind, List.Forall₂.cons hfirst hparts, hlast, ?_⟩
      rw [flatten_cons, append_assoc]
      exact (Except.ok.inj (Option.some.inj heq)).symm
    · rintro ⟨parts, behind, hparts, hlast, rfl⟩
      obtain ⟨xs, parts, hfirst, htail, rfl⟩ := forall₂_cons_left_iff.mp hparts
      refine ⟨xs, hfirst, andThen_eq_ok.mpr ⟨_, ih.mpr ⟨parts, behind, htail, hlast, rfl⟩, ?_⟩⟩
      rw [flatten_cons, append_assoc]

theorem concat_ne_none {last : Attempt E (List α)} (hattempts : ∀ x ∈ attempts, x ≠ none)
    (hlast : last ≠ none) : concat attempts last ≠ none := by
  induction attempts with
  | nil => exact hlast
  | cons first others ih =>
    obtain ⟨hfirst, hoths⟩ := forall_mem_cons.mp hattempts
    exact andThen_ne_none hfirst fun _ =>
      andThen_ne_none (ih hoths) nofun

theorem concat_eq_none {parts : List (List α)}
    (h : List.Forall₂ (fun x xs => x = some (.ok xs)) attempts parts) :
    concat attempts none = none := by
  induction h with
  | nil => rfl
  | cons hfirst _ ih => rw [concat, hfirst, andThen_ok, ih]; rfl

end Attempt

def Outcome.map {E α β : Type} (g : α → β) : Outcome E α → Outcome E β
  | .ok value rest => .ok (g value) rest
  | .err e => .err e
  | .panic => .panic

theorem Outcome.attempt_map {E α β : Type} (g : α → β) (out : Outcome E α) :
    (out.map g).attempt = out.attempt.andThen fun a => some (.ok (g a)) := by
  cases out <;> rfl

def Image {E α β : Type} (g : α → β) (d : Decoder E α) (d' : Decoder E β) : Prop :=
  ∀ src, d'.run src = (d.run src).map g

namespace Image

variable {E α β γ δ : Type} {g : α → β} {h : γ → δ} {d : Decoder E α} {d' : Decoder E β}

theorem pure (g : α → β) (a : α) : Image (E := E) g (Pure.pure a) (Pure.pure (g a)) := fun _ => rfl

theorem bind {f : α → Decoder E γ} {f' : β → Decoder E δ} (hd : Image g d d')
    (hf : ∀ a, Image h (f a) (f' (g a))) : Image h (d >>= f) (d' >>= f') := by
  intro src
  rw [Decoder.run_bind, Decoder.run_bind, hd src]
  cases d.run src with
  | ok a rest => exact hf a rest
  | err e => rfl
  | panic => rfl

theorem bind_same {f : α → Decoder E γ} {f' : α → Decoder E δ} (hf : ∀ a, Image h (f a) (f' a)) :
    Image h (d >>= f) (d >>= f') := by
  intro src
  rw [Decoder.run_bind, Decoder.run_bind]
  cases d.run src with
  | ok a rest => exact hf a rest
  | err e => rfl
  | panic => rfl

theorem whenLeft (n : ℕ) (default : α) (hd : Image g d d') :
    Image g (Decoder.whenLeft n default d) (Decoder.whenLeft n (g default) d') := by
  intro src
  rw [Decoder.run_whenLeft, Decoder.run_whenLeft]
  split
  · rfl
  · exact hd src

end Image

inductive Walk where
  | more (rest : Bytes)
  | stop
  | crash
  deriving DecidableEq, Repr

def Outcome.walk {E α : Type} : Outcome E α → Walk
  | .ok _ rest => .more rest
  | .err _ => .stop
  | .panic => .crash

def Walk.andThen : Walk → (Bytes → Walk) → Walk
  | .more rest, l => l rest
  | .stop, _ => .stop
  | .crash, _ => .crash

abbrev Layout := Bytes → Walk

namespace Layout

def checked (n : ℕ) : Layout :=
  fun src => if src.length < n then .stop else .more (src.drop n)

def unchecked (n : ℕ) : Layout :=
  fun src => if src.length < n then .crash else .more (src.drop n)

def atLeast (n : ℕ) : Layout := fun src => if src.length < n then .stop else .more src

def optional (n : ℕ) (l : Layout) : Layout :=
  fun src => if src.length < n then .more src else l src

def seq : List Layout → Layout
  | [], src => .more src
  | l :: ls, src => (l src).andThen (seq ls)

def since (c : Bool) (l : Layout) : Layout := if c then l else seq []

def times (l : Layout) : ℕ → Layout
  | 0 => seq []
  | n + 1 => seq [l, times l n]

def NeverCrashes (l : Layout) : Prop := ∀ src, l src ≠ .crash

end Layout

def Under {E α : Type} (k : ℕ) (d : Decoder E α) (l : Layout) : Prop :=
  ∀ src : Bytes, k ≤ src.length → (d.run src).walk = l src

namespace Under

open Layout Decoder

variable {E α β : Type} {k n : ℕ} {d : Decoder E α} {f : α → Decoder E β} {l : Layout}
  {ls : List Layout}

theorem pure (a : α) : Under k (Pure.pure a : Decoder E α) (seq []) := fun _ _ => rfl

theorem fail (e : E) : Under k (fail e : Decoder E α) (fun _ => .stop) := fun _ _ => rfl

theorem bind (hd : Under k d l) (hf : ∀ a, Under 0 (f a) (seq ls)) :
    Under k (d >>= f) (seq (l :: ls)) := by
  intro src hk
  rw [run_bind, seq, ← hd src hk]
  cases d.run src with
  | ok a rest => exact hf a rest (Nat.zero_le _)
  | err e => rfl
  | panic => rfl

theorem last (hd : Under k d l) : Under k d (seq [l]) := by
  intro src hk
  rw [seq, ← hd src hk]
  cases d.run src with
  | ok a rest => rfl
  | err e => rfl
  | panic => rfl

theorem bind_pure (g : α → β) (hd : Under k d l) : Under k (d >>= fun a => Pure.pure (g a)) l := by
  intro src hk
  rw [run_bind, ← hd src hk]
  cases d.run src with
  | ok a rest => rfl
  | err e => rfl
  | panic => rfl

theorem atLeast {f : Unit → Decoder E β} (e : E) (hf : Under n (f ()) (seq ls)) :
    Under k (atLeast n e >>= f) (seq (Layout.atLeast n :: ls)) := by
  intro src _
  rw [run_bind, seq, run_atLeast, Layout.atLeast]
  by_cases hshort : src.length < n
  · rw [if_pos hshort, if_pos hshort]
    rfl
  · rw [if_neg hshort, if_neg hshort]
    exact hf src (not_lt.mp hshort)

theorem unchecked : Under k (Decoder.get n : Decoder E Bytes) (unchecked n) := by
  intro src _
  rw [Decoder.run_get, Layout.unchecked]
  by_cases hshort : src.length < n
  · rw [if_pos hshort, if_pos hshort]
    rfl
  · rw [if_neg hshort, if_neg hshort]
    rfl

theorem known (hd : Under 0 d (Layout.unchecked n)) (hn : n ≤ k) : Under k d (checked n) := by
  intro src hk
  have hlong : ¬src.length < n := by omega
  rw [hd src (Nat.zero_le _), Layout.unchecked, checked, if_neg hlong, if_neg hlong]

theorem whenLeft (default : α) (hd : Under n d l) :
    Under k (whenLeft n default d) (optional n l) := by
  intro src _
  rw [run_whenLeft, Layout.optional]
  by_cases hshort : src.length < n
  · rw [if_pos hshort, if_pos hshort]
    rfl
  · rw [if_neg hshort, if_neg hshort]
    exact hd src (not_lt.mp hshort)

theorem since {c : Bool} (default : α) (hd : Under k d l) :
    Under k (if c then d else Pure.pure default) (Layout.since c l) := by
  cases c with
  | true => exact hd
  | false => exact pure default

theorem ite {c : Bool} {d' : Decoder E α} {l' : Layout} (hd : Under k d l) (hd' : Under k d' l') :
    Under k (if c then d else d') (if c then l else l') := by
  cases c with
  | true => exact hd
  | false => exact hd'

theorem times (hd : Under 0 d l) (count : ℕ) : Under k (d.times count) (l.times count) := by
  induction count generalizing k with
  | zero => exact pure []
  | succ count ih =>
    exact bind (fun src _ => hd src (Nat.zero_le _)) fun a => last (bind_pure (a :: ·) ih)

end Under

namespace Layout

theorem unchecked_andThen (m n : ℕ) (src : Bytes) :
    (unchecked m src).andThen (unchecked n) = unchecked (m + n) src := by
  rw [unchecked, unchecked]
  by_cases hshort : src.length < m
  · rw [if_pos hshort, if_pos (by omega)]
    rfl
  · rw [if_neg hshort, Walk.andThen, unchecked, length_drop, drop_drop]
    by_cases hrest : src.length < m + n
    · rw [if_pos (by omega), if_pos hrest]
    · rw [if_neg (by omega), if_neg hrest]

end Layout

namespace Under

variable {E α β : Type} {m n : ℕ} {d : Decoder E α} {f : α → Decoder E β}

theorem unchecked_pure (a : α) : Under 0 (Pure.pure a : Decoder E α) (Layout.unchecked 0) :=
  fun _ _ => rfl

theorem unchecked_bind (hd : Under 0 d (Layout.unchecked m))
    (hf : ∀ a, Under 0 (f a) (Layout.unchecked n)) :
    Under 0 (d >>= f) (Layout.unchecked (m + n)) := by
  intro src hk
  rw [Decoder.run_bind, ← Layout.unchecked_andThen, ← hd src hk]
  cases d.run src with
  | ok a rest => exact hf a rest (Nat.zero_le _)
  | err e => rfl
  | panic => rfl

theorem unchecked_getNat : Under 0 (Decoder.getNat n : Decoder E ℕ) (Layout.unchecked n) :=
  bind_pure _ unchecked

theorem unchecked_times (hd : Under 0 d (Layout.unchecked m)) (count : ℕ) :
    Under 0 (d.times count) (Layout.unchecked (m * count)) := by
  induction count with
  | zero => exact unchecked_pure []
  | succ count ih =>
    have hsize : m * (count + 1) = m + m * count := by
      rw [Nat.mul_succ, Nat.add_comm]
    rw [hsize]
    exact unchecked_bind hd fun a => bind_pure (a :: ·) ih

end Under

theorem Outcome.attempt_eq_none_iff {E α : Type} {out : Outcome E α} :
    out.attempt = none ↔ out.walk = .crash := by
  cases out <;> simp [Outcome.attempt, Outcome.walk]

def Returns {E α : Type} (k : ℕ) (d : Decoder E α) : Prop :=
  ∀ src : Bytes, k ≤ src.length → d.run src ≠ .panic

namespace Returns

variable {E α β : Type} {k n : ℕ} {d : Decoder E α} {f : α → Decoder E β}

theorem pure (a : α) : Returns k (Pure.pure a : Decoder E α) := fun _ _ => nofun

theorem fail (e : E) : Returns k (Decoder.fail e : Decoder E α) := fun _ _ => nofun

theorem bind (hd : Returns k d) (hf : ∀ a, Returns 0 (f a)) : Returns k (d >>= f) := by
  intro src hk
  rw [Decoder.run_bind]
  cases hrun : d.run src with
  | ok a rest => exact hf a rest (Nat.zero_le _)
  | err e => exact nofun
  | panic => exact absurd hrun (hd src hk)

theorem atLeast {f : Unit → Decoder E β} (e : E) (hf : Returns n (f ())) :
    Returns k (Decoder.atLeast n e >>= f) := by
  intro src _
  rw [Decoder.run_bind, Decoder.run_atLeast]
  by_cases hshort : src.length < n
  · rw [if_pos hshort]
    exact nofun
  · rw [if_neg hshort]
    exact hf src (not_lt.mp hshort)

theorem get (hn : n ≤ k) : Returns k (Decoder.get n : Decoder E Bytes) := by
  intro src hk
  rw [Decoder.run_get, if_neg (by omega)]
  exact nofun

theorem ite {c : Prop} [Decidable c] {d' : Decoder E α} (hd : Returns k d) (hd' : Returns k d') :
    Returns k (if c then d else d') := by
  split
  · exact hd
  · exact hd'

theorem whenLeft (default : α) (hd : Returns n d) : Returns k (Decoder.whenLeft n default d) := by
  intro src _
  rw [Decoder.run_whenLeft]
  split
  · exact nofun
  · rename_i hlong
    exact hd src (not_lt.mp hlong)

theorem times (hd : Returns 0 d) (count : ℕ) : Returns 0 (d.times count) := by
  induction count with
  | zero => exact pure []
  | succ count ih => exact bind hd fun a => bind ih fun as => pure (a :: as)

end Returns

namespace Layout

variable {l : Layout} {ls : List Layout} {n : ℕ}

theorem neverCrashes_optional (h : NeverCrashes l) : NeverCrashes (optional n l) := by
  intro src
  rw [Layout.optional]
  split
  · simp
  · exact h src

theorem neverCrashes_nil : NeverCrashes (seq []) := fun _ => nofun

theorem neverCrashes_cons (hl : NeverCrashes l) (hls : NeverCrashes (seq ls)) :
    NeverCrashes (seq (l :: ls)) := by
  intro src
  rw [seq]
  cases hwalk : l src with
  | more rest => exact hls rest
  | stop => exact nofun
  | crash => exact absurd hwalk (hl src)

theorem neverCrashes_since {c : Bool} (h : NeverCrashes l) : NeverCrashes (since c l) := by
  cases c with
  | true => exact h
  | false => exact neverCrashes_nil

end Layout

end OxideMq.Lib
