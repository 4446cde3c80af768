import OxideMq.Lib.Bytes

/-! Runs of a partial transition function. -/

namespace OxideMq.Lib

open List Option

variable {S A : Type}
variable {s s' : S} {as : List A} {cond cond' : S → A → Prop} {P : S → Prop} {α : Type}

def run (exec : S → A → Option S) : S → List A → Option S
  | s, [] => some s
  | s, a :: as => (exec s a).bind fun s' => run exec s' as

def Along (exec : S → A → Option S) (cond : S → A → Prop) : S → List A → Prop
  | _, [] => True
  | s, a :: as => cond s a ∧ ∀ s', exec s a = some s' → Along exec cond s' as

variable {exec : S → A → Option S}

@[simp] theorem run_nil (s : S) : run exec s [] = some s := rfl

theorem run_cons_eq_some {a : A} :
    run exec s (a :: as) = some s' ↔ ∃ t, exec s a = some t ∧ run exec t as = some s' :=
  bind_eq_some_iff

theorem run_total {f : S → A → S} (s : S) (as : List A) :
    run (fun s a => some (f s a)) s as = some (as.foldl f s) := by
  induction as generalizing s with
  | nil => rfl
  | cons a as ih => exact ih (f s a)

theorem run_invariant {Inv : S → Prop}
    (hstep : ∀ s a s', Inv s → cond s a → exec s a = some s' → Inv s') {s s' : S} {as : List A}
    (hs : Inv s) (hcond : Along exec cond s as) (hrun : run exec s as = some s') : Inv s' := by
  induction as generalizing s with
  | nil => exact some.inj hrun ▸ hs
  | cons a as ih =>
    obtain ⟨t, hexec, hrest⟩ := run_cons_eq_some.mp hrun
    exact ih (hstep s a t hs hcond.1 hexec) (hcond.2 t hexec) hrest

theorem Along.invariant {Inv : S → Prop}
    (hstep : ∀ s a s', Inv s → cond s a → exec s a = some s' → Inv s') (hs : Inv s)
    (hcond : Along exec cond s as) :
    Along exec (fun s a => Inv s ∧ cond s a) s as := by
  induction as generalizing s with
  | nil => trivial
  | cons a as ih =>
    exact ⟨⟨hs, hcond.1⟩, fun t ht => ih (hstep s a t hs hcond.1 ht) (hcond.2 t ht)⟩

theorem along_of_run {assumed : S → A → Prop}
    (hback : ∀ s a s', assumed s a → exec s a = some s' → P s' → P s ∧ cond s a)
    (hasm : Along exec assumed s as) (hrun : run exec s as = some s') (hs' : P s') :
    P s ∧ Along exec cond s as := by
  induction as generalizing s with
  | nil => exact ⟨some.inj hrun ▸ hs', trivial⟩
  | cons a as ih =>
    obtain ⟨t, hexec, hrest⟩ := run_cons_eq_some.mp hrun
    obtain ⟨ht, halong⟩ := ih (hasm.2 t hexec) hrest
    obtain ⟨hs, hcond⟩ := hback s a t hasm.1 hexec ht
    refine ⟨hs, hcond, fun u hu => ?_⟩
    rw [← some.inj (hexec.symm.trans hu)]
    exact halong

instance Along.decidable {cond : S → A → Prop} [∀ s a, Decidable (cond s a)] :
    (s : S) → (as : List A) → Decidable (Along exec cond s as)
  | _, [] => isTrue trivial
  | s, a :: as =>
      match hexec : exec s a with
      | none => decidable_of_iff (cond s a)
          ⟨fun h => ⟨h, fun t ht => by simp [hexec] at ht⟩, fun h => h.1⟩
      | some t =>
          have : Decidable (Along exec cond t as) := Along.decidable t as
          decidable_of_iff (cond s a ∧ Along exec cond t as)
            ⟨fun h => ⟨h.1, fun u hu => Option.some.inj (hexec.symm.trans hu) ▸ h.2⟩,
              fun h => ⟨h.1, h.2 t hexec⟩⟩

theorem Along.cons {t : S} {a : A} (hcond : cond s a) (hexec : exec s a = some t)
    (hrest : Along exec cond t as) : Along exec cond s (a :: as) :=
  ⟨hcond, fun _ h => some.inj (hexec.symm.trans h) ▸ hrest⟩

theorem along_of_forall {P : A → Prop} (h : ∀ a ∈ as, P a) : Along exec (fun _ a => P a) s as := by
  induction as generalizing s with
  | nil => trivial
  | cons a as ih =>
    exact ⟨h a mem_cons_self, fun _ _ => ih fun b hb => h b (mem_cons_of_mem _ hb)⟩

theorem forall_of_along {P : A → Prop} (h : Along exec (fun _ a => P a) s as)
    (hrun : run exec s as = some s') :
    ∀ a ∈ as, P a := by
  induction as generalizing s with
  | nil => exact forall_mem_nil _
  | cons a as ih =>
    obtain ⟨t, hexec, hrest⟩ := run_cons_eq_some.mp hrun
    exact forall_mem_cons.mpr ⟨h.1, ih (h.2 t hexec) hrest⟩

theorem along_append {bs : List A} (h : Along exec cond s (as ++ bs)) :
    Along exec cond s as ∧ ∀ t, run exec s as = some t → Along exec cond t bs := by
  induction as generalizing s with
  | nil =>
    refine ⟨trivial, fun t ht => ?_⟩
    rw [← some.inj ht]
    exact h
  | cons a as ih =>
    refine ⟨⟨h.1, fun t ht => (ih (h.2 t ht)).1⟩, fun t ht => ?_⟩
    obtain ⟨u, hexec, hrest⟩ := run_cons_eq_some.mp ht
    exact (ih (h.2 u hexec)).2 t hrest

theorem Along.and (h : Along exec cond s as) (h' : Along exec cond' s as) :
    Along exec (fun s a => cond s a ∧ cond' s a) s as := by
  induction as generalizing s with
  | nil => trivial
  | cons a as ih => exact ⟨⟨h.1, h'.1⟩, fun t ht => ih (h.2 t ht) (h'.2 t ht)⟩

theorem Along.imp (himp : ∀ s a, cond s a → cond' s a) (h : Along exec cond s as) :
    Along exec cond' s as := by
  induction as generalizing s with
  | nil => trivial
  | cons a as ih => exact ⟨himp s a h.1, fun t ht => ih (h.2 t ht)⟩

theorem reached_iff_along {Inv : S → Prop}
    (hinv : ∀ s a s', Inv s → exec s a = some s' → P s' → Inv s')
    (hstep : ∀ s a s', Inv s → P s → exec s a = some s' → (P s' ↔ cond s a)) (hs : Inv s) (hP : P s)
    (hrun : run exec s as = some s') :
    (∀ front, front <+: as → ∀ t, run exec s front = some t → P t) ↔ Along exec cond s as := by
  induction as generalizing s with
  | nil =>
    refine iff_of_true (fun front hfront t ht => ?_) trivial
    rw [prefix_nil.mp hfront] at ht
    exact some.inj ht ▸ hP
  | cons a as ih =>
    obtain ⟨u, hexec, hrest⟩ := run_cons_eq_some.mp hrun
    have hu := hinv s a u hs hexec
    constructor
    · intro hall
      have hPu : P u := hall [a] ((prefix_cons_inj a).mpr nil_prefix) u
        (run_cons_eq_some.mpr ⟨u, hexec, rfl⟩)
      refine Along.cons ((hstep s a u hs hP hexec).mp hPu) hexec ((ih (hu hPu) hPu hrest).mp ?_)
      intro front hfront t ht
      exact hall (a :: front) ((prefix_cons_inj a).mpr hfront) t
        (run_cons_eq_some.mpr ⟨u, hexec, ht⟩)
    · rintro ⟨hcond, halong⟩ front hfront t ht
      have hPu : P u := (hstep s a u hs hP hexec).mpr hcond
      cases front with
      | nil => exact some.inj ht ▸ hP
      | cons b front =>
        obtain ⟨rfl, htail⟩ := cons_prefix_cons.mp hfront
        obtain ⟨v, hexec', ht⟩ := run_cons_eq_some.mp ht
        obtain rfl : u = v := some.inj (hexec.symm.trans hexec')
        exact (ih (hu hPu) hPu hrest).mpr (halong u hexec) front htail t ht

theorem along_iff_of_kept {assumed : S → A → Prop} {I : S → Prop}
    (hstep : ∀ s a s', I s → assumed s a → exec s a = some s' →
      (cond s a ↔ cond' s a) ∧ (cond' s a → I s')) (hs : I s) (hasm : Along exec assumed s as)
    (hrun : run exec s as = some s') : Along exec cond s as ↔ Along exec cond' s as := by
  induction as generalizing s with
  | nil => exact Iff.rfl
  | cons a as ih =>
    obtain ⟨t, hexec, hrest⟩ := run_cons_eq_some.mp hrun
    obtain ⟨hiff, hkept⟩ := hstep s a t hs hasm.1 hexec
    have halong := fun hcond => ih (hkept hcond) (hasm.2 t hexec) hrest
    constructor
    · rintro ⟨hcond, htail⟩
      exact Along.cons (hiff.mp hcond) hexec ((halong (hiff.mp hcond)).mp (htail t hexec))
    · rintro ⟨hcond, htail⟩
      exact Along.cons (hiff.mpr hcond) hexec ((halong hcond).mpr (htail t hexec))

theorem along_iff_of_run {I : S → Prop}
    (hstep : ∀ s a s', I s → exec s a = some s' → I s' ∧ (cond s a ↔ cond' s a)) (hs : I s)
    (hrun : run exec s as = some s') :
    Along exec cond s as ↔ Along exec cond' s as := by
  have hasm : Along exec (fun _ _ => True) s as :=
    along_of_forall (P := fun _ => True) fun _ _ => trivial
  refine along_iff_of_kept (fun s a s' hs _ hexec => ?_) hs hasm hrun
  obtain ⟨hs', hiff⟩ := hstep s a s' hs hexec
  exact ⟨hiff, fun _ => hs'⟩

theorem forall_mem_set_iff {P : α → Prop} {l : List α} {i : ℕ} {x y : α} (h : l[i]? = some y) :
    (∀ a ∈ l.set i x, P a) ∧ P y ↔ (∀ a ∈ l, P a) ∧ P x := by
  induction l generalizing i with
  | nil => simp at h
  | cons a l ih =>
    cases i with
    | zero =>
      obtain rfl : a = y := by simpa using h
      simp only [set_cons_zero, forall_mem_cons]
      tauto
    | succ i =>
      have hrest := ih (i := i) (by simpa using h)
      simp only [set_cons_succ, forall_mem_cons]
      tauto

theorem forall_mem_set_congr {P : α → Prop} {l : List α} {i : ℕ} {x y : α} (h : l[i]? = some y)
    (hsame : P x ↔ P y) : (∀ a ∈ l.set i x, P a) ↔ ∀ a ∈ l, P a := by
  have hset := forall_mem_set_iff (P := P) (x := x) h
  have hmem : (∀ a ∈ l, P a) → P y := fun hall => hall y (mem_of_getElem? h)
  have hself : (∀ a ∈ l.set i x, P a) → P x := fun hall => by
    obtain ⟨hi, -⟩ := List.getElem?_eq_some_iff.mp h
    exact hall x (mem_set hi x)
  tauto

theorem find?_filter_of_imp {p q : α → Bool} (h : ∀ a, q a = true → p a = true) (l : List α) :
    (l.filter p).find? q = l.find? q := by
  rw [find?_filter]
  congr 1
  funext a
  cases hq : q a with
  | true => simp [h a hq]
  | false => simp

theorem findSome?_filter_of_imp {β : Type} {p : α → Bool} {f : α → Option β}
    (h : ∀ a, (f a).isSome = true → p a = true) (l : List α) :
    (l.filter p).findSome? f = l.findSome? f := by
  induction l with
  | nil => rfl
  | cons a l ih =>
    rw [filter_cons, findSome?_cons]
    cases hf : f a with
    | some b =>
      rw [if_pos (h a (by rw [hf]; rfl)), findSome?_cons, hf]
    | none =>
      split
      · rw [findSome?_cons, hf]
        exact ih
      · exact ih

theorem concat_eq_append_cons {l before after : List α} {x y : α} :
    l ++ [x] = before ++ y :: after ↔
      before = l ∧ y = x ∧ after = [] ∨ ∃ rest, l = before ++ y :: rest ∧ after = rest ++ [x] := by
  constructor
  · intro h
    obtain ⟨mid, rfl, hmid⟩ | ⟨mid, rfl, hmid⟩ := append_eq_append_iff.mp h
    · obtain ⟨rfl, hlast⟩ | ⟨rest, -, hrest⟩ := cons_eq_append_iff.mp hmid
      · obtain ⟨rfl, rfl⟩ := cons.inj hlast
        exact Or.inl ⟨append_nil l, rfl, rfl⟩
      · exact absurd hrest.symm (by simp)
    · obtain ⟨rfl, hlast⟩ | ⟨rest, rfl, hrest⟩ := cons_eq_append_iff.mp hmid
      · obtain ⟨rfl, rfl⟩ := cons.inj hlast
        exact Or.inl ⟨(append_nil before).symm, rfl, rfl⟩
      · exact Or.inr ⟨rest, rfl, hrest⟩
  · rintro (⟨rfl, rfl, rfl⟩ | ⟨rest, rfl, rfl⟩)
    · rfl
    · rw [append_assoc, cons_append]

end OxideMq.Lib
