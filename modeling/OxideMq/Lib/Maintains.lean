import OxideMq.Lib.Bytes

/-! Programs with a state that may abort. -/

namespace OxideMq.Lib

variable {S α β : Type}
variable {f : α → StateT S Option β}

def Ensures (I : S → Prop) (m : StateT S Option α) (Q : α → Prop) : Prop :=
  ∀ s, I s → ∃ a s', m.run s = some (a, s') ∧ I s' ∧ Q a

def Maintains (I : S → Prop) (m : StateT S Option α) : Prop := Ensures I m fun _ => True

variable {I : S → Prop} {m : StateT S Option α} {Q : α → Prop}

theorem Ensures.bind {R : β → Prop} (hm : Ensures I m Q) (hf : ∀ a, Q a → Ensures I (f a) R) :
    Ensures I (m >>= f) R := by
  intro s hs
  obtain ⟨a, s', hrun, hs', ha⟩ := hm s hs
  obtain ⟨b, s'', hrun', hs'', hb⟩ := hf a ha s' hs'
  refine ⟨b, s'', ?_, hs'', hb⟩
  rw [StateT.run_bind, hrun]
  exact hrun'

theorem Ensures.pure {a : α} (ha : Q a) : Ensures I (pure a : StateT S Option α) Q :=
  fun s hs => ⟨a, s, rfl, hs, ha⟩

theorem Ensures.get : Ensures I (get : StateT S Option S) I :=
  fun s hs => ⟨s, s, rfl, hs, hs⟩

namespace Maintains

theorem pure (a : α) : Maintains I (pure a : StateT S Option α) := Ensures.pure trivial

theorem bind {f : α → StateT S Option β} (hm : Maintains I m) (hf : ∀ a, Maintains I (f a)) :
    Maintains I (m >>= f) :=
  Ensures.bind hm fun a _ => hf a

theorem mapM {f : α → StateT S Option β} {as : List α} (h : ∀ a ∈ as, Maintains I (f a)) :
    Maintains I (as.mapM f) := by
  induction as with
  | nil => exact .pure []
  | cons a as ih =>
    rw [List.forall_mem_cons] at h
    rw [List.mapM_cons]
    exact h.1.bind fun b => (ih h.2).bind fun bs => .pure (b :: bs)

end Maintains

theorem run_mapM_of_returns {g : α → β} {next : S → α → S}
    (h : ∀ a s, (f a).run s = some (g a, next s a)) (as : List α) (s : S) :
    (as.mapM f).run s = some (as.map g, as.foldl next s) := by
  induction as generalizing s with
  | nil => rfl
  | cons a as ih =>
    rw [List.mapM_cons, StateT.run_bind, h]
    show (as.mapM f >>= fun bs => pure (g a :: bs)).run (next s a) = _
    rw [StateT.run_bind, ih]
    rfl

def Yields (I : S → Prop) (m : StateT S Option α) (Q : α → Prop) : Prop :=
  ∀ s, I s → ∀ a s', m.run s = some (a, s') → I s' ∧ Q a

def Preserves (I : S → Prop) (m : StateT S Option α) : Prop := Yields I m fun _ => True

theorem Ensures.yields (h : Ensures I m Q) : Yields I m Q := by
  intro s hs a s' hrun
  obtain ⟨b, t, hrun', ht, hb⟩ := h s hs
  cases hrun'.symm.trans hrun
  exact ⟨ht, hb⟩

theorem Maintains.preserves (h : Maintains I m) : Preserves I m := Ensures.yields h

theorem Yields.bind {R : β → Prop} (hm : Yields I m Q) (hf : ∀ a, Q a → Yields I (f a) R) :
    Yields I (m >>= f) R := by
  intro s hs b s'' hrun
  rw [StateT.run_bind] at hrun
  obtain ⟨⟨a, s'⟩, hfirst, hrest⟩ := Option.bind_eq_some_iff.mp hrun
  obtain ⟨hs', ha⟩ := hm s hs a s' hfirst
  exact hf a ha s' hs' b s'' hrest

theorem Preserves.lift (o : Option α) : Preserves I (StateT.lift o) := by
  intro s hs a s' hrun
  obtain ⟨b, -, hb⟩ := Option.bind_eq_some_iff.mp hrun
  cases hb
  exact ⟨hs, trivial⟩

namespace Preserves

theorem pure (a : α) : Preserves I (pure a : StateT S Option α) := (Maintains.pure a).preserves

theorem bind {f : α → StateT S Option β} (hm : Preserves I m) (hf : ∀ a, Preserves I (f a)) :
    Preserves I (m >>= f) :=
  Yields.bind hm fun a _ => hf a

theorem get_bind {f : S → StateT S Option β} (hf : ∀ s, I s → Preserves I (f s)) :
    Preserves I (get >>= f) :=
  Ensures.get.yields.bind hf

theorem modifyGet {f : S → α × S} (hf : ∀ s, I s → I (f s).2) :
    Preserves I (modifyGet f : StateT S Option α) := by
  intro s hs a s' hrun
  obtain ⟨-, rfl⟩ := Prod.mk.inj (Option.some.inj hrun)
  exact ⟨hf s hs, trivial⟩

theorem mapM {f : α → StateT S Option β} {as : List α} (h : ∀ a ∈ as, Preserves I (f a)) :
    Preserves I (as.mapM f) := by
  induction as with
  | nil => exact .pure []
  | cons a as ih =>
    rw [List.forall_mem_cons] at h
    rw [List.mapM_cons]
    exact h.1.bind fun b => (ih h.2).bind fun bs => .pure (b :: bs)

theorem ite {c : Prop} [Decidable c] {m' : StateT S Option α} (hm : c → Preserves I m)
    (hm' : ¬c → Preserves I m') : Preserves I (if c then m else m') := by
  split
  · exact hm ‹c›
  · exact hm' ‹¬c›

end Preserves

end OxideMq.Lib
