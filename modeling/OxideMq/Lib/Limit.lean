import Mathlib

/-! Prefixes up to a size limit. -/

namespace OxideMq.Lib

open List

variable {α β : Type}

def takeReaching (size : α → ℕ) (limit : ℕ) : ℕ → List α → List α
  | _, [] => []
  | total, a :: as =>
      a :: if limit ≤ total + size a then [] else takeReaching size limit (total + size a) as

variable {size : α → ℕ} {limit : ℕ}

theorem takeReaching_eq_self {total : ℕ} {as : List α}
    (h : total + (as.map size).sum < limit) : takeReaching size limit total as = as := by
  induction as generalizing total with
  | nil => rfl
  | cons a as ih =>
    rw [map_cons, sum_cons] at h
    have hlt : ¬limit ≤ total + size a := by omega
    rw [takeReaching, if_neg hlt, ih (by omega)]

theorem takeReaching_initial (total : ℕ) (as : List α) :
    takeReaching size limit total as <+: as := by
  induction as generalizing total with
  | nil => exact prefix_rfl
  | cons a as ih =>
    rw [takeReaching]
    apply (prefix_cons_inj a).mpr
    split
    · exact nil_prefix
    · exact ih _

theorem map_takeReaching {size' : β → ℕ} {f : α → β} (hsize : ∀ a, size' (f a) = size a)
    (total : ℕ) (as : List α) :
    (takeReaching size limit total as).map f = takeReaching size' limit total (as.map f) := by
  induction as generalizing total with
  | nil => rfl
  | cons a as ih =>
    rw [takeReaching, map_cons, map_cons, takeReaching, hsize]
    congr 1
    split
    · rfl
    · exact ih _

theorem exists_first_not {α : Type} {p : α → Prop} {l : List α} (h : ¬ ∀ x ∈ l, p x) :
    ∃ before x behind, l = before ++ x :: behind ∧ (∀ y ∈ before, p y) ∧ ¬ p x := by
  induction l with
  | nil => exact absurd (forall_mem_nil p) h
  | cons x l ih =>
    by_cases hx : p x
    · obtain ⟨before, y, behind, rfl, hbef, hy⟩ := ih fun hl =>
        h (forall_mem_cons.mpr ⟨hx, hl⟩)
      exact ⟨x :: before, y, behind, rfl, forall_mem_cons.mpr ⟨hx, hbef⟩, hy⟩
    · exact ⟨[], x, l, rfl, forall_mem_nil p, hx⟩

end OxideMq.Lib
