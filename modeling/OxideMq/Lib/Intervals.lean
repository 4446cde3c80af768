import OxideMq.Lib.Bytes

/-! Half-open intervals of integers handed out one after another. -/

namespace OxideMq.Lib

structure Interval where
  base : ℤ
  count : ℤ
  deriving DecidableEq, Repr

def Consecutive (w : ℕ) : ℤ → List Interval → ℤ → Prop
  | lo, [], hi => hi = lo
  | lo, i :: is, hi => i.base = lo ∧ Consecutive w (wrapSigned w (lo + i.count)) is hi

variable {w : ℕ} {lo hi : ℤ} {is : List Interval}

theorem Consecutive.concat {i : Interval} (h : Consecutive w lo is hi) (hbase : i.base = hi) :
    Consecutive w lo (is ++ [i]) (wrapSigned w (hi + i.count)) := by
  induction is generalizing lo with
  | nil =>
    obtain rfl : hi = lo := h
    exact ⟨hbase, rfl⟩
  | cons j is ih => exact ⟨h.1, ih h.2⟩

end OxideMq.Lib
