import OxideMq.Lib.Bytes

/-! Reflected cyclic redundancy codes, over natural numbers. -/

namespace OxideMq.Lib.Crc

open List

def shift (poly crc : ℕ) : ℕ := if crc % 2 = 1 then crc / 2 ^^^ poly else crc / 2

def Burst (n : ℕ) (x y : Bytes) : Prop :=
  x.length = y.length ∧ x ≠ y ∧ ∃ i, x.take i = y.take i ∧ x.drop (i + n) = y.drop (i + n)

variable {poly w : ℕ}

theorem Burst.append_left {n : ℕ} {x y : Bytes} (h : Burst n x y) (front : Bytes) :
    Burst n (front ++ x) (front ++ y) := by
  obtain ⟨hlen, hne, i, hfront, hback⟩ := h
  refine ⟨by simp [hlen], by simpa using hne, front.length + i, ?_, ?_⟩
  · rw [take_length_add_append, take_length_add_append, hfront]
  · rw [Nat.add_assoc, drop_length_add_append, drop_length_add_append, hback]

namespace Width

variable {crc : ℕ}

end Width

end OxideMq.Lib.Crc
