import Mathlib

/-! Byte strings and big-endian integers. -/

namespace OxideMq.Lib

open List

abbrev Bytes := List UInt8

def beEncode : ℕ → ℕ → Bytes
  | 0, _ => []
  | k + 1, n => UInt8.ofNat (n / 256 ^ k) :: beEncode k n

def beDecode : Bytes → ℕ
  | [] => 0
  | b :: bs => b.toNat * 256 ^ bs.length + beDecode bs

def toSigned (w n : ℕ) : ℤ := Int.bmod n (2 ^ w)

def ofSigned (w : ℕ) (x : ℤ) : ℕ := (x % 2 ^ w).toNat

def FitsSigned (w : ℕ) (x : ℤ) : Prop := -2 ^ (w - 1) ≤ x ∧ x < 2 ^ (w - 1)

def wrapSigned (w : ℕ) (x : ℤ) : ℤ := Int.bmod x (2 ^ w)

instance (w : ℕ) (x : ℤ) : Decidable (FitsSigned w x) := by
  unfold FitsSigned; infer_instance

@[simp] theorem beEncode_length (k n : ℕ) : (beEncode k n).length = k := by
  induction k with
  | zero => rfl
  | succ k ih => simp [beEncode, ih]

theorem beDecode_lt (bs : Bytes) : beDecode bs < 256 ^ bs.length := by
  induction bs with
  | nil => simp [beDecode]
  | cons b bs ih =>
    have hb : b.toNat + 1 ≤ 256 := b.toNat_lt
    calc
      b.toNat * 256 ^ bs.length + beDecode bs
          < b.toNat * 256 ^ bs.length + 256 ^ bs.length := Nat.add_lt_add_left ih _
      _ = (b.toNat + 1) * 256 ^ bs.length := by ring
      _ ≤ 256 * 256 ^ bs.length := Nat.mul_le_mul_right _ hb
      _ = 256 ^ (b :: bs).length := by rw [length_cons, pow_succ]; ring

@[simp] theorem beDecode_beEncode (k n : ℕ) : beDecode (beEncode k n) = n % 256 ^ k := by
  induction k with
  | zero => simp [beEncode, beDecode, Nat.mod_one]
  | succ k ih =>
    have hdigit : (UInt8.ofNat (n / 256 ^ k)).toNat = n / 256 ^ k % 256 := by simp
    rw [beEncode, beDecode, beEncode_length, ih, hdigit, Nat.pow_succ, Nat.mod_mul]
    ring

theorem beEncode_mod (k n : ℕ) : beEncode k (n % 256 ^ k) = beEncode k n := by
  suffices h : ∀ j, k ≤ j → beEncode k (n % 256 ^ j) = beEncode k n from h k le_rfl
  induction k with
  | zero => intro _ _; rfl
  | succ k ih =>
    intro j hj
    rw [beEncode, beEncode, ih j (by omega)]
    congr 1
    apply UInt8.toNat_inj.mp
    obtain ⟨i, rfl⟩ : ∃ i, j = k + 1 + i := ⟨j - (k + 1), by omega⟩
    have hsplit : (256 : ℕ) ^ (k + 1 + i) = 256 ^ k * (256 * 256 ^ i) := by ring
    simp only [UInt8.toNat_ofNat']
    rw [hsplit, Nat.mod_mul_right_div_self, Nat.mod_mul_right_mod]

theorem beEncode_beDecode (bs : Bytes) : beEncode bs.length (beDecode bs) = bs := by
  induction bs with
  | nil => rfl
  | cons b bs ih =>
    have hlt := beDecode_lt bs
    have hpos : 0 < 256 ^ bs.length := Nat.pow_pos (by decide)
    have hhead : beDecode (b :: bs) / 256 ^ bs.length = b.toNat := by
      rw [beDecode, Nat.mul_comm, Nat.mul_add_div hpos, Nat.div_eq_of_lt hlt, Nat.add_zero]
    have htail : beDecode (b :: bs) % 256 ^ bs.length = beDecode bs := by
      rw [beDecode, Nat.mul_comm, Nat.mul_add_mod, Nat.mod_eq_of_lt hlt]
    rw [length_cons, beEncode, hhead, ← beEncode_mod, htail, ih]
    simp

theorem toSigned_ofSigned {w : ℕ} {x : ℤ} (hw : 0 < w) (hx : FitsSigned w x) :
    toSigned w (ofSigned w x) = x := by
  obtain ⟨v, rfl⟩ : ∃ v, w = v + 1 := ⟨w - 1, by omega⟩
  obtain ⟨hlo, hhi⟩ := hx
  simp only [Nat.add_sub_cancel] at hlo hhi
  have hpos : (0 : ℤ) < 2 ^ (v + 1) := by positivity
  have hdouble : (2 : ℤ) ^ (v + 1) = 2 * 2 ^ v := by ring
  unfold toSigned ofSigned
  rw [Int.toNat_of_nonneg (Int.emod_nonneg _ hpos.ne')]
  have hcast : ((2 ^ (v + 1) : ℕ) : ℤ) = 2 ^ (v + 1) := by norm_cast
  rw [← hcast, Int.emod_bmod]
  apply Int.bmod_eq_of_le
  · rw [hcast, hdouble]; omega
  · rw [hcast, hdouble]; omega

theorem ofSigned_lt (w : ℕ) (x : ℤ) : ofSigned w x < 2 ^ w := by
  have hpos : (0 : ℤ) < 2 ^ w := by positivity
  have hlt := Int.emod_lt_of_pos x hpos
  have hnn := Int.emod_nonneg x hpos.ne'
  unfold ofSigned
  zify
  rw [Int.toNat_of_nonneg hnn]
  exact hlt

theorem wrapSigned_of_fits {w : ℕ} {x : ℤ} (hw : 0 < w) (hx : FitsSigned w x) :
    wrapSigned w x = x := by
  obtain ⟨v, rfl⟩ : ∃ v, w = v + 1 := ⟨w - 1, by omega⟩
  obtain ⟨hlo, hhi⟩ := hx
  simp only [Nat.add_sub_cancel] at hlo hhi
  have hcast : ((2 ^ (v + 1) : ℕ) : ℤ) = 2 * 2 ^ v := by push_cast; ring
  apply Int.bmod_eq_of_le
  · rw [hcast]; omega
  · rw [hcast]; omega

theorem wrapSigned_of_overflow {w : ℕ} {x : ℤ} (hw : 0 < w) (hlo : 2 ^ (w - 1) ≤ x)
    (hhi : x < 2 ^ w) : wrapSigned w x = x - 2 ^ w := by
  obtain ⟨k, rfl⟩ : ∃ k, w = k + 1 := ⟨w - 1, by omega⟩
  have hpow : (2 : ℤ) ^ (k + 1) = 2 * 2 ^ k := by ring
  have hpos : (0 : ℤ) < 2 ^ k := by positivity
  rw [Nat.add_sub_cancel] at hlo
  have hmod : x % (2 ^ (k + 1) : ℕ) = x := by
    push_cast
    exact Int.emod_eq_of_lt (by omega) hhi
  rw [wrapSigned, Int.bmod_def, hmod, if_neg]
  · push_cast
    rfl
  · push_cast
    omega

theorem wrapSigned_fits {w : ℕ} (hw : 0 < w) (x : ℤ) : FitsSigned w (wrapSigned w x) := by
  obtain ⟨v, rfl⟩ : ∃ v, w = v + 1 := ⟨w - 1, by omega⟩
  have hpos : 0 < 2 ^ (v + 1) := Nat.two_pow_pos _
  have hcast : ((2 ^ (v + 1) : ℕ) : ℤ) = 2 * 2 ^ v := by push_cast; ring
  have hlo := Int.le_bmod (x := x) hpos
  have hhi := Int.bmod_lt (x := x) hpos
  rw [hcast] at hlo hhi
  unfold FitsSigned wrapSigned
  simp only [Nat.add_sub_cancel]
  constructor <;> omega

theorem wrapSigned_add_cases {x n : ℤ} (hx : FitsSigned 64 x) (hn : 0 ≤ n) (hlt : n < 2 ^ 63) :
    x + n < 2 ^ 63 ∧ wrapSigned 64 (x + n) = x + n ∨
      2 ^ 63 ≤ x + n ∧ wrapSigned 64 (x + n) = x + n - 2 ^ 64 := by
  have hlo : -2 ^ 63 ≤ x := hx.1
  have hhi : x < 2 ^ 63 := hx.2
  rcases lt_or_ge (x + n) (2 ^ 63) with hroom | hover
  · exact Or.inl ⟨hroom, wrapSigned_of_fits (by decide) ⟨by norm_num; omega, hroom⟩⟩
  · exact Or.inr ⟨hover, wrapSigned_of_overflow (by decide) hover (by omega)⟩

theorem wrapSigned_add_ne {w : ℕ} {d : ℤ} (hpos : 0 < d) (hlt : d < 2 ^ w) (x : ℤ) :
    wrapSigned w (x + d) ≠ x := by
  intro heq
  have hdvd : ((2 ^ w : ℕ) : ℤ) ∣ x + d - wrapSigned w (x + d) := Int.dvd_self_sub_bmod
  rw [heq, add_sub_cancel_left] at hdvd
  have hle := Int.le_of_dvd hpos hdvd
  push_cast at hle
  omega

theorem toSigned_fits {w : ℕ} (hw : 0 < w) (n : ℕ) : FitsSigned w (toSigned w n) :=
  wrapSigned_fits hw n

theorem toSigned_beEncode {k : ℕ} (hk : 0 < k) {x : ℤ} (hx : FitsSigned (8 * k) x) :
    toSigned (8 * k) (beDecode (beEncode k (ofSigned (8 * k) x))) = x := by
  have hpow : (2 : ℕ) ^ (8 * k) = 256 ^ k := by rw [pow_mul]; rfl
  have hlt : ofSigned (8 * k) x < 256 ^ k := hpow ▸ ofSigned_lt (8 * k) x
  rw [beDecode_beEncode, Nat.mod_eq_of_lt hlt, toSigned_ofSigned (by omega) hx]

/-- The slice `buf[i .. i + n]`, shorter when the buffer ends first. -/
def field (buf : Bytes) (i n : ℕ) : Bytes := (buf.drop i).take n

def splice (buf : Bytes) (i : ℕ) (new : Bytes) : Bytes :=
  buf.take i ++ new ++ buf.drop (i + new.length)

theorem field_length (buf : Bytes) (i n : ℕ) : (field buf i n).length = min n (buf.length - i) := by
  simp [field]

theorem beDecode_field_lt (buf : Bytes) (i n : ℕ) : beDecode (field buf i n) < 256 ^ n := by
  refine (beDecode_lt _).trans_le (Nat.pow_le_pow_right (by norm_num) ?_)
  rw [field_length]
  exact min_le_left _ _

theorem field_append_left (xs ys : Bytes) {i n : ℕ} (h : i + n ≤ xs.length) :
    field (xs ++ ys) i n = field xs i n := by
  have hi : i ≤ xs.length := by omega
  have hn : n ≤ xs.length - i := by omega
  rw [field, field, drop_append_of_le_length hi, take_append_of_le_length (by simpa using hn)]

theorem field_append_right (xs ys : Bytes) {i j n : ℕ} (h : i = xs.length + j) :
    field (xs ++ ys) i n = field ys j n := by
  subst h
  rw [field, field, drop_append, drop_eq_nil_of_le (by omega), nil_append, Nat.add_sub_cancel_left]

theorem field_prefix (xs ys : Bytes) {n : ℕ} (h : n = xs.length) : field (xs ++ ys) 0 n = xs := by
  simp [field, h]

/-! With the lengths of its parts known, a field of a written message is computed by `simp` with
the lemmas on `++` above and below. -/

theorem field_append_of_le (xs ys : Bytes) {i n : ℕ} (h : xs.length ≤ i) :
    field (xs ++ ys) i n = field ys (i - xs.length) n :=
  field_append_right xs ys (by omega)

theorem field_cons (x : UInt8) (xs : Bytes) (i n : ℕ) : field (x :: xs) (i + 1) n = field xs i n :=
  rfl

theorem field_field (buf : Bytes) {i n j m : ℕ} (h : j + m ≤ n) :
    field (field buf i n) j m = field buf (i + j) m := by
  simp only [field, drop_take, drop_drop, take_take]
  rw [Nat.min_eq_left (by omega)]

theorem field_add (buf : Bytes) (i m n : ℕ) :
    field buf i (m + n) = field buf i m ++ field buf (i + m) n := by
  rw [field, field, field, take_add, drop_drop]

theorem beEncode_field (buf : Bytes) {i n : ℕ} (h : i + n ≤ buf.length) :
    beEncode n (beDecode (field buf i n)) = field buf i n := by
  have hlen : (field buf i n).length = n := by rw [field_length]; omega
  have hback := beEncode_beDecode (field buf i n)
  rwa [hlen] at hback

theorem splice_length (buf : Bytes) {i : ℕ} (new : Bytes) (h : i + new.length ≤ buf.length) :
    (splice buf i new).length = buf.length := by
  simp only [splice, length_append, length_take, length_drop]
  omega

theorem field_splice_of_disjoint (buf new : Bytes) {i j n : ℕ}
    (hfit : i + new.length ≤ buf.length) (h : j + n ≤ i ∨ i + new.length ≤ j) :
    field (splice buf i new) j n = field buf j n := by
  have htake : (buf.take i).length = i := by simp; omega
  have hbuf : buf = buf.take i ++ buf.drop i := (take_append_drop i buf).symm
  rcases h with h | h
  · rw [splice, append_assoc, field_append_left _ _ (by omega)]
    conv_rhs => rw [hbuf]
    rw [field_append_left _ _ (by omega)]
  · obtain ⟨k, rfl⟩ := Nat.exists_eq_add_of_le h
    rw [splice, field_append_right (j := k) _ _ (by simp; omega)]
    simp only [field, drop_drop]

theorem field_splice_self (buf new : Bytes) {i : ℕ} (hfit : i + new.length ≤ buf.length) :
    field (splice buf i new) i new.length = new := by
  have htake : (buf.take i).length = i := by simp; omega
  rw [splice, append_assoc, field_append_right (j := 0) _ _ (by omega), field_prefix _ _ rfl]

end OxideMq.Lib
