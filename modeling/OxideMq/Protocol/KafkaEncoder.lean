import OxideMq.Lib.RoundTrip
import OxideMq.Protocol.KafkaDecoder
import OxideMq.Protocol.RecordBatch

/-! The writers that encoders are made of, and that the readers of `KafkaDecoder` read them back.
-/

namespace OxideMq.Protocol

open Lib OxideMq.Core List

def putInt (n : ℕ) (x : ℤ) : Bytes := beEncode n (ofSigned (8 * n) x)

def putI8 (x : ℤ) : Bytes := putInt 1 x

def putI16 (x : ℤ) : Bytes := putInt 2 x

def putI32 (x : ℤ) : Bytes := putInt 4 x

def putI64 (x : ℤ) : Bytes := putInt 8 x

def putBool (b : Bool) : Bytes := [if b then 1 else 0]

def textBytes (s : String) : Bytes := s.toUTF8.data.toList

namespace KafkaEncoder

def writeString : Option String → Bytes
  | some s => putI16 (textBytes s).length ++ textBytes s
  | none => putI16 (-1)

def writeCompactString : Option String → Bytes
  | some s => writeUnsignedVarint 10 ((textBytes s).length + 1) ++ textBytes s
  | none => writeUnsignedVarint 10 0

def writeBytes : Option Bytes → Bytes
  | some b => putI32 b.length ++ b
  | none => putI32 (-1)

def writeCompactBytes : Option Bytes → Bytes
  | some b => writeUnsignedVarint 10 (b.length + 1) ++ b
  | none => writeUnsignedVarint 10 0

end KafkaEncoder

/-- The elements behind their number, which is cast to an `i32`. -/
def putArray {α : Type} (element : α → Bytes) (xs : List α) : Bytes :=
  putI32 xs.length ++ xs.flatMap element

def putCompactArray {α : Type} (element : α → Bytes) (xs : List α) : Bytes :=
  KafkaEncoder.writeUnsignedVarint 10 (xs.length + 1) ++ xs.flatMap element

@[simp] theorem putInt_length (n : ℕ) (x : ℤ) : (putInt n x).length = n := beEncode_length n _

theorem reads_int {n : ℕ} (hn : 0 < n) {x : ℤ} (hx : FitsSigned (8 * n) x) :
    Reads (getInt n) (putInt n x) x := by
  have hget : Reads (getInt n) (putInt n x)
      (toSigned (8 * n) (beDecode (beEncode n (ofSigned (8 * n) x)))) :=
    .bind_pure (fun bytes => toSigned (8 * n) (beDecode bytes)) (.get (putInt_length n x))
  rwa [toSigned_beEncode hn hx] at hget

theorem reads_i8 {x : ℤ} (hx : FitsSigned 8 x) : Reads getI8 (putI8 x) x := reads_int (by decide) hx

theorem reads_i16 {x : ℤ} (hx : FitsSigned 16 x) : Reads getI16 (putI16 x) x :=
  reads_int (by decide) hx

theorem reads_i32 {x : ℤ} (hx : FitsSigned 32 x) : Reads getI32 (putI32 x) x :=
  reads_int (by decide) hx

theorem reads_i64 {x : ℤ} (hx : FitsSigned 64 x) : Reads getI64 (putI64 x) x :=
  reads_int (by decide) hx

theorem reads_bool (b : Bool) : Reads getU8 (putBool b) b.toNat := by
  cases b with
  | true => exact fun _ => rfl
  | false => exact fun _ => rfl

namespace KafkaDecoder

open KafkaEncoder

theorem or_shiftLeft {value digit shift : ℕ} (hval : value < 2 ^ shift)
    (hfits : digit * 2 ^ shift < 2 ^ 64) :
    value ||| (digit <<< shift) % 2 ^ 64 = value + digit * 2 ^ shift := by
  rw [Nat.shiftLeft_eq, Nat.mod_eq_of_lt hfits, Nat.or_comm, Nat.mul_comm,
    ← Nat.two_pow_add_eq_or_of_lt hval, Nat.add_comm]

theorem varintLoop_write {fuel v value shift : ℕ} (hv : v < 128 ^ (fuel + 1))
    (hval : value < 2 ^ shift) (hfits : value + v * 2 ^ shift < 2 ^ 64)
    (hshift : shift + 7 * fuel ≤ 63) (rest : Bytes) :
    varintLoop (writeUnsignedVarint (fuel + 1) v ++ rest) value shift =
      .ok (value + v * 2 ^ shift) rest := by
  induction fuel generalizing v value shift with
  | zero =>
    have hsmall : v < 128 := by omega
    have hbyte : (UInt8.ofNat v).toNat = v := by simp; omega
    rw [writeUnsignedVarint, if_neg (by omega), singleton_append, varintLoop, hbyte,
      Nat.mod_eq_of_lt hsmall, or_shiftLeft hval (by omega)]
    exact if_pos hsmall
  | succ fuel ih =>
    rw [writeUnsignedVarint]
    by_cases hsmall : v < 128
    · have hbyte : (UInt8.ofNat v).toNat = v := by simp; omega
      rw [if_neg (by omega), singleton_append, varintLoop, hbyte,
        Nat.mod_eq_of_lt hsmall, or_shiftLeft hval (by omega)]
      exact if_pos hsmall
    · have hbyte : (UInt8.ofNat (v % 128 + 128)).toNat = v % 128 + 128 := by simp; omega
      have hsplit : v * 2 ^ shift = v % 128 * 2 ^ shift + v / 128 * 2 ^ (shift + 7) := by
        rw [Nat.pow_add, ← Nat.mul_assoc, Nat.mul_right_comm, ← Nat.add_mul]
        congr 1
        omega
      have hlow : value + v % 128 * 2 ^ shift < 2 ^ (shift + 7) := by
        have hdigit : v % 128 * 2 ^ shift ≤ 127 * 2 ^ shift := Nat.mul_le_mul_right _ (by omega)
        rw [Nat.pow_add]
        omega
      have hquot : v / 128 < 128 ^ (fuel + 1) := by
        rw [Nat.div_lt_iff_lt_mul (by decide), ← Nat.pow_succ]
        exact hv
      have hrest : varintLoop (writeUnsignedVarint (fuel + 1) (v / 128) ++ rest)
          (value + v % 128 * 2 ^ shift) (shift + 7) =
            .ok (value + v % 128 * 2 ^ shift + v / 128 * 2 ^ (shift + 7)) rest :=
        ih hquot hlow (by omega) (by omega)
      rw [if_pos (by omega), cons_append, varintLoop, hbyte, Nat.add_mod_right, Nat.mod_mod,
        or_shiftLeft hval (by omega), if_neg (by omega), if_neg (by omega), hrest, hsplit,
        Nat.add_assoc]

theorem reads_unsignedVarint {v : ℕ} (hv : v < 2 ^ 64) :
    Reads readUnsignedVarint (writeUnsignedVarint 10 v) v := by
  intro rest
  have hloop : varintLoop (writeUnsignedVarint 10 v ++ rest) 0 0 = .ok (0 + v * 2 ^ 0) rest :=
    varintLoop_write (by omega) (by decide) (by omega) (by decide) rest
  rwa [Nat.zero_add, Nat.pow_zero, Nat.mul_one] at hloop

theorem reads_varint {x : ℤ} (hx : FitsSigned 64 x) : Reads readVarint (writeVarint x) x := by
  obtain ⟨hlo, hhi⟩ := hx
  rw [writeVarint]
  split
  · have hread : Reads readVarint (writeUnsignedVarint 10 (-2 * x - 1).toNat) _ :=
      .bind_pure _ (reads_unsignedVarint (by omega))
    have hval : (if (-2 * x - 1).toNat % 2 = 0 then (((-2 * x - 1).toNat / 2 : ℕ) : ℤ)
        else -(((-2 * x - 1).toNat / 2 : ℕ) : ℤ) - 1) = x := by
      rw [if_neg (by omega)]
      omega
    rwa [hval] at hread
  · have hread : Reads readVarint (writeUnsignedVarint 10 (2 * x).toNat) _ :=
      .bind_pure _ (reads_unsignedVarint (by omega))
    have hval : (if (2 * x).toNat % 2 = 0 then (((2 * x).toNat / 2 : ℕ) : ℤ)
        else -(((2 * x).toNat / 2 : ℕ) : ℤ) - 1) = x := by
      rw [if_pos (by omega)]
      omega
    rwa [hval] at hread

theorem one_le_writeUnsignedVarint (fuel v : ℕ) :
    1 ≤ (writeUnsignedVarint (fuel + 1) v).length := by
  rw [writeUnsignedVarint]
  split
  · rw [length_cons]
    omega
  · exact le_rfl

theorem writeUnsignedVarint_length_le (fuel v : ℕ) :
    (writeUnsignedVarint fuel v).length ≤ fuel := by
  induction fuel generalizing v with
  | zero => exact le_rfl
  | succ fuel ih =>
    rw [writeUnsignedVarint]
    split
    · exact Nat.succ_le_succ (ih _)
    · exact Nat.succ_le_succ (Nat.zero_le _)

theorem one_le_writeVarint (x : ℤ) : 1 ≤ (writeVarint x).length :=
  one_le_writeUnsignedVarint 9 _

theorem utf8_textBytes (s : String) : utf8 (textBytes s) = some s := by
  have hbytes : (⟨(textBytes s).toArray⟩ : ByteArray) = s.toUTF8 := rfl
  rw [utf8, hbytes, String.fromUTF8?]
  exact dif_pos s.isValidUTF8

theorem reads_text (s : String) {len : ℕ} (hlen : (textBytes s).length = len) (trunc : String) :
    Reads (readText len trunc) (textBytes s) (some s) := by
  refine Reads.atLeast _ hlen.ge ?_
  intro rest
  rw [Decoder.run_bind_of_ok (Reads.get hlen rest), utf8_textBytes]
  rfl

theorem reads_blob (b : Bytes) {len : ℕ} (hlen : b.length = len) (trunc : String) :
    Reads (readBlob len trunc) b (some b) :=
  .atLeast _ hlen.ge (.bind_pure some (.get hlen))

/-- The text of a field fits its length: an `i16`, or for the compact form no more than what a
string can hold. -/
def TextFits (compact : Bool) (s : String) : Prop :=
  if compact then (textBytes s).length ≤ isizeMax else (textBytes s).length ≤ 32767

instance (compact : Bool) (s : String) : Decidable (TextFits compact s) :=
  match compact with
  | true => inferInstanceAs (Decidable ((textBytes s).length ≤ isizeMax))
  | false => inferInstanceAs (Decidable ((textBytes s).length ≤ 32767))

theorem reads_string {o : Option String} (h : ∀ s ∈ o, TextFits false s) :
    Reads readString (writeString o) o := by
  cases o with
  | none =>
    refine .atLeast _ le_rfl (.bind_tail (reads_i16 (by decide)) ?_)
    exact .pure none
  | some s =>
    have hshort : (textBytes s).length ≤ 32767 := h s rfl
    have hcnt : FitsSigned 16 ((textBytes s).length : ℤ) := ⟨by omega, by omega⟩
    refine .atLeast _ (by simp [writeString, putI16]) (.bind (reads_i16 hcnt) ?_)
    rw [if_neg (by omega), Int.toNat_natCast]
    exact reads_text s rfl _

theorem reads_compactString {o : Option String} (h : ∀ s ∈ o, TextFits true s) :
    Reads readCompactString (writeCompactString o) o := by
  cases o with
  | none => exact .bind_tail (reads_unsignedVarint (by decide)) (.pure none)
  | some s =>
    have hlong : (textBytes s).length ≤ 2 ^ 63 - 1 := h s rfl
    refine .bind (reads_unsignedVarint (by omega)) ?_
    rw [if_neg (by omega), Nat.add_sub_cancel]
    exact reads_text s rfl _

theorem reads_bytes {b : Bytes} (h : b.length < 2 ^ 31) :
    Reads readBytes (writeBytes (some b)) (some b) := by
  have hcnt : FitsSigned 32 (b.length : ℤ) := ⟨by omega, by omega⟩
  refine .atLeast _ (by simp [writeBytes, putI32]) (.bind (reads_i32 hcnt) ?_)
  rw [if_neg (by omega), Int.toNat_natCast]
  exact reads_blob b rfl _

end KafkaDecoder

/-- A list whose length fits an `i32`, of elements that can be written. -/
def ListFits {α : Type} (fits : α → Prop) (xs : List α) : Prop :=
  xs.length < 2 ^ 31 ∧ ∀ x ∈ xs, fits x

theorem ListFits.length {α : Type} {fits : α → Prop} {xs : List α} (h : ListFits fits xs) :
    FitsSigned 32 (xs.length : ℤ) :=
  ⟨by omega, by exact_mod_cast h.1⟩

section

variable {α β : Type} {size : ℕ} {element : Parser β} {encode : α → Bytes} {value : α → β}
  {fits : α → Prop} {xs : List α} (h : ListFits fits xs) (hsize : size < 2 ^ 32)
  (hx : ∀ {x}, fits x → Reads element (encode x) (value x))

include h hsize hx

theorem reads_vec {count : ℕ} (hcnt : count = xs.length) :
    Reads (vec size count element) (xs.flatMap encode) (xs.map value) := by
  subst hcnt
  have hcapacity : xs.length * size ≤ isizeMax := toNat_mul_le h.length hsize
  rw [vec, if_neg (not_lt.mpr hcapacity)]
  exact .times fun x hmem => hx (h.2 x hmem)

theorem reads_uncheckedArray :
    Reads (uncheckedArray size element) (putArray encode xs) (xs.map value) := by
  refine .bind (reads_i32 h.length) (reads_vec h hsize hx ?_)
  rw [asUsize_of_nonneg h.length (by omega), Int.toNat_natCast]

theorem reads_nullableArray :
    Reads (nullableArray size element) (putArray encode xs) (some (xs.map value)) := by
  refine .bind (reads_i32 h.length) ?_
  rw [if_neg (by omega)]
  exact .bind_pure some (reads_vec h hsize hx (Int.toNat_natCast _))

theorem reads_signedArray (negative : String) :
    Reads (signedArray negative size element) (putArray encode xs) (xs.map value) := by
  refine .bind (reads_i32 h.length) ?_
  rw [if_neg (by omega)]
  exact reads_vec h hsize hx (Int.toNat_natCast _)

theorem reads_clampedArray :
    Reads (clampedArray size element) (putArray encode xs) (xs.map value) :=
  .bind (reads_i32 h.length) (reads_vec h hsize hx (Int.toNat_natCast _))

end

theorem reads_self {α : Type} {d : Parser (List α)} {bytes : Bytes} {xs : List α}
    (h : Reads d bytes (xs.map id)) : Reads d bytes xs := by
  rwa [map_id] at h

theorem reads_brokerIds (trunc : String) {xs : List ℤ} (h : ListFits (FitsSigned 32) xs) :
    Reads (readBrokerIds trunc) (putArray putI32 xs) xs := by
  have hlength : (xs.flatMap putI32).length = xs.length * 4 := by
    simp [length_flatMap, putI32]
  have hids : Reads (vec 4 (xs.length : ℤ).toNat getI32) (xs.flatMap putI32) xs :=
    reads_self (reads_vec h (by norm_num) reads_i32 (Int.toNat_natCast _))
  refine .bind (reads_i32 h.length) (.atLeast _ ?_ hids)
  rw [hlength, Int.toNat_natCast]

end OxideMq.Protocol
