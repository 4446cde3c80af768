import OxideMq.Lib.Bytes

/-! The CRC-32C of `oxidemq-core` and the error type shared by the crates. -/

namespace OxideMq.Core

open Lib

def crcShift (crc : UInt32) : UInt32 :=
  if crc &&& 1 ≠ 0 then (crc >>> 1) ^^^ 0x82F63B78 else crc >>> 1

def crcEntry (i : ℕ) : UInt32 := crcShift^[8] (UInt32.ofNat i)

def crc32cTable : List UInt32 := (List.range 256).map crcEntry

def crcStep (crc : UInt32) (b : UInt8) : UInt32 :=
  (crc >>> 8) ^^^ crc32cTable.getD ((crc ^^^ b.toUInt32) &&& 0xFF).toNat 0

def computeCrc32c (data : Bytes) : UInt32 :=
  data.foldl crcStep 0xFFFFFFFF ^^^ 0xFFFFFFFF

/-- The variants of `OxideMqError` that the modelled functions return. -/
inductive OxideMqError where
  | io (message : String)
  | corruptedRecord (expectedCrc actualCrc : UInt32)
  | storage (message : String)
  | wal (message : String)
  | protocol (message : String)
  | compression (message : String)
  deriving DecidableEq, Repr

def hexDigits : ℕ → ℕ → List Char
  | 0, _ => []
  | width + 1, n => hexDigits width (n / 16) ++ ["0123456789ABCDEF".toList.getD (n % 16) '0']

def hex8 (n : UInt32) : String := String.ofList (hexDigits 8 n.toNat)

def decimalDigits : ℕ → ℕ → List Char
  | 0, _ => []
  | width + 1, n => decimalDigits width (n / 10) ++ [Char.ofNat (48 + n % 10)]

/-- The `:020` rendering of an `i64`: zero-padded to twenty characters, of which the sign is one.
-/
def pad20 (x : ℤ) : List Char :=
  if x < 0 then '-' :: decimalDigits 19 x.natAbs else decimalDigits 20 x.natAbs

/-- The text of an error, as its `Display` renders it. -/
def OxideMqError.message : OxideMqError → String
  | .io message => "I/O error: " ++ message
  | .corruptedRecord expected actual =>
      "Record corrupted: expected CRC 0x" ++ hex8 expected ++ ", found 0x" ++ hex8 actual
  | .storage message => "Storage engine error: " ++ message
  | .wal message => "WAL error: " ++ message
  | .protocol message => "Protocol error: " ++ message
  | .compression message => "Compression error: " ++ message

@[simp] theorem decimalDigits_length (width n : ℕ) : (decimalDigits width n).length = width := by
  induction width generalizing n with
  | zero => rfl
  | succ width ih => simp [decimalDigits, ih]

theorem digit_injective {a b : ℕ} (ha : a < 10) (hb : b < 10)
    (h : Char.ofNat (48 + a) = Char.ofNat (48 + b)) : a = b := by
  revert h
  interval_cases a <;> interval_cases b <;> decide

theorem decimalDigits_injective {width n m : ℕ} (hn : n < 10 ^ width) (hm : m < 10 ^ width)
    (h : decimalDigits width n = decimalDigits width m) : n = m := by
  induction width generalizing n m with
  | zero => omega
  | succ width ih =>
    obtain ⟨hfront, hlast⟩ := List.append_inj' h rfl
    have hhigh : n / 10 = m / 10 := ih (by omega) (by omega) hfront
    have hlow : n % 10 = m % 10 :=
      digit_injective (Nat.mod_lt _ (by norm_num)) (Nat.mod_lt _ (by norm_num))
        (List.singleton_inj.mp hlast)
    omega

theorem minus_notMem_decimalDigits (width n : ℕ) : '-' ∉ decimalDigits width n := by
  induction width generalizing n with
  | zero => simp [decimalDigits]
  | succ width ih =>
    have hdigit : '-' ≠ Char.ofNat (48 + n % 10) := by
      have hlt : n % 10 < 10 := Nat.mod_lt _ (by norm_num)
      generalize n % 10 = d at hlt
      interval_cases d <;> decide
    simp [decimalDigits, ih, hdigit]

@[simp] theorem pad20_length (x : ℤ) : (pad20 x).length = 20 := by
  unfold pad20
  split <;> simp

theorem pad20_injective {x y : ℤ} (hx : FitsSigned 64 x) (hy : FitsSigned 64 y)
    (h : pad20 x = pad20 y) : x = y := by
  simp only [FitsSigned] at hx hy
  unfold pad20 at h
  split_ifs at h
  · have := decimalDigits_injective (by omega) (by omega) (List.cons_inj_right _ |>.mp h)
    omega
  · exact absurd (h ▸ List.mem_cons_self) (minus_notMem_decimalDigits _ _)
  · exact absurd (h ▸ List.mem_cons_self) (minus_notMem_decimalDigits _ _)
  · have := decimalDigits_injective (by omega) (by omega) h
    omega

end OxideMq.Core
