import OxideMq.Wal.Frame
import OxideMq.Lib.HashMap

/-! Segment files. -/

namespace OxideMq.Wal

open Lib OxideMq.Core List

/-- The regular files of a WAL directory, in the order `read_dir` lists them. -/
abbrev Directory := HashMap String Bytes

def fileOf (dir : Directory) (path : String) : Bytes := (dir.lookup path).getD []

def isDigit (c : Char) : Bool := 48 ≤ c.toNat && c.toNat ≤ 57

def parseDigits (cs : List Char) : Option ℕ :=
  cs.foldl (fun acc c => acc.bind fun n =>
    if isDigit c then some (n * 10 + (c.toNat - 48)) else none) (some 0)

/-- `str::parse::<u64>`: an optional plus sign, at least one digit, and a value that fits. -/
def parseU64 (cs : List Char) : Option UInt64 :=
  let digits := match cs with
    | '+' :: rest => rest
    | _ => cs
  if digits.isEmpty then none
  else (parseDigits digits).bind fun n => if n < 2 ^ 64 then some (UInt64.ofNat n) else none

def walFileExtension : String := "wal"

namespace WalSegment

def filename (baseSeq : UInt64) : String :=
  String.ofList (decimalDigits 20 baseSeq.toNat ++ '.' :: walFileExtension.toList)

def parseBaseSeqFromFilename (name : String) : Option UInt64 :=
  let suffix := '.' :: walFileExtension.toList
  if suffix.isSuffixOf name.toList then
    parseU64 (name.toList.take (name.toList.length - suffix.length))
  else none

end WalSegment

structure WalSegment where
  baseSeq : UInt64
  path : String
  size : ℕ
  deriving DecidableEq, Repr

namespace WalSegment

def create (dir : Directory) (baseSeq : UInt64) : Directory × WalSegment :=
  (dir.insert (filename baseSeq) [], ⟨baseSeq, filename baseSeq, 0⟩)

def openAppend (dir : Directory) (path : String) (baseSeq : UInt64) : WalSegment :=
  ⟨baseSeq, path, (fileOf dir path).length⟩

def readAll (dir : Directory) (segment : WalSegment) : Bytes :=
  fileOf dir segment.path

def truncate (dir : Directory) (segment : WalSegment) (validLen : ℕ) : Directory × WalSegment :=
  (dir.modify segment.path (List.take validLen), { segment with size := validLen })

end WalSegment

/-- What `write_all` did to the file: it wrote the whole buffer, or some strict prefix of it before
an error. -/
inductive WriteOutcome where
  | complete
  | torn (written : ℕ) (error : String)
  deriving DecidableEq, Repr

def WriteOutcome.written : WriteOutcome → Bytes → Bytes
  | .complete, data => data
  | .torn n _, data => data.take (min n (data.length - 1))

def WalSegment.append (dir : Directory) (segment : WalSegment) (data : Bytes)
    (outcome : WriteOutcome) : Directory × WalSegment × Except OxideMqError ℕ :=
  let dir' := dir.modify segment.path (· ++ outcome.written data)
  match outcome with
  | .complete =>
      let size := segment.size + data.length
      (dir', { segment with size := size }, .ok size)
  | .torn _ error => (dir', segment, .error (.io error))

theorem digit_toNat (d : ℕ) : (Char.ofNat (48 + d % 10)).toNat = 48 + d % 10 := by
  have h : d % 10 < 10 := Nat.mod_lt _ (by decide)
  interval_cases d % 10 <;> rfl

theorem isDigit_digit (d : ℕ) : isDigit (Char.ofNat (48 + d % 10)) = true := by
  have h : d % 10 < 10 := Nat.mod_lt _ (by decide)
  simp only [isDigit, digit_toNat, Bool.and_eq_true, decide_eq_true_eq]
  omega

theorem parseDigits_decimalDigits (width n : ℕ) :
    parseDigits (decimalDigits width n) = some (n % 10 ^ width) := by
  induction width generalizing n with
  | zero => simp [decimalDigits, parseDigits, Nat.mod_one]
  | succ width ih =>
    have hprefix := ih (n / 10)
    simp only [parseDigits] at hprefix
    rw [decimalDigits, parseDigits, foldl_append, hprefix]
    simp only [foldl_cons, foldl_nil, Option.bind_some, isDigit_digit, if_true,
      digit_toNat, Nat.add_sub_cancel_left, Option.some.injEq]
    rw [pow_succ, Nat.mul_comm (10 ^ width), Nat.mod_mul]
    ring

theorem isDigit_of_mem_decimalDigits {width n : ℕ} {c : Char} (h : c ∈ decimalDigits width n) :
    isDigit c = true := by
  induction width generalizing n with
  | zero => simp [decimalDigits] at h
  | succ width ih =>
    rcases mem_append.mp h with h | h
    · exact ih h
    · rw [mem_singleton.mp h]
      exact isDigit_digit n

theorem parseU64_decimalDigits (n : UInt64) : parseU64 (decimalDigits 20 n.toNat) = some n := by
  have hlt : n.toNat < 2 ^ 64 := n.toNat_lt
  have hfits : n.toNat % 10 ^ 20 = n.toNat := Nat.mod_eq_of_lt (by omega)
  have hparse := parseDigits_decimalDigits 20 n.toNat
  rw [hfits] at hparse
  cases hdigits : decimalDigits 20 n.toNat with
  | nil => simpa [hdigits] using decimalDigits_length 20 n.toNat
  | cons c cs =>
    -- the first character is a digit, so no sign is stripped
    have hc : isDigit c = true :=
      isDigit_of_mem_decimalDigits (hdigits ▸ mem_cons_self)
    have hsign : c ≠ '+' := by
      rintro rfl
      exact absurd hc (by decide)
    rw [hdigits] at hparse
    unfold parseU64
    split
    · rename_i heq
      exact absurd (cons.inj heq).1 hsign
    · simpa [hparse] using hlt

namespace WalSegment

theorem parseBaseSeqFromFilename_filename (baseSeq : UInt64) :
    parseBaseSeqFromFilename (filename baseSeq) = some baseSeq := by
  simp only [parseBaseSeqFromFilename, filename, String.toList_ofList]
  rw [if_pos (by simp)]
  simp [parseU64_decimalDigits]

theorem filename_injective : Function.Injective filename := by
  intro b b' h
  have hparse := parseBaseSeqFromFilename_filename b
  rw [h, parseBaseSeqFromFilename_filename] at hparse
  exact (Option.some.inj hparse).symm

end WalSegment

end OxideMq.Wal
