import OxideMq.Lib.Decoder
import OxideMq.Core.BytesUtil

/-! The readers that request decoders are made of. -/

namespace OxideMq.Protocol

open Lib OxideMq.Core Layout Decoder

abbrev Parser (α : Type) := Decoder OxideMqError α

def protocolError {α : Type} (message : String) : Parser α := Decoder.fail (.protocol message)

def getInt (n : ℕ) : Parser ℤ := do
  let bytes ← Decoder.get n
  return toSigned (8 * n) (beDecode bytes)

def getI8 : Parser ℤ := getInt 1

def getI16 : Parser ℤ := getInt 2

def getI32 : Parser ℤ := getInt 4

def getI64 : Parser ℤ := getInt 8

def getU8 : Parser ℕ := do
  let bytes ← Decoder.get 1
  return beDecode bytes

/-- `isize::MAX`, the limit of an allocation in octets. -/
def isizeMax : ℕ := 2 ^ 63 - 1

/-- `as usize` of a signed integer. -/
def asUsize (x : ℤ) : ℕ := ofSigned 64 x

/-- `Vec::with_capacity` for elements of `size` octets, and the loop that fills it. -/
def vec {α : Type} (size count : ℕ) (element : Parser α) : Parser (List α) :=
  if count * size > isizeMax then ⟨fun _ => .panic⟩ else element.times count

def utf8 (bytes : Bytes) : Option String := String.fromUTF8? ⟨bytes.toArray⟩

namespace KafkaDecoder

def readText (len : ℕ) (truncated : String) : Parser (Option String) := do
  Decoder.atLeast len (.protocol truncated)
  let bytes ← Decoder.get len
  match utf8 bytes with
  | some s => return some s
  | none => protocolError "Invalid UTF-8"

def readBlob (len : ℕ) (truncated : String) : Parser (Option Bytes) := do
  Decoder.atLeast len (.protocol truncated)
  let bytes ← Decoder.get len
  return some bytes

def readString : Parser (Option String) := do
  Decoder.atLeast 2 (.protocol "Truncated string length")
  let len ← getI16
  if len < 0 then return none else readText len.toNat "Truncated string body"

/-- The loop of `read_unsigned_varint`; the value is a `u64`. -/
def varintLoop : Bytes → ℕ → ℕ → Outcome OxideMqError ℕ
  | [], _, _ => .err (.protocol "Truncated varint")
  | b :: rest, value, shift =>
      let value := value ||| ((b.toNat % 128) <<< shift) % 2 ^ 64
      if b.toNat < 128 then .ok value rest
      else if shift + 7 > 63 then .err (.protocol "Varint overflow")
      else varintLoop rest value (shift + 7)

def readUnsignedVarint : Parser ℕ := ⟨fun src => varintLoop src 0 0⟩

/-- Zigzag decoding to an `i64`. -/
def readVarint : Parser ℤ := do
  let uval ← readUnsignedVarint
  return if uval % 2 = 0 then (uval / 2 : ℕ) else -(uval / 2 : ℕ) - 1

def readCompactString : Parser (Option String) := do
  let len ← readUnsignedVarint
  if len = 0 then return none else readText (len - 1) "Truncated compact string body"

def readBytes : Parser (Option Bytes) := do
  Decoder.atLeast 4 (.protocol "Truncated bytes length")
  let len ← getI32
  if len < 0 then return none else readBlob len.toNat "Truncated bytes body"

def readCompactBytes : Parser (Option Bytes) := do
  let len ← readUnsignedVarint
  if len = 0 then return none else readBlob (len - 1) "Truncated compact bytes body"

end KafkaDecoder

/-- The count is cast to `usize` as it is. -/
def uncheckedArray {α : Type} (size : ℕ) (element : Parser α) : Parser (List α) := do
  let count ← getI32
  vec size (asUsize count) element

def nullableArray {α : Type} (size : ℕ) (element : Parser α) : Parser (Option (List α)) := do
  let count ← getI32
  if count < 0 then return none
  else
    let elements ← vec size count.toNat element
    return some elements

def signedArray {α : Type} (negative : String) (size : ℕ) (element : Parser α) :
    Parser (List α) := do
  let count ← getI32
  if count < 0 then protocolError negative else vec size count.toNat element

def clampedArray {α : Type} (size : ℕ) (element : Parser α) : Parser (List α) := do
  let count ← getI32
  vec size count.toNat element

def readBrokerIds (truncated : String) : Parser (List ℤ) := do
  let count ← getI32
  Decoder.atLeast (count.toNat * 4) (.protocol truncated)
  vec 4 count.toNat getI32

namespace Layout

/-- A field that `KafkaDecoder` reads. -/
def reads {α : Type} (reader : Parser α) : Layout := fun src => (reader.run src).walk

/-- An array with an `i32` count: what becomes of a count that is cut short, and of one that is
negative. -/
def array (short : Walk) (negative : Layout) (element : Layout) : Layout := fun src =>
  if src.length < 4 then short
  else
    let count := toSigned 32 (beDecode (src.take 4))
    if count < 0 then negative (src.drop 4) else element.times count.toNat (src.drop 4)

def crashes : Layout := fun _ => .crash

def stops : Layout := fun _ => .stop

def compactArray (size : ℕ) (element : Layout) : Layout := fun src =>
  match KafkaDecoder.readUnsignedVarint.run src with
  | .ok len rest => if (len - 1) * size > isizeMax then .crash else element.times (len - 1) rest
  | .err _ => .stop
  | .panic => .crash

def idArray : Layout := fun src =>
  if src.length < 4 then .stop
  else Layout.checked ((toSigned 32 (beDecode (src.take 4))).toNat * 4) (src.drop 4)

end Layout

theorem run_getInt (n : ℕ) (src : Bytes) : (getInt n).run src = if src.length < n then .panic
      else .ok (toSigned (8 * n) (beDecode (src.take n))) (src.drop n) := by
  rw [getInt, run_bind, run_get]
  by_cases hshort : src.length < n
  · rw [if_pos hshort, if_pos hshort]
  · rw [if_neg hshort, if_neg hshort]
    rfl

theorem run_getI32 (src : Bytes) : getI32.run src = if src.length < 4 then .panic
      else .ok (toSigned 32 (beDecode (src.take 4))) (src.drop 4) := run_getInt 4 src

theorem run_vec {α : Type} (size count : ℕ) (x : Parser α) (src : Bytes) :
    (vec size count x).run src =
      if count * size > isizeMax then .panic else (x.times count).run src := by
  rw [vec]
  split
  · rfl
  · rfl

theorem toNat_mul_le {count : ℤ} (hcnt : FitsSigned 32 count) {size : ℕ} (hsize : size < 2 ^ 32) :
    count.toNat * size ≤ isizeMax := by
  have hhi : count.toNat ≤ 2 ^ 31 - 1 := by
    have := hcnt.2
    omega
  calc
    count.toNat * size ≤ (2 ^ 31 - 1) * (2 ^ 32 - 1) := Nat.mul_le_mul hhi (by omega)
    _ ≤ isizeMax := by decide

theorem asUsize_of_nonneg {count : ℤ} (hcnt : FitsSigned 32 count) (hnn : 0 ≤ count) :
    asUsize count = count.toNat := by
  have := hcnt.2
  rw [asUsize, ofSigned, Int.emod_eq_of_lt hnn (by omega)]

theorem lt_asUsize_of_neg {count : ℤ} (hcnt : FitsSigned 32 count) (hneg : count < 0) :
    isizeMax < asUsize count := by
  have := hcnt.1
  have hwrap : count % 2 ^ 64 = count + 2 ^ 64 := by
    rw [← Int.add_emod_right, Int.emod_eq_of_lt (by omega) (by omega)]
  rw [asUsize, ofSigned, hwrap, isizeMax]
  omega

section

variable {α β : Type} {k size : ℕ} {element : Parser α} {l : Layout} {ls : List Layout}
variable {short : Walk}

theorem under_reads (reader : Parser α) : Under k reader (Layout.reads reader) := fun _ _ => rfl

theorem under_getInt (n : ℕ) : Under k (getInt n) (unchecked n) :=
  .bind_pure _ Under.unchecked

theorem under_getU8 : Under k getU8 (unchecked 1) := .bind_pure _ Under.unchecked

theorem under_knownInt {n : ℕ} {f : ℤ → Parser β} (hn : n ≤ k)
    (hf : ∀ x, Under (k - n) (f x) (seq ls)) :
    Under k (getInt n >>= f) (seq (checked n :: ls)) := by
  intro src hk
  have hlong : ¬src.length < n := by omega
  rw [run_bind, run_getInt, seq, checked, if_neg hlong, if_neg hlong]
  exact hf _ _ (by rw [List.length_drop]; omega)

theorem under_vec {count : ℕ} (hcnt : count * size ≤ isizeMax) (helt : Under 0 element l) :
    Under k (vec size count element) (l.times count) := by
  rw [vec, if_neg (not_lt.mpr hcnt)]
  exact .times helt count

theorem under_array {body : ℤ → Parser β} {negative : Layout} (hshort : k < 4 → short = .crash)
    (hnegative : ∀ count, FitsSigned 32 count → count < 0 → Under 0 (body count) negative)
    (hbody : ∀ count, FitsSigned 32 count → 0 ≤ count →
      Under 0 (body count) (l.times count.toNat)) :
    Under k (getI32 >>= body) (Layout.array short negative l) := by
  intro src hk
  rw [run_bind, run_getI32, Layout.array]
  by_cases hlong : src.length < 4
  · rw [if_pos hlong, if_pos hlong, hshort (by omega)]
    rfl
  · have hfits : FitsSigned 32 (toSigned 32 (beDecode (src.take 4))) :=
      toSigned_fits (by decide) _
    rw [if_neg hlong, if_neg hlong]
    dsimp only
    split
    · rename_i hneg
      exact hnegative _ hfits hneg _ (Nat.zero_le _)
    · rename_i hnn
      exact hbody _ hfits (not_lt.mp hnn) _ (Nat.zero_le _)

theorem under_uncheckedArray (hsize : 0 < size ∧ size < 2 ^ 32) (helt : Under 0 element l)
    (hshort : k < 4 → short = .crash) :
    Under k (uncheckedArray size element) (Layout.array short Layout.crashes l) := by
  refine under_array hshort ?_ ?_
  · intro count hfits hneg src _
    have hover : asUsize count * size > isizeMax :=
      (lt_asUsize_of_neg hfits hneg).trans_le (Nat.le_mul_of_pos_right _ hsize.1)
    rw [run_vec, if_pos hover]
    rfl
  · intro count hfits hnn
    rw [asUsize_of_nonneg hfits hnn]
    exact under_vec (toNat_mul_le hfits hsize.2) helt

theorem under_nullableArray (hsize : size < 2 ^ 32) (helt : Under 0 element l)
    (hshort : k < 4 → short = .crash) :
    Under k (nullableArray size element) (Layout.array short (Layout.seq []) l) := by
  refine under_array hshort ?_ ?_
  · intro count _ hneg
    rw [if_pos hneg]
    exact .pure none
  · intro count hfits hnn
    rw [if_neg (not_lt.mpr hnn)]
    exact .bind_pure some (under_vec (toNat_mul_le hfits hsize) helt)

theorem under_signedArray (negative : String) (hsize : size < 2 ^ 32) (helt : Under 0 element l)
    (hshort : k < 4 → short = .crash) :
    Under k (signedArray negative size element) (Layout.array short Layout.stops l) := by
  refine under_array hshort ?_ ?_
  · intro count _ hneg
    rw [if_pos hneg]
    exact .fail _
  · intro count hfits hnn
    rw [if_neg (not_lt.mpr hnn)]
    exact under_vec (toNat_mul_le hfits hsize) helt

theorem under_clampedArray (hsize : size < 2 ^ 32) (helt : Under 0 element l)
    (hshort : k < 4 → short = .crash) :
    Under k (clampedArray size element) (Layout.array short (Layout.seq []) l) := by
  refine under_array hshort ?_ ?_
  · intro count _ hneg
    rw [Int.toNat_of_nonpos hneg.le]
    exact under_vec (by simp) helt
  · intro count hfits hnn
    exact under_vec (toNat_mul_le hfits hsize) helt

theorem walk_times_getInt {n count : ℕ} {src : Bytes} (h : count * n ≤ src.length) :
    (((getInt n).times count).run src).walk = .more (src.drop (count * n)) := by
  induction count generalizing src with
  | zero =>
    rw [Nat.zero_mul, List.drop_zero]
    rfl
  | succ count ih =>
    rw [Nat.succ_mul] at h
    have hlen : count * n ≤ (src.drop n).length := by
      rw [List.length_drop]
      omega
    have hrest := ih hlen
    rw [List.drop_drop, Nat.add_comm n, ← Nat.succ_mul] at hrest
    rw [Decoder.times, Decoder.run_bind, run_getInt, if_neg (by omega), ← hrest]
    dsimp only
    rw [Decoder.run_bind]
    cases ((getInt n).times count).run (src.drop n) with
    | ok xs rest => rfl
    | err e => rfl
    | panic => rfl

theorem under_ids (trunc : OxideMqError) {count : ℤ} (hcnt : FitsSigned 32 count) :
    Under 0 (do atLeast (count.toNat * 4) trunc; vec 4 count.toNat getI32)
      (checked (count.toNat * 4)) := by
  intro src _
  have hvec : ¬count.toNat * 4 > isizeMax := not_lt.mpr (toNat_mul_le hcnt (by norm_num))
  rw [run_bind, run_atLeast, checked]
  by_cases hshort : src.length < count.toNat * 4
  · rw [if_pos hshort, if_pos hshort]
    rfl
  · rw [if_neg hshort, if_neg hshort]
    dsimp only
    rw [run_vec, if_neg hvec]
    exact walk_times_getInt (not_lt.mp hshort)

theorem under_readBrokerIds (trunc : String) (hk : 4 ≤ k) :
    Under k (readBrokerIds trunc) Layout.idArray := by
  intro src hlen
  have hlong : ¬src.length < 4 := by omega
  have hfits : FitsSigned 32 (toSigned 32 (beDecode (src.take 4))) := toSigned_fits (by decide) _
  have hcnt : getI32.run src = .ok (toSigned 32 (beDecode (src.take 4))) (src.drop 4) := by
    rw [run_getI32, if_neg hlong]
  rw [readBrokerIds, run_bind_of_ok hcnt, Layout.idArray, if_neg hlong]
  exact under_ids (.protocol trunc) hfits (src.drop 4) (Nat.zero_le _)

end

theorem neverCrashes_reads {α : Type} {reader : Parser α} (h : Returns 0 reader) :
    (Layout.reads reader).NeverCrashes := by
  intro src
  have hrun := h src (Nat.zero_le _)
  rw [Layout.reads]
  cases hout : reader.run src with
  | ok a rest => exact nofun
  | err e => exact nofun
  | panic => exact absurd hout hrun

namespace KafkaDecoder

variable {k : ℕ}

theorem returns_readText (len : ℕ) (trunc : String) : Returns k (readText len trunc) := by
  refine .atLeast _ (.bind (.get le_rfl) fun bytes => ?_)
  cases utf8 bytes with
  | none => exact .fail _
  | some s => exact .pure _

theorem returns_readBlob (len : ℕ) (trunc : String) : Returns k (readBlob len trunc) :=
  .atLeast _ (.bind (.get le_rfl) fun _ => .pure _)

theorem returns_getInt {n : ℕ} (hn : n ≤ k) : Returns k (getInt n) :=
  .bind (.get hn) fun _ => .pure _

theorem returns_readString : Returns k readString := by
  refine .atLeast _ (.bind (returns_getInt le_rfl) fun len => ?_)
  exact .ite (.pure _) (returns_readText _ _)

theorem varintLoop_ne_panic (src : Bytes) (value shift : ℕ) :
    varintLoop src value shift ≠ .panic := by
  induction src generalizing value shift with
  | nil => exact nofun
  | cons b rest ih =>
    rw [varintLoop]
    split
    · exact nofun
    · split
      · exact nofun
      · exact ih _ _

theorem returns_readUnsignedVarint : Returns k readUnsignedVarint :=
  fun src _ => varintLoop_ne_panic src 0 0

end KafkaDecoder

end OxideMq.Protocol
