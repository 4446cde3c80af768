import OxideMq.Core.BytesUtil

/-! The header of a record batch in format version 2, and the control batches that end a
transaction. -/

namespace OxideMq.Protocol

open Lib OxideMq.Core List

def magicOf (batch : Bytes) : UInt8 := batch.getD 16 0

def baseOffsetOf (batch : Bytes) : ℤ := toSigned 64 (beDecode (field batch 0 8))

def batchLengthOf (batch : Bytes) : ℤ := toSigned 32 (beDecode (field batch 8 4))

def attributesOf (batch : Bytes) : ℕ := beDecode (field batch 21 2)

def lastOffsetDeltaOf (batch : Bytes) : ℤ := toSigned 32 (beDecode (field batch 23 4))

def producerIdOf (batch : Bytes) : ℤ := toSigned 64 (beDecode (field batch 43 8))

def producerEpochOf (batch : Bytes) : ℤ := toSigned 16 (beDecode (field batch 51 2))

/-- Attribute bit `0x0010`. -/
def isTransactional (batch : Bytes) : Bool := (attributesOf batch).testBit 4

/-- Attribute bit `0x0020`. -/
def isControl (batch : Bytes) : Bool := (attributesOf batch).testBit 5

def recordCountOf (batch : Bytes) : ℤ := max (lastOffsetDeltaOf batch) 0 + 1

structure Framed (batch : Bytes) : Prop where
  header : 61 ≤ batch.length
  magic : magicOf batch = 2
  batchLength : batchLengthOf batch = batch.length - 12

instance (batch : Bytes) : Decidable (Framed batch) :=
  decidable_of_iff (61 ≤ batch.length ∧ magicOf batch = 2 ∧ batchLengthOf batch = batch.length - 12)
    ⟨fun ⟨h₁, h₂, h₃⟩ => ⟨h₁, h₂, h₃⟩, fun ⟨h₁, h₂, h₃⟩ => ⟨h₁, h₂, h₃⟩⟩

structure WellFormed (batch : Bytes) : Prop where
  header : 61 ≤ batch.length
  magic : magicOf batch = 2
  batchLength : batchLengthOf batch = batch.length - 12
  lastOffsetDelta : 0 ≤ lastOffsetDeltaOf batch

instance (batch : Bytes) : Decidable (WellFormed batch) :=
  decidable_of_iff (61 ≤ batch.length ∧ magicOf batch = 2 ∧
      batchLengthOf batch = batch.length - 12 ∧ 0 ≤ lastOffsetDeltaOf batch)
    ⟨fun ⟨h₁, h₂, h₃, h₄⟩ => ⟨h₁, h₂, h₃, h₄⟩, fun ⟨h₁, h₂, h₃, h₄⟩ => ⟨h₁, h₂, h₃, h₄⟩⟩

theorem WellFormed.framed {batch : Bytes} (h : WellFormed batch) : Framed batch :=
  ⟨h.header, h.magic, h.batchLength⟩

theorem magicOf_append {batch : Bytes} (h : 17 ≤ batch.length) (rest : Bytes) :
    magicOf (batch ++ rest) = magicOf batch := by
  simp only [magicOf, getD_eq_getElem?_getD]
  rw [getElem?_append_left (by omega)]

theorem Framed.batchLengthOf_append {batch : Bytes} (h : Framed batch) (rest : Bytes) :
    batchLengthOf (batch ++ rest) = batch.length - 12 := by
  have hhead := h.header
  rw [batchLengthOf, field_append_left _ _ (by omega)]
  exact h.batchLength

namespace KafkaEncoder

def writeUnsignedVarint : ℕ → ℕ → Bytes
  | 0, _ => []
  | fuel + 1, value =>
      if value ≥ 0x80 then UInt8.ofNat (value % 0x80 + 0x80) :: writeUnsignedVarint fuel (value / 0x80)
      else [UInt8.ofNat value]

/-- Zigzag encoding of an `i64`. -/
def writeVarint (value : ℤ) : Bytes :=
  writeUnsignedVarint 10 (if value < 0 then (-2 * value - 1).toNat else (2 * value).toNat)

end KafkaEncoder

def batchTail (attributes : ℕ) (lastOffsetDelta baseTimestamp maxTimestamp producerId : ℤ)
    (producerEpoch : ℤ) (baseSequence recordCount : ℤ) (records : Bytes) : Bytes :=
  beEncode 2 attributes ++ (beEncode 4 (ofSigned 32 lastOffsetDelta) ++
    (beEncode 8 (ofSigned 64 baseTimestamp) ++ (beEncode 8 (ofSigned 64 maxTimestamp) ++
      (beEncode 8 (ofSigned 64 producerId) ++ (beEncode 2 (ofSigned 16 producerEpoch) ++
        (beEncode 4 (ofSigned 32 baseSequence) ++ (beEncode 4 (ofSigned 32 recordCount) ++
          records)))))))

def assembleBatch (baseOffset : ℤ) (tail : Bytes) : Bytes :=
  beEncode 8 (ofSigned 64 baseOffset) ++ (beEncode 4 (9 + tail.length) ++ (beEncode 4 0 ++
    ([2] ++ (beEncode 4 (computeCrc32c tail).toNat ++ tail))))

def controlRecord (isCommit : Bool) : Bytes :=
  let body := [0] ++ KafkaEncoder.writeVarint 0 ++ KafkaEncoder.writeVarint 0 ++
    KafkaEncoder.writeVarint 4 ++ beEncode 2 0 ++ beEncode 2 (if isCommit then 1 else 0) ++
    KafkaEncoder.writeVarint 2 ++ beEncode 2 0 ++ KafkaEncoder.writeVarint 0
  KafkaEncoder.writeVarint body.length ++ body

def encodeControlBatch (now baseOffset producerId producerEpoch : ℤ) (isCommit : Bool) : Bytes :=
  assembleBatch baseOffset
    (batchTail 0x30 0 now now producerId producerEpoch (-1) 1 (controlRecord isCommit))

theorem batchTail_length (attributes : ℕ) (delta ts maxTs pid epoch baseSequence
      cnt : ℤ) (recs : Bytes) :
    (batchTail attributes delta ts maxTs pid epoch
      baseSequence cnt recs).length = 40 + recs.length := by
  simp only [batchTail, length_append, beEncode_length]
  omega

theorem assembleBatch_length (base : ℤ) (tail : Bytes) :
    (assembleBatch base tail).length = 21 + tail.length := by
  simp only [assembleBatch, length_append, beEncode_length, length_singleton]
  omega

theorem field_assembleBatch (base : ℤ) (tail : Bytes) (i n : ℕ) :
    field (assembleBatch base tail) (21 + i) n = field tail i n := by
  rw [assembleBatch, field_append_right (j := 13 + i) _ _ (by simp; omega),
    field_append_right (j := 9 + i) _ _ (by simp; omega),
    field_append_right (j := 5 + i) _ _ (by simp; omega),
    field_append_right (j := 4 + i) _ _ (by simp; omega),
    field_append_right (j := i) _ _ (by simp)]

theorem assembleBatch_wellFormed {base : ℤ} {tail : Bytes} (hlong : 40 ≤ tail.length)
    (hshort : tail.length + 9 < 2 ^ 31)
    (hdelta : 0 ≤ toSigned 32 (beDecode (field tail 2 4))) :
    WellFormed (assembleBatch base tail) := by
  refine ⟨by rw [assembleBatch_length]; omega, ?_, ?_, ?_⟩
  · rw [magicOf, assembleBatch, getD_eq_getElem?_getD, getElem?_append_right (by simp),
      getElem?_append_right (by simp), getElem?_append_right (by simp)]
    simp
  · have hlen : toSigned 32 (9 + tail.length) = (9 + tail.length : ℕ) :=
      wrapSigned_of_fits (w := 32) (by decide) ⟨by omega, by push_cast; omega⟩
    rw [batchLengthOf, assembleBatch, field_append_right (j := 0) _ _ (by simp),
      field_prefix _ _ (by simp), beDecode_beEncode, Nat.mod_eq_of_lt (by omega), hlen]
    simp only [length_append, beEncode_length, length_singleton]
    push_cast
    omega
  · rw [lastOffsetDeltaOf, field_assembleBatch base tail 2 4]
    exact hdelta

theorem attributesOf_assembleBatch (base : ℤ) (attributes : ℕ)
    (delta ts maxTs pid epoch baseSequence cnt : ℤ) (recs : Bytes) :
    attributesOf (assembleBatch base (batchTail attributes delta ts
      maxTs pid epoch baseSequence cnt recs)) = attributes % 2 ^ 16 := by
  rw [attributesOf, field_assembleBatch base _ 0 2, batchTail, field_prefix _ _ (by simp),
    beDecode_beEncode]
  norm_num

theorem lastOffsetDeltaOf_assembleBatch (baseOffset : ℤ) (attributes : ℕ)
    {lastOffsetDelta : ℤ} (hdelta : FitsSigned 32 lastOffsetDelta)
    (baseTimestamp maxTimestamp producerId producerEpoch baseSequence recordCount : ℤ)
    (records : Bytes) :
    lastOffsetDeltaOf (assembleBatch baseOffset (batchTail attributes lastOffsetDelta
      baseTimestamp maxTimestamp producerId producerEpoch baseSequence recordCount records)) =
        lastOffsetDelta := by
  rw [lastOffsetDeltaOf, field_assembleBatch baseOffset _ 2 4, batchTail,
    field_append_right (j := 0) _ _ (by simp), field_prefix _ _ (by simp)]
  exact toSigned_beEncode (k := 4) (by decide) hdelta

theorem controlRecord_length (isCommit : Bool) : (controlRecord isCommit).length = 13 := by
  cases isCommit <;> decide

theorem recordCountOf_encodeControlBatch (now baseOffset producerId producerEpoch : ℤ)
    (isCommit : Bool) :
    recordCountOf (encodeControlBatch now baseOffset producerId producerEpoch isCommit) = 1 := by
  rw [recordCountOf, encodeControlBatch, lastOffsetDeltaOf_assembleBatch _ _ (by decide)]
  rfl

theorem isControl_encodeControlBatch (now base pid epoch : ℤ) (isCommit : Bool) :
    isControl (encodeControlBatch now base pid epoch isCommit) = true := by
  rw [isControl, encodeControlBatch, attributesOf_assembleBatch]
  decide

theorem encodeControlBatch_wellFormed (now baseOffset producerId producerEpoch : ℤ)
    (isCommit : Bool) :
    WellFormed (encodeControlBatch now baseOffset producerId producerEpoch isCommit) := by
  refine assembleBatch_wellFormed ?_ ?_ ?_
  · rw [batchTail_length]
    omega
  · rw [batchTail_length, controlRecord_length]
    norm_num
  · have hdelta := lastOffsetDeltaOf_assembleBatch baseOffset 0x30
      (by decide : FitsSigned 32 0) now now producerId producerEpoch (-1) 1 (controlRecord isCommit)
    rw [lastOffsetDeltaOf, field_assembleBatch baseOffset _ 2 4] at hdelta
    exact hdelta.ge

end OxideMq.Protocol
