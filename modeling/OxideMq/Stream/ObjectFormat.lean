import OxideMq.Core.BytesUtil

/-! The format of an object in object storage: a header with the number of blocks, the blocks one
after another, and a footer that indexes them. -/

namespace OxideMq.Stream

open Lib OxideMq.Core List

def s3ObjectMagic : UInt32 := 0x53335354

def s3ObjectVersion : ℕ := 1

def blockHeaderSize : ℕ := 36

structure S3DataBlock where
  streamId : ℕ
  startOffset : ℤ
  endOffset : ℤ
  recordCount : ℕ
  data : Bytes
  deriving DecidableEq, Repr

structure S3DataBlock.Fits (block : S3DataBlock) : Prop where
  streamId : block.streamId < 2 ^ 64
  startOffset : FitsSigned 64 block.startOffset
  endOffset : FitsSigned 64 block.endOffset
  recordCount : block.recordCount < 2 ^ 32
  data : block.data.length < 2 ^ 32

namespace S3ObjectCodec

variable {blocks : List S3DataBlock} {block : S3DataBlock}

def encodeBlock (block : S3DataBlock) : Bytes :=
  beEncode 8 block.streamId ++ (beEncode 8 (ofSigned 64 block.startOffset) ++
    (beEncode 8 (ofSigned 64 block.endOffset) ++ (beEncode 4 block.recordCount ++
      (beEncode 4 block.data.length ++
        (beEncode 4 (computeCrc32c block.data).toNat ++ block.data)))))

def blockFrame (crc : UInt32) (block : S3DataBlock) : Bytes :=
  beEncode 8 block.streamId ++ (beEncode 8 (ofSigned 64 block.startOffset) ++
    (beEncode 8 (ofSigned 64 block.endOffset) ++ (beEncode 4 block.recordCount ++
      (beEncode 4 block.data.length ++ (beEncode 4 crc.toNat ++ block.data)))))

def encodeIndex : ℕ → List S3DataBlock → Bytes
  | _, [] => []
  | byteOffset, block :: blocks =>
      let byteLength := (encodeBlock block).length
      beEncode 8 block.streamId ++ (beEncode 8 (ofSigned 64 block.startOffset) ++
        (beEncode 8 (ofSigned 64 block.endOffset) ++ (beEncode 4 block.recordCount ++
          (beEncode 8 byteOffset ++ (beEncode 8 byteLength ++
            encodeIndex (byteOffset + byteLength) blocks)))))

def encodeFooter (blocks : List S3DataBlock) : Bytes :=
  beEncode 2 blocks.length ++ (encodeIndex 8 blocks ++
    (beEncode 8 (8 + (blocks.flatMap encodeBlock).length) ++ beEncode 4 s3ObjectMagic.toNat))

def encode (blocks : List S3DataBlock) : Bytes :=
  beEncode 4 s3ObjectMagic.toNat ++ (beEncode 2 s3ObjectVersion ++ (beEncode 2 blocks.length ++
    (blocks.flatMap encodeBlock ++ encodeFooter blocks)))

def decodeBlock (cursor : Bytes) : Except OxideMqError (S3DataBlock × Bytes) :=
  if cursor.length < blockHeaderSize then
    .error (.storage "Truncated block header in S3 object")
  else
    let streamId := beDecode (field cursor 0 8)
    let startOffset := toSigned 64 (beDecode (field cursor 8 8))
    let endOffset := toSigned 64 (beDecode (field cursor 16 8))
    let recordCount := beDecode (field cursor 24 4)
    let dataLen := beDecode (field cursor 28 4)
    let expectedCrc := UInt32.ofNat (beDecode (field cursor 32 4))
    let rest := cursor.drop blockHeaderSize
    if rest.length < dataLen then .error (.storage "Truncated block data in S3 object")
    else
      let blockBytes := rest.take dataLen
      let actualCrc := computeCrc32c blockBytes
      if actualCrc ≠ expectedCrc then .error (.corruptedRecord expectedCrc actualCrc)
      else .ok (⟨streamId, startOffset, endOffset, recordCount, blockBytes⟩, rest.drop dataLen)

def decodeBlocks : ℕ → Bytes → Except OxideMqError (List S3DataBlock)
  | 0, _ => .ok []
  | n + 1, cursor =>
      match decodeBlock cursor with
      | .error e => .error e
      | .ok (block, rest) =>
          match decodeBlocks n rest with
          | .error e => .error e
          | .ok blocks => .ok (block :: blocks)

def decodeAll (data : Bytes) : Except OxideMqError (List S3DataBlock) :=
  if data.length < 8 then .error (.storage "S3 object too small")
  else
    let magic := UInt32.ofNat (beDecode (field data 0 4))
    if magic ≠ s3ObjectMagic then
      .error (.storage s!"Invalid S3 object magic: 0x{hex8 magic}")
    else
      let version := beDecode (field data 4 2)
      if version ≠ s3ObjectVersion then
        .error (.storage s!"Unsupported S3 object version: {version}")
      else decodeBlocks (beDecode (field data 6 2)) (data.drop 8)

theorem encodeBlock_length (block : S3DataBlock) :
    (encodeBlock block).length = 36 + block.data.length := by
  simp only [encodeBlock, length_append, beEncode_length]
  omega

theorem encodeBlock_eq_blockFrame (block : S3DataBlock) :
    encodeBlock block = blockFrame (computeCrc32c block.data) block := rfl

theorem fields_blockFrame (crc : UInt32) (block : S3DataBlock) (rest : Bytes) :
    field (blockFrame crc block ++ rest) 0 8 = beEncode 8 block.streamId ∧
      field (blockFrame crc block ++ rest) 8 8 = beEncode 8 (ofSigned 64 block.startOffset) ∧
      field (blockFrame crc block ++ rest) 16 8 = beEncode 8 (ofSigned 64 block.endOffset) ∧
      field (blockFrame crc block ++ rest) 24 4 = beEncode 4 block.recordCount ∧
      field (blockFrame crc block ++ rest) 28 4 = beEncode 4 block.data.length ∧
      field (blockFrame crc block ++ rest) 32 4 = beEncode 4 crc.toNat ∧
      (blockFrame crc block ++ rest).drop 36 = block.data ++ rest := by
  refine ⟨?_, ?_, ?_, ?_, ?_, ?_, ?_⟩ <;>
    simp [blockFrame, field_append_of_le, field_prefix, drop_append, drop_eq_nil_of_le]

theorem startOffset_blockFrame (crc : UInt32) (h : FitsSigned 64 block.startOffset)
    (rest : Bytes) :
    toSigned 64 (beDecode (field (blockFrame crc block ++ rest) 8 8)) = block.startOffset := by
  rw [(fields_blockFrame crc block rest).2.1]
  exact toSigned_beEncode (k := 8) (by decide) h

theorem decodeBlock_blockFrame (crc : UInt32) (h : block.Fits) (rest : Bytes) :
    decodeBlock (blockFrame crc block ++ rest) =
      if computeCrc32c block.data ≠ crc then
        .error (.corruptedRecord crc (computeCrc32c block.data))
      else .ok (block, rest) := by
  obtain ⟨hstr, -, hend, hcnt, hlen, hcrc, hrest⟩ := fields_blockFrame crc block rest
  have hstart := startOffset_blockFrame crc h.startOffset rest
  have hend' : toSigned 64 (beDecode (beEncode 8 (ofSigned 64 block.endOffset))) =
      block.endOffset := toSigned_beEncode (k := 8) (by decide) h.endOffset
  have hlt : crc.toNat < 256 ^ 4 := UInt32.toNat_lt _
  obtain ⟨hid, -, -, hnum, hdata⟩ := h
  have hlong : ¬(blockFrame crc block ++ rest).length < 36 := by
    simp only [blockFrame, length_append, beEncode_length]
    omega
  rw [decodeBlock, blockHeaderSize, if_neg hlong, hstart, hstr, hend, hend', hcnt, hlen, hcrc,
    hrest, beDecode_beEncode, beDecode_beEncode, beDecode_beEncode, beDecode_beEncode,
    Nat.mod_eq_of_lt (by omega), Nat.mod_eq_of_lt (by omega), Nat.mod_eq_of_lt (by omega),
    Nat.mod_eq_of_lt hlt, UInt32.ofNat_toNat]
  simp

theorem decodeBlock_encodeBlock (h : block.Fits) (rest : Bytes) :
    decodeBlock (encodeBlock block ++ rest) = .ok (block, rest) := by
  rw [encodeBlock_eq_blockFrame, decodeBlock_blockFrame _ h, if_neg (by simp)]

theorem decodeBlocks_flatMap (h : ∀ b ∈ blocks, b.Fits) (rest : Bytes) {n : ℕ}
    (hn : n ≤ blocks.length) :
    decodeBlocks n (blocks.flatMap encodeBlock ++ rest) = .ok (blocks.take n) := by
  induction blocks generalizing n with
  | nil =>
    obtain rfl : n = 0 := by simpa using hn
    rfl
  | cons block blocks ih =>
    cases n with
    | zero => rfl
    | succ n =>
      have ih' := ih (fun b hb => h b (mem_cons_of_mem _ hb)) (Nat.le_of_succ_le_succ hn)
      rw [flatMap_cons, append_assoc, decodeBlocks,
        decodeBlock_encodeBlock (h block mem_cons_self), take_succ_cons]
      simp only [ih']

theorem decodeAll_header (count : ℕ) (rest : Bytes) :
    decodeAll (beEncode 4 s3ObjectMagic.toNat ++ (beEncode 2 s3ObjectVersion ++
      (beEncode 2 count ++ rest))) = decodeBlocks (count % 2 ^ 16) rest := by
  generalize hdata : beEncode 4 s3ObjectMagic.toNat ++ (beEncode 2 s3ObjectVersion ++
    (beEncode 2 count ++ rest)) = data
  have hmagic : UInt32.ofNat (beDecode (field data 0 4)) = s3ObjectMagic := by
    rw [← hdata, field_prefix _ _ (by simp), beDecode_beEncode]
    decide
  have hver : beDecode (field data 4 2) = s3ObjectVersion := by
    simp [← hdata, field_append_of_le, field_prefix, beDecode_beEncode, s3ObjectVersion]
  have hblocks : beDecode (field data 6 2) = count % 2 ^ 16 := by
    simp [← hdata, field_append_of_le, field_prefix, beDecode_beEncode]
  have hrest : data.drop 8 = rest := by
    simp [← hdata, drop_append, drop_eq_nil_of_le]
  have hlong : ¬data.length < 8 := by
    simp only [← hdata, length_append, beEncode_length]
    omega
  rw [decodeAll, if_neg hlong]
  simp [hmagic, hver, hblocks, hrest]

theorem decodeAll_encode_eq (blocks : List S3DataBlock) : decodeAll (encode blocks) =
      decodeBlocks (blocks.length % 2 ^ 16) (blocks.flatMap encodeBlock ++ encodeFooter blocks) :=
  decodeAll_header _ _

theorem decodeAll_encode_take (h : ∀ b ∈ blocks, b.Fits) :
    decodeAll (encode blocks) = .ok (blocks.take (blocks.length % 2 ^ 16)) := by
  rw [decodeAll_encode_eq, decodeBlocks_flatMap h _ (Nat.mod_le _ _)]

theorem decodeAll_encode (hcnt : blocks.length < 2 ^ 16) (h : ∀ b ∈ blocks, b.Fits) :
    decodeAll (encode blocks) = .ok blocks := by
  rw [decodeAll_encode_take h, Nat.mod_eq_of_lt hcnt, take_length]

theorem decodeBlock_eq_ok {cur : Bytes} {rest : Bytes} (h : decodeBlock cur = .ok (block, rest)) :
    block.Fits ∧ block.startOffset = toSigned 64 (beDecode (field cur 8 8)) := by
  have hsigned (n : ℕ) : FitsSigned 64 (toSigned 64 n) := toSigned_fits (by norm_num) n
  unfold decodeBlock at h
  dsimp only at h
  split_ifs at h
  obtain ⟨hblk, -⟩ := Prod.mk.inj (Except.ok.inj h)
  subst hblk
  refine ⟨⟨?_, ?_, ?_, ?_, ?_⟩, ?_⟩ <;> dsimp only
  · exact (beDecode_field_lt cur 0 8).trans_eq (by norm_num)
  · exact hsigned _
  · exact hsigned _
  · exact (beDecode_field_lt cur 24 4).trans_eq (by norm_num)
  · have hdata := beDecode_field_lt cur 28 4
    rw [length_take]
    omega

theorem decodeBlocks_fits {n : ℕ} {cur : Bytes} (h : decodeBlocks n cur = .ok blocks) :
    ∀ b ∈ blocks, b.Fits := by
  induction n generalizing cur blocks with
  | zero =>
    cases h
    simp
  | succ n ih =>
    rw [decodeBlocks] at h
    split at h
    · cases h
    · rename_i block rest hblk
      split at h
      · cases h
      · rename_i rest' hrest
        cases h
        exact forall_mem_cons.mpr ⟨(decodeBlock_eq_ok hblk).1, ih hrest⟩

theorem decodeAll_fits {raw : Bytes} (h : decodeAll raw = .ok blocks) : ∀ b ∈ blocks, b.Fits := by
  unfold decodeAll at h
  dsimp only at h
  split_ifs at h
  exact decodeBlocks_fits h

theorem startOffset_of_singleton (h : FitsSigned 64 block.startOffset)
    (hdec : decodeAll (encode [block]) = .ok blocks) :
    ∀ b ∈ blocks, b.startOffset = block.startOffset := by
  rw [decodeAll_encode_eq, show [block].length % 2 ^ 16 = 0 + 1 from rfl, decodeBlocks] at hdec
  split at hdec
  · cases hdec
  · rename_i block' rest hblk
    cases hdec
    have hstart := (decodeBlock_eq_ok hblk).2
    rw [flatMap_singleton, encodeBlock_eq_blockFrame, startOffset_blockFrame _ h] at hstart
    simpa using hstart

end S3ObjectCodec

end OxideMq.Stream
