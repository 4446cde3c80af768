import OxideMq.Lib.RoundTrip
import OxideMq.Stream.ObjectFormat

/-! The two readers of an object, read by read. -/

namespace OxideMq.Stream

open Lib OxideMq.Core Decoder List

structure S3BlockIndex where
  streamId : ℕ
  startOffset : ℤ
  endOffset : ℤ
  recordCount : ℕ
  byteOffset : ℕ
  byteLength : ℕ
  deriving DecidableEq, Repr

structure S3BlockIndex.Fits (entry : S3BlockIndex) : Prop where
  streamId : entry.streamId < 2 ^ 64
  startOffset : FitsSigned 64 entry.startOffset
  endOffset : FitsSigned 64 entry.endOffset
  recordCount : entry.recordCount < 2 ^ 32
  byteOffset : entry.byteOffset < 2 ^ 64
  byteLength : entry.byteLength < 2 ^ 64

namespace S3ObjectCodec

variable {blocks : List S3DataBlock}

def decodeBlockReads : Decoder OxideMqError S3DataBlock := do
  Decoder.atLeast blockHeaderSize (.storage "Truncated block header in S3 object")
  let streamId ← Decoder.getNat 8
  let startOffset ← Decoder.getNat 8
  let endOffset ← Decoder.getNat 8
  let recordCount ← Decoder.getNat 4
  let dataLen ← Decoder.getNat 4
  let expectedCrc ← Decoder.getNat 4
  Decoder.atLeast dataLen (.storage "Truncated block data in S3 object")
  let blockBytes ← Decoder.get dataLen
  if computeCrc32c blockBytes ≠ UInt32.ofNat expectedCrc then
    Decoder.fail (.corruptedRecord (UInt32.ofNat expectedCrc) (computeCrc32c blockBytes))
  else
    return ⟨streamId, toSigned 64 startOffset, toSigned 64 endOffset, recordCount, blockBytes⟩

/-- `decode_all` with every read of the object in it. -/
def decodeAllReads : Decoder OxideMqError (List S3DataBlock) := do
  Decoder.atLeast 8 (.storage "S3 object too small")
  let magic ← Decoder.getNat 4
  if UInt32.ofNat magic ≠ s3ObjectMagic then
    Decoder.fail (.storage s!"Invalid S3 object magic: 0x{hex8 (UInt32.ofNat magic)}")
  else
    let version ← Decoder.getNat 2
    if version ≠ s3ObjectVersion then
      Decoder.fail (.storage s!"Unsupported S3 object version: {version}")
    else
      let blockCount ← Decoder.getNat 2
      decodeBlockReads.times blockCount

theorem run_decodeBlockReads (cur : Bytes) : decodeBlockReads.run cur = match decodeBlock cur with
      | .ok (block, rest) => .ok block rest
      | .error e => .err e := by
  show decodeBlockReads.run (cur.drop 0) = _
  rw [decodeBlockReads, run_atLeast_at (Nat.zero_le _), Nat.zero_add, decodeBlock]
  by_cases hhead : cur.length < blockHeaderSize
  · rw [if_pos hhead, if_pos hhead]
  · have hlong : 36 ≤ cur.length := not_lt.mp hhead
    rw [if_neg hhead, if_neg hhead, run_getNat_at (by omega),
      run_getNat_at (by omega), run_getNat_at (by omega),
      run_getNat_at (by omega), run_getNat_at (by omega),
      run_getNat_at (by omega), run_atLeast_at (by omega)]
    dsimp only [blockHeaderSize, Nat.reduceAdd]
    rw [length_drop]
    by_cases hdata : cur.length < 36 + beDecode (field cur 28 4)
    · rw [if_pos hdata, if_pos (by omega)]
    · rw [if_neg hdata, if_neg (by omega), run_get_at (by omega), ← field, drop_drop]
      split
      · rfl
      · rfl

theorem run_times_decodeBlockReads (n : ℕ) (cur : Bytes) :
    ((decodeBlockReads.times n).run cur).attempt = some (decodeBlocks n cur) := by
  induction n generalizing cur with
  | zero => rfl
  | succ n ih =>
    rw [times, run_bind, run_decodeBlockReads, decodeBlocks]
    cases decodeBlock cur with
    | error e => rfl
    | ok res =>
      obtain ⟨block, rest⟩ := res
      have hrest := ih rest
      dsimp only
      rw [run_bind]
      generalize (decodeBlockReads.times n).run rest = out at hrest ⊢
      cases out with
      | panic => cases hrest
      | _ =>
        rw [← Option.some.inj hrest]
        rfl

theorem decodeAllReads_eq (data : Bytes) :
    (decodeAllReads.run data).attempt = some (decodeAll data) := by
  show (decodeAllReads.run (data.drop 0)).attempt = _
  rw [decodeAllReads, run_atLeast_at (Nat.zero_le _), decodeAll]
  by_cases hshort : data.length < 8
  · rw [if_pos (by omega), if_pos hshort]
    rfl
  · rw [if_neg (by omega), if_neg hshort, run_getNat_at (by omega)]
    dsimp only [Nat.reduceAdd]
    split
    · rfl
    · rw [run_getNat_at (by omega)]
      split
      · rfl
      · rw [run_getNat_at (by omega)]
        exact run_times_decodeBlockReads _ _

def readEntry : Decoder OxideMqError S3BlockIndex := do
  let streamId ← Decoder.getNat 8
  let startOffset ← Decoder.getNat 8
  let endOffset ← Decoder.getNat 8
  let recordCount ← Decoder.getNat 4
  let byteOffset ← Decoder.getNat 8
  let byteLength ← Decoder.getNat 8
  return ⟨streamId, toSigned 64 startOffset, toSigned 64 endOffset, recordCount, byteOffset,
    byteLength⟩

def readEntries : Decoder OxideMqError (List S3BlockIndex) := do
  let count ← Decoder.getNat 2
  readEntry.times count

def readFooterIndex (data : Bytes) : Attempt OxideMqError (List S3BlockIndex) :=
  if data.length < 12 then some (.error (.storage "Object too small for footer index"))
  else
    let footerMagicOffset := data.length - 4
    let indexOffsetPos := data.length - 12
    (slice data footerMagicOffset data.length).bind fun magicCursor =>
      ((Decoder.getNat 4).run magicCursor).attempt.andThen fun magic =>
        if UInt32.ofNat magic ≠ s3ObjectMagic then
          some (.error (.storage "Invalid footer magic in S3 object"))
        else
          (slice data indexOffsetPos footerMagicOffset).bind fun offsetCursor =>
            ((Decoder.getNat 8).run offsetCursor).attempt.andThen fun indexOffset =>
              if indexOffset ≥ data.length then
                some (.error (.storage "Invalid footer index offset"))
              else
                (slice data indexOffset indexOffsetPos).bind fun indexCursor =>
                  (readEntries.run indexCursor).attempt

def footerMagicOf (data : Bytes) : UInt32 :=
  UInt32.ofNat (beDecode (field data (data.length - 4) 4))

def indexOffsetOf (data : Bytes) : ℕ := beDecode (field data (data.length - 12) 8)

def indexCountOf (data : Bytes) : ℕ := beDecode (field data (indexOffsetOf data) 2)

theorem attempt_getNat {buf : Bytes} {n : ℕ} (h : n = buf.length) :
    ((getNat n : Decoder OxideMqError ℕ).run buf).attempt = some (.ok (beDecode buf)) := by
  rw [getNat, run_bind, run_get, if_neg (by omega), take_of_length_le (by omega)]
  rfl

theorem readFooterIndex_eq {data : Bytes} (h : 12 ≤ data.length) : readFooterIndex data =
      if footerMagicOf data ≠ s3ObjectMagic then
        some (.error (.storage "Invalid footer magic in S3 object"))
      else if data.length ≤ indexOffsetOf data then
        some (.error (.storage "Invalid footer index offset"))
      else
        (slice data (indexOffsetOf data) (data.length - 12)).bind fun indexCursor =>
          (readEntries.run indexCursor).attempt := by
  have hmagic : slice data (data.length - 4) data.length =
      some (field data (data.length - 4) 4) := by
    rw [slice_of_le (by omega) le_rfl, show data.length - (data.length - 4) = 4 by omega]
  have hoff : slice data (data.length - 12) (data.length - 4) =
      some (field data (data.length - 12) 8) := by
    rw [slice_of_le (by omega) (by omega), show data.length - 4 - (data.length - 12) = 8 by omega]
  rw [readFooterIndex, if_neg (by omega)]
  dsimp only
  rw [hmagic, hoff]
  dsimp only [Option.bind]
  rw [attempt_getNat (by rw [field_length]; omega), attempt_getNat (by rw [field_length]; omega)]
  rfl

theorem readEntries_eq_none_iff (cur : Bytes) : (readEntries.run cur).attempt = none ↔
      cur.length < 2 + 44 * beDecode (field cur 0 2) := by
  have he : Under 0 readEntry (Layout.unchecked 44) :=
    .unchecked_bind Under.unchecked_getNat fun _ =>
      .unchecked_bind Under.unchecked_getNat fun _ =>
        .unchecked_bind Under.unchecked_getNat fun _ =>
          .unchecked_bind Under.unchecked_getNat fun _ =>
            .unchecked_bind Under.unchecked_getNat fun _ =>
              .bind_pure _ Under.unchecked_getNat
  rw [Outcome.attempt_eq_none_iff]
  by_cases hcnt : cur.length < 2
  · have hcrash : readEntries.run cur = .panic := by
      rw [readEntries, getNat, bind_assoc, run_bind, run_get, if_pos hcnt]
    rw [hcrash]
    exact iff_of_true rfl (by omega)
  · show (readEntries.run (cur.drop 0)).walk = .crash ↔ _
    rw [readEntries, run_getNat_at (by omega),
      Under.unchecked_times he _ _ (Nat.zero_le _), Layout.unchecked, length_drop]
    split
    · exact iff_of_true rfl (by omega)
    · exact iff_of_false (by rintro ⟨⟩) (by omega)

def FooterSound (data : Bytes) : Prop :=
  data.length < 12 ∨ footerMagicOf data ≠ s3ObjectMagic ∨ data.length ≤ indexOffsetOf data ∨
    indexOffsetOf data + 2 + 44 * indexCountOf data ≤ data.length - 12

theorem readFooterIndex_ne_none_iff (data : Bytes) :
    readFooterIndex data ≠ none ↔ FooterSound data := by
  rw [FooterSound]
  by_cases hshort : data.length < 12
  · rw [readFooterIndex, if_pos hshort]
    exact iff_of_true (Option.some_ne_none _) (Or.inl hshort)
  rw [readFooterIndex_eq (not_lt.mp hshort)]
  by_cases hmagic : footerMagicOf data ≠ s3ObjectMagic
  · rw [if_pos hmagic]
    exact iff_of_true (Option.some_ne_none _) (Or.inr (Or.inl hmagic))
  by_cases hoff : data.length ≤ indexOffsetOf data
  · rw [if_neg hmagic, if_pos hoff]
    exact iff_of_true (Option.some_ne_none _) (Or.inr (Or.inr (Or.inl hoff)))
  rw [if_neg hmagic, if_neg hoff, or_iff_right hshort, or_iff_right hmagic, or_iff_right hoff]
  by_cases hslice : indexOffsetOf data ≤ data.length - 12
  · rw [slice_of_le hslice (by omega), Option.bind_some, ne_eq, readEntries_eq_none_iff,
      field_length, min_eq_left (by omega), indexCountOf]
    by_cases hlong : indexOffsetOf data + 2 ≤ data.length - 12
    · rw [field_field _ (by omega), Nat.add_zero]
      omega
    · exact iff_of_false (by omega) (by omega)
  · rw [slice, if_neg (fun h => hslice h.1)]
    exact iff_of_false (fun h => h rfl) (by omega)

theorem objects_rejected_iff (data : Bytes) :
    ((decodeAllReads.run data).attempt ≠ none ∧ readFooterIndex data ≠ none) ↔
      FooterSound data := by
  rw [decodeAllReads_eq, readFooterIndex_ne_none_iff]
  exact and_iff_right (Option.some_ne_none _)

theorem footer_offset_aborts :
    readFooterIndex (beEncode 8 1 ++ beEncode 4 s3ObjectMagic.toNat) = none := by
  decide

def indexEntries : ℕ → List S3DataBlock → List S3BlockIndex
  | _, [] => []
  | byteOffset, block :: blocks =>
      let byteLength := (encodeBlock block).length
      ⟨block.streamId, block.startOffset, block.endOffset, block.recordCount, byteOffset,
        byteLength⟩ :: indexEntries (byteOffset + byteLength) blocks

def encodeEntry (entry : S3BlockIndex) : Bytes :=
  beEncode 8 entry.streamId ++ (beEncode 8 (ofSigned 64 entry.startOffset) ++
    (beEncode 8 (ofSigned 64 entry.endOffset) ++ (beEncode 4 entry.recordCount ++
      (beEncode 8 entry.byteOffset ++ beEncode 8 entry.byteLength))))

theorem encodeIndex_eq (pos : ℕ) (blks : List S3DataBlock) :
    encodeIndex pos blks = (indexEntries pos blks).flatMap encodeEntry := by
  induction blks generalizing pos with
  | nil => rfl
  | cons block blks ih =>
    rw [encodeIndex, ih, indexEntries, flatMap_cons, encodeEntry]
    simp only [append_assoc]

@[simp] theorem indexEntries_length (pos : ℕ) (blks : List S3DataBlock) :
    (indexEntries pos blks).length = blks.length := by
  induction blks generalizing pos with
  | nil => rfl
  | cons block blks ih => rw [indexEntries, length_cons, ih, length_cons]

theorem indexEntries_fits (h : ∀ b ∈ blocks, b.Fits) {byteOffset : ℕ}
    (hroom : byteOffset + (blocks.flatMap encodeBlock).length < 2 ^ 64) :
    ∀ e ∈ indexEntries byteOffset blocks, e.Fits := by
  induction blocks generalizing byteOffset with
  | nil => simp [indexEntries]
  | cons block blocks ih =>
    obtain ⟨hblk, hblocks⟩ := forall_mem_cons.mp h
    rw [flatMap_cons, length_append] at hroom
    rw [indexEntries]
    refine forall_mem_cons.mpr ⟨⟨hblk.streamId, hblk.startOffset, hblk.endOffset,
      hblk.recordCount, ?_, ?_⟩, ih hblocks (by omega)⟩
    · show byteOffset < 2 ^ 64
      omega
    · show (encodeBlock block).length < 2 ^ 64
      omega

theorem reads_signed (x : ℤ) {α : Type} {f : ℕ → Decoder OxideMqError α}
    {ys : Bytes} {a : α} (hf : Reads (f (ofSigned 64 x)) ys a) :
    Reads (getNat 8 >>= f) (beEncode 8 (ofSigned 64 x) ++ ys) a :=
  .bind (.getNat ((ofSigned_lt 64 x).trans_eq (by norm_num))) hf

theorem reads_encodeEntry {entry : S3BlockIndex} (h : entry.Fits) :
    Reads readEntry (encodeEntry entry) entry := by
  have hval : (⟨entry.streamId, toSigned 64 (ofSigned 64 entry.startOffset),
      toSigned 64 (ofSigned 64 entry.endOffset), entry.recordCount, entry.byteOffset,
      entry.byteLength⟩ : S3BlockIndex) = entry := by
    rw [toSigned_ofSigned (by norm_num) h.startOffset, toSigned_ofSigned (by norm_num) h.endOffset]
  rw [readEntry, encodeEntry]
  apply Reads.bind (.getNat (h.streamId.trans_eq (by norm_num)))
  apply reads_signed
  apply reads_signed
  apply Reads.bind (.getNat (h.recordCount.trans_eq (by norm_num)))
  apply Reads.bind (.getNat (h.byteOffset.trans_eq (by norm_num)))
  apply Reads.bind_tail (.getNat (h.byteLength.trans_eq (by norm_num)))
  rw [hval]
  exact .pure entry

def bodyBytes (blocks : List S3DataBlock) : Bytes :=
  beEncode 4 s3ObjectMagic.toNat ++ (beEncode 2 s3ObjectVersion ++ (beEncode 2 blocks.length ++
    blocks.flatMap encodeBlock))

def indexBytes (blocks : List S3DataBlock) : Bytes :=
  beEncode 2 blocks.length ++ (indexEntries 8 blocks).flatMap encodeEntry

theorem encode_eq (blks : List S3DataBlock) : encode blks = (bodyBytes blks ++ indexBytes blks) ++
      (beEncode 8 (8 + (blks.flatMap encodeBlock).length) ++ beEncode 4 s3ObjectMagic.toNat) := by
  rw [encode, encodeFooter, encodeIndex_eq, bodyBytes, indexBytes]
  simp only [append_assoc]

theorem bodyBytes_length (blks : List S3DataBlock) :
    (bodyBytes blks).length = 8 + (blks.flatMap encodeBlock).length := by
  simp only [bodyBytes, length_append, beEncode_length]
  omega

theorem encode_length (blks : List S3DataBlock) :
    (encode blks).length = (bodyBytes blks ++ indexBytes blks).length + 12 := by
  have hfooter (n m : ℕ) : (beEncode 8 n ++ beEncode 4 m).length = 12 := by
    rw [length_append, beEncode_length, beEncode_length]
  rw [encode_eq, length_append, hfooter]

theorem flatMap_encodeBlock_length_le (h : ∀ b ∈ blocks, b.Fits) :
    (blocks.flatMap encodeBlock).length ≤ blocks.length * (36 + 2 ^ 32) := by
  induction blocks with
  | nil => simp
  | cons block blocks ih =>
    obtain ⟨hblk, hblocks⟩ := forall_mem_cons.mp h
    have hdata := hblk.data
    have hrest := ih hblocks
    rw [flatMap_cons, length_append, encodeBlock_length, length_cons]
    omega

theorem indexOffsetOf_encode (hcnt : blocks.length ≤ 65535) (h : ∀ b ∈ blocks, b.Fits) :
    indexOffsetOf (encode blocks) = (bodyBytes blocks).length := by
  have hlen := flatMap_encodeBlock_length_le h
  rw [indexOffsetOf, encode_length, Nat.add_sub_cancel, encode_eq,
    field_append_right (j := 0) _ _ (Nat.add_zero _).symm,
    field_prefix _ _ (beEncode_length _ _).symm, beDecode_beEncode, Nat.mod_eq_of_lt (by omega),
    bodyBytes_length]

theorem footerMagicOf_encode (blks : List S3DataBlock) :
    footerMagicOf (encode blks) = s3ObjectMagic := by
  rw [footerMagicOf, encode_length, Nat.add_sub_assoc (by norm_num), encode_eq,
    field_append_right (j := 8) _ _ rfl,
    field_append_right (j := 0) _ _ (by rw [beEncode_length]), ← append_nil (beEncode 4 _),
    field_prefix _ _ (beEncode_length _ _).symm, beDecode_beEncode]
  decide

theorem readFooterIndex_encode (hcnt : blocks.length ≤ 65535) (h : ∀ b ∈ blocks, b.Fits) :
    readFooterIndex (encode blocks) = some (.ok (indexEntries 8 blocks)) := by
  have hlen := flatMap_encodeBlock_length_le h
  have hobj := encode_length blocks
  rw [length_append] at hobj
  have hslice : slice (encode blocks) (bodyBytes blocks).length ((encode blocks).length - 12) =
      some (indexBytes blocks) := by
    have hsize : (encode blocks).length - 12 - (bodyBytes blocks).length =
        (indexBytes blocks).length := by
      omega
    rw [slice_of_le (by omega) (by omega), hsize, encode_eq, append_assoc,
      field_append_right (j := 0) _ _ (Nat.add_zero _).symm, field_prefix _ _ rfl]
  have hentries : Reads readEntries (indexBytes blocks) (indexEntries 8 blocks) := by
    refine .bind (.getNat (by omega)) ?_
    have hread : Reads (readEntry.times (indexEntries 8 blocks).length)
        ((indexEntries 8 blocks).flatMap encodeEntry) ((indexEntries 8 blocks).map id) :=
      .times fun e he => reads_encodeEntry (indexEntries_fits h (by omega) e he)
    rwa [indexEntries_length, map_id] at hread
  have hrun := hentries []
  rw [append_nil] at hrun
  rw [readFooterIndex_eq (by omega), footerMagicOf_encode, indexOffsetOf_encode hcnt h,
    if_neg (by simp), if_neg (by omega), hslice, Option.bind_some, hrun]
  rfl

def Contiguous : ℕ → List S3BlockIndex → ℕ → Prop
  | start, [], stop => start = stop
  | start, entry :: entries, stop =>
      entry.byteOffset = start ∧ Contiguous (entry.byteOffset + entry.byteLength) entries stop

theorem contiguous_indexEntries (pos : ℕ) (blks : List S3DataBlock) :
    Contiguous pos (indexEntries pos blks) (pos + (blks.flatMap encodeBlock).length) := by
  induction blks generalizing pos with
  | nil => rfl
  | cons block blks ih =>
    refine ⟨rfl, ?_⟩
    rw [flatMap_cons, length_append, ← Nat.add_assoc]
    exact ih _

theorem Contiguous.pairwise {start stop : ℕ} {es : List S3BlockIndex}
    (h : Contiguous start es stop) :
    (∀ e ∈ es, start ≤ e.byteOffset) ∧
      es.Pairwise fun e e' => e.byteOffset + e.byteLength ≤ e'.byteOffset := by
  induction es generalizing start with
  | nil => exact ⟨nofun, List.Pairwise.nil⟩
  | cons entry es ih =>
    obtain ⟨hstart, hrest⟩ := h
    obtain ⟨hbehind, hpw⟩ := ih hrest
    refine ⟨forall_mem_cons.mpr ⟨hstart.ge, fun e he => ?_⟩, pairwise_cons.mpr ⟨hbehind, hpw⟩⟩
    have hlater := hbehind e he
    omega

structure PointsAt (data : Bytes) (block : S3DataBlock) (entry : S3BlockIndex) : Prop where
  streamId : entry.streamId = block.streamId
  startOffset : entry.startOffset = block.startOffset
  endOffset : entry.endOffset = block.endOffset
  recordCount : entry.recordCount = block.recordCount
  range : slice data entry.byteOffset (entry.byteOffset + entry.byteLength) =
    some (encodeBlock block)

theorem indexEntries_pointAt (front : Bytes) (blks : List S3DataBlock) (rest : Bytes) :
    List.Forall₂ (PointsAt (front ++ (blks.flatMap encodeBlock ++ rest))) blks
      (indexEntries front.length blks) := by
  induction blks generalizing front with
  | nil => exact List.Forall₂.nil
  | cons block blks ih =>
    rw [indexEntries]
    refine List.Forall₂.cons ⟨rfl, rfl, rfl, rfl, ?_⟩ ?_
    · dsimp only
      rw [slice_of_le (Nat.le_add_right _ _) (by simp), Nat.add_sub_cancel_left,
        field_append_right (j := 0) _ _ (Nat.add_zero _).symm, flatMap_cons,
        append_assoc, field_prefix _ _ rfl]
    · have hbehind := ih (front ++ encodeBlock block)
      rw [length_append, append_assoc] at hbehind
      rwa [flatMap_cons, append_assoc]

theorem index_points_at_blocks {blocks : List S3DataBlock} (hcount : blocks.length ≤ 65535)
    (h : ∀ b ∈ blocks, b.Fits) :
    (decodeAllReads.run (encode blocks)).attempt = some (.ok blocks) ∧
      ∃ entries, readFooterIndex (encode blocks) = some (.ok entries) ∧
        List.Forall₂ (PointsAt (encode blocks)) blocks entries ∧
        Contiguous 8 entries (indexOffsetOf (encode blocks)) ∧
        (entries.Pairwise fun e e' => e.byteOffset + e.byteLength ≤ e'.byteOffset) ∧
        (encode blocks).drop (indexOffsetOf (encode blocks)) = encodeFooter blocks := by
  have hcont := contiguous_indexEntries 8 blocks
  rw [← bodyBytes_length, ← indexOffsetOf_encode hcount h] at hcont
  refine ⟨?_, indexEntries 8 blocks, readFooterIndex_encode hcount h, ?_, hcont,
    hcont.pairwise.2, ?_⟩
  · rw [decodeAllReads_eq, decodeAll_encode (by omega) h]
  · have hpoints := indexEntries_pointAt (beEncode 4 s3ObjectMagic.toNat ++
      (beEncode 2 s3ObjectVersion ++ beEncode 2 blocks.length)) blocks (encodeFooter blocks)
    simp only [List.length_append, beEncode_length, List.append_assoc] at hpoints
    exact hpoints
  · have hencode : encode blocks = bodyBytes blocks ++ encodeFooter blocks := by
      rw [encode, bodyBytes]
      simp only [List.append_assoc]
    rw [indexOffsetOf_encode hcount h, hencode]
    exact List.drop_left

theorem index_points_at_two_blocks :
    ∃ entries, readFooterIndex (encode [⟨1, 0, 2, 2, [7, 8, 9]⟩, ⟨2, 5, 6, 1, [4]⟩]) =
      some (.ok entries) ∧ entries.map (fun e => (e.byteOffset, e.byteLength)) =
        [(8, 39), (47, 37)] := by
  have hfits : ∀ b ∈ [(⟨1, 0, 2, 2, [7, 8, 9]⟩ : S3DataBlock), ⟨2, 5, 6, 1, [4]⟩], b.Fits := by
    refine List.forall_mem_cons.mpr ⟨⟨?_, ?_, ?_, ?_, ?_⟩, List.forall_mem_cons.mpr
      ⟨⟨?_, ?_, ?_, ?_, ?_⟩, nofun⟩⟩ <;> decide
  obtain ⟨-, entries, hread, -⟩ := index_points_at_blocks (by decide) hfits
  have hentries := readFooterIndex_encode (by decide) hfits
  rw [hread] at hentries
  refine ⟨entries, hread, ?_⟩
  rw [Except.ok.inj (Option.some.inj hentries)]
  decide

end S3ObjectCodec

end OxideMq.Stream
