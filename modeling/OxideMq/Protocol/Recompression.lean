import OxideMq.Protocol.Records

/-! Compressing batches again. -/

namespace OxideMq.Protocol

open Lib OxideMq.Core Attempt

def CompleteAt (cursor : ℕ) (rest : Bytes) : Prop :=
  61 ≤ rest.length ∧ magicOf rest = 2 ∧
    ¬ (cursor + (12 + batchLengthOf rest) < 0 ∨ 12 + batchLengthOf rest > rest.length)

instance (cursor : ℕ) (rest : Bytes) : Decidable (CompleteAt cursor rest) :=
  inferInstanceAs (Decidable (_ ∧ _))

def splitBatches : ℕ → ℕ → Bytes → List Bytes × Bytes
  | 0, _, rest => ([], rest)
  | fuel + 1, cursor, rest =>
      if CompleteAt cursor rest then
        let total := (12 + batchLengthOf rest).toNat
        let (batches, tail) := splitBatches fuel (cursor + total) (rest.drop total)
        (rest.take total :: batches, tail)
      else ([], rest)

def completeBatches (batchBytes : Bytes) : List Bytes :=
  (splitBatches batchBytes.length 0 batchBytes).1

def trailingBytes (batchBytes : Bytes) : Bytes :=
  (splitBatches batchBytes.length 0 batchBytes).2

section

variable {libs : Compressors} {cursor : ℕ} {rest : Bytes}

theorem CompleteAt.framed_take (h : CompleteAt cursor rest)
    (hlen : 61 ≤ (rest.take (12 + batchLengthOf rest).toNat).length) :
    Framed (rest.take (12 + batchLengthOf rest).toNat) := by
  obtain ⟨hhead, hmagic, hends⟩ := h
  generalize htot : (12 + batchLengthOf rest).toNat = total at hlen ⊢
  have htake : (rest.take total).length = total := by
    rw [List.length_take]
    omega
  have hrest := List.take_append_drop total rest
  refine ⟨hlen, ?_, ?_⟩
  · rw [← magicOf_append (by omega) (rest.drop total), hrest]
    exact hmagic
  · have hfield : batchLengthOf (rest.take total ++ rest.drop total) =
        batchLengthOf (rest.take total) := by
      rw [batchLengthOf, field_append_left _ _ (by omega), batchLengthOf]
    rw [← hfield, hrest, htake]
    omega

theorem splitBatches_spec {fuel : ℕ} (hfuel : rest.length ≤ fuel)
    (hlens : ∀ b ∈ (splitBatches fuel cursor rest).1, 61 ≤ b.length) :
    (splitBatches fuel cursor rest).1.flatten ++ (splitBatches fuel cursor rest).2 = rest ∧
      (∀ b ∈ (splitBatches fuel cursor rest).1, Framed b) ∧
      ¬ CompleteAt (cursor + (splitBatches fuel cursor rest).1.flatten.length)
        (splitBatches fuel cursor rest).2 := by
  induction fuel generalizing cursor rest with
  | zero =>
    refine ⟨rfl, List.forall_mem_nil _, fun hcomp => ?_⟩
    have hhead : 61 ≤ rest.length := hcomp.1
    omega
  | succ fuel ih =>
    rw [splitBatches] at hlens ⊢
    split at hlens
    · rename_i hcomp
      rw [if_pos hcomp]
      obtain ⟨hfirst, hoths⟩ := List.forall_mem_cons.mp hlens
      have hfr := hcomp.framed_take hfirst
      have hends := hcomp.2.2
      rw [List.length_take] at hfirst
      obtain ⟨heq, hbs, hstop⟩ := ih (by rw [List.length_drop]; omega) hoths
      refine ⟨?_, List.forall_mem_cons.mpr ⟨hfr, hbs⟩, ?_⟩
      · rw [List.flatten_cons, List.append_assoc, heq, List.take_append_drop]
      · rw [List.flatten_cons, List.length_append, List.length_take, ← Nat.add_assoc,
          Nat.min_eq_left (by omega)]
        exact hstop
    · rename_i hinc
      rw [if_neg hinc]
      exact ⟨rfl, List.forall_mem_nil _, hinc⟩

theorem completeBatches_spec {bytes : Bytes} (hlens : ∀ b ∈ completeBatches bytes, 61 ≤ b.length) :
    (completeBatches bytes).flatten ++ trailingBytes bytes = bytes ∧
      (∀ b ∈ completeBatches bytes, Framed b) ∧
      ¬ CompleteAt (completeBatches bytes).flatten.length (trailingBytes bytes) := by
  obtain ⟨heq, hfr, hstop⟩ := splitBatches_spec le_rfl hlens
  rw [Nat.zero_add] at hstop
  exact ⟨heq, hfr, hstop⟩

theorem decompressLoop_of_not_completeAt (h : ¬ CompleteAt cursor rest) (fuel : ℕ) :
    decompressLoop libs fuel cursor rest = some (.ok (false, rest)) := by
  cases fuel with
  | zero => rfl
  | succ fuel =>
    rw [decompressLoop]
    split
    · rename_i hfull
      rw [if_pos (by_contra fun hends => h ⟨hfull.1, hfull.2, hends⟩)]
    · rfl

theorem compressLoop_of_not_completeAt {codec : CompressionCodec} (h : ¬ CompleteAt cursor rest)
    (fuel : ℕ) : compressLoop libs codec fuel cursor rest = some (.ok rest) := by
  cases fuel with
  | zero => rfl
  | succ fuel =>
    rw [compressLoop]
    split
    · rename_i hfull
      rw [if_pos (by_contra fun hends => h ⟨hfull.1, hfull.2, hends⟩)]
    · rfl

theorem parseLoop_of_not_completeAt (h : ¬ CompleteAt cursor rest) (fuel : ℕ) :
    parseLoop fuel cursor rest = some (.ok []) := by
  cases fuel with
  | zero => rfl
  | succ fuel =>
    rw [parseLoop]
    split
    · rename_i hfull
      rw [if_pos (by_contra fun hends => h ⟨hfull.1, hfull.2, hends⟩)]
    · rfl

theorem CompleteAt.negative {pos : ℕ} (h : CompleteAt pos rest)
    (hstop : ¬ CompleteAt cursor rest) : batchLengthOf rest < -12 := by
  obtain ⟨hhead, hmagic, hends⟩ := h
  by_contra hnegative
  exact hstop ⟨hhead, hmagic, by omega⟩

end

/-- What `compress_record_batch` makes of one decompressed batch. -/
def deflate (libs : Compressors) (codec : CompressionCodec) (batch : Bytes) :
    Except OxideMqError Bytes :=
  (codec.compress libs (batch.drop 61)).map (deflateBatch codec batch)

section

variable {libs : Compressors} {codec : CompressionCodec} {batch tail : Bytes} {batches : List Bytes}

theorem compressLoop_batch (h : Framed batch) (fuel cur : ℕ) (rest : Bytes) :
    compressLoop libs codec (fuel + 1) cur (batch ++ rest) =
      andThen (some (deflate libs codec batch)) fun deflated =>
        (compressLoop libs codec fuel (cur + batch.length) rest).andThen fun out =>
          some (.ok (deflated ++ out)) := by
  have hhead := h.header
  rw [compressLoop, if_pos (h.header_append rest)]
  simp only [h.total_append, Int.toNat_natCast]
  rw [if_neg (by simp; omega), if_neg (by omega), field_body hhead, List.drop_left, deflate]
  cases codec.compress libs (batch.drop 61) with
  | error e => rfl
  | ok compressed => simp only [Except.map, andThen_ok, deflateBatch_append hhead]

theorem decompressRecordBatch_append (hfr : ∀ b ∈ batches, Framed b) (tail : Bytes) :
    decompressRecordBatch libs (batches.flatten ++ tail) =
      concat (batches.map fun b => some (inflate libs b))
        (decompressOut libs ((batches.flatten ++ tail).length - batches.length)
          batches.flatten.length tail) := by
  have hlen := length_le_flatten_length hfr
  rw [decompressRecordBatch_eq_out, loop_flatten_append (fun _ => decompressOut_batch) hfr
    (by rw [List.length_append]; omega), Nat.zero_add]

theorem decompressRecordBatch_append_eq_ok_iff (hfr : ∀ b ∈ batches, Framed b)
    (hstop : ¬ CompleteAt batches.flatten.length tail) {out : Bytes} :
    decompressRecordBatch libs (batches.flatten ++ tail) = some (.ok out) ↔
      ∃ inflated, List.Forall₂ (fun b b' => inflate libs b = .ok b') batches inflated ∧
        out = inflated.flatten ++ tail := by
  rw [decompressRecordBatch_append hfr, decompressOut, decompressLoop_of_not_completeAt hstop,
    andThen_ok, concat_eq_ok_iff]
  simp only [List.forall₂_map_left_iff, Option.some.injEq, Except.ok.injEq, exists_and_left,
    exists_eq_left']

theorem decompressRecordBatch_append_eq_none (hfr : ∀ b ∈ batches, Framed b) {inflated : List Bytes}
    (hinf : List.Forall₂ (fun b b' => inflate libs b = .ok b') batches inflated)
    (hcomp : CompleteAt batches.flatten.length tail) (hneg : batchLengthOf tail < -12) :
    decompressRecordBatch libs (batches.flatten ++ tail) = none := by
  have hlen := length_le_flatten_length hfr
  have htail := hcomp.1
  obtain ⟨fuel, hfuel⟩ := Nat.exists_eq_add_one.mpr
    (show 0 < (batches.flatten ++ tail).length - batches.length by rw [List.length_append]; omega)
  -- a batch that counts as complete with a negative length ends before it starts
  have hends : decompressOut libs (fuel + 1) batches.flatten.length tail = none := by
    rw [decompressOut, decompressLoop, if_pos ⟨hcomp.1, hcomp.2.1⟩]
    dsimp only
    rw [if_neg hcomp.2.2]
    split
    · rw [if_pos (by omega)]
      rfl
    · rw [if_pos (by omega)]
      rfl
  rw [decompressRecordBatch_append hfr, hfuel, hends]
  exact concat_eq_none (List.forall₂_map_left_iff.mpr (hinf.imp fun _ _ h => congrArg some h))

theorem compressLoop_append_eq_ok_iff (hfr : ∀ b ∈ batches, Framed b)
    (hstop : ¬ CompleteAt batches.flatten.length tail) {out : Bytes} :
    compressLoop libs codec (batches.flatten ++ tail).length 0 (batches.flatten ++ tail) =
        some (.ok out) ↔
      ∃ deflated, List.Forall₂ (fun b b' => deflate libs codec b = .ok b') batches deflated ∧
        out = deflated.flatten ++ tail := by
  have hlen := length_le_flatten_length hfr
  rw [loop_flatten_append (fun _ => compressLoop_batch) hfr
    (by rw [List.length_append]; omega), Nat.zero_add, compressLoop_of_not_completeAt hstop,
    concat_eq_ok_iff]
  simp only [List.forall₂_map_left_iff, Option.some.injEq, Except.ok.injEq, exists_and_left,
    exists_eq_left']

theorem parseLoop_append (hfr : ∀ b ∈ batches, Framed b)
    (hstop : ¬ CompleteAt batches.flatten.length tail) :
    parseLoop (batches.flatten ++ tail).length 0 (batches.flatten ++ tail) =
      concat (batches.map parseBatch) (some (.ok [])) := by
  have hlen := length_le_flatten_length hfr
  rw [loop_flatten_append (fun _ => parseLoop_batch) hfr
    (by rw [List.length_append]; omega), Nat.zero_add, parseLoop_of_not_completeAt hstop]

end

section

variable {libs : Compressors} {codec : CompressionCodec} {batch payload : Bytes}

structure DeflatedFields (codec : CompressionCodec) (batch out : Bytes) : Prop where
  baseOffset : field out 0 8 = field batch 0 8
  leaderEpoch : field out 12 4 = field batch 12 4
  checksum : field out 17 4 = beEncode 4 (computeCrc32c (out.drop 21)).toNat
  attributes : attributesOf out = 8 * (attributesOf batch / 8) + codec.toAttributes
  others : field out 23 38 = field batch 23 38

theorem toAttributes_lt (codec : CompressionCodec) : codec.toAttributes < 8 := by
  cases codec <;> decide

theorem deflatedFields_deflateBatch (h : 61 ≤ batch.length) (codec : CompressionCodec)
    (payload : Bytes) : DeflatedFields codec batch (deflateBatch codec batch payload) := by
  have h₁ : (field batch 0 8).length = 8 := by rw [field_length]; omega
  have h₂ : (field batch 12 4).length = 4 := by rw [field_length]; omega
  have h₃ : (field batch 23 38).length = 38 := by rw [field_length]; omega
  refine ⟨?_, ?_, ?_, ?_, ?_⟩
  · rw [deflateBatch, field_prefix _ _ h₁.symm]
  · simp [deflateBatch, field_append_of_le, field_prefix, h₁, h₂]
  · simp [deflateBatch, field_append_of_le, field_prefix, field_cons, List.drop_append,
      List.drop_eq_nil_of_le, h₁, h₂]
  · have hcodec := toAttributes_lt codec
    have hlt : attributesOf batch < 256 ^ 2 := beDecode_field_lt batch 21 2
    have hdiv : attributesOf batch - attributesOf batch % 8 = 2 ^ 3 * (attributesOf batch / 8) := by
      omega
    have hor := Nat.two_pow_add_eq_or_of_lt (i := 3) hcodec (attributesOf batch / 8)
    have hfield : field (deflateBatch codec batch payload) 21 2 = beEncode 2
        ((attributesOf batch - attributesOf batch % 8) ||| codec.toAttributes) := by
      simp [deflateBatch, field_append_of_le, field_prefix, field_cons, h₁, h₂]
    rw [attributesOf, hfield, beDecode_beEncode, hdiv, ← hor]
    exact Nat.mod_eq_of_lt (by omega)
  · simp [deflateBatch, field_append_of_le, field_prefix, field_cons, h₁, h₂, h₃]

theorem deflateBatch_deflateBatch (h : 61 ≤ batch.length) (codec' : CompressionCodec)
    (payload' : Bytes) :
    deflateBatch codec (deflateBatch codec' batch payload') payload =
      deflateBatch codec batch payload := by
  have hfields := deflatedFields_deflateBatch h codec' payload'
  have hcodec := toAttributes_lt codec'
  have hattr : attributesOf (deflateBatch codec' batch payload') -
      attributesOf (deflateBatch codec' batch payload') % 8 =
        attributesOf batch - attributesOf batch % 8 := by
    rw [hfields.attributes]
    omega
  generalize deflateBatch codec' batch payload' = out at hfields hattr ⊢
  simp only [deflateBatch, hattr, hfields.baseOffset, hfields.leaderEpoch, hfields.others]

end

def payloadOf (libs : Compressors) (codec : CompressionCodec) (batch : Bytes) : Bytes :=
  match bodyOf libs batch with
  | .error _ => []
  | .ok body =>
      match codec.compress libs body with
      | .error _ => []
      | .ok payload => payload

/-- A batch as `compress_record_batch` puts it out. -/
def rewritten (libs : Compressors) (codec : CompressionCodec) (batch : Bytes) : Bytes :=
  if codec = .none ∧ codecOf batch = .none then batch
  else deflateBatch codec batch (payloadOf libs codec batch)

def Readable (libs : Compressors) (batch : Bytes) : Prop :=
  Framed batch ∧ ∃ body, bodyOf libs batch = .ok body

structure Lossless (libs : Compressors) : Prop where
  compresses : ∀ (codec : CompressionCodec) data, ∃ out, codec.compress libs data = .ok out
  undoes : ∀ (codec : CompressionCodec) data out, codec.compress libs data = .ok out →
    codec.decompress libs out = .ok data

section

variable {libs : Compressors} {codec : CompressionCodec} {batch body : Bytes}

theorem payloadOf_none (hbody : bodyOf libs batch = .ok body) :
    payloadOf libs .none batch = body := by
  rw [payloadOf, hbody]
  rfl

theorem compress_eq_payloadOf (hlibs : Lossless libs) (hbody : bodyOf libs batch = .ok body) :
    codec.compress libs body = .ok (payloadOf libs codec batch) := by
  obtain ⟨out, hout⟩ := hlibs.compresses codec body
  rw [payloadOf, hbody]
  simp only [hout]

theorem codecOf_rewritten (h : Framed batch) : codecOf (rewritten libs codec batch) = codec := by
  rw [rewritten]
  split
  · rename_i hcopy
    rw [hcopy.1, hcopy.2]
  · have hcodec := toAttributes_lt codec
    have hmod : (8 * (attributesOf batch / 8) + codec.toAttributes) % 8 = codec.toAttributes := by
      omega
    rw [codecOf, (deflatedFields_deflateBatch h.header codec _).attributes,
      CompressionCodec.fromAttributes, hmod]
    cases codec <;> rfl

variable (h : Readable libs batch)

include h

theorem inflated_rewritten :
    Inflated batch (rewritten libs codec batch) (payloadOf libs codec batch) := by
  obtain ⟨hfr, body, hbody⟩ := h
  rw [rewritten]
  split
  · rename_i hcopy
    obtain ⟨rfl, hnone⟩ := hcopy
    rw [payloadOf_none hbody]
    rw [bodyOf, hnone] at hbody
    exact Except.ok.inj hbody ▸ hfr.inflated_self
  · exact inflated_deflateBatch hfr.header codec _

theorem deflate_rewritten (hlibs : Lossless libs) (hcodec : codec ≠ .none) :
    deflate libs codec (rewritten libs .none batch) = .ok (rewritten libs codec batch) := by
  obtain ⟨hfr, body, hbody⟩ := id h
  have hwr : rewritten libs codec batch =
      deflateBatch codec batch (payloadOf libs codec batch) := if_neg fun hcopy => hcodec hcopy.1
  rw [deflate, (inflated_rewritten h).body, payloadOf_none hbody,
    compress_eq_payloadOf hlibs hbody, hwr, rewritten]
  split
  · rfl
  · rw [Except.map, deflateBatch_deflateBatch hfr.header]

theorem bodyOf_rewritten (hlibs : Lossless libs) :
    bodyOf libs (rewritten libs codec batch) = bodyOf libs batch := by
  obtain ⟨hfr, body, hbody⟩ := id h
  rw [bodyOf, codecOf_rewritten hfr, (inflated_rewritten h).body, hbody]
  exact hlibs.undoes codec body _ (compress_eq_payloadOf hlibs hbody)

end

def writtenLength (libs : Compressors) (codec : CompressionCodec) (batch : Bytes) : ℕ :=
  61 + (payloadOf libs codec batch).length

structure Written (codec : CompressionCodec) (batch out : Bytes) : Prop where
  framed : Framed out
  copied : codec = .none → codecOf batch = .none → out = batch
  checksum : ¬ (codec = .none ∧ codecOf batch = .none) →
    field out 17 4 = beEncode 4 (computeCrc32c (out.drop 21)).toNat

section

variable {libs : Compressors} {codec : CompressionCodec} {batch : Bytes} (h : Readable libs batch)

include h

theorem framed_rewritten (hsize : writtenLength libs codec batch < 2 ^ 31) :
    Framed (rewritten libs codec batch) := by
  rw [writtenLength] at hsize
  exact (inflated_rewritten h).framed (by omega)

theorem writtenLength_rewritten (hlibs : Lossless libs) :
    writtenLength libs .none (rewritten libs codec batch) = writtenLength libs .none batch := by
  rw [writtenLength, payloadOf, bodyOf_rewritten h hlibs]
  rfl

theorem recordsAt_rewritten (hlibs : Lossless libs) :
    recordsAt libs (baseOffsetOf (rewritten libs codec batch)) (rewritten libs codec batch) =
      recordsAt libs (baseOffsetOf batch) batch := by
  have hfields : Inflated batch (rewritten libs codec batch) _ := inflated_rewritten h
  rw [recordsAt, bodyOf_rewritten h hlibs, hfields.baseOffset, hfields.baseTimestamp,
    hfields.numRecords, recordsAt]

end

section

variable {libs : Compressors} {codec : CompressionCodec} {batches : List Bytes} {tail : Bytes}

def allRewritten (libs : Compressors) (codec : CompressionCodec) (batches : List Bytes) :
    List Bytes :=
  batches.map (rewritten libs codec)

theorem forall₂_map_right {R : Bytes → Bytes → Prop} {f : Bytes → Bytes}
    (h : ∀ b ∈ batches, R b (f b)) : List.Forall₂ R batches (batches.map f) :=
  List.forall₂_map_right_iff.mpr (List.forall₂_same.mpr h)

theorem length_allRewritten (hbs : ∀ b ∈ batches, Readable libs b) :
    (allRewritten libs codec batches).flatten.length =
      (batches.map (writtenLength libs codec)).sum := by
  rw [allRewritten, List.length_flatten, List.map_map]
  congr 1
  apply List.map_congr_left
  intro b hb
  exact (inflated_rewritten (hbs b hb)).length

theorem readable_of_inflate {inflated : List Bytes} (hfr : ∀ b ∈ batches, Framed b)
    (h : List.Forall₂ (fun b b' => inflate libs b = .ok b') batches inflated) :
    ∀ b ∈ batches, Readable libs b := by
  induction h with
  | nil => exact List.forall_mem_nil _
  | cons hfirst _ ih =>
    obtain ⟨hb, hbs⟩ := List.forall_mem_cons.mp hfr
    obtain ⟨body, hbody, -⟩ := inflated_of_inflate hb hfirst
    exact List.forall_mem_cons.mpr ⟨⟨hb, body, hbody⟩, ih hbs⟩

theorem readable_allRewritten (hlibs : Lossless libs) (hbs : ∀ b ∈ batches, Readable libs b)
    (hsize : ∀ b ∈ batches, writtenLength libs codec b < 2 ^ 31) :
    ∀ b ∈ allRewritten libs codec batches, Readable libs b := by
  rw [allRewritten, List.forall_mem_map]
  intro b hb
  have hread := hbs b hb
  exact ⟨framed_rewritten hread (hsize b hb), by rw [bodyOf_rewritten hread hlibs]; exact hread.2⟩

theorem inflate_allRewritten (hbs : ∀ b ∈ batches, Readable libs b) :
    List.Forall₂ (fun b b' => inflate libs b = .ok b') batches
      (allRewritten libs .none batches) := by
  apply forall₂_map_right
  intro b hb
  obtain ⟨-, body, hbody⟩ := hbs b hb
  rw [inflate, rewritten]
  by_cases hnone : codecOf b = .none
  · rw [if_pos hnone, if_pos ⟨rfl, hnone⟩]
  · rw [if_neg hnone, if_neg fun hcopy => hnone hcopy.2, hbody, payloadOf_none hbody,
      ← inflateBatch_eq_deflateBatch]
    rfl

theorem decompress_readable (hbs : ∀ b ∈ batches, Readable libs b)
    (hstop : ¬ CompleteAt batches.flatten.length tail) :
    decompressRecordBatch libs (batches.flatten ++ tail) =
      some (.ok ((allRewritten libs .none batches).flatten ++ tail)) :=
  (decompressRecordBatch_append_eq_ok_iff (fun b hb => (hbs b hb).1) hstop).mpr
    ⟨_, inflate_allRewritten hbs, rfl⟩

theorem compress_readable (hlibs : Lossless libs) (hbs : ∀ b ∈ batches, Readable libs b)
    (hsize : ∀ b ∈ batches, writtenLength libs .none b < 2 ^ 31)
    (hstop : ¬ CompleteAt batches.flatten.length tail)
    (hstop' : ¬ CompleteAt (allRewritten libs .none batches).flatten.length tail) :
    compressRecordBatch libs (batches.flatten ++ tail) codec =
      some (.ok ((allRewritten libs codec batches).flatten ++ tail)) := by
  rw [compressRecordBatch, decompress_readable hbs hstop]
  split
  · rename_i hnone
    rw [hnone]
  · rename_i hcodec
    have hfr := fun b hb => (readable_allRewritten hlibs hbs hsize b hb).1
    have hcnt := length_le_flatten_length hfr
    rw [andThen_ok]
    split
    · -- there is no batch at all
      rename_i hshort
      rw [List.length_append] at hshort
      have hlen : (allRewritten libs .none batches).length = batches.length := List.length_map _
      obtain rfl : batches = [] := List.length_eq_zero_iff.mp (by omega)
      rfl
    · rw [compressLoop_append_eq_ok_iff hfr hstop']
      refine ⟨allRewritten libs codec batches, ?_, rfl⟩
      rw [allRewritten, List.forall₂_map_left_iff]
      exact forall₂_map_right fun b hb => deflate_rewritten (hbs b hb) hlibs hcodec

theorem parse_readable (hbs : ∀ b ∈ batches, Readable libs b)
    (hsizes : ∀ b ∈ batches, writtenLength libs .none b < 2 ^ 31)
    (hstop : ¬ CompleteAt batches.flatten.length tail)
    (hstop' : ¬ CompleteAt (allRewritten libs .none batches).flatten.length tail) :
    parseRecordBatchRecords libs (batches.flatten ++ tail) =
      concat (batches.map fun b => recordsAt libs (baseOffsetOf b) b) (some (.ok [])) := by
  have hfits : ∀ b ∈ batches, BodyFits libs b := by
    intro b hb body hbody
    have hsize := hsizes b hb
    rw [writtenLength, payloadOf_none hbody] at hsize
    omega
  obtain ⟨hfr, hparse⟩ :=
    parse_inflated (fun b hb => (hbs b hb).1) hfits (inflate_allRewritten hbs)
  rw [parseRecordBatchRecords, decompress_readable hbs hstop, andThen_ok,
    parseLoop_append hfr hstop', hparse]

theorem parse_allRewritten (hlibs : Lossless libs) (hbs : ∀ b ∈ batches, Readable libs b)
    (hsize : ∀ b ∈ batches, writtenLength libs .none b < 2 ^ 31)
    (hsize' : ∀ b ∈ batches, writtenLength libs codec b < 2 ^ 31)
    (hstop : ¬ CompleteAt (allRewritten libs codec batches).flatten.length tail)
    (hstop' : ¬ CompleteAt (allRewritten libs .none batches).flatten.length tail) :
    parseRecordBatchRecords libs ((allRewritten libs codec batches).flatten ++ tail) =
      concat (batches.map fun b => recordsAt libs (baseOffsetOf b) b) (some (.ok [])) := by
  have hread := readable_allRewritten hlibs hbs hsize'
  have hlens : (allRewritten libs codec batches).map (writtenLength libs .none) =
      batches.map (writtenLength libs .none) := by
    rw [allRewritten, List.map_map]
    exact List.map_congr_left fun b hb => writtenLength_rewritten (hbs b hb) hlibs
  have hsize'' : ∀ b ∈ allRewritten libs codec batches, writtenLength libs .none b < 2 ^ 31 := by
    rw [allRewritten, List.forall_mem_map]
    intro b hb
    rw [writtenLength_rewritten (hbs b hb) hlibs]
    exact hsize b hb
  rw [length_allRewritten hbs, ← hlens, ← length_allRewritten hread] at hstop'
  rw [parse_readable hread hsize'' hstop hstop', allRewritten, List.map_map]
  congr 1
  exact List.map_congr_left fun b hb => recordsAt_rewritten (hbs b hb) hlibs

theorem decompress_allRewritten (hlibs : Lossless libs) (hbs : ∀ b ∈ batches, Readable libs b)
    (hsize : ∀ b ∈ batches, writtenLength libs .none b < 2 ^ 31)
    (hstop : ¬ CompleteAt (allRewritten libs .none batches).flatten.length tail) :
    decompressRecordBatch libs ((allRewritten libs .none batches).flatten ++ tail) =
      some (.ok ((allRewritten libs .none batches).flatten ++ tail)) := by
  rw [decompress_readable (readable_allRewritten hlibs hbs hsize) hstop]
  congr 4
  rw [allRewritten, allRewritten, List.map_map]
  exact List.map_congr_left fun b hb => if_pos ⟨rfl, codecOf_rewritten (hbs b hb).1⟩

theorem decompress_allRewritten_eq_none (hlibs : Lossless libs)
    (hbs : ∀ b ∈ batches, Readable libs b)
    (hsize : ∀ b ∈ batches, writtenLength libs codec b < 2 ^ 31)
    (hstop : ¬ CompleteAt batches.flatten.length tail)
    (hcomp : CompleteAt (allRewritten libs codec batches).flatten.length tail) :
    decompressRecordBatch libs ((allRewritten libs codec batches).flatten ++ tail) = none := by
  have hread := readable_allRewritten hlibs hbs hsize
  exact decompressRecordBatch_append_eq_none (fun b hb => (hread b hb).1)
    (inflate_allRewritten hread) hcomp (hcomp.negative hstop)

end

def WrittenOut (codec : CompressionCodec) (batchBytes out : Bytes) : Prop :=
  ∃ written, List.Forall₂ (Written codec) (completeBatches batchBytes) written ∧
    out = written.flatten ++ trailingBytes batchBytes

structure Recompressed (libs : Compressors) (codec : CompressionCodec)
    (batchBytes uncompressed compressed : Bytes) : Prop where
  compress : compressRecordBatch libs batchBytes codec = some (.ok compressed)
  records : parseRecordBatchRecords libs compressed = parseRecordBatchRecords libs batchBytes
  idempotent : decompressRecordBatch libs uncompressed = some (.ok uncompressed)
  uncompressedBatches : WrittenOut .none batchBytes uncompressed
  compressedBatches : WrittenOut codec batchBytes compressed

def trailingAt (libs : Compressors) (codec : CompressionCodec) (batchBytes : Bytes) : ℕ :=
  ((completeBatches batchBytes).map (writtenLength libs codec)).sum

/-- Trailing bytes do not start with a header of version 2 whose length is negative, or stand so
near to the front that its end, cast to `usize`, is behind the buffer. -/
def StaysIncomplete (position : ℕ) (tail : Bytes) : Prop :=
  61 ≤ tail.length → magicOf tail = 2 → batchLengthOf tail < 0 →
    position + (12 + batchLengthOf tail) < 0

section

variable {libs : Compressors} {codec : CompressionCodec} {batchBytes : Bytes}

theorem staysIncomplete_iff {cur pos : ℕ} {tail : Bytes} (h : ¬ CompleteAt cur tail) :
    StaysIncomplete pos tail ↔ ¬ CompleteAt pos tail := by
  constructor
  · rintro hstay ⟨hhead, hmagic, hends⟩
    apply h
    refine ⟨hhead, hmagic, fun hends' => hends (Or.inl (hstay hhead hmagic ?_))⟩
    omega
  · intro hinc hhead hmagic hneg
    by_contra hends
    exact hinc ⟨hhead, hmagic, by omega⟩

theorem writtenOut_allRewritten (hbs : ∀ b ∈ completeBatches batchBytes, Readable libs b)
    (hsize : ∀ b ∈ completeBatches batchBytes, writtenLength libs codec b < 2 ^ 31) :
    WrittenOut codec batchBytes ((allRewritten libs codec (completeBatches batchBytes)).flatten ++
        trailingBytes batchBytes) := by
  refine ⟨_, forall₂_map_right fun b hb => ⟨framed_rewritten (hbs b hb) (hsize b hb), ?_, ?_⟩, rfl⟩
  · intro hcodec hnone
    exact if_pos ⟨hcodec, hnone⟩
  · intro hrewritten
    rw [rewritten, if_neg hrewritten]
    exact (deflatedFields_deflateBatch (hbs b hb).1.header codec _).checksum

theorem recompression_keeps_records_iff (hlibs : Lossless libs) (batchBytes : Bytes)
    (codec : CompressionCodec) (hlengths : ∀ b ∈ completeBatches batchBytes, 12 + 49 ≤ b.length)
    (hsizes : ∀ b ∈ completeBatches batchBytes,
      writtenLength libs .none b < 2 ^ 31 ∧ writtenLength libs codec b < 2 ^ 31)
    {uncompressed : Bytes} (hdecompress : decompressRecordBatch libs batchBytes =
      some (.ok uncompressed)) :
    (∃ compressed, Recompressed libs codec batchBytes uncompressed compressed) ↔
      StaysIncomplete (trailingAt libs .none batchBytes) (trailingBytes batchBytes) ∧
        StaysIncomplete (trailingAt libs codec batchBytes) (trailingBytes batchBytes) := by
  obtain ⟨hsplit, hfr, hstop⟩ := completeBatches_spec hlengths
  have hsize₁ := fun b hb => (hsizes b hb).1
  have hsize₂ := fun b hb => (hsizes b hb).2
  rw [← hsplit] at hdecompress
  obtain ⟨inflated, hinf, -⟩ :=
    (decompressRecordBatch_append_eq_ok_iff hfr hstop).mp hdecompress
  have hbs := readable_of_inflate hfr hinf
  obtain rfl : _ = uncompressed := Except.ok.inj (Option.some.inj
    ((decompress_readable hbs hstop).symm.trans hdecompress))
  have hplace : ∀ codec, StaysIncomplete (trailingAt libs codec batchBytes)
      (trailingBytes batchBytes) ↔ ¬ CompleteAt
        (allRewritten libs codec (completeBatches batchBytes)).flatten.length
          (trailingBytes batchBytes) := by
    intro codec
    rw [length_allRewritten hbs]
    exact staysIncomplete_iff hstop
  rw [hplace, hplace]
  constructor
  · rintro ⟨compressed, h⟩
    have hfirst : ¬ CompleteAt (allRewritten libs .none (completeBatches batchBytes)).flatten.length
        (trailingBytes batchBytes) := by
      intro hcomplete
      have haborts := decompress_allRewritten_eq_none hlibs hbs hsize₁ hstop hcomplete
      cases h.idempotent.symm.trans haborts
    refine ⟨hfirst, fun hcomplete => ?_⟩
    have hcomp : compressRecordBatch libs _ codec = _ :=
      compress_readable hlibs hbs hsize₁ hstop hfirst
    rw [hsplit, h.compress] at hcomp
    cases hcomp
    -- parsing the input does not abort, parsing the output does
    have hparse := h.records
    rw [parseRecordBatchRecords,
      decompress_allRewritten_eq_none hlibs hbs hsize₂ hstop hcomplete] at hparse
    have hinput := parse_readable hbs hsize₁ hstop hfirst
    rw [hsplit, ← hparse] at hinput
    refine concat_ne_none ?_ (Option.some_ne_none _) hinput.symm
    rw [List.forall_mem_map]
    exact fun b _ =>
      andThen_ne_none (Option.some_ne_none _) fun _ => decodeBatch_ne_panic _ _ _ _
  · rintro ⟨hfirst, hsecond⟩
    have hcomp : compressRecordBatch libs _ codec = _ :=
      compress_readable hlibs hbs hsize₁ hstop hfirst
    have hparse := parse_readable hbs hsize₁ hstop hfirst
    rw [hsplit] at hcomp hparse
    refine ⟨_, hcomp, ?_, decompress_allRewritten hlibs hbs hsize₁ hfirst,
      writtenOut_allRewritten hbs hsize₁, writtenOut_allRewritten hbs hsize₂⟩
    rw [hparse]
    exact parse_allRewritten hlibs hbs hsize₁ hsize₂ hsecond hfirst

end

def runLibs : Compressors where
  compress _ data := .ok (0 :: data)
  decompress _ data :=
    match data with
    | 0 :: stored => .ok stored
    | [1, count] => .ok (List.replicate count.toNat 0)
    | _ => .error (.compression "Gzip decompress error: invalid block")

theorem lossless_runLibs : Lossless runLibs := by
  constructor
  · intro codec data
    cases codec <;> exact ⟨_, rfl⟩
  · intro codec data out hout
    cases codec <;> exact Except.ok.inj hout ▸ rfl

def compressedThenHeader (batchLength : ℤ) : Bytes :=
  assembleBatch 0 (batchTail 1 0 0 0 (-1) (-1) (-1) 0 [1, 100]) ++
    (beEncode 8 0 ++ (beEncode 4 (ofSigned 32 batchLength) ++ (beEncode 4 0 ++ ([2] ++
      List.replicate 44 0))))

instance (position : ℕ) (tail : Bytes) : Decidable (StaysIncomplete position tail) :=
  inferInstanceAs (Decidable (_ → _ → _ → _))

theorem recompression_keeps_records_iff_header : ∃ uncompressed compressed,
      Recompressed runLibs .snappy (compressedThenHeader (-1000)) uncompressed compressed := by
  have hok : (match decompressRecordBatch runLibs (compressedThenHeader (-1000)) with
      | some (.ok _) => true
      | _ => false) = true := by decide +kernel
  split at hok
  · rename_i uncompressed hdec
    refine ⟨uncompressed, (recompression_keeps_records_iff lossless_runLibs _ .snappy
      (by decide +kernel) (by decide +kernel) hdec).mpr ⟨?_, ?_⟩⟩
    · decide +kernel
    · decide +kernel
  · cases hok

theorem header_of_negative_length_aborts : Lossless runLibs ∧
      (∀ b ∈ completeBatches (compressedThenHeader (-76)), 12 + 49 ≤ b.length) ∧
      (∀ b ∈ completeBatches (compressedThenHeader (-76)),
        ∀ codec ∈ [CompressionCodec.none, .gzip], writtenLength runLibs codec b < 2 ^ 31) ∧
      (∃ uncompressed,
        decompressRecordBatch runLibs (compressedThenHeader (-76)) = some (.ok uncompressed) ∧
        decompressRecordBatch runLibs uncompressed = none) ∧
      compressRecordBatch runLibs (compressedThenHeader (-76)) .gzip = none ∧
      parseRecordBatchRecords runLibs (compressedThenHeader (-76)) = none := by
  have hok : (match decompressRecordBatch runLibs (compressedThenHeader (-76)) with
      | some (.ok uncompressed) => (decompressRecordBatch runLibs uncompressed).isNone
      | _ => false) = true := by decide +kernel
  refine ⟨lossless_runLibs, by decide +kernel, by decide +kernel, ?_, ?_, ?_⟩
  · split at hok
    · rename_i uncompressed hdec
      exact ⟨uncompressed, hdec, Option.isNone_iff_eq_none.mp hok⟩
    · cases hok
  · exact Option.isNone_iff_eq_none.mp (by decide +kernel)
  · exact Option.isNone_iff_eq_none.mp (by decide +kernel)

end OxideMq.Protocol
