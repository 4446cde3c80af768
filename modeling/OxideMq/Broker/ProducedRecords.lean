import OxideMq.Broker.Partition
import OxideMq.Lib.Limit
import OxideMq.Protocol.Records

/-! Records from the encoder to the parser. -/

namespace OxideMq.Broker

open Lib OxideMq.Core OxideMq.Protocol KafkaEncoder List Option Record

section

variable {libs : Compressors} {batch : Bytes}

theorem framed_patchHeader (h : Framed batch) (off : ℤ) :
    Framed (patchHeader batch batch.length off) := by
  have hhead := h.header
  have hlen : (patchHeader batch batch.length off).length = batch.length :=
    patchHeader_length (by omega) _ _
  have hfield : field (patchHeader batch batch.length off) 16 1 = field batch 16 1 :=
    field_patchHeader (by omega) _ _ (Or.inl (by omega))
  rw [Partition.magicOf_eq_field (by omega), Partition.magicOf_eq_field (by omega), h.magic]
    at hfield
  refine ⟨by omega, singleton_inj.mp hfield, ?_⟩
  rw [batchLengthOf, field_patchHeader (by omega) _ _ (Or.inl (by omega)), hlen]
  exact h.batchLength

theorem bodyOf_patchHeader (h : 61 ≤ batch.length) (total : ℕ) (off : ℤ) :
    bodyOf libs (patchHeader batch total off) = bodyOf libs batch := by
  rw [bodyOf, codecOf, Partition.attributesOf_patchHeader (by omega),
    drop_patchHeader (by omega) _ _ (by omega), bodyOf, codecOf]

theorem recordsAt_patchHeader (h : 61 ≤ batch.length) (total : ℕ) (off base : ℤ) :
    recordsAt libs base (patchHeader batch total off) = recordsAt libs base batch := by
  rw [recordsAt, bodyOf_patchHeader h, baseTimestampOf, numRecordsOf,
    field_patchHeader (by omega) _ _ (Or.inr (by omega)),
    field_patchHeader (by omega) _ _ (Or.inr (by omega)), recordsAt, baseTimestampOf, numRecordsOf]

theorem baseOffsetOf_patched (h : 21 ≤ batch.length) {offset : ℤ} (hoff : FitsSigned 64 offset) :
    baseOffsetOf (patchHeader batch batch.length offset) = offset := by
  have hbase := baseOffsetOf_patchHeader h batch.length hoff []
  rwa [append_nil] at hbase

structure PatchedFields (batch patched : Bytes) : Prop where
  length : patched.length = batch.length
  others : ∀ i, 8 ≤ i ∧ i < 17 ∨ 21 ≤ i → patched[i]? = batch[i]?
  checksum : field patched 17 4 = beEncode 4 (computeCrc32c (patched.drop 21)).toNat

theorem getElem?_eq_head?_field (buf : Bytes) (i : ℕ) : buf[i]? = (field buf i 1).head? := by
  rw [field, head?_take, if_neg (by decide), head?_drop]

theorem patchedFields_patchHeader (h : 21 ≤ batch.length) (off : ℤ) :
    PatchedFields batch (patchHeader batch batch.length off) := by
  refine ⟨patchHeader_length h _ _, fun i hi => ?_, ?_⟩
  · rw [getElem?_eq_head?_field, field_patchHeader h _ _ (by omega), ← getElem?_eq_head?_field]
  · have hfirst : (splice batch 0 (beEncode 8 (ofSigned 64 off))).length = batch.length :=
      splice_length batch _ (by simp; omega)
    have hdrop : field (splice batch 0 (beEncode 8 (ofSigned 64 off))) 21 (batch.length - 21) =
        batch.drop 21 := by
      rw [field_splice_of_disjoint _ _ (by simp; omega) (by simp), field,
        take_of_length_le (by rw [length_drop])]
    rw [drop_patchHeader h _ _ le_rfl, patchHeader, hdrop]
    have hself := field_splice_self (splice batch 0 (beEncode 8 (ofSigned 64 off)))
      (beEncode 4 (computeCrc32c (batch.drop 21)).toNat) (i := 17) (by rw [hfirst]; simp; omega)
    rwa [beEncode_length] at hself

end

structure EncodedBatch (libs : Compressors) where
  baseOffset : ℤ
  records : List Record
  codec : CompressionCodec
  bytes : Bytes
  nonempty : records ≠ []
  encoded : encodeRecordBatchV2 libs baseOffset records codec = some (.ok bytes)
  offsets : ∀ (i : ℕ) r, records[i]? = some r → r.offset = baseOffset + i
  timestamps : ∀ r ∈ records, FitsSigned 64 r.timestamp ∧
    FitsSigned 64 (r.timestamp - baseTimestampFor records)
  short : bytes.length < 2 ^ 31

def Undoes (libs : Compressors) : Prop :=
  ∀ codec data out, libs.compress codec data = .ok out → libs.decompress codec out = .ok data

namespace EncodedBatch

variable {libs : Compressors} (b : EncodedBatch libs)

def payload : Bytes := encodePayload b.baseOffset b.records

theorem bytes_eq : ∃ compressed maxTs,
    (if b.codec ≠ .none then b.codec.compress libs b.payload else .ok b.payload) = .ok compressed ∧
    b.bytes = assembleBatch b.baseOffset (batchTail b.codec.toAttributes
      (max (wrapSigned 32 (wrapSigned 32 b.records.length - 1)) 0) (baseTimestampFor b.records)
      maxTs (-1) (-1) (-1) (wrapSigned 32 b.records.length) compressed) := by
  obtain ⟨compressed, hcomp, hbytes⟩ := Attempt.andThen_eq_ok.mp b.encoded
  dsimp only at hbytes
  split at hbytes
  · simp at hbytes
  · exact ⟨compressed, _, some.inj hcomp, (Except.ok.inj (some.inj hbytes)).symm⟩

theorem framed : Framed b.bytes := by
  obtain ⟨compressed, maxTs, -, hbytes⟩ := b.bytes_eq
  have hshort := b.short
  have hdelta : FitsSigned 32 (max (wrapSigned 32 (wrapSigned 32 b.records.length - 1)) 0) := by
    obtain ⟨hlo, hhi⟩ := wrapSigned_fits (by decide : 0 < 32) (wrapSigned 32 b.records.length - 1)
    exact ⟨by omega, by omega⟩
  rw [hbytes] at hshort ⊢
  rw [assembleBatch_length, batchTail_length] at hshort
  refine (assembleBatch_wellFormed (by rw [batchTail_length]; omega)
    (by rw [batchTail_length]; omega) ?_).framed
  have hread := lastOffsetDeltaOf_assembleBatch b.baseOffset b.codec.toAttributes hdelta
    (baseTimestampFor b.records) maxTs (-1) (-1) (-1) (wrapSigned 32 b.records.length)
    compressed
  rw [lastOffsetDeltaOf, field_assembleBatch b.baseOffset _ 2 4] at hread
  rw [hread]
  exact le_max_right _ _

theorem bodyOf_bytes (hundo : Undoes libs) : bodyOf libs b.bytes = .ok b.payload := by
  obtain ⟨compressed, maxTs, hcomp, hbytes⟩ := b.bytes_eq
  have hdrop : b.bytes.drop 61 = compressed := by
    rw [hbytes]
    simp only [assembleBatch, batchTail, ← append_assoc]
    exact drop_left' (by simp)
  rw [bodyOf, hdrop, codecOf, hbytes, attributesOf_assembleBatch]
  generalize b.codec = codec at hcomp ⊢
  cases codec with
  | none => exact congrArg _ (Except.ok.inj hcomp).symm
  | _ => exact hundo _ b.payload compressed hcomp

theorem length_le_payload (recs : List Record) (base ts : ℤ) :
    recs.length * 2 ≤ (recs.flatMap (encode base ts)).length := by
  induction recs with
  | nil => simp
  | cons record recs ih =>
    have hvar := KafkaDecoder.one_le_writeVarint (record.encodeBody base ts).length
    have hbody : 1 ≤ (record.encodeBody base ts).length := by
      simp [encodeBody, putI8]
    rw [flatMap_cons, length_append, encode, length_append, length_cons]
    omega

theorem body_le_payload {recs : List Record} {record : Record} (h : record ∈ recs) (base ts : ℤ) :
    (record.encodeBody base ts).length ≤ (recs.flatMap (encode base ts)).length := by
  have hencode : (record.encodeBody base ts).length ≤ (record.encode base ts).length := by
    rw [encode, length_append]
    omega
  exact hencode.trans (sublist_flatten_of_mem (mem_map_of_mem h)).length_le

theorem recordCountOf_bytes (hcnt : b.records.length < 2 ^ 31) :
    recordCountOf b.bytes = b.records.length ∧ numRecordsOf b.bytes = b.records.length := by
  obtain ⟨compressed, maxTs, -, hbytes⟩ := b.bytes_eq
  have hpos : 0 < b.records.length := length_pos_iff.mpr b.nonempty
  have hwrap : wrapSigned 32 b.records.length = b.records.length :=
    wrapSigned_of_fits (by decide) ⟨by omega, by omega⟩
  have hdelta : max (wrapSigned 32 (b.records.length - 1 : ℤ)) 0 = b.records.length - 1 := by
    rw [wrapSigned_of_fits (by decide) ⟨by omega, by omega⟩]
    omega
  rw [hwrap, hdelta] at hbytes
  rw [hbytes]
  constructor
  · rw [recordCountOf, lastOffsetDeltaOf_assembleBatch _ _ ⟨by omega, by omega⟩]
    omega
  · rw [numRecordsOf, field_assembleBatch b.baseOffset _ 36 4]
    have hfits : FitsSigned 32 (b.records.length : ℤ) := ⟨by omega, by omega⟩
    convert toSigned_beEncode (k := 4) (by decide) hfits using 3
    simp [batchTail, field_append_of_le, field_prefix]

theorem baseTimestampOf_bytes : baseTimestampOf b.bytes = baseTimestampFor b.records := by
  obtain ⟨compressed, maxTs, -, hbytes⟩ := b.bytes_eq
  have hfits : FitsSigned 64 (baseTimestampFor b.records) := by
    obtain ⟨first, rest, hrecs⟩ := exists_cons_of_ne_nil b.nonempty
    have hfirst := (b.timestamps first (hrecs ▸ mem_cons_self)).1
    simpa [baseTimestampFor, hrecs] using hfirst
  rw [baseTimestampOf, hbytes, field_assembleBatch b.baseOffset _ 6 8]
  convert toSigned_beEncode (k := 8) (by decide) hfits using 3
  simp [batchTail, field_append_of_le, field_prefix]

end EncodedBatch

def numbered (offset : ℤ) (records : List Record) : List Record :=
  records.mapIdx fun i record => { record with offset := offset + i }

theorem numbered_append (offset : ℤ) (records records' : List Record) :
    numbered offset (records ++ records') =
      numbered offset records ++ numbered (offset + records.length) records' := by
  rw [numbered, mapIdx_append, numbered, numbered]
  congr 2
  funext i record
  congr 1
  push_cast
  ring

namespace EncodedBatch

variable {libs : Compressors} (b : EncodedBatch libs)

theorem rebase_records {off : ℤ} (hoff : FitsSigned 64 off)
    (hlast : off + b.records.length ≤ 2 ^ 63) :
    b.records.map (rebase b.baseOffset off) = numbered off b.records := by
  apply ext_getElem?
  intro i
  rw [numbered, getElem?_map, getElem?_mapIdx]
  cases hget : b.records[i]? with
  | none => rfl
  | some record =>
    obtain ⟨hi, -⟩ := List.getElem?_eq_some_iff.mp hget
    have hdelta : off + (record.offset - b.baseOffset) = off + i := by
      rw [b.offsets i record hget]
      ring
    obtain ⟨hlo, -⟩ := hoff
    rw [map_some, map_some, rebase, hdelta, wrapSigned_of_fits (by decide) ⟨by omega, by omega⟩]

theorem recordsAt_bytes (hundo : Undoes libs) (hfits : b.payload.length < 2 ^ 31) {off : ℤ}
    (hoff : FitsSigned 64 off) (hlast : off + b.records.length ≤ 2 ^ 63) :
    recordsAt libs off b.bytes = some (.ok (numbered off b.records)) := by
  have hcnt := length_le_payload b.records b.baseOffset (baseTimestampFor b.records)
  have hpay : b.payload = b.records.flatMap
      (encode b.baseOffset (baseTimestampFor b.records)) := rfl
  rw [← hpay] at hcnt
  have hrecs : ∀ r ∈ b.records, r.Fits b.baseOffset (baseTimestampFor b.records) := by
    intro r hr
    obtain ⟨i, hi⟩ := getElem?_of_mem hr
    obtain ⟨hlt, -⟩ := List.getElem?_eq_some_iff.mp hi
    have hbody := body_le_payload hr b.baseOffset (baseTimestampFor b.records)
    rw [← hpay] at hbody
    refine ⟨(b.timestamps r hr).1, (b.timestamps r hr).2, ?_, by omega⟩
    rw [b.offsets i r hi, add_sub_cancel_left]
    exact ⟨by omega, by omega⟩
  have hread := reads_records hrecs off []
  rw [append_nil, ← hpay, b.rebase_records hoff hlast] at hread
  rw [recordsAt, b.bodyOf_bytes hundo, Attempt.andThen_ok, b.baseTimestampOf_bytes,
    (b.recordCountOf_bytes (by omega)).2, decodeBatch, Int.toNat_natCast, hread]
  rfl

end EncodedBatch

section

variable {libs : Compressors} {batches : List (EncodedBatch libs)}
variable {offset : ℤ}

def payloadOf (batches : List (EncodedBatch libs)) : Bytes :=
  (batches.map EncodedBatch.bytes).flatten

def recordsOf (batches : List (EncodedBatch libs)) : List Record :=
  batches.flatMap EncodedBatch.records

def Renumbered (batches : List (EncodedBatch libs)) (offset : ℤ) : Prop :=
  ∃ patched count, patchRecordBatches (payloadOf batches) offset = some (patched.flatten, count) ∧
    patched.flatten.length = (payloadOf batches).length ∧
    List.Forall₂ PatchedFields (batches.map EncodedBatch.bytes) patched ∧
    count = (recordsOf batches).length ∧
    parseRecordBatchRecords libs patched.flatten = some (.ok (numbered offset (recordsOf batches)))

def PayloadsFit (batches : List (EncodedBatch libs)) : Prop :=
  ∀ b ∈ batches, 49 + b.payload.length < 2 ^ 31

instance (batches : List (EncodedBatch libs)) : Decidable (PayloadsFit batches) :=
  inferInstanceAs (Decidable (∀ b ∈ batches, 49 + b.payload.length < 2 ^ 31))

theorem framed_of_mem {bytes : Bytes} (h : bytes ∈ batches.map EncodedBatch.bytes) :
    Framed bytes := by
  obtain ⟨b, -, rfl⟩ := mem_map.mp h
  exact b.framed

theorem patchedFields_stamped {bs : List Bytes} (h : ∀ b ∈ bs, Framed b)
    (off : ℤ) : List.Forall₂ PatchedFields bs (stamped bs off) := by
  induction bs generalizing off with
  | nil => exact List.Forall₂.nil
  | cons batch bs ih =>
    obtain ⟨hb, hbs⟩ := forall_mem_cons.mp h
    have hhead := hb.header
    exact List.Forall₂.cons (patchedFields_patchHeader (by omega) off) (ih hbs _)

theorem framed_stamped {bs : List Bytes} (h : ∀ b ∈ bs, Framed b) (off : ℤ) :
    ∀ p ∈ stamped bs off, ∃ b ∈ bs, ∃ base, p = patchHeader b b.length base ∧ Framed p := by
  induction bs generalizing off with
  | nil => exact forall_mem_nil _
  | cons batch bs ih =>
    obtain ⟨hbatch, hbs⟩ := forall_mem_cons.mp h
    refine forall_mem_cons.mpr ⟨?_, fun p hp => ?_⟩
    · exact ⟨batch, mem_cons_self, off, rfl, framed_patchHeader hbatch off⟩
    · obtain ⟨b, hb, base, heq, hfr⟩ := ih hbs _ p hp
      exact ⟨b, mem_cons_of_mem _ hb, base, heq, hfr⟩

theorem records_lt_of_payload {b : EncodedBatch libs} (h : 49 + b.payload.length < 2 ^ 32) :
    b.records.length < 2 ^ 31 := by
  have hcnt := EncodedBatch.length_le_payload b.records b.baseOffset (baseTimestampFor b.records)
  have hpay : b.payload = b.records.flatMap
    (encode b.baseOffset (baseTimestampFor b.records)) := rfl
  rw [hpay] at h
  omega

theorem recordTotal_bytes (hcnts : ∀ b ∈ batches, b.records.length < 2 ^ 31) :
    recordTotal (batches.map EncodedBatch.bytes) = (recordsOf batches).length := by
  induction batches with
  | nil => rfl
  | cons b batches ih =>
    obtain ⟨hb, hbs⟩ := forall_mem_cons.mp hcnts
    rw [map_cons, recordTotal_cons, (b.recordCountOf_bytes hb).1, ih hbs, recordsOf,
      recordsOf, flatMap_cons, length_append, Nat.cast_add]

theorem recordsAt_stamped (hundoes : Undoes libs) (hfits : PayloadsFit batches)
    (hlo : -2 ^ 63 ≤ offset) (hhi : offset + (recordsOf batches).length < 2 ^ 63) :
    ∃ parsed, List.Forall₂ (fun b rs => recordsAt libs (baseOffsetOf b) b = some (.ok rs))
        (stamped (batches.map EncodedBatch.bytes) offset) parsed ∧
      numbered offset (recordsOf batches) = parsed.flatten := by
  induction batches generalizing offset with
  | nil => exact ⟨[], List.Forall₂.nil, rfl⟩
  | cons b batches ih =>
    obtain ⟨hb, hbatches⟩ := forall_mem_cons.mp hfits
    have hheader := b.framed.header
    have hlength := records_lt_of_payload (b := b) (by omega)
    rw [recordsOf, flatMap_cons, length_append, ← recordsOf] at hhi
    push_cast at hhi
    have hoffset : FitsSigned 64 offset := ⟨by omega, by omega⟩
    have hnext : -2 ^ 63 ≤ offset + b.records.length := by omega
    obtain ⟨parsed, hparsed, hrest⟩ := ih hbatches hnext (by omega)
    refine ⟨numbered offset b.records :: parsed, ?_, ?_⟩
    · rw [map_cons, stamped, (b.recordCountOf_bytes hlength).1,
        wrapSigned_of_fits (by decide) ⟨by omega, by omega⟩]
      refine List.Forall₂.cons ?_ hparsed
      rw [baseOffsetOf_patched (by omega) hoffset, recordsAt_patchHeader hheader]
      exact b.recordsAt_bytes hundoes (by omega) hoffset (by omega)
    · rw [recordsOf, flatMap_cons, numbered_append, ← recordsOf, hrest, flatten_cons]

theorem patchRecordBatches_payloadOf (hne : batches ≠ [])
    (hcnts : ∀ b ∈ batches, b.records.length < 2 ^ 31) (hlo : -2 ^ 63 ≤ offset)
    (hhi : offset + (recordsOf batches).length < 2 ^ 63)
    (htot : (recordsOf batches).length < 2 ^ 63) :
    patchRecordBatches (payloadOf batches) offset =
      some ((stamped (batches.map EncodedBatch.bytes) offset).flatten,
        ((recordsOf batches).length : ℤ)) := by
  have hroom : RoomFor (batches.map EncodedBatch.bytes) offset := by
    rw [RoomFor, recordTotal_bytes hcnts]
    exact ⟨by omega, hhi⟩
  rw [payloadOf, patchRecordBatches_flatten (mt map_eq_nil_iff.mp hne)
    (fun _ => framed_of_mem) hlo hroom, recordTotal_bytes hcnts]

theorem bodyFits_stamped (hundo : Undoes libs) (hfits : PayloadsFit batches) (off : ℤ) :
    ∀ p ∈ stamped (batches.map EncodedBatch.bytes) off, BodyFits libs p := by
  intro p hp body hbody
  obtain ⟨bytes, hmem, base, rfl, -⟩ := framed_stamped (fun _ => framed_of_mem) off p hp
  obtain ⟨b, hb, rfl⟩ := mem_map.mp hmem
  rw [bodyOf_patchHeader b.framed.header, b.bodyOf_bytes hundo, Except.ok.injEq] at hbody
  exact hbody ▸ hfits b hb

theorem parseLoop_of_small {fuel cur : ℕ} {rest : Bytes} {behind : List Record}
    (hsmall : 12 + batchLengthOf rest < 61)
    (h : parseLoop fuel cur rest = some (.ok behind)) : behind = [] := by
  cases fuel with
  | zero => exact (Except.ok.inj (some.inj h)).symm
  | succ fuel =>
    rw [parseLoop] at h
    split at h
    · dsimp only at h
      split at h
      · exact (Except.ok.inj (some.inj h)).symm
      · cases h
    · exact (Except.ok.inj (some.inj h)).symm

theorem parse_stops {before behind : List Bytes} {batch body : Bytes} {recs : List Record}
    (hbef : ∀ b ∈ before, Framed b) (hfits : ∀ b ∈ before, BodyFits libs b)
    (hb : Framed batch) (hbehind : ∀ b ∈ behind, Framed b)
    (hbody : bodyOf libs batch = .ok body) (hlong : 2 ^ 31 ≤ 49 + body.length)
    (hbd : 49 + body.length < 2 ^ 32)
    (h : parseRecordBatchRecords libs (before ++ batch :: behind).flatten = some (.ok recs)) :
    ∃ parsed, List.Forall₂ (fun b rs => recordsAt libs (baseOffsetOf b) b = some (.ok rs)) before
      parsed ∧ recs = parsed.flatten := by
  obtain ⟨out, hdec, hparse⟩ := Attempt.andThen_eq_ok.mp h
  obtain ⟨inflated, hinf, rfl⟩ := (decompressRecordBatch_eq_ok_iff (forall_mem_append.mpr
    ⟨hbef, forall_mem_cons.mpr ⟨hb, hbehind⟩⟩)).mp hdec
  -- the decompressed batches, those before the long one apart
  have hfront := (forall₂_take_append inflated before _ hinf.flip).flip
  have hback := (forall₂_drop_append inflated before _ hinf.flip).flip
  obtain ⟨long, rest, hinflate, -, hdrop⟩ := forall₂_cons_left_iff.mp hback
  obtain ⟨hfr, hmap⟩ := parse_inflated hbef hfits hfront
  obtain ⟨body', hbody', hlongFields⟩ := inflated_of_inflate hb hinflate
  cases hbody.symm.trans hbody'
  have hcnt := length_le_flatten_length hfr
  have hlen : long.length = 61 + body.length := hlongFields.length
  have hneg : 12 + batchLengthOf (long ++ rest.flatten) < 61 := by
    have hfield : batchLengthOf (long ++ rest.flatten) = batchLengthOf long := by
      rw [batchLengthOf, field_append_left _ _ (by omega), batchLengthOf]
    rw [hfield, hlongFields.batchLength, wrapSigned_of_overflow (by decide) (by omega) (by omega)]
    omega
  rw [← take_append_drop before.length inflated, hdrop, flatten_append, flatten_cons] at hparse
  have hfuel : (inflated.take before.length).length ≤
      ((inflated.take before.length).flatten ++ (long ++ rest.flatten)).length := by
    rw [length_append]
    omega
  obtain ⟨parsed, others, hpar, hoths, rfl⟩ :=
    (parseLoop_eq_ok_iff hfr hfuel 0 (long ++ rest.flatten)).mp hparse
  refine ⟨parsed, ?_, by rw [parseLoop_of_small hneg hoths, append_nil]⟩
  rw [← forall₂_map_left_iff (f := parseBatch) (R := fun x rs => x = some (.ok rs)), hmap,
    forall₂_map_left_iff] at hpar
  exact hpar

theorem stamped_append (before behind : List Bytes) (off : ℤ) : stamped (before ++ behind) off =
      stamped before off ++ stamped behind (patchBatches before off).2 := by
  induction before generalizing off with
  | nil => rfl
  | cons batch before ih => rw [cons_append, stamped, ih, stamped, patchBatches]; rfl

theorem payloadsFit_of_parse (hundo : Undoes libs)
    (hbd : ∀ b ∈ batches, 49 + b.payload.length < 2 ^ 32) (hlo : -2 ^ 63 ≤ offset)
    (hhi : offset + (recordsOf batches).length < 2 ^ 63) (h : parseRecordBatchRecords libs
      (stamped (batches.map EncodedBatch.bytes) offset).flatten =
        some (.ok (numbered offset (recordsOf batches)))) : PayloadsFit batches := by
  by_contra hlong
  obtain ⟨before, b, behind, rfl, hbef, hfirst⟩ := exists_first_not hlong
  have hfr : ∀ bytes ∈ (before ++ b :: behind).map EncodedBatch.bytes, Framed bytes :=
    fun _ => framed_of_mem
  have hpat : ∀ p ∈ stamped ((before ++ b :: behind).map EncodedBatch.bytes) offset,
      Framed p := fun p hp => by
    obtain ⟨-, -, -, -, hp'⟩ := framed_stamped hfr offset p hp
    exact hp'
  have hlen : (recordsOf (before ++ b :: behind)).length =
      (recordsOf before).length + (b.records.length + (recordsOf behind).length) := by
    simp [recordsOf]
  have hpos : 0 < b.records.length := length_pos_iff.mpr b.nonempty
  rw [map_append, map_cons, stamped_append, stamped] at h hpat
  obtain ⟨hfr₁, hfr₂⟩ := forall_mem_append.mp hpat
  obtain ⟨hfr₂, hfr₃⟩ := forall_mem_cons.mp hfr₂
  have hbody : bodyOf libs (patchHeader b.bytes b.bytes.length
      (patchBatches (before.map EncodedBatch.bytes) offset).2) = .ok b.payload := by
    rw [bodyOf_patchHeader b.framed.header, b.bodyOf_bytes hundo]
  obtain ⟨parsed, hpar, hrecs⟩ := parse_stops hfr₁
    (bodyFits_stamped hundo hbef offset) hfr₂ hfr₃ hbody (not_lt.mp hfirst)
    (hbd b (by simp)) h
  -- the batches before it have their own records only
  obtain ⟨parsed', hpar', hown⟩ := recordsAt_stamped hundo hbef hlo (by omega)
  have hsame : parsed = parsed' := by
    refine right_unique_forall₂' ?_ hpar hpar'
    intro bytes rs rs' hrs hrs'
    exact Except.ok.inj (some.inj (hrs.symm.trans hrs'))
  rw [hsame, ← hown] at hrecs
  have hcnt := congrArg length hrecs
  simp only [numbered, length_mapIdx] at hcnt
  omega

theorem renumbered_iff_payloadsFit (hundoes : Undoes libs) (batches : List (EncodedBatch libs))
    (offset : ℤ) (hoffset : FitsSigned 64 offset)
    (hlast : FitsSigned 64 (offset + (recordsOf batches).length))
    (htotal : (recordsOf batches).length < 2 ^ 63) :
    (batches ≠ [] ∧ PayloadsFit batches → Renumbered batches offset) ∧
      ((∀ b ∈ batches, 49 + b.payload.length < 2 ^ 32) → Renumbered batches offset →
        batches ≠ [] ∧ PayloadsFit batches) := by
  obtain ⟨hlo, -⟩ := hoffset
  obtain ⟨-, hhi⟩ := hlast
  refine ⟨?_, ?_⟩
  · rintro ⟨hne, hfits⟩
    have hfr : ∀ bytes ∈ batches.map EncodedBatch.bytes, Framed bytes := fun _ => framed_of_mem
    have hpat := patchRecordBatches_payloadOf hne (fun b hb =>
      records_lt_of_payload (by have := hfits b hb; omega)) hlo hhi htotal
    refine ⟨_, _, hpat, patchRecordBatches_length hpat, patchedFields_stamped hfr offset,
      rfl, ?_⟩
    refine (parseRecordBatchRecords_eq_ok_iff (fun p hp => ?_)
      (bodyFits_stamped hundoes hfits offset)).mpr (recordsAt_stamped hundoes hfits hlo hhi)
    obtain ⟨-, -, -, -, hp'⟩ := framed_stamped hfr offset p hp
    exact hp'
  rintro hbd ⟨patched, count, hpat, -, -, hcount, hparse⟩
  have hne : batches ≠ [] := by
    rintro rfl
    have hone : patchRecordBatches (payloadOf ([] : List (EncodedBatch libs))) offset =
        some ([], 1) := rfl
    rw [hone] at hpat
    obtain ⟨-, rfl⟩ := Prod.mk.inj (Option.some.inj hpat)
    simp [recordsOf] at hcount
  refine ⟨hne, payloadsFit_of_parse hundoes hbd hlo hhi ?_⟩
  rw [patchRecordBatches_payloadOf hne (fun b hb => records_lt_of_payload (hbd b hb)) hlo hhi
    htotal] at hpat
  obtain ⟨hflatten, -⟩ := Prod.mk.inj (Option.some.inj hpat)
  rw [hflatten]
  exact hparse

end

def plainLibs : Compressors := ⟨fun _ data => .ok data, fun _ data => .ok data⟩

def twoRecords : EncodedBatch plainLibs where
  baseOffset := 7
  records := [⟨7, 1000, none, some [1], []⟩, ⟨8, 1001, some [2], none, [⟨"k", [3]⟩]⟩]
  codec := .gzip
  bytes := assembleBatch 7 (batchTail 1 1 1000 1001 (-1) (-1) (-1) 2
    (encodePayload 7 [⟨7, 1000, none, some [1], []⟩, ⟨8, 1001, some [2], none, [⟨"k", [3]⟩]⟩]))
  nonempty := by simp
  encoded := by decide +kernel
  offsets := by
    intro i r h
    match i, h with
    | 0, h => exact Option.some.inj h ▸ rfl
    | 1, h => exact Option.some.inj h ▸ rfl
    | i + 2, h => simp at h
  timestamps := by decide
  short := by decide +kernel

theorem twoRecords_renumbered : PayloadsFit [twoRecords] ∧ Renumbered [twoRecords] 100 := by
  have hfits : PayloadsFit [twoRecords] := by decide +kernel
  refine ⟨hfits, (renumbered_iff_payloadsFit (fun _ _ _ h => ?_) [twoRecords] 100 (by decide)
    (by decide +kernel) (by decide +kernel)).1 ⟨by simp, hfits⟩⟩
  rw [← Except.ok.inj h]
  rfl

def elidingLibs (elided : Bytes) : Compressors where
  compress _ data := if data = elided then .ok [] else .ok (0 :: data)
  decompress _ data :=
    match data with
    | [] => .ok elided
    | _ :: rest => .ok rest

theorem undoes_elidingLibs (elided : Bytes) : Undoes (elidingLibs elided) := by
  intro codec data out h
  simp only [elidingLibs] at h ⊢
  split at h
  · rename_i heq
    rw [← Except.ok.inj h, heq]
  · rw [← Except.ok.inj h]

def batchBytes (baseOffset : ℤ) (records : List Record) (codec : CompressionCodec)
    (compressed : Bytes) : Bytes :=
  assembleBatch baseOffset (batchTail codec.toAttributes
    (max (wrapSigned 32 (wrapSigned 32 records.length - 1)) 0) (baseTimestampFor records)
    (records.foldl (fun latest record => max latest record.timestamp) (baseTimestampFor records))
    (-1) (-1) (-1) (wrapSigned 32 records.length) compressed)

theorem encodeRecordBatchV2_eq {libs : Compressors} {base : ℤ} {recs : List Record}
    {codec : CompressionCodec} {compressed : Bytes}
    (hcomp : (if codec ≠ .none then codec.compress libs (encodePayload base recs)
      else .ok (encodePayload base recs)) = .ok compressed)
    (hshort : compressed.length < 2 ^ 30) :
    encodeRecordBatchV2 libs base recs codec =
      some (.ok (batchBytes base recs codec compressed)) := by
  have hcapacity : ¬asUsize (12 + wrapSigned 32 (49 + compressed.length)) > isizeMax := by
    rw [wrapSigned_of_fits (by decide) ⟨by omega, by omega⟩, asUsize, ofSigned,
      Int.emod_eq_of_lt (by omega) (by omega), isizeMax]
    omega
  refine Attempt.andThen_eq_ok.mpr ⟨compressed, congrArg some hcomp, ?_⟩
  rw [if_neg hcapacity, batchBytes]

def zerosRecord (n : ℕ) : Record := ⟨0, 0, none, some (List.replicate n 0), []⟩

theorem encodePayload_zerosRecord (n : ℕ) : n ≤ (encodePayload 0 [zerosRecord n]).length ∧
      (encodePayload 0 [zerosRecord n]).length ≤ n + 100 := by
  have hvar : ∀ x, (writeVarint x).length ≤ 10 := fun x =>
    KafkaDecoder.writeUnsignedVarint_length_le 10 _
  have h₁ := hvar (wrapSigned 64 (0 - 0))
  have h₂ := hvar (-1)
  have h₃ := hvar n
  have h₄ := hvar 0
  have h₅ := hvar ((zerosRecord n).encodeBody 0 0).length
  have hlen : (encodePayload 0 [zerosRecord n]).length =
      (writeVarint ((zerosRecord n).encodeBody 0 0).length).length +
        ((zerosRecord n).encodeBody 0 0).length := by
    simp [encodePayload, encode, baseTimestampFor, zerosRecord]
  have hbody : ((zerosRecord n).encodeBody 0 0).length =
      1 + ((writeVarint (wrapSigned 64 (0 - 0))).length +
        ((writeVarint (wrapSigned 64 (0 - 0))).length +
          ((writeVarint (-1)).length + ((writeVarint n).length + (n +
            (writeVarint 0).length))))) := by
    simp [encodeBody, zerosRecord, writeNullable, putI8]
  omega

def zerosBatch (n : ℕ) : EncodedBatch (elidingLibs (encodePayload 0 [zerosRecord n])) where
  baseOffset := 0
  records := [zerosRecord n]
  codec := .zstd
  bytes := batchBytes 0 [zerosRecord n] .zstd []
  nonempty := by simp
  encoded := by
    refine encodeRecordBatchV2_eq ?_ (by decide)
    rw [if_pos (by decide)]
    exact if_pos rfl
  offsets := by
    intro i r h
    match i, h with
    | 0, h => exact Option.some.inj h ▸ rfl
    | i + 1, h => simp at h
  timestamps := by
    intro r hr
    rw [List.mem_singleton.mp hr]
    exact ⟨by simp [zerosRecord, FitsSigned], by simp [zerosRecord, baseTimestampFor, FitsSigned]⟩
  short := by
    rw [batchBytes, assembleBatch_length, batchTail_length]
    decide

theorem zerosBatch_not_renumbered {n : ℕ} (hlo : 2 ^ 31 ≤ n) (hhi : n < 2 ^ 31 + 1000) :
    ¬ Renumbered [zerosBatch n] 0 := by
  rintro ⟨patched, count, hpat, -, -, -, hparse⟩
  obtain ⟨hmin, hmax⟩ := encodePayload_zerosRecord n
  have hpay : (zerosBatch n).payload = encodePayload 0 [zerosRecord n] := rfl
  have hrecs : (recordsOf [zerosBatch n]).length = 1 := rfl
  have hbd : ∀ b ∈ [zerosBatch n], 49 + b.payload.length < 2 ^ 32 := by
    rw [forall_mem_singleton, hpay]
    omega
  rw [patchRecordBatches_payloadOf (by simp) (fun b hb => records_lt_of_payload (hbd b hb))
    (by decide) (by rw [hrecs]; decide) (by rw [hrecs]; decide)] at hpat
  obtain ⟨hflatten, -⟩ := Prod.mk.inj (some.inj hpat)
  rw [← hflatten] at hparse
  have hfits := payloadsFit_of_parse (undoes_elidingLibs _) hbd (by decide)
    (by rw [hrecs]; decide) hparse
  have hfirst := hfits (zerosBatch n) mem_cons_self
  rw [hpay] at hfirst
  omega

theorem two_gigabytes_not_renumbered :
    ¬ Renumbered [zerosBatch (2 ^ 31)] 0 ∧ ¬ Renumbered ([] : List (EncodedBatch plainLibs)) 0 := by
  refine ⟨zerosBatch_not_renumbered le_rfl (by norm_num), ?_⟩
  rintro ⟨patched, count, hpat, -, -, hcount, -⟩
  obtain ⟨-, rfl⟩ := Prod.mk.inj (Option.some.inj hpat)
  exact absurd hcount (by decide)

end OxideMq.Broker
