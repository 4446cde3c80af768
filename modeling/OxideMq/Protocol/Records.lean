import OxideMq.Protocol.KafkaEncoder

/-! The records of a batch: how they are encoded, compressed, and parsed again. -/

namespace OxideMq.Protocol

open Lib OxideMq.Core Attempt Option

inductive CompressionCodec where
  | none | gzip | snappy | lz4 | zstd
  deriving DecidableEq, Repr

structure Compressors where
  compress : CompressionCodec → Bytes → Except OxideMqError Bytes
  decompress : CompressionCodec → Bytes → Except OxideMqError Bytes

namespace CompressionCodec

def fromAttributes (attributes : ℕ) : CompressionCodec :=
  match attributes % 8 with
  | 1 => .gzip
  | 2 => .snappy
  | 3 => .lz4
  | 4 => .zstd
  | _ => .none

def toAttributes : CompressionCodec → ℕ
  | .none => 0
  | .gzip => 1
  | .snappy => 2
  | .lz4 => 3
  | .zstd => 4

def compress (libs : Compressors) (codec : CompressionCodec) (data : Bytes) :
    Except OxideMqError Bytes :=
  match codec with
  | .none => .ok data
  | _ => libs.compress codec data

def decompress (libs : Compressors) (codec : CompressionCodec) (data : Bytes) :
    Except OxideMqError Bytes :=
  match codec with
  | .none => .ok data
  | _ => libs.decompress codec data

end CompressionCodec

structure RecordHeader where
  key : String
  value : Bytes
  deriving DecidableEq, Repr

structure Record where
  offset : ℤ
  timestamp : ℤ
  key : Option Bytes
  value : Option Bytes
  headers : List RecordHeader
  deriving DecidableEq, Repr

open KafkaEncoder

def writeNullable : Option Bytes → Bytes
  | some b => writeVarint b.length ++ b
  | none => writeVarint (-1)

def RecordHeader.encode (h : RecordHeader) : Bytes :=
  writeVarint (textBytes h.key).length ++ (textBytes h.key ++ (writeVarint h.value.length ++ h.value))

def Record.encodeBody (baseOffset baseTimestamp : ℤ) (record : Record) : Bytes :=
  putI8 0 ++ (writeVarint (wrapSigned 64 (record.timestamp - baseTimestamp)) ++
    (writeVarint (wrapSigned 64 (record.offset - baseOffset)) ++ (writeNullable record.key ++
      (writeNullable record.value ++ (writeVarint record.headers.length ++
        record.headers.flatMap RecordHeader.encode)))))

def Record.encode (baseOffset baseTimestamp : ℤ) (record : Record) : Bytes :=
  let recBody := record.encodeBody baseOffset baseTimestamp
  writeVarint recBody.length ++ recBody

def baseTimestampFor (records : List Record) : ℤ := (records.head?.map Record.timestamp).getD 0

def encodePayload (baseOffset : ℤ) (records : List Record) : Bytes :=
  records.flatMap (Record.encode baseOffset (baseTimestampFor records))

def encodeRecordBatchV2 (libs : Compressors) (baseOffset : ℤ) (records : List Record)
    (codec : CompressionCodec) : Attempt OxideMqError Bytes :=
  let baseTimestamp := baseTimestampFor records
  let maxTimestamp := records.foldl (fun latest record => max latest record.timestamp) baseTimestamp
  let payload := encodePayload baseOffset records
  Attempt.andThen (some (if codec ≠ .none then codec.compress libs payload else .ok payload))
    fun recordsPayload =>
      let count := wrapSigned 32 records.length
      let lastOffsetDelta := max (wrapSigned 32 (count - 1)) 0
      let batchLen := wrapSigned 32 (49 + recordsPayload.length)
      -- a buffer of that capacity cannot be had
      if asUsize (12 + batchLen) > isizeMax then none
      else
        some (.ok (assembleBatch baseOffset (batchTail codec.toAttributes lastOffsetDelta
          baseTimestamp maxTimestamp (-1) (-1) (-1) count recordsPayload)))

def inflateBatch (batch decompressed : Bytes) : Bytes :=
  let attributes := attributesOf batch
  let tail := beEncode 2 (attributes - attributes % 8) ++ (field batch 23 38 ++ decompressed)
  field batch 0 8 ++ (beEncode 4 (49 + decompressed.length) ++ (field batch 12 4 ++ ([2] ++
    (beEncode 4 (computeCrc32c tail).toNat ++ tail))))

/-- The loop of `decompress_record_batch`: whether anything was decompressed, and the output for
the rest of the buffer. -/
def decompressLoop (libs : Compressors) : ℕ → ℕ → Bytes → Attempt OxideMqError (Bool × Bytes)
  | 0, _, rest => some (.ok (false, rest))
  | fuel + 1, cursor, rest =>
      if 61 ≤ rest.length ∧ magicOf rest = 2 then
        let total := 12 + batchLengthOf rest
        if cursor + total < 0 ∨ total > rest.length then some (.ok (false, rest))
        else
          let codec := CompressionCodec.fromAttributes (attributesOf rest)
          if codec = .none then
            -- the end is before the start, or the loop does not move on
            if total ≤ 0 then none
            else
              (decompressLoop libs fuel (cursor + total.toNat) (rest.drop total.toNat)).andThen
                fun (any, out) => some (.ok (any, rest.take total.toNat ++ out))
          else if total < 61 then none
          else
            Attempt.andThen (some (codec.decompress libs (field rest 61 (total.toNat - 61))))
              fun decompressed =>
                (decompressLoop libs fuel (cursor + total.toNat) (rest.drop total.toNat)).andThen
                  fun (_, out) => some (.ok (true, inflateBatch rest decompressed ++ out))
      else some (.ok (false, rest))

def decompressRecordBatch (libs : Compressors) (batchBytes : Bytes) : Attempt OxideMqError Bytes :=
  if batchBytes.length < 61 then some (.ok batchBytes)
  else
    (decompressLoop libs batchBytes.length 0 batchBytes).andThen fun (anyDecompressed, out) =>
      some (.ok (if anyDecompressed then out else batchBytes))

def deflateBatch (targetCodec : CompressionCodec) (batch compressed : Bytes) : Bytes :=
  let attributes := attributesOf batch
  let tail := beEncode 2 ((attributes - attributes % 8) ||| targetCodec.toAttributes) ++
    (field batch 23 38 ++ compressed)
  field batch 0 8 ++ (beEncode 4 (49 + compressed.length) ++ (field batch 12 4 ++ ([2] ++
    (beEncode 4 (computeCrc32c tail).toNat ++ tail))))

/-- The loop of `compress_record_batch`, over decompressed batches. -/
def compressLoop (libs : Compressors) (targetCodec : CompressionCodec) :
    ℕ → ℕ → Bytes → Attempt OxideMqError Bytes
  | 0, _, rest => some (.ok rest)
  | fuel + 1, cursor, rest =>
      if 61 ≤ rest.length ∧ magicOf rest = 2 then
        let total := 12 + batchLengthOf rest
        if cursor + total < 0 ∨ total > rest.length then some (.ok rest)
        else if total < 61 then none
        else
          Attempt.andThen (some (targetCodec.compress libs (field rest 61 (total.toNat - 61))))
            fun compressed =>
              (compressLoop libs targetCodec fuel (cursor + total.toNat)
                (rest.drop total.toNat)).andThen fun out =>
                  some (.ok (deflateBatch targetCodec rest compressed ++ out))
      else some (.ok rest)

def compressRecordBatch (libs : Compressors) (batchBytes : Bytes) (targetCodec : CompressionCodec) :
    Attempt OxideMqError Bytes :=
  if targetCodec = .none then decompressRecordBatch libs batchBytes
  else
    (decompressRecordBatch libs batchBytes).andThen fun uncompressedBytes =>
      if uncompressedBytes.length < 61 then some (.ok batchBytes)
      else compressLoop libs targetCodec uncompressedBytes.length 0 uncompressedBytes

open KafkaDecoder

def readNullable (truncated : String) : Parser (Option Bytes) := do
  let len ← readVarint
  if len ≥ 0 then readBlob len.toNat truncated else return none

def RecordHeader.decode : Parser RecordHeader := do
  let kLen ← readVarint
  if kLen < 0 then protocolError "Truncated header key"
  else
    Decoder.atLeast kLen.toNat (.protocol "Truncated header key")
    let kBytes ← Decoder.get kLen.toNat
    match utf8 kBytes with
    | none => protocolError "Invalid header key UTF-8"
    | some kStr =>
        let vBytes ← readNullable "Truncated header value"
        return ⟨kStr, vBytes.getD []⟩

def Record.decode (baseOffset baseTimestamp : ℤ) : Parser Record := do
  let _attributes ← getI8
  let tsDelta ← readVarint
  let offDelta ← readVarint
  let key ← readNullable "Truncated record key"
  let value ← readNullable "Truncated record value"
  let headersCount ← readVarint
  let headers ← RecordHeader.decode.times headersCount.toNat
  return ⟨wrapSigned 64 (baseOffset + offDelta), wrapSigned 64 (baseTimestamp + tsDelta), key,
    value, headers⟩

def decodeRecords (baseOffset baseTimestamp : ℤ) : ℕ → Parser (List Record)
  | 0 => return []
  | n + 1 => Decoder.whenLeft 1 [] do
      let _recordLen ← readVarint
      Decoder.whenLeft 1 [] do
        let record ← Record.decode baseOffset baseTimestamp
        let records ← decodeRecords baseOffset baseTimestamp n
        return record :: records

def baseTimestampOf (batch : Bytes) : ℤ := toSigned 64 (beDecode (field batch 27 8))

def numRecordsOf (batch : Bytes) : ℤ := toSigned 32 (beDecode (field batch 57 4))

def decodeBatch (baseOffset baseTimestamp numRecords : ℤ) (body : Bytes) :
    Outcome OxideMqError (List Record) :=
  (decodeRecords baseOffset baseTimestamp numRecords.toNat).run body

/-- The loop of `parse_record_batch_records`, over decompressed batches. -/
def parseLoop : ℕ → ℕ → Bytes → Attempt OxideMqError (List Record)
  | 0, _, _ => some (.ok [])
  | fuel + 1, cursor, rest =>
      if 61 ≤ rest.length ∧ magicOf rest = 2 then
        let total := 12 + batchLengthOf rest
        if cursor + total < 0 ∨ total > rest.length then some (.ok [])
        else if total < 61 then none
        else
          (decodeBatch (baseOffsetOf rest) (baseTimestampOf rest) (numRecordsOf rest)
            (field rest 61 (total.toNat - 61))).attempt.andThen fun records =>
              (parseLoop fuel (cursor + total.toNat) (rest.drop total.toNat)).andThen fun behind =>
                some (.ok (records ++ behind))
      else some (.ok [])

def parseRecordBatchRecords (libs : Compressors) (batchBytes : Bytes) :
    Attempt OxideMqError (List Record) :=
  (decompressRecordBatch libs batchBytes).andThen fun uncompressed =>
    parseLoop uncompressed.length 0 uncompressed

def codecOf (batch : Bytes) : CompressionCodec :=
  CompressionCodec.fromAttributes (attributesOf batch)

def bodyOf (libs : Compressors) (batch : Bytes) : Except OxideMqError Bytes :=
  (codecOf batch).decompress libs (batch.drop 61)

/-- What `decompress_record_batch` makes of one batch. -/
def inflate (libs : Compressors) (batch : Bytes) : Except OxideMqError Bytes :=
  if codecOf batch = .none then .ok batch else (bodyOf libs batch).map (inflateBatch batch)

def recordsAt (libs : Compressors) (baseOffset : ℤ) (batch : Bytes) :
    Attempt OxideMqError (List Record) :=
  Attempt.andThen (some (bodyOf libs batch)) fun body =>
    (decodeBatch baseOffset (baseTimestampOf batch) (numRecordsOf batch) body).attempt

section

variable {libs : Compressors} {batch : Bytes} {batches : List Bytes}
variable {inflated : Bytes} {records : List Record}

theorem codecOf_append (h : 61 ≤ batch.length) (rest : Bytes) :
    codecOf (batch ++ rest) = codecOf batch := by
  rw [codecOf, attributesOf, field_append_left _ _ (by omega), codecOf, attributesOf]

theorem deflateBatch_append (h : 61 ≤ batch.length) (codec : CompressionCodec)
    (rest payload : Bytes) :
    deflateBatch codec (batch ++ rest) payload = deflateBatch codec batch payload := by
  simp only [deflateBatch, attributesOf]
  rw [field_append_left _ _ (by omega), field_append_left _ _ (by omega),
    field_append_left _ _ (by omega), field_append_left _ _ (by omega)]

theorem inflateBatch_eq_deflateBatch (batch payload : Bytes) :
    inflateBatch batch payload = deflateBatch .none batch payload := by
  rw [inflateBatch, deflateBatch, CompressionCodec.toAttributes, Nat.or_zero]

theorem field_body (h : 61 ≤ batch.length) (rest : Bytes) :
    field (batch ++ rest) 61 (batch.length - 61) = batch.drop 61 := by
  rw [field_append_left _ _ (by omega), field, List.take_of_length_le (by simp)]

theorem Framed.header_append (h : Framed batch) (rest : Bytes) :
    61 ≤ (batch ++ rest).length ∧ magicOf (batch ++ rest) = 2 := by
  have hhead := h.header
  refine ⟨by rw [List.length_append]; omega, ?_⟩
  rw [magicOf_append (by omega)]
  exact h.magic

theorem Framed.total_append (h : Framed batch) (rest : Bytes) :
    12 + batchLengthOf (batch ++ rest) = batch.length := by
  rw [h.batchLengthOf_append]
  omega

theorem decompressLoop_copies {fuel cur : ℕ} {rest out : Bytes}
    (h : decompressLoop libs fuel cur rest = some (.ok (false, out))) : out = rest := by
  induction fuel generalizing cur rest out with
  | zero => exact (Prod.mk.inj (Except.ok.inj (some.inj h))).2.symm
  | succ fuel ih =>
    rw [decompressLoop] at h
    split at h
    · dsimp only at h
      split at h
      · exact (Prod.mk.inj (Except.ok.inj (some.inj h))).2.symm
      · split at h
        · split at h
          · cases h
          · obtain ⟨⟨any, out'⟩, hloop, heq⟩ := andThen_eq_ok.mp h
            cases heq
            rw [ih hloop, List.take_append_drop]
        · split at h
          · cases h
          · obtain ⟨plain, -, hrest⟩ := andThen_eq_ok.mp h
            obtain ⟨⟨any, out'⟩, -, heq⟩ := andThen_eq_ok.mp hrest
            exact absurd (Prod.mk.inj (Except.ok.inj (some.inj heq))).1 nofun
    · exact (Prod.mk.inj (Except.ok.inj (some.inj h))).2.symm

def decompressOut (libs : Compressors) (fuel cursor : ℕ) (rest : Bytes) :
    Attempt OxideMqError Bytes :=
  (decompressLoop libs fuel cursor rest).andThen fun (_, out) => some (.ok out)

theorem decompressRecordBatch_eq_out (batchBytes : Bytes) :
    decompressRecordBatch libs batchBytes = decompressOut libs batchBytes.length 0 batchBytes := by
  rw [decompressRecordBatch, decompressOut]
  split
  · rename_i hshort
    have hstop : ∀ fuel,
        decompressLoop libs fuel 0 batchBytes = some (.ok (false, batchBytes)) := by
      intro fuel
      cases fuel with
      | zero => rfl
      | succ fuel => rw [decompressLoop, if_neg fun hfull => by omega]
    rw [hstop, andThen_ok]
  · cases hloop : decompressLoop libs batchBytes.length 0 batchBytes with
    | none => rfl
    | some result =>
      cases result with
      | error e => rfl
      | ok r =>
        obtain ⟨any, out⟩ := r
        cases any with
        | true => rfl
        | false => rw [decompressLoop_copies hloop]; rfl

theorem decompressOut_batch (h : Framed batch) (fuel cur : ℕ) (rest : Bytes) :
    decompressOut libs (fuel + 1) cur (batch ++ rest) =
      andThen (some (inflate libs batch)) fun inflated =>
        (decompressOut libs fuel (cur + batch.length) rest).andThen fun out =>
          some (.ok (inflated ++ out)) := by
  have hhead := h.header
  have hcodec : CompressionCodec.fromAttributes (attributesOf (batch ++ rest)) = codecOf batch :=
    codecOf_append hhead rest
  rw [decompressOut, decompressLoop, if_pos (h.header_append rest)]
  simp only [h.total_append, hcodec, Int.toNat_natCast]
  rw [if_neg (by simp; omega), inflate, decompressOut]
  by_cases hnone : codecOf batch = .none
  · rw [if_pos hnone, if_neg (by omega), if_pos hnone, List.drop_left, List.take_left]
    match decompressLoop libs fuel (cur + batch.length) rest with
    | none | some (.error _) | some (.ok _) => rfl
  · rw [if_neg hnone, if_neg (by omega), if_neg hnone, List.drop_left, field_body hhead, ← bodyOf]
    cases bodyOf libs batch with
    | error e => rfl
    | ok plain =>
      simp only [Except.map, andThen_ok, inflateBatch_eq_deflateBatch, deflateBatch_append hhead]
      match decompressLoop libs fuel (cur + batch.length) rest with
      | none | some (.error _) | some (.ok _) => rfl

theorem loop_flatten_append {α : Type} {loop : ℕ → ℕ → Bytes → Attempt OxideMqError (List α)}
    {step : Bytes → Attempt OxideMqError (List α)}
    (hloop : ∀ b, Framed b → ∀ fuel cur rest, loop (fuel + 1) cur (b ++ rest) =
      (step b).andThen fun xs => (loop fuel (cur + b.length) rest).andThen fun ys =>
        some (.ok (xs ++ ys)))
    (hfr : ∀ b ∈ batches, Framed b) {fuel : ℕ} (hfuel : batches.length ≤ fuel) (cur : ℕ)
    (rest : Bytes) :
    loop fuel cur (batches.flatten ++ rest) = concat (batches.map step)
        (loop (fuel - batches.length) (cur + batches.flatten.length) rest) := by
  induction batches generalizing fuel cur with
  | nil => rfl
  | cons batch batches ih =>
    obtain ⟨hb, hbs⟩ := List.forall_mem_cons.mp hfr
    rw [List.length_cons] at hfuel ⊢
    obtain ⟨fuel, rfl⟩ : ∃ k, fuel = k + 1 := ⟨fuel - 1, by omega⟩
    rw [List.flatten_cons, List.append_assoc, hloop batch hb, List.map_cons, concat,
      ih hbs (by omega), List.length_append, ← Nat.add_assoc, Nat.add_sub_add_right]

theorem length_le_flatten_length (hfr : ∀ b ∈ batches, Framed b) :
    batches.length * 61 ≤ batches.flatten.length := by
  induction batches with
  | nil => simp
  | cons batch batches ih =>
    obtain ⟨hb, hbs⟩ := List.forall_mem_cons.mp hfr
    have hhead := hb.header
    have hrest := ih hbs
    rw [List.length_cons, List.flatten_cons, List.length_append]
    omega

theorem decompressRecordBatch_eq_ok_iff (hfr : ∀ b ∈ batches, Framed b) {out : Bytes} :
    decompressRecordBatch libs batches.flatten = some (.ok out) ↔
      ∃ inflated, List.Forall₂ (fun b b' => inflate libs b = .ok b') batches inflated ∧
        out = inflated.flatten := by
  have hlen := length_le_flatten_length hfr
  have hend : ∀ fuel cur, decompressOut libs fuel cur [] = some (.ok []) := by
    intro fuel cur
    cases fuel <;> simp [decompressOut, decompressLoop]
  have hloop : decompressOut libs batches.flatten.length 0 (batches.flatten ++ []) = _ :=
    loop_flatten_append (fun _ => decompressOut_batch) hfr (by omega) 0 []
  rw [List.append_nil, hend] at hloop
  rw [decompressRecordBatch_eq_out, hloop, concat_eq_ok_iff]
  simp only [List.forall₂_map_left_iff, some.injEq, Except.ok.injEq]
  constructor
  · rintro ⟨inflated, behind, hinflated, rfl, rfl⟩
    exact ⟨inflated, hinflated, List.append_nil _⟩
  · rintro ⟨inflated, hinflated, rfl⟩
    exact ⟨inflated, [], hinflated, rfl, (List.append_nil _).symm⟩

structure Inflated (batch inflated body : Bytes) : Prop where
  length : inflated.length = 61 + body.length
  magic : magicOf inflated = 2
  batchLength : batchLengthOf inflated = wrapSigned 32 (49 + body.length)
  baseOffset : baseOffsetOf inflated = baseOffsetOf batch
  baseTimestamp : baseTimestampOf inflated = baseTimestampOf batch
  numRecords : numRecordsOf inflated = numRecordsOf batch
  body : inflated.drop 61 = body

theorem inflated_deflateBatch (h : 61 ≤ batch.length) (codec : CompressionCodec) (body : Bytes) :
    Inflated batch (deflateBatch codec batch body) body := by
  have h₁ : (field batch 0 8).length = 8 := by rw [field_length]; omega
  have h₂ : (field batch 12 4).length = 4 := by rw [field_length]; omega
  have h₃ : (field batch 23 38).length = 38 := by rw [field_length]; omega
  refine ⟨?_, ?_, ?_, ?_, ?_, ?_, ?_⟩
  · simp [deflateBatch, h₁, h₂, h₃]
    omega
  · simp [magicOf, deflateBatch, List.getElem?_append_right, h₁, h₂]
  · simp only [batchLengthOf, deflateBatch, field_append_of_le, field_prefix, h₁, beEncode_length,
      Nat.sub_self, le_refl, beDecode_beEncode]
    rw [toSigned, wrapSigned]
    push_cast
    exact Int.emod_bmod _ 4294967296
  · rw [baseOffsetOf, deflateBatch, field_prefix _ _ h₁.symm, baseOffsetOf]
  · simp [baseTimestampOf, deflateBatch, field_append_of_le, field_cons, field_append_left,
      field_field, h₁, h₂, h₃]
  · simp [numRecordsOf, deflateBatch, field_append_of_le, field_cons, field_append_left,
      field_field, h₁, h₂, h₃]
  · simp [deflateBatch, List.drop_append, List.drop_eq_nil_of_le, h₁, h₂, h₃]

theorem inflated_inflateBatch (h : 61 ≤ batch.length) (body : Bytes) :
    Inflated batch (inflateBatch batch body) body := by
  rw [inflateBatch_eq_deflateBatch]
  exact inflated_deflateBatch h .none body

theorem Framed.inflated_self (h : Framed batch) : Inflated batch batch (batch.drop 61) := by
  have hhead := h.header
  refine ⟨?_, h.magic, ?_, rfl, rfl, rfl, rfl⟩
  · rw [List.length_drop]
    omega
  · have hfits : FitsSigned 32 (batchLengthOf batch) := toSigned_fits (by decide) _
    rw [h.batchLength] at hfits ⊢
    have hbody : (49 + (batch.drop 61).length : ℤ) = batch.length - 12 := by
      rw [List.length_drop]
      omega
    rw [hbody, wrapSigned_of_fits (by decide) hfits]

theorem inflated_of_inflate (h : Framed batch) (hinf : inflate libs batch = .ok inflated) :
    ∃ body, bodyOf libs batch = .ok body ∧ Inflated batch inflated body := by
  have hhead := h.header
  rw [inflate] at hinf
  split at hinf
  · rename_i hnone
    cases hinf
    exact ⟨batch.drop 61, by rw [bodyOf, hnone]; rfl, h.inflated_self⟩
  · cases hbody : bodyOf libs batch with
    | error e => simp [hbody, Except.map] at hinf
    | ok body =>
      rw [hbody, Except.map, Except.ok.injEq] at hinf
      exact ⟨body, rfl, hinf ▸ inflated_inflateBatch hhead body⟩

theorem Inflated.framed {body : Bytes} (h : Inflated batch inflated body)
    (hshort : 49 + body.length < 2 ^ 31) : Framed inflated := by
  refine ⟨by rw [h.length]; omega, h.magic, ?_⟩
  rw [h.batchLength, wrapSigned_of_fits (by decide) ⟨by omega, by omega⟩, h.length]
  omega

def parseBatch (batch : Bytes) : Attempt OxideMqError (List Record) :=
  (decodeBatch (baseOffsetOf batch) (baseTimestampOf batch) (numRecordsOf batch)
    (batch.drop 61)).attempt

theorem parseLoop_nil (fuel cur : ℕ) : parseLoop fuel cur [] = some (.ok []) := by
  cases fuel with
  | zero => rfl
  | succ fuel => rw [parseLoop, if_neg (by simp)]

theorem parseLoop_batch (h : Framed batch) (fuel cur : ℕ) (rest : Bytes) :
    parseLoop (fuel + 1) cur (batch ++ rest) = (parseBatch batch).andThen fun records =>
        (parseLoop fuel (cur + batch.length) rest).andThen fun behind =>
          some (.ok (records ++ behind)) := by
  have hhead := h.header
  have hbase : baseOffsetOf (batch ++ rest) = baseOffsetOf batch := by
    rw [baseOffsetOf, field_append_left _ _ (by omega), baseOffsetOf]
  have htimestamp : baseTimestampOf (batch ++ rest) = baseTimestampOf batch := by
    rw [baseTimestampOf, field_append_left _ _ (by omega), baseTimestampOf]
  have hcnt : numRecordsOf (batch ++ rest) = numRecordsOf batch := by
    rw [numRecordsOf, field_append_left _ _ (by omega), numRecordsOf]
  rw [parseLoop, if_pos (h.header_append rest)]
  simp only [h.total_append, hbase, htimestamp, hcnt, Int.toNat_natCast]
  rw [if_neg (by simp; omega), if_neg (by omega), field_body hhead, List.drop_left, parseBatch]

theorem parseLoop_eq_ok_iff (hfr : ∀ b ∈ batches, Framed b) {fuel : ℕ}
    (hfuel : batches.length ≤ fuel) (cur : ℕ) (rest : Bytes) :
    parseLoop fuel cur (batches.flatten ++ rest) = some (.ok records) ↔ ∃ parsed behind,
        List.Forall₂ (fun b rs => parseBatch b = some (.ok rs)) batches parsed ∧
        parseLoop (fuel - batches.length) (cur + batches.flatten.length) rest = some (.ok behind) ∧
        records = parsed.flatten ++ behind := by
  rw [loop_flatten_append (fun _ => parseLoop_batch) hfr hfuel, concat_eq_ok_iff]
  simp only [List.forall₂_map_left_iff]

def BodyFits (libs : Compressors) (batch : Bytes) : Prop :=
  ∀ body, bodyOf libs batch = .ok body → 49 + body.length < 2 ^ 31

theorem parse_inflated {inflated : List Bytes} (hfr : ∀ b ∈ batches, Framed b)
    (hfits : ∀ b ∈ batches, BodyFits libs b)
    (h : List.Forall₂ (fun b b' => inflate libs b = .ok b') batches inflated) :
    (∀ b ∈ inflated, Framed b) ∧ inflated.map parseBatch =
      batches.map fun b => recordsAt libs (baseOffsetOf b) b := by
  induction h with
  | nil => exact ⟨List.forall_mem_nil _, List.map_nil.trans List.map_nil.symm⟩
  | cons hfirst _ ih =>
    obtain ⟨hfr₁, hfr₂⟩ := List.forall_mem_cons.mp hfr
    obtain ⟨hfits₁, hfits₂⟩ := List.forall_mem_cons.mp hfits
    obtain ⟨body, hbody, hinf⟩ := inflated_of_inflate hfr₁ hfirst
    obtain ⟨htail, hrest⟩ := ih hfr₂ hfits₂
    refine ⟨List.forall_mem_cons.mpr ⟨hinf.framed (hfits₁ body hbody), htail⟩,
      congrArg₂ List.cons ?_ hrest⟩
    show parseBatch _ = recordsAt libs (baseOffsetOf _) _
    rw [parseBatch, recordsAt, hbody, hinf.baseOffset, hinf.baseTimestamp, hinf.numRecords,
      hinf.body, andThen_ok]

theorem exists_inflated {parsed : List (List Record)}
    (h : List.Forall₂ (fun b rs => recordsAt libs (baseOffsetOf b) b = some (.ok rs)) batches
      parsed) : ∃ inflated, List.Forall₂ (fun b b' => inflate libs b = .ok b') batches inflated := by
  induction h with
  | nil => exact ⟨[], List.Forall₂.nil⟩
  | @cons b _ _ _ hfirst _ ih =>
    obtain ⟨body, hbody, -⟩ := andThen_eq_ok.mp hfirst
    obtain ⟨inflated, hinflated⟩ := ih
    obtain ⟨first, hinf⟩ : ∃ first, inflate libs b = .ok first := by
      rw [inflate, some.inj hbody]
      split
      · exact ⟨b, rfl⟩
      · exact ⟨inflateBatch b body, rfl⟩
    exact ⟨first :: inflated, List.Forall₂.cons hinf hinflated⟩

theorem parseRecordBatchRecords_eq_ok_iff (hfr : ∀ b ∈ batches, Framed b)
    (hfits : ∀ b ∈ batches, BodyFits libs b) :
    parseRecordBatchRecords libs batches.flatten = some (.ok records) ↔
      ∃ parsed, List.Forall₂ (fun b rs => recordsAt libs (baseOffsetOf b) b = some (.ok rs))
        batches parsed ∧ records = parsed.flatten := by
  -- both sides speak of the decompressed batches
  have hparse : ∀ {inflated}, List.Forall₂ (fun b b' => inflate libs b = .ok b') batches inflated →
      (parseLoop inflated.flatten.length 0 inflated.flatten = some (.ok records) ↔
        ∃ parsed, List.Forall₂ (fun b rs => recordsAt libs (baseOffsetOf b) b = some (.ok rs))
          batches parsed ∧ records = parsed.flatten) := by
    intro inflated hinf
    obtain ⟨hfr', hmap⟩ := parse_inflated hfr hfits hinf
    have hlen := length_le_flatten_length hfr'
    have hsame : ∀ parsed, List.Forall₂ (fun b rs => parseBatch b = some (.ok rs)) inflated parsed ↔
        List.Forall₂ (fun b rs => recordsAt libs (baseOffsetOf b) b = some (.ok rs)) batches
          parsed := by
      intro parsed
      rw [← List.forall₂_map_left_iff (f := parseBatch) (R := fun x rs => x = some (.ok rs)), hmap,
        List.forall₂_map_left_iff]
    have hloop : parseLoop inflated.flatten.length 0 (inflated.flatten ++ []) =
        some (.ok records) ↔ _ := parseLoop_eq_ok_iff hfr' (by omega) 0 []
    rw [List.append_nil] at hloop
    rw [hloop]
    constructor
    · rintro ⟨parsed, behind, hpar, hbehind, rfl⟩
      rw [parseLoop_nil, some.injEq, Except.ok.injEq] at hbehind
      exact ⟨parsed, (hsame parsed).mp hpar, by rw [← hbehind, List.append_nil]⟩
    · rintro ⟨parsed, hpar, rfl⟩
      exact ⟨parsed, [], (hsame parsed).mpr hpar, parseLoop_nil _ _, (List.append_nil _).symm⟩
  rw [parseRecordBatchRecords, andThen_eq_ok]
  constructor
  · rintro ⟨plain, hdec, hrecs⟩
    obtain ⟨inflated, hinf, rfl⟩ := (decompressRecordBatch_eq_ok_iff hfr).mp hdec
    exact (hparse hinf).mp hrecs
  · intro hrecs
    obtain ⟨parsed, hpar, -⟩ := id hrecs
    obtain ⟨inflated, hinf⟩ := exists_inflated hpar
    exact ⟨inflated.flatten, (decompressRecordBatch_eq_ok_iff hfr).mpr ⟨_, hinf, rfl⟩,
      (hparse hinf).mpr hrecs⟩

end

theorem returns_readVarint {k : ℕ} : Returns k readVarint :=
  .bind returns_readUnsignedVarint fun _ => .pure _

theorem returns_readNullable (trunc : String) : Returns 0 (readNullable trunc) := by
  refine .bind returns_readVarint fun len => ?_
  exact .ite (returns_readBlob _ _) (.pure _)

theorem returns_recordHeader : Returns 0 RecordHeader.decode := by
  refine .bind returns_readVarint fun kLen => .ite (.fail _) ?_
  refine .atLeast _ (.bind (.get le_rfl) fun kBytes => ?_)
  cases utf8 kBytes with
  | none => exact .fail _
  | some kStr => exact .bind (returns_readNullable _) fun _ => .pure _

theorem returns_record (base ts : ℤ) : Returns 1 (Record.decode base ts) := by
  refine .bind (returns_getInt le_rfl) fun _ => ?_
  refine .bind returns_readVarint fun tsDelta => ?_
  refine .bind returns_readVarint fun offDelta => ?_
  refine .bind (returns_readNullable _) fun key => ?_
  refine .bind (returns_readNullable _) fun value => ?_
  refine .bind returns_readVarint fun headersCount => ?_
  exact .bind (.times returns_recordHeader _) fun headers => .pure _

theorem returns_decodeRecords (base ts : ℤ) (n : ℕ) : Returns 0 (decodeRecords base ts n) := by
  induction n with
  | zero => exact .pure _
  | succ n ih =>
    refine .whenLeft _ (.bind returns_readVarint fun _ => ?_)
    refine .whenLeft _ (.bind (returns_record _ _) fun record => ?_)
    exact .bind ih fun records => .pure _

theorem decodeBatch_ne_panic (base ts numRecords : ℤ) (body : Bytes) :
    (decodeBatch base ts numRecords body).attempt ≠ none := by
  have hret := returns_decodeRecords base ts numRecords.toNat body (Nat.zero_le _)
  rw [decodeBatch]
  cases hrun : (decodeRecords base ts numRecords.toNat).run body with
  | ok records rest => exact some_ne_none _
  | err e => exact some_ne_none _
  | panic => exact absurd hrun hret

theorem reads_nullable {o : Option Bytes} (h : ∀ b ∈ o, b.length < 2 ^ 63) (trunc : String) :
    Reads (readNullable trunc) (writeNullable o) o := by
  cases o with
  | none =>
    refine .bind_tail (reads_varint (by decide)) ?_
    exact .pure none
  | some b =>
    have hlen := h b rfl
    refine .bind (reads_varint ⟨by omega, by omega⟩) ?_
    rw [if_pos (by omega)]
    exact reads_blob b (by simp) trunc

theorem reads_recordHeader {h : RecordHeader} (hkey : (textBytes h.key).length < 2 ^ 63)
    (hval : h.value.length < 2 ^ 63) : Reads RecordHeader.decode h.encode h := by
  refine .bind (reads_varint ⟨by omega, by omega⟩) ?_
  rw [if_neg (by omega), Int.toNat_natCast]
  refine .atLeast _ (by simp) (.bind (.get rfl) ?_)
  rw [utf8_textBytes]
  exact .bind_pure (fun v : Option Bytes => (⟨h.key, v.getD []⟩ : RecordHeader))
    (reads_nullable (o := some h.value) (by simpa using hval) "Truncated header value")

theorem length_le_flatMap_encode (headers : List RecordHeader) :
    headers.length ≤ (headers.flatMap RecordHeader.encode).length ∧
      ∀ h ∈ headers, (textBytes h.key).length + h.value.length ≤
        (headers.flatMap RecordHeader.encode).length := by
  induction headers with
  | nil => exact ⟨le_rfl, List.forall_mem_nil _⟩
  | cons h headers ih =>
    obtain ⟨hcnt, hsize⟩ := ih
    have hvar := one_le_writeVarint (textBytes h.key).length
    have hencode : (RecordHeader.encode h).length =
        (writeVarint (textBytes h.key).length).length + ((textBytes h.key).length +
          ((writeVarint h.value.length).length + h.value.length)) := by
      simp [RecordHeader.encode]
    rw [List.flatMap_cons, List.length_append, hencode, List.length_cons]
    refine ⟨by omega, List.forall_mem_cons.mpr ⟨by omega, fun h' hmem => ?_⟩⟩
    have := hsize h' hmem
    omega

structure Record.Fits (baseOffset baseTimestamp : ℤ) (record : Record) : Prop where
  timestamp : FitsSigned 64 record.timestamp
  timestampDelta : FitsSigned 64 (record.timestamp - baseTimestamp)
  offsetDelta : FitsSigned 64 (record.offset - baseOffset)
  body : (record.encodeBody baseOffset baseTimestamp).length < 2 ^ 63

theorem le_writeNullable {o : Option Bytes} {b : Bytes} (h : b ∈ o) :
    b.length ≤ (writeNullable o).length := by
  obtain rfl := mem_def.mp h
  simp [writeNullable]

theorem reads_record {base ts : ℤ} {record : Record} (h : record.Fits base ts) (newBase : ℤ) :
    Reads (Record.decode newBase ts) (record.encodeBody base ts)
      { record with offset := wrapSigned 64 (newBase + (record.offset - base)) } := by
  have hbody := h.body
  simp only [Record.encodeBody, List.length_append] at hbody
  obtain ⟨hcnt, hsize⟩ := length_le_flatMap_encode record.headers
  have hkey : ∀ b ∈ record.key, b.length < 2 ^ 63 := fun b hb => by
    have := le_writeNullable hb
    omega
  have hval : ∀ b ∈ record.value, b.length < 2 ^ 63 := fun b hb => by
    have := le_writeNullable hb
    omega
  have hheaders : ∀ x ∈ record.headers, Reads RecordHeader.decode x.encode x := fun x hx => by
    have := hsize x hx
    exact reads_recordHeader (by omega) (by omega)
  have htimestamp : wrapSigned 64 (ts + (record.timestamp - ts)) = record.timestamp := by
    rw [add_sub_cancel, wrapSigned_of_fits (by decide) h.timestamp]
  rw [Record.encodeBody, wrapSigned_of_fits (by decide) h.timestampDelta,
    wrapSigned_of_fits (by decide) h.offsetDelta]
  refine .bind (reads_int (by decide) (by decide)) ?_
  refine .bind (reads_varint h.timestampDelta) ?_
  refine .bind (reads_varint h.offsetDelta) ?_
  refine .bind (reads_nullable hkey _) ?_
  refine .bind (reads_nullable hval _) ?_
  refine .bind (reads_varint ⟨by omega, by omega⟩) ?_
  rw [htimestamp, Int.toNat_natCast]
  have htimes : Reads (RecordHeader.decode.times record.headers.length)
      (record.headers.flatMap RecordHeader.encode) (record.headers.map id) := .times hheaders
  rw [List.map_id] at htimes
  exact .bind_pure _ htimes

def rebase (baseOffset newBase : ℤ) (record : Record) : Record :=
  { record with offset := wrapSigned 64 (newBase + (record.offset - baseOffset)) }

theorem image_record (base ts : ℤ) : Image (rebase 0 base) (Record.decode 0 ts)
      (Record.decode base ts) := by
  refine Image.bind_same fun _attributes => Image.bind_same fun tsDelta => ?_
  refine Image.bind_same fun offDelta => Image.bind_same fun key => ?_
  refine Image.bind_same fun value => Image.bind_same fun headersCount => ?_
  refine Image.bind_same fun headers => ?_
  have hoff : wrapSigned 64 (base + (wrapSigned 64 (0 + offDelta) - 0)) =
      wrapSigned 64 (base + offDelta) := by
    rw [zero_add, sub_zero, wrapSigned, wrapSigned, Int.add_bmod_bmod, wrapSigned]
  have hpure := Image.pure (E := OxideMqError) (rebase 0 base)
    ⟨wrapSigned 64 (0 + offDelta), wrapSigned 64 (ts + tsDelta), key, value, headers⟩
  rw [rebase, hoff] at hpure
  exact hpure

theorem image_records (base ts : ℤ) (n : ℕ) :
    Image (List.map (rebase 0 base)) (decodeRecords 0 ts n) (decodeRecords base ts n) := by
  induction n with
  | zero => exact Image.pure _ []
  | succ n ih =>
    refine Image.whenLeft 1 [] (Image.bind_same fun _recordLen => Image.whenLeft 1 [] ?_)
    refine Image.bind (image_record base ts) fun record => ?_
    exact Image.bind ih fun records => Image.pure _ (record :: records)

theorem recordsAt_eq (libs : Compressors) (base : ℤ) (batch : Bytes) : recordsAt libs base batch =
      (recordsAt libs 0 batch).andThen fun records =>
        some (.ok (records.map (rebase 0 base))) := by
  rw [recordsAt, recordsAt]
  cases bodyOf libs batch with
  | error e => rfl
  | ok body =>
    rw [andThen_ok, andThen_ok, decodeBatch, image_records, Outcome.attempt_map, decodeBatch]

theorem reads_records {base ts : ℤ} {recs : List Record}
    (h : ∀ r ∈ recs, r.Fits base ts) (newBase : ℤ) :
    Reads (decodeRecords newBase ts recs.length) (recs.flatMap (Record.encode base ts))
      (recs.map (rebase base newBase)) := by
  induction recs with
  | nil => exact .pure []
  | cons record recs ih =>
    obtain ⟨hrec, hrecs⟩ := List.forall_mem_cons.mp h
    have hvar := one_le_writeVarint (record.encodeBody base ts).length
    have hfits := hrec.body
    rw [List.flatMap_cons, Record.encode, List.append_assoc]
    refine .whenLeft [] (by rw [List.length_append]; omega) ?_
    refine .bind (reads_varint ⟨by omega, by omega⟩) ?_
    refine .whenLeft [] ?_ ?_
    · simp [Record.encodeBody, putI8]
    · refine .bind (reads_record hrec newBase) ?_
      exact .bind_pure (rebase base newBase record :: ·) (ih hrecs)

end OxideMq.Protocol
