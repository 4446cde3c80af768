import OxideMq.Broker.ProducedRecords
import OxideMq.Broker.SchemaRegistry
import OxideMq.Protocol.Recompression

/-! The check of produced records against the schema registry. -/

namespace OxideMq.Broker

open Lib OxideMq.Core OxideMq.Protocol KafkaEncoder KafkaDecoder SchemaRegistry List

namespace SchemaRegistry

def Registered (registry : SchemaRegistry) (id : ℤ) : Prop :=
  (registry.globalSchemas.lookup id).isSome

instance (registry : SchemaRegistry) (id : ℤ) : Decidable (registry.Registered id) :=
  inferInstanceAs (Decidable (_ = true))

/-- The schema id of a payload, an `i32` in big-endian order. -/
def frameId (payload : Bytes) : ℤ := toSigned 32 (beDecode (field payload 1 4))

def validateMagicBytePayload (registry : SchemaRegistry) (payload : Bytes) :
    Except SchemaRegistryError (Option ℤ) :=
  if payload.length < 5 ∨ payload.getD 0 0 ≠ 0 then .ok none
  else if registry.Registered (frameId payload) then .ok (some (frameId payload))
  else .error (.schemaNotFound (frameId payload))

def validateRecord (registry : SchemaRegistry) (payload : Bytes) (requireMagicByte : Bool) :
    Except SchemaRegistryError (Option ℤ) :=
  match registry.validateMagicBytePayload payload with
  | .error e => .error e
  | .ok res => if requireMagicByte && res.isNone then .error .invalidRecordPayload else .ok res

def Carries (registry : SchemaRegistry) (payload : Bytes) : Prop :=
  (5 ≤ payload.length ∧ payload.getD 0 0 = 0) ∧ registry.Registered (frameId payload)

instance (registry : SchemaRegistry) (payload : Bytes) : Decidable (registry.Carries payload) :=
  inferInstanceAs (Decidable (_ ∧ _))

theorem validateMagicBytePayload_eq_some (reg : SchemaRegistry) (payload : Bytes) :
    (∃ id, reg.validateMagicBytePayload payload = .ok (some id)) ↔ reg.Carries payload := by
  rw [validateMagicBytePayload, Carries]
  split
  · rename_i hplain
    exact ⟨fun ⟨_, h⟩ => absurd h nofun, fun h => absurd hplain (by grind)⟩
  · rename_i hfr
    rw [not_or, not_lt, not_not] at hfr
    split
    · rename_i hreg
      exact ⟨fun _ => ⟨hfr, hreg⟩, fun _ => ⟨_, rfl⟩⟩
    · rename_i hmiss
      exact ⟨fun ⟨_, h⟩ => absurd h nofun, fun h => absurd h.2 hmiss⟩

theorem validateRecord_eq_some (reg : SchemaRegistry) (payload : Bytes) :
    (∃ id, reg.validateRecord payload true = .ok (some id)) ↔ reg.Carries payload := by
  rw [← validateMagicBytePayload_eq_some, validateRecord]
  match reg.validateMagicBytePayload payload with
  | .error e => rfl
  | .ok none => exact ⟨fun ⟨_, h⟩ => absurd h nofun, fun ⟨_, h⟩ => absurd h nofun⟩
  | .ok (some id) => rfl

end SchemaRegistry

def readPositive : Parser (Option Bytes) := do
  let len ← readVarint
  if len > 0 then readBlob len.toNat "" else return none

def recordValue : Parser (Option Bytes) := do
  Decoder.atLeast 1 (.protocol "")
  let _attributes ← Decoder.get 1
  let _timestampDelta ← readVarint
  let _offsetDelta ← readVarint
  let _key ← readPositive
  readPositive

def nextValue (buf : Bytes) : Option (Option Bytes × Bytes) :=
  match readVarint.run buf with
  | .ok recLen rest =>
      if recLen > 0 ∧ recLen ≤ rest.length then
        match recordValue.run (rest.take recLen.toNat) with
        | .ok value _ => some (value, rest.drop recLen.toNat)
        | _ => none
      else none
  | _ => none

def validateLoop (registry : SchemaRegistry) : ℕ → Bytes → Bool
  | 0, _ => true
  | fuel + 1, buf =>
      match nextValue buf with
      | none => true
      | some (none, rest) => validateLoop registry fuel rest
      | some (some value, rest) =>
          match registry.validateRecord value true with
          | .ok (some _) => validateLoop registry fuel rest
          | _ => false

def validateRecordPayloads (registry : SchemaRegistry) (records : Bytes) : Bool :=
  if records = [] then true
  else if 5 ≤ records.length ∧ records.getD 0 0 = 0 then
    match registry.validateMagicBytePayload records with
    | .ok (some _) => true
    | _ => false
  else if 61 ≤ records.length ∧ magicOf records = 2 then
    validateLoop registry records.length (records.drop 61)
  else false

def walkedValues : ℕ → Bytes → List Bytes
  | 0, _ => []
  | fuel + 1, buf =>
      match nextValue buf with
      | none => []
      | some (value, rest) => value.toList ++ walkedValues fuel rest

def lookedUp (records : Bytes) : List Bytes :=
  if records.getD 0 0 = 0 then [records] else walkedValues records.length (records.drop 61)

theorem validateLoop_iff (reg : SchemaRegistry) (fuel : ℕ) (buf : Bytes) :
    validateLoop reg fuel buf = true ↔ ∀ w ∈ walkedValues fuel buf, reg.Carries w := by
  induction fuel generalizing buf with
  | zero => exact iff_of_true rfl (forall_mem_nil _)
  | succ fuel ih =>
    rw [validateLoop, walkedValues]
    match nextValue buf with
    | none => exact iff_of_true rfl (forall_mem_nil _)
    | some (none, rest) => exact ih rest
    | some (some value, rest) =>
      have hval := reg.validateRecord_eq_some value
      dsimp only
      rw [Option.toList_some, singleton_append, forall_mem_cons, ← ih, ← hval]
      match reg.validateRecord value true with
      | .error e => exact ⟨fun h => absurd h nofun, fun ⟨⟨_, h⟩, _⟩ => absurd h nofun⟩
      | .ok none => exact ⟨fun h => absurd h nofun, fun ⟨⟨_, h⟩, _⟩ => absurd h nofun⟩
      | .ok (some id) => exact ⟨fun h => ⟨⟨id, rfl⟩, h⟩, fun h => h.2⟩

theorem validate_iff (reg : SchemaRegistry) {recs : Bytes} (hhead : 61 ≤ recs.length)
    (hmagic : magicOf recs = 2) :
    validateRecordPayloads reg recs = true ↔ ∀ w ∈ lookedUp recs, reg.Carries w := by
  have hne : recs ≠ [] := fun h => by
    rw [h] at hhead
    exact absurd hhead (by decide)
  rw [validateRecordPayloads, if_neg hne, lookedUp]
  by_cases hzero : recs.getD 0 0 = 0
  · rw [if_pos ⟨by omega, hzero⟩, if_pos hzero, forall_mem_singleton,
      ← reg.validateMagicBytePayload_eq_some]
    match reg.validateMagicBytePayload recs with
    | .error e => exact ⟨fun h => absurd h nofun, fun ⟨_, h⟩ => absurd h nofun⟩
    | .ok none => exact ⟨fun h => absurd h nofun, fun ⟨_, h⟩ => absurd h nofun⟩
    | .ok (some id) => exact iff_of_true rfl ⟨id, rfl⟩
  · rw [if_neg fun h => hzero h.2, if_pos ⟨hhead, hmagic⟩, if_neg hzero, validateLoop_iff]

def Record.nonEmptyValue (record : Record) : Option Bytes := record.value.filter (!·.isEmpty)

theorem reads_positive {o : Option Bytes} (h : ∀ b ∈ o, b.length < 2 ^ 63) :
    Reads readPositive (writeNullable o) (o.filter (!·.isEmpty)) := by
  match o with
  | none => exact .bind_tail (reads_varint (by decide)) (.pure none)
  | some [] =>
    have hzero : Reads readVarint (writeVarint 0) 0 := reads_varint (by decide)
    exact .bind hzero (.pure none)
  | some (b :: bs) =>
    have hlen := h (b :: bs) rfl
    rw [length_cons] at hlen
    refine .bind (reads_varint ⟨by rw [length_cons]; omega, by
      rw [length_cons]; omega⟩) ?_
    rw [if_pos (by rw [length_cons]; omega)]
    exact reads_blob (b :: bs) (by simp) ""

section

variable {baseOffset baseTimestamp : ℤ}

theorem run_recordValue {record : Record}
    (h : (record.encodeBody baseOffset baseTimestamp).length < 2 ^ 63) :
    ∃ headers, recordValue.run (record.encodeBody baseOffset baseTimestamp) =
      .ok (Record.nonEmptyValue record) headers := by
  simp only [Record.encodeBody, length_append] at h
  have hkey : ∀ b ∈ record.key, b.length < 2 ^ 63 := fun b hb => by
    have := le_writeNullable hb
    omega
  have hval : ∀ b ∈ record.value, b.length < 2 ^ 63 := fun b hb => by
    have := le_writeNullable hb
    omega
  have hreads : Reads recordValue (putI8 0 ++
      (writeVarint (wrapSigned 64 (record.timestamp - baseTimestamp)) ++
        (writeVarint (wrapSigned 64 (record.offset - baseOffset)) ++
          (writeNullable record.key ++ writeNullable record.value))))
        (Record.nonEmptyValue record) := by
    refine .atLeast _ (by simp [putI8]) (.bind (.get (by simp [putI8])) ?_)
    refine .bind (reads_varint (wrapSigned_fits (by decide) _)) ?_
    refine .bind (reads_varint (wrapSigned_fits (by decide) _)) ?_
    exact .bind (reads_positive hkey) (reads_positive hval)
  have hrun := hreads (writeVarint record.headers.length ++
    record.headers.flatMap RecordHeader.encode)
  simp only [append_assoc] at hrun
  exact ⟨_, hrun⟩

theorem nextValue_encode {record : Record}
    (h : (record.encodeBody baseOffset baseTimestamp).length < 2 ^ 63) (rest : Bytes) :
    nextValue (record.encode baseOffset baseTimestamp ++ rest) =
      some (Record.nonEmptyValue record, rest) := by
  obtain ⟨headers, hval⟩ := run_recordValue h
  have hbody : 1 ≤ (record.encodeBody baseOffset baseTimestamp).length := by
    simp [Record.encodeBody, putI8]
  rw [Record.encode]
  generalize record.encodeBody baseOffset baseTimestamp = body at *
  have hlen : readVarint.run (writeVarint body.length ++ (body ++ rest)) =
      .ok (body.length : ℤ) (body ++ rest) := reads_varint ⟨by omega, by omega⟩ _
  rw [nextValue, append_assoc, hlen]
  dsimp only
  rw [if_pos ⟨by omega, by rw [length_append]; omega⟩, Int.toNat_natCast, take_left,
    drop_left, hval]

theorem walkedValues_encode {recs : List Record}
    (h : ∀ r ∈ recs, (Record.encodeBody baseOffset baseTimestamp r).length < 2 ^ 63) {fuel : ℕ}
    (hfuel : recs.length ≤ fuel) :
    walkedValues fuel (recs.flatMap (Record.encode baseOffset baseTimestamp)) =
      recs.flatMap fun r => (Record.nonEmptyValue r).toList := by
  induction recs generalizing fuel with
  | nil =>
    cases fuel with
    | zero => rfl
    | succ fuel => rfl
  | cons record recs ih =>
    obtain ⟨hrec, hrecs⟩ := forall_mem_cons.mp h
    obtain ⟨fuel, rfl⟩ : ∃ k, fuel = k + 1 := ⟨fuel - 1, by rw [length_cons] at hfuel; omega⟩
    rw [flatMap_cons, walkedValues, nextValue_encode hrec, flatMap_cons]
    dsimp only
    rw [ih hrecs (by rw [length_cons] at hfuel; omega)]

end

theorem mem_nonEmptyValue {record : Record} {v : Bytes} :
    v ∈ (Record.nonEmptyValue record).toList ↔ v ∈ record.value ∧ v ≠ [] := by
  rw [Option.mem_toList, Record.nonEmptyValue, Option.mem_def, Option.filter_eq_some_iff]
  simp

section

variable {baseOffset : ℤ} (tail : Bytes)

theorem magicOf_assembleBatch : magicOf (assembleBatch baseOffset tail) = 2 := by
  rw [magicOf, assembleBatch, getD_eq_getElem?_getD, getElem?_append_right (by simp),
    getElem?_append_right (by simp), getElem?_append_right (by simp)]
  simp

theorem getD_assembleBatch (h : FitsSigned 64 baseOffset) :
    (assembleBatch baseOffset tail).getD 0 0 = 0 ↔ 0 ≤ baseOffset ∧ baseOffset < 2 ^ 56 := by
  obtain ⟨hlo, hhi⟩ := h
  have hfirst : (assembleBatch baseOffset tail).getD 0 0 =
      UInt8.ofNat (ofSigned 64 baseOffset / 256 ^ 7) := rfl
  rw [hfirst, ← UInt8.toNat_inj, UInt8.toNat_ofNat']
  norm_num [ofSigned] at hlo hhi ⊢
  omega

theorem frameId_assembleBatch (h : 0 ≤ baseOffset) (hlt : baseOffset < 2 ^ 56) :
    frameId (assembleBatch baseOffset tail) = wrapSigned 32 (baseOffset / 2 ^ 24) := by
  have hfield : field (assembleBatch baseOffset tail) 1 4 =
      beEncode 4 (ofSigned 64 baseOffset / 2 ^ 24) := by
    rw [assembleBatch, field_append_left _ _ (by simp)]
    simp [field, beEncode, Nat.div_div_eq_div_mul]
  have hoff : ((ofSigned 64 baseOffset / 2 ^ 24 % 256 ^ 4 : ℕ) : ℤ) =
      baseOffset / 2 ^ 24 % (2 ^ 32 : ℕ) := by
    norm_num [ofSigned] at hlt ⊢
    omega
  rw [frameId, hfield, beDecode_beEncode, toSigned, hoff, wrapSigned, Int.emod_bmod]

end

theorem encoded_batch_accepted_iff (libs : Compressors) (registry : SchemaRegistry)
    {baseOffset : ℤ} (hoffset : FitsSigned 64 baseOffset) {records : List Record}
    (hrecords : ∀ r ∈ records, ∀ v ∈ r.value, v ≠ [] → registry.Carries v) {batch : Bytes}
    (hbatch : encodeRecordBatchV2 libs baseOffset records .none = some (.ok batch))
    (hmemory : batch.length ≤ isizeMax) :
    validateRecordPayloads registry batch = true ↔ baseOffset < 0 ∨ 2 ^ 56 ≤ baseOffset ∨
        registry.Registered (wrapSigned 32 (baseOffset / 2 ^ 24)) := by
  obtain ⟨tail, rfl, hlong, hdrop⟩ : ∃ tail, batch = assembleBatch baseOffset tail ∧
      40 ≤ tail.length ∧ batch.drop 61 = encodePayload baseOffset records := by
    rw [encodeRecordBatchV2, if_neg (fun h => h rfl), Attempt.andThen_ok] at hbatch
    dsimp only at hbatch
    split at hbatch
    · cases hbatch
    · cases hbatch
      refine ⟨_, rfl, by rw [batchTail_length]; omega, ?_⟩
      simp only [assembleBatch, batchTail, ← List.append_assoc]
      exact List.drop_left' (by simp)
  have hlen := assembleBatch_length baseOffset tail
  rw [validate_iff registry (by omega) (magicOf_assembleBatch tail), lookedUp, hdrop]
  by_cases hzero : 0 ≤ baseOffset ∧ baseOffset < 2 ^ 56
  · have hfirst := (getD_assembleBatch tail hoffset).mpr hzero
    rw [if_pos hfirst, List.forall_mem_singleton, SchemaRegistry.Carries,
      frameId_assembleBatch tail hzero.1 hzero.2]
    constructor
    · exact fun h => Or.inr (Or.inr h.2)
    · intro h
      exact ⟨⟨by omega, hfirst⟩, (h.resolve_left (by omega)).resolve_left (by omega)⟩
  · rw [if_neg (mt (getD_assembleBatch tail hoffset).mp hzero)]
    -- the records take no more memory than the batch
    have hpay := congrArg List.length hdrop
    rw [List.length_drop] at hpay
    have hcnt := EncodedBatch.length_le_payload records baseOffset (baseTimestampFor records)
    rw [← encodePayload] at hcnt
    have hbd : isizeMax < 2 ^ 63 := by decide
    have hsize : ∀ r ∈ records,
        (Record.encodeBody baseOffset (baseTimestampFor records) r).length < 2 ^ 63 := by
      intro r hr
      have hbody := EncodedBatch.body_le_payload hr baseOffset (baseTimestampFor records)
      rw [← encodePayload] at hbody
      omega
    rw [encodePayload, walkedValues_encode hsize (by omega)]
    refine iff_of_true (fun w hw => ?_) (by omega)
    obtain ⟨r, hr, hw⟩ := List.mem_flatMap.mp hw
    obtain ⟨hval, hne⟩ := mem_nonEmptyValue.mp hw
    exact hrecords r hr w hval hne

def SchemaRegistry.withIds (ids : List ℤ) : SchemaRegistry :=
  { SchemaRegistry.new with
    globalSchemas := ids.foldr (fun id schemas => schemas.insert id ⟨"", 1, id, .avro, "", []⟩) ∅ }

def singleBatch (baseOffset : ℤ) (value : Bytes) : Bytes :=
  assembleBatch baseOffset (batchTail 0 0 0 0 (-1) (-1) (-1) 1
    (encodePayload baseOffset [⟨baseOffset, 0, none, some value, []⟩]))

theorem encoded_batch_accepted_framed :
    validateRecordPayloads (.withIds [1]) (singleBatch (-1) [0, 0, 0, 0, 1]) = true := by
  have hrecs : ∀ r ∈ [(⟨-1, 0, none, some [0, 0, 0, 0, 1], []⟩ : Record)], ∀ v ∈ r.value,
      v ≠ [] → SchemaRegistry.Carries (.withIds [1]) v := by
    intro r hr v hv _
    obtain rfl := List.mem_singleton.mp hr
    cases hv
    decide +kernel
  exact (encoded_batch_accepted_iff runLibs _ (by decide : FitsSigned 64 (-1)) hrecs
    (by decide +kernel) (by decide +kernel)).mpr (Or.inl (by decide))

theorem encoded_batch_rejected : SchemaRegistry.Carries (.withIds [1]) [0, 0, 0, 0, 1] ∧
      encodeRecordBatchV2 runLibs 0 [⟨0, 0, none, some [0, 0, 0, 0, 1], []⟩] .none =
        some (.ok (singleBatch 0 [0, 0, 0, 0, 1])) ∧
      validateRecordPayloads (.withIds [1]) (singleBatch 0 [0, 0, 0, 0, 1]) = false := by
  refine ⟨by decide +kernel, by decide +kernel, by decide +kernel⟩

namespace SchemaRegistry

end SchemaRegistry

end OxideMq.Broker
