import OxideMq.Broker.Patch
import OxideMq.Stream.S3Stream

/-! A partition: a stream, and the transactions that are open or were aborted on it. -/

namespace OxideMq.Broker

open Lib OxideMq.Core OxideMq.Protocol OxideMq.Wal OxideMq.Stream

structure TopicPartition where
  topic : String
  partition : ℤ
  deriving DecidableEq, Repr

structure Partition where
  topicPartition : TopicPartition
  stream : S3Stream
  producerStates : HashMap ℤ (ℤ × ℤ × ℤ)
  ongoingTxns : HashMap ℤ ℤ
  abortedTxns : List (ℤ × ℤ)

def hasHeader (batch : Bytes) : Bool := decide (61 ≤ batch.length) && magicOf batch == 2

def producerIdRead (batch : Bytes) : ℤ := toSigned 64 (beDecode (field batch 39 8))

def opensTransaction (patched : Bytes) : Option ℤ :=
  if hasHeader patched && isTransactional patched && !isControl patched &&
      producerIdRead patched != -1 then some (producerIdRead patched)
  else none

def transactionalBatch (producerId : ℤ) : Bytes :=
  splice (assembleBatch 0 (batchTail 0x10 0 0 0 (-1) (-1) (-1) 1 [])) 39
    (beEncode 8 (ofSigned 64 producerId))

namespace Partition

variable {W : Type}
variable {batch : Bytes} {partition : Partition} {tiers : Tiers W}

def new (topicPartition : TopicPartition) (stream : S3Stream) : Partition :=
  ⟨topicPartition, stream, ∅, ∅, []⟩

def noteTransaction (partition : Partition) (patched : Bytes) (baseOffset : ℤ) : Partition :=
  if hasHeader patched && isTransactional patched && !isControl patched &&
      producerIdRead patched != -1 then
    { partition with
      ongoingTxns := partition.ongoingTxns.entryOrInsert (producerIdRead patched) baseOffset }
  else partition

def appendRecords [WalEngine W] (partition : Partition) (tiers : Tiers W) (records : Bytes) :
    Option (Partition × Tiers W × Except OxideMqError ℤ) :=
  let baseOffset := partition.stream.nextOffset
  (patchRecordBatches records baseOffset).map fun (patched, count) =>
    let noted := partition.noteTransaction patched baseOffset
    let (stream, tiers', result) := noted.stream.appendWithCount tiers patched count
    ({ noted with stream := stream }, tiers', result.map fun _ => baseOffset)

/-- Epochs are `i16` and sequence numbers `i32`. -/
def appendIdempotent [WalEngine W] (partition : Partition) (tiers : Tiers W)
    (producerId producerEpoch sequence : ℤ) (records : Bytes) :
    Option (Partition × Tiers W × Except OxideMqError (ℤ × Bool)) :=
  let append := (partition.appendRecords tiers records).map fun (partition', tiers', result) =>
    match result with
    | .error e => (partition', tiers', .error e)
    | .ok baseOffset =>
        ({ partition' with
            producerStates := partition'.producerStates.insert producerId
              (producerEpoch, sequence, baseOffset) },
          tiers', .ok (baseOffset, false))
  match partition.producerStates.lookup producerId with
  | none => append
  | some (lastEpoch, lastSeq, lastOffset) =>
      if producerEpoch < lastEpoch then
        some (partition, tiers, .error (.protocol
          s!"Fenced producer {producerId}: epoch {producerEpoch} < active {lastEpoch}"))
      else if producerEpoch = lastEpoch ∧ sequence ≤ lastSeq then
        some (partition, tiers, .ok (lastOffset, true))
      else if producerEpoch = lastEpoch ∧ sequence > wrapSigned 32 (lastSeq + 1) then
        some (partition, tiers, .error (.protocol
          (s!"Out of order sequence for producer {producerId}: " ++
            s!"expected {wrapSigned 32 (lastSeq + 1)}, got {sequence}")))
      else append

def readRecords (partition : Partition) (tiers : Tiers W) (fetchOffset : ℤ) (maxBytes : ℕ) :
    Tiers W × Except OxideMqError (List (ℤ × Bytes)) :=
  partition.stream.fetch tiers fetchOffset maxBytes

def highWatermark (partition : Partition) : ℤ := partition.stream.nextOffset

def logStartOffset (partition : Partition) : ℤ := partition.stream.startOffset

def advanceLogStartOffset (partition : Partition) (tiers : Tiers W) (newOffset : ℤ) :
    Partition × Tiers W × ℤ :=
  let (stream, tiers', offset) := partition.stream.advanceStartOffset tiers newOffset
  ({ partition with stream := stream }, tiers', offset)

def completeTxn (partition : Partition) (producerId : ℤ) : Partition :=
  { partition with ongoingTxns := partition.ongoingTxns.erase producerId }

def recordAbortedTxn (partition : Partition) (producerId firstOffset : ℤ) : Partition :=
  let actualFirst := (partition.ongoingTxns.lookup producerId).getD firstOffset
  { partition with
    ongoingTxns := partition.ongoingTxns.erase producerId
    abortedTxns := partition.abortedTxns ++ [(producerId, actualFirst)] }

def lastStableOffset (partition : Partition) : ℤ :=
  match partition.ongoingTxns.values.min? with
  | some minOngoing => min minOngoing partition.highWatermark
  | none => partition.highWatermark

def abortedTransactions (partition : Partition) : List (ℤ × ℤ) := partition.abortedTxns

@[simp] theorem noteTransaction_stream (part : Partition) (patched : Bytes) (off : ℤ) :
    (part.noteTransaction patched off).stream = part.stream := by
  unfold noteTransaction
  split <;> rfl

@[simp] theorem noteTransaction_abortedTxns (part : Partition) (patched : Bytes) (off : ℤ) :
    (part.noteTransaction patched off).abortedTxns = part.abortedTxns := by
  unfold noteTransaction
  split <;> rfl

theorem lookup_noteTransaction (partition : Partition) (patched : Bytes) (offset : ℤ)
    (producerId : ℤ) :
    (partition.noteTransaction patched offset).ongoingTxns.lookup producerId =
      if opensTransaction patched = some producerId then
        some ((partition.ongoingTxns.lookup producerId).getD offset)
      else partition.ongoingTxns.lookup producerId := by
  unfold noteTransaction opensTransaction
  split
  · rw [HashMap.lookup_entryOrInsert]
    by_cases h : producerId = producerIdRead patched
    · rw [if_pos h, if_pos (congrArg some h.symm), h]
    · rw [if_neg h, if_neg (fun heq => h (Option.some.inj heq).symm)]
  · rfl

theorem appendRecords_eq_some [WalEngine W] {part' : Partition} {tiers' : Tiers W}
    {recs : Bytes} {res : Except OxideMqError ℤ}
    (h : partition.appendRecords tiers recs = some (part', tiers', res)) :
    ∃ patched count, patchRecordBatches recs partition.stream.nextOffset = some (patched, count) ∧
      part' = { partition.noteTransaction patched partition.stream.nextOffset with
        stream := { partition.stream with
          nextOffset := wrapSigned 64 (partition.stream.nextOffset + count) } } ∧
      let wal := WalEngine.append tiers.wal partition.stream.streamId partition.stream.nextOffset
        patched
      (∃ seq, wal.2 = .ok seq ∧ res = .ok partition.stream.nextOffset ∧
        tiers' = { tiers with
          wal := wal.1
          logCache := tiers.logCache.put partition.stream.streamId partition.stream.nextOffset
            patched }) ∨
      ∃ e, wal.2 = .error e ∧ res = .error e ∧ tiers' = { tiers with wal := wal.1 } := by
  obtain ⟨⟨patched, count⟩, hpat, heq⟩ := Option.map_eq_some_iff.mp h
  have hcnt : max count 1 = count := max_eq_left (one_le_patchRecordBatches hpat)
  have hstr := S3Stream.appendWithCount_stream partition.stream tiers patched count
  have hcases := S3Stream.appendWithCount_cases partition.stream tiers patched count
  simp only [noteTransaction_stream] at heq
  rw [hcnt] at hstr
  generalize partition.stream.appendWithCount tiers patched count = out at heq hstr hcases
  obtain ⟨str, tiers₀, res₀⟩ := out
  cases heq
  refine ⟨patched, count, hpat, by rw [← hstr], ?_⟩
  refine hcases.imp ?_ ?_
  · rintro ⟨seq, hwal, hout⟩
    cases hout
    exact ⟨seq, hwal, rfl, rfl⟩
  · rintro ⟨e, hwal, hout⟩
    cases hout
    exact ⟨e, hwal, rfl, rfl⟩

def patchedBatch (partition : Partition) (batch : Bytes) : Bytes :=
  patchHeader batch batch.length partition.stream.nextOffset

def advance (partition : Partition) (batch : Bytes) : Partition :=
  { partition.noteTransaction (partition.patchedBatch batch) partition.stream.nextOffset with
    stream := { partition.stream with
      nextOffset := wrapSigned 64 (partition.stream.nextOffset + recordCountOf batch) } }

theorem advance_abortedTxns (part : Partition) (batch : Bytes) :
    (part.advance batch).abortedTxns = part.abortedTxns := by
  rw [advance, noteTransaction_abortedTxns]

theorem lookup_advance (partition : Partition) (batch : Bytes) (producerId : ℤ) :
    (partition.advance batch).ongoingTxns.lookup producerId =
      if opensTransaction (partition.patchedBatch batch) = some producerId then
        some ((partition.ongoingTxns.lookup producerId).getD partition.stream.nextOffset)
      else partition.ongoingTxns.lookup producerId := by
  rw [advance, lookup_noteTransaction]

theorem appendRecords_batch [WalEngine W] (partition : Partition) (tiers : Tiers W)
    (hb : WellFormed batch) :
    let wal := WalEngine.append tiers.wal partition.stream.streamId partition.stream.nextOffset
      (partition.patchedBatch batch)
    ∃ tiers' result,
      partition.appendRecords tiers batch = some (partition.advance batch, tiers', result) ∧
      ((∃ seq, wal.2 = .ok seq ∧ result = .ok partition.stream.nextOffset ∧
        tiers' = { tiers with
          wal := wal.1
          logCache := tiers.logCache.put partition.stream.streamId partition.stream.nextOffset
            (partition.patchedBatch batch) }) ∨
        ∃ e, wal.2 = .error e ∧ result = .error e ∧ tiers' = { tiers with wal := wal.1 }) := by
  have hpat := patchRecordBatches_batch hb.framed partition.stream.nextOffset
  obtain ⟨⟨partition', tiers', result⟩, happ⟩ :
      ∃ outcome, partition.appendRecords tiers batch = some outcome := by
    rw [appendRecords, hpat]
    exact ⟨_, rfl⟩
  obtain ⟨patched, count, hpat', rfl, hout⟩ := appendRecords_eq_some happ
  cases hpat.symm.trans hpat'
  exact ⟨tiers', result, happ, hout⟩

theorem attributesOf_patchHeader (h : 21 ≤ batch.length) (total : ℕ) (off : ℤ) :
    attributesOf (patchHeader batch total off) = attributesOf batch := by
  rw [attributesOf, field_patchHeader h total off (Or.inr (by omega)), attributesOf]

theorem isControl_patchedBatch (part : Partition) (hb : WellFormed batch) :
    isControl (part.patchedBatch batch) = isControl batch := by
  have hhead := hb.header
  rw [isControl, patchedBatch, attributesOf_patchHeader (by omega), isControl]

theorem isTransactional_patchedBatch (part : Partition) (hb : WellFormed batch) :
    isTransactional (part.patchedBatch batch) = isTransactional batch := by
  have hhead := hb.header
  rw [isTransactional, patchedBatch, attributesOf_patchHeader (by omega), isTransactional]

theorem producerIdRead_patchedBatch (part : Partition) (hb : WellFormed batch) :
    producerIdRead (part.patchedBatch batch) = producerIdRead batch := by
  have hhead := hb.header
  rw [producerIdRead, patchedBatch, field_patchHeader (by omega) _ _ (Or.inr (by omega)),
    producerIdRead]

theorem magicOf_eq_field (h : 17 ≤ batch.length) : field batch 16 1 = [magicOf batch] := by
  rw [field, List.take_one_drop_eq_of_lt_length (by omega), magicOf,
    List.getD_eq_getElem _ _ (by omega)]
  rfl

theorem hasHeader_patchedBatch (part : Partition) (hb : WellFormed batch) :
    hasHeader (part.patchedBatch batch) = true := by
  have hhead := hb.header
  have hlen : (part.patchedBatch batch).length = batch.length :=
    patchHeader_length (by omega) _ _
  have hfield : field (part.patchedBatch batch) 16 1 = field batch 16 1 :=
    field_patchHeader (by omega) _ _ (Or.inl (by omega))
  rw [magicOf_eq_field (by omega), magicOf_eq_field (by omega), hb.magic] at hfield
  have hmagic : magicOf (part.patchedBatch batch) = 2 := List.singleton_inj.mp hfield
  simp [hasHeader, hlen, hhead, hmagic]

theorem advance_control (part : Partition) (hb : WellFormed batch) (hctl : isControl batch = true) :
    part.advance batch = { part with
      stream := { part.stream with
        nextOffset := wrapSigned 64 (part.stream.nextOffset + recordCountOf batch) } } := by
  rw [advance, noteTransaction, isControl_patchedBatch part hb, hctl]
  simp

/-- The checks of `append_idempotent` let the call through to the append. -/
def Admits (partition : Partition) (producerId producerEpoch sequence : ℤ) : Prop :=
  ∀ last ∈ partition.producerStates.lookup producerId,
    last.1 ≤ producerEpoch ∧
      (producerEpoch = last.1 →
        last.2.1 < sequence ∧ sequence ≤ wrapSigned 32 (last.2.1 + 1))

instance (partition : Partition) (producerId producerEpoch sequence : ℤ) :
    Decidable (partition.Admits producerId producerEpoch sequence) :=
  inferInstanceAs (Decidable (∀ last ∈ partition.producerStates.lookup producerId, _))

theorem appendIdempotent_of_admits [WalEngine W] {pid epoch seq : ℤ}
    (h : partition.Admits pid epoch seq) (tiers : Tiers W) (recs : Bytes) :
    partition.appendIdempotent tiers pid epoch seq recs =
      (partition.appendRecords tiers recs).map fun (part', tiers', result) =>
        match result with
        | .error e => (part', tiers', .error e)
        | .ok base =>
          ({ part' with
              producerStates := part'.producerStates.insert pid (epoch, seq, base) },
            tiers', .ok (base, false)) := by
  rw [appendIdempotent]
  split
  · rfl
  · rename_i lastEpoch last lastOffset hlast
    obtain ⟨hep, hseq⟩ := h _ hlast
    have hduplicate : ¬(epoch = lastEpoch ∧ seq ≤ last) :=
      fun hdup => not_le.mpr (hseq hdup.1).1 hdup.2
    have hgap : ¬(epoch = lastEpoch ∧ seq > wrapSigned 32 (last + 1)) :=
      fun hgap => not_lt.mpr (hseq hgap.1).2 hgap.2
    rw [if_neg (not_lt.mpr hep), if_neg hduplicate, if_neg hgap]

theorem appendIdempotent_eq_some [WalEngine W] {part' : Partition} {tiers' : Tiers W}
    {pid epoch seq : ℤ} {recs : Bytes}
    {answer : Except OxideMqError (ℤ × Bool)}
    (h : partition.appendIdempotent tiers pid epoch seq recs = some (part', tiers', answer)) :
    partition.Admits pid epoch seq ∧ (∃ appended res, partition.appendRecords tiers recs =
            some (appended, tiers', res) ∧
          ((∃ e, res = .error e ∧ part' = appended ∧ answer = .error e) ∨
            ∃ base, res = .ok base ∧ answer = .ok (base, false) ∧ part' = { appended with
                producerStates := appended.producerStates.insert pid (epoch, seq, base) })) ∨
      ¬partition.Admits pid epoch seq ∧
        part' = partition ∧ tiers' = tiers ∧
        ((∃ lastSeq lastOffset, partition.producerStates.lookup pid =
            some (epoch, lastSeq, lastOffset) ∧ seq ≤ lastSeq ∧
            answer = .ok (lastOffset, true)) ∨
          ∃ msg, answer = .error (.protocol msg)) := by
  by_cases hadm : partition.Admits pid epoch seq
  · rw [appendIdempotent_of_admits hadm] at h
    obtain ⟨⟨appended, tiers₀, res⟩, happ, heq⟩ := Option.map_eq_some_iff.mp h
    refine Or.inl ⟨hadm, appended, res, ?_, ?_⟩
    · cases res <;> obtain ⟨-, rfl, -⟩ : _ ∧ _ ∧ _ := by simpa only [Prod.mk.injEq] using heq
      · exact happ
      · exact happ
    · cases res with
      | error e =>
        cases heq
        exact Or.inl ⟨e, rfl, rfl, rfl⟩
      | ok base =>
        cases heq
        exact Or.inr ⟨base, rfl, rfl, rfl⟩
  · refine Or.inr ⟨hadm, ?_⟩
    rw [appendIdempotent] at h
    dsimp only at h
    split at h
    · rename_i hnone
      refine absurd (fun last hlast => ?_) hadm
      rw [hnone] at hlast
      cases hlast
    · rename_i lastEpoch lastSeq lastOffset hlast
      split_ifs at h with hfenced hdup hgap
      · cases h
        exact ⟨rfl, rfl, Or.inr ⟨_, rfl⟩⟩
      · cases h
        refine ⟨rfl, rfl, Or.inl ⟨lastSeq, lastOffset, ?_, hdup.2, rfl⟩⟩
        rw [hlast, hdup.1]
      · cases h
        exact ⟨rfl, rfl, Or.inr ⟨_, rfl⟩⟩
      · -- the checks passed, so the call is admitted after all
        refine absurd (fun last hmem => ?_) hadm
        cases hlast.symm.trans hmem
        refine ⟨not_lt.mp hfenced, fun hsame => ⟨?_, ?_⟩⟩
        · exact not_le.mp fun hle => hdup ⟨hsame, hle⟩
        · exact not_lt.mp fun hgt => hgap ⟨hsame, hgt⟩

theorem readRecords_eq (tiers : Tiers W) (off : ℤ) (limit : ℕ)
    (hobjs : partition.stream.s3Objects = []) :
    (partition.readRecords tiers off limit).2 =
      .ok (if partition.logStartOffset ≤ off ∧ off < partition.highWatermark then
        (tiers.logCache.readRange partition.stream.streamId off limit).getD [] else []) := by
  have hobj : partition.stream.coveringObject off = none := by
    rw [S3Stream.coveringObject, hobjs, List.find?_nil]
  rw [readRecords, S3Stream.fetch, hobj, logStartOffset, highWatermark]
  split
  · rename_i houtside
    rw [if_neg (by omega)]
  · rename_i hin
    rw [if_pos (by omega)]
    cases tiers.logCache.readRange partition.stream.streamId off limit <;> rfl

theorem mem_readRecords_iff {off : ℤ} {limit : ℕ} {recs : List (ℤ × Bytes)}
    (hobjs : partition.stream.s3Objects = [])
    (hread : (partition.readRecords tiers off limit).2 = .ok recs) {e : ℤ × Bytes} :
    e ∈ recs ↔ (partition.logStartOffset ≤ off ∧ off < partition.highWatermark) ∧
        ∃ cached, tiers.logCache.readRange partition.stream.streamId off limit =
          some cached ∧ e ∈ cached := by
  rw [readRecords_eq tiers off limit hobjs] at hread
  cases hread
  split
  · rename_i hin
    cases tiers.logCache.readRange partition.stream.streamId off limit <;> simp [hin]
  · rename_i houtside
    simp [houtside]

theorem mem_readRecords {off : ℤ} {limit : ℕ} {recs : List (ℤ × Bytes)}
    (hobjs : partition.stream.s3Objects = [])
    (hread : (partition.readRecords tiers off limit).2 = .ok recs) {e : ℤ × Bytes}
    (he : e ∈ recs) :
    (partition.logStartOffset ≤ off ∧ off < partition.highWatermark) ∧
      tiers.logCache.get partition.stream.streamId e.1 = some e.2 := by
  obtain ⟨hrange, cached, hcached, hmem⟩ := (mem_readRecords_iff hobjs hread).mp he
  exact ⟨hrange, ((LogCache.readRange_eq_some hcached).2 e hmem).2⟩

theorem readRecords_ok (tiers : Tiers W) (offset : ℤ) (maxBytes : ℕ)
    (hobjs : partition.stream.s3Objects = []) :
    ∃ records, (partition.readRecords tiers offset maxBytes).2 = .ok records :=
  ⟨_, readRecords_eq tiers offset maxBytes hobjs⟩

end Partition

end OxideMq.Broker
