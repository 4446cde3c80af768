import OxideMq.Broker.StableOffset

/-! Fetching past hidden batches. -/

namespace OxideMq.Broker

open Lib OxideMq.Core OxideMq.Protocol OxideMq.Wal OxideMq.Stream List LogCache

def batchesIn : ℕ → Bytes → List Bytes
  | 0, _ => []
  | fuel + 1, rest =>
      let batch := rest.take (totalBatchSize rest).toNat
      if WellFormed batch then batch :: batchesIn fuel (rest.drop (totalBatchSize rest).toNat)
      else []

def StoredBatch.entry (batch : StoredBatch) : ℤ × Bytes := (batch.base, batch.bytes)

@[simp] theorem StoredBatch.entry_fst (batch : StoredBatch) : batch.entry.1 = batch.base := rfl

@[simp] theorem StoredBatch.entry_snd (batch : StoredBatch) : batch.entry.2 = batch.bytes := rfl

def StoredBatch.batches (payload : StoredBatch) : List Bytes :=
  batchesIn payload.bytes.length payload.bytes

inductive PartitionAction where
  | append (records : Bytes)
  | appendIdempotent (producerId producerEpoch sequence : ℤ) (records : Bytes)
  | completeTxn (producerId : ℤ)
  | recordAbortedTxn (producerId firstOffset : ℤ)
  | advanceLogStartOffset (newOffset : ℤ)

structure ServedLog (W : Type) where
  log : PartitionLog W
  undecided : List Bytes
  aborted : List Bytes

namespace ServedLog

variable {W : Type}
variable {s : ServedLog W} {tiers : Tiers W}

def fresh (topicPartition : TopicPartition) (streamId : ℕ) (startOffset : ℤ) (tiers : Tiers W) :
    ServedLog W :=
  ⟨PartitionLog.fresh topicPartition streamId startOffset tiers, [], []⟩

def stored (s : ServedLog W) (partition : Partition) (tiers : Tiers W)
    (payloads : List StoredBatch) : ServedLog W :=
  { s with
    log := ⟨partition, tiers, s.log.stored ++ payloads⟩
    undecided := s.undecided ++ (payloads.flatMap StoredBatch.batches).filter isTxnData }

def storedOnce (records : Bytes) (base : ℤ) :
    Except OxideMqError (ℤ × Bool) → List StoredBatch
  | .ok (offset, false) => PartitionLog.storedBy records base (.ok offset)
  | _ => []

def exec [WalEngine W] (s : ServedLog W) : PartitionAction → Option (ServedLog W)
  | .append records =>
      (s.log.partition.appendRecords s.log.tiers records).map fun (partition, tiers, result) =>
        s.stored partition tiers
          (PartitionLog.storedBy records s.log.partition.stream.nextOffset result)
  | .appendIdempotent producerId producerEpoch sequence records =>
      (s.log.partition.appendIdempotent s.log.tiers producerId producerEpoch sequence records).map
        fun (partition, tiers, result) =>
          s.stored partition tiers
            (storedOnce records s.log.partition.stream.nextOffset result)
  | .completeTxn producerId =>
      some { s with
        log := { s.log with partition := s.log.partition.completeTxn producerId }
        undecided := s.undecided.filter fun b => producerIdOf b ≠ producerId }
  | .recordAbortedTxn producerId firstOffset =>
      some { s with
        log := { s.log with partition := s.log.partition.recordAbortedTxn producerId firstOffset }
        undecided := s.undecided.filter fun b => producerIdOf b ≠ producerId
        aborted := s.aborted ++ s.undecided.filter fun b => producerIdOf b = producerId }
  | .advanceLogStartOffset newOffset =>
      let (partition, tiers, _) := s.log.partition.advanceLogStartOffset s.log.tiers newOffset
      some { s with
        log := ⟨partition, tiers, s.log.stored.filter fun b =>
          newOffset ≤ s.log.partition.logStartOffset ∨ newOffset ≤ b.base⟩ }

def AllCached (s : ServedLog W) : Prop :=
  ∀ b ∈ s.log.stored,
    s.log.tiers.logCache.get s.log.partition.stream.streamId b.base = some b.bytes

def batches (s : ServedLog W) : List Bytes := s.log.stored.flatMap StoredBatch.batches

def Visible (s : ServedLog W) (isolationLevel : ℤ) (batch : Bytes) : Prop :=
  isControl batch = false ∧ (isolationLevel = 1 →
    baseOffsetOf batch < s.log.partition.lastStableOffset ∧ batch ∉ s.aborted)

instance (s : ServedLog W) (isolationLevel : ℤ) (batch : Bytes) :
    Decidable (s.Visible isolationLevel batch) :=
  inferInstanceAs (Decidable (_ ∧ (_ → _ ∧ _)))

def records (s : ServedLog W) (isolationLevel offset : ℤ) (maxBytes : ℕ) : Bytes :=
  (s.log.partition.fetchResponse s.log.partition.topicPartition.partition isolationLevel
    (s.log.partition.readRecords s.log.tiers offset maxBytes).2).records

def Waiting (s : ServedLog W) (isolationLevel offset : ℤ) : Prop :=
  (∃ batch ∈ s.batches, baseOffsetOf batch = offset) ∧
    ∃ batch ∈ s.batches, offset ≤ baseOffsetOf batch ∧ s.Visible isolationLevel batch

instance (s : ServedLog W) : Decidable s.AllCached :=
  inferInstanceAs (Decidable (∀ _ ∈ _, _))

instance (s : ServedLog W) (isolationLevel offset : ℤ) :
    Decidable (s.Waiting isolationLevel offset) :=
  inferInstanceAs (Decidable ((∃ _ ∈ _, _) ∧ ∃ _ ∈ _, _))

def InWindow (s : ServedLog W) (isolationLevel offset : ℤ) (maxBytes : ℕ) : Prop :=
  (s.log.partition.logStartOffset ≤ offset ∧ offset < s.log.partition.highWatermark) ∧
    ∃ b ∈ s.log.stored, b.bytes ≠ [] ∧
      s.log.partition.exposes isolationLevel b.entry = true ∧
      ∃ front : List StoredBatch, (∀ x ∈ front, x ∈ s.log.stored) ∧
        LogCache.ConsecutiveFrom offset (front.map StoredBatch.entry) ∧
        b.base = offset + front.length ∧
        LogCache.totalLength (front.map StoredBatch.entry) < maxBytes

structure Tracked (s : ServedLog W) : Prop where
  noObjects : s.log.partition.stream.s3Objects = []
  nothingElse : ∀ offset bytes,
    s.log.tiers.logCache.get s.log.partition.stream.streamId offset = some bytes →
      ∃ b ∈ s.log.stored, b.entry = (offset, bytes)

theorem tracked_fresh {tp : TopicPartition} {sid : ℕ} {start : ℤ}
    (hfresh : ∀ off, tiers.logCache.get sid off = none) :
    Tracked (fresh tp sid start tiers) := by
  refine ⟨rfl, fun off bytes hget => ?_⟩
  exact absurd ((hfresh off).symm.trans hget) (by simp)

theorem Tracked.append [WalEngine W] (h : Tracked s) {recs : Bytes} {part : Partition}
    {res : Except OxideMqError ℤ}
    (happ : s.log.partition.appendRecords s.log.tiers recs = some (part, tiers, res)) :
    
    Tracked (s.stored part tiers
      (PartitionLog.storedBy recs s.log.partition.stream.nextOffset res)) := by
  obtain ⟨patched, count, hpat, rfl, hok | ⟨e, -, rfl, rfl⟩⟩ :=
    Partition.appendRecords_eq_some happ
  · obtain ⟨seq, -, rfl, rfl⟩ := hok
    have hstored : PartitionLog.storedBy recs s.log.partition.stream.nextOffset
        (.ok s.log.partition.stream.nextOffset) =
          [⟨s.log.partition.stream.nextOffset, count, patched⟩] := by
      simp [PartitionLog.storedBy, hpat]
    refine ⟨h.noObjects, fun off bytes hget => ?_⟩
    rw [hstored]
    obtain ⟨-, rfl, rfl⟩ | hget := get_of_get_put hget
    · exact ⟨_, mem_append_right _ (mem_singleton_self _), rfl⟩
    · obtain ⟨b, hb, he⟩ := h.nothingElse off bytes hget
      exact ⟨b, mem_append_left _ hb, he⟩
  · refine ⟨h.noObjects, fun off bytes hget => ?_⟩
    obtain ⟨b, hb, he⟩ := h.nothingElse off bytes hget
    exact ⟨b, mem_append_left _ hb, he⟩

theorem Tracked.unchanged (h : Tracked s) : Tracked (s.stored s.log.partition s.log.tiers []) := by
  refine ⟨h.noObjects, fun off bytes hget => ?_⟩
  obtain ⟨b, hb, he⟩ := h.nothingElse off bytes hget
  exact ⟨b, mem_append_left _ hb, he⟩

theorem Tracked.appendIdempotent [WalEngine W] (h : Tracked s)
    {pid epoch seq : ℤ} {recs : Bytes} {part : Partition}
    {res : Except OxideMqError (ℤ × Bool)}
    (happ : s.log.partition.appendIdempotent s.log.tiers pid epoch seq
      recs = some (part, tiers, res)) :
    Tracked (s.stored part tiers (storedOnce recs s.log.partition.stream.nextOffset res)) := by
  obtain ⟨-, appended, answer, hrecs, hans⟩ | ⟨-, rfl, rfl, hans⟩ :=
    Partition.appendIdempotent_eq_some happ
  · have htracked := h.append hrecs
    obtain ⟨e, rfl, rfl, rfl⟩ | ⟨base, rfl, rfl, rfl⟩ := hans
    · exact htracked
    · exact ⟨htracked.noObjects, htracked.nothingElse⟩
  · obtain ⟨last, lastOffset, -, -, rfl⟩ | ⟨msg, rfl⟩ := hans
    · exact h.unchanged
    · exact h.unchanged

theorem Tracked.advanceLogStartOffset [WalEngine W] {s' : ServedLog W} (h : Tracked s)
    {newOffset : ℤ} (hexec : s.exec (.advanceLogStartOffset newOffset) = some s') :
    Tracked s' := by
  by_cases hfwd : newOffset > s.log.partition.stream.startOffset
  · rw [exec, Partition.advanceLogStartOffset, S3Stream.advanceStartOffset, if_pos hfwd] at hexec
    cases hexec
    refine ⟨h.noObjects, fun offset bytes hget => ?_⟩
    rw [get_trim] at hget
    split at hget
    · cases hget
    · rename_i hkept
      obtain ⟨b, hb, he⟩ := h.nothingElse offset bytes hget
      have hbase : b.base = offset := congrArg Prod.fst he
      have habove : newOffset ≤ b.base := by
        by_contra hbelow
        exact hkept ⟨rfl, by omega⟩
      exact ⟨b, mem_filter.mpr ⟨hb, by simp [habove]⟩, he⟩
  · rw [exec, Partition.advanceLogStartOffset, S3Stream.advanceStartOffset, if_neg hfwd] at hexec
    cases hexec
    refine ⟨h.noObjects, fun offset bytes hget => ?_⟩
    obtain ⟨b, hb, he⟩ := h.nothingElse offset bytes hget
    have hback : newOffset ≤ s.log.partition.logStartOffset := not_lt.mp hfwd
    exact ⟨b, mem_filter.mpr ⟨hb, by simp [hback]⟩, he⟩

theorem tracked_exec [WalEngine W] {s' : ServedLog W} {act : PartitionAction} (h : Tracked s)
    (hexec : s.exec act = some s') : Tracked s' := by
  cases act with
  | append recs =>
    obtain ⟨out, happ, rfl⟩ := Option.map_eq_some_iff.mp hexec
    exact h.append happ
  | appendIdempotent pid epoch seq recs =>
    obtain ⟨out, happ, rfl⟩ := Option.map_eq_some_iff.mp hexec
    exact h.appendIdempotent happ
  | completeTxn pid =>
    cases hexec
    exact ⟨h.noObjects, h.nothingElse⟩
  | recordAbortedTxn pid firstOffset =>
    cases hexec
    exact ⟨h.noObjects, h.nothingElse⟩
  | advanceLogStartOffset newOffset => exact h.advanceLogStartOffset hexec

theorem Tracked.cached_iff (h : Tracked s) (hcached : s.AllCached) (e : ℤ × Bytes) :
    s.log.tiers.logCache.get s.log.partition.stream.streamId e.1 = some e.2 ↔
      ∃ b ∈ s.log.stored, b.entry = e := by
  constructor
  · intro hget
    exact h.nothingElse e.1 e.2 hget
  · rintro ⟨b, hb, rfl⟩
    exact hcached b hb

theorem exists_payloads {stored : List StoredBatch} {front : List (ℤ × Bytes)}
    (h : ∀ e ∈ front, ∃ b ∈ stored, b.entry = e) :
    ∃ pays : List StoredBatch, (∀ b ∈ pays, b ∈ stored) ∧ pays.map StoredBatch.entry = front := by
  induction front with
  | nil => exact ⟨[], by simp, rfl⟩
  | cons e front ih =>
    obtain ⟨b, hb, rfl⟩ := h e (by simp)
    obtain ⟨pays, hpays, rfl⟩ := ih fun x hx => h x (by simp [hx])
    exact ⟨b :: pays, forall_mem_cons.mpr ⟨hb, hpays⟩, rfl⟩

theorem cached_at_start (hcached : s.AllCached) {b : StoredBatch} (hb : b ∈ s.log.stored)
    {front : List StoredBatch} {offset : ℤ} (hfront : ∀ x ∈ front, x ∈ s.log.stored)
    (hcons : LogCache.ConsecutiveFrom offset (front.map StoredBatch.entry))
    (hbase : b.base = offset + front.length) :
    ∃ bytes, s.log.tiers.logCache.get s.log.partition.stream.streamId offset = some bytes := by
  cases front with
  | nil =>
    have hstart : b.base = offset := by simpa using hbase
    exact ⟨b.bytes, hstart ▸ hcached b hb⟩
  | cons x front =>
    have hstart : x.base = offset := hcons.1
    exact ⟨x.bytes, hstart ▸ hcached x (hfront x (by simp))⟩

theorem mem_read_iff (h : Tracked s) (hcached : s.AllCached) {offset : ℤ} {maxBytes : ℕ}
    (hmax : 1 ≤ maxBytes) {result : List (ℤ × Bytes)}
    (hread : (s.log.partition.readRecords s.log.tiers offset maxBytes).2 = .ok result)
    {e : ℤ × Bytes} :
    e ∈ result ↔
      (s.log.partition.logStartOffset ≤ offset ∧ offset < s.log.partition.highWatermark) ∧
        ∃ b ∈ s.log.stored, b.entry = e ∧
          ∃ front : List StoredBatch, (∀ x ∈ front, x ∈ s.log.stored) ∧
            LogCache.ConsecutiveFrom offset (front.map StoredBatch.entry) ∧
            b.base = offset + front.length ∧
            totalLength (front.map StoredBatch.entry) < maxBytes := by
  rw [Partition.mem_readRecords_iff h.noObjects hread]
  refine and_congr_right fun hrange => ?_
  constructor
  · rintro ⟨cached, hwindow, he⟩
    obtain ⟨hget, front, hfront, hcons, hbase, hsize⟩ :=
      (mem_readRange hmax hwindow).mp he
    obtain ⟨b, hb, rfl⟩ := (h.cached_iff hcached e).mp hget
    obtain ⟨payloads, hpays, rfl⟩ :=
      exists_payloads fun x hx => (h.cached_iff hcached x).mp (hfront x hx)
    exact ⟨b, hb, rfl, payloads, hpays, hcons, by simpa using hbase, hsize⟩
  · rintro ⟨b, hb, rfl, front, hfront, hcons, hbase, hsize⟩
    obtain ⟨bytes, hstart⟩ := cached_at_start hcached hb hfront hcons hbase
    cases hwindow : s.log.tiers.logCache.readRange s.log.partition.stream.streamId offset
        maxBytes with
    | none =>
      rw [readRange_eq_none.mp hwindow] at hstart
      cases hstart
    | some cached =>
      refine ⟨cached, rfl, (mem_readRange hmax hwindow).mpr ⟨hcached b hb,
        front.map StoredBatch.entry, ?_, hcons, by simpa using hbase, hsize⟩⟩
      intro x hx
      obtain ⟨y, hy, rfl⟩ := mem_map.mp hx
      exact hcached y (hfront y hy)

theorem records_ne_nil_iff (h : Tracked s) (hcached : s.AllCached) (isolationLevel offset : ℤ)
    {maxBytes : ℕ} (hmax : 1 ≤ maxBytes) :
    s.records isolationLevel offset maxBytes ≠ [] ↔ s.InWindow isolationLevel offset maxBytes := by
  obtain ⟨result, hread⟩ :=
    Partition.readRecords_ok s.log.tiers offset maxBytes h.noObjects
  have hne : s.records isolationLevel offset maxBytes ≠ [] ↔
      ∃ e ∈ result, s.log.partition.exposes isolationLevel e = true ∧ e.2 ≠ [] := by
    rw [records, hread, Partition.fetchResponse]
    simp only [ne_eq, flatten_eq_nil_iff, forall_mem_map, mem_filter, not_forall,
      exists_prop, and_assoc]
  rw [hne]
  constructor
  · rintro ⟨e, he, hexposes, hbytes⟩
    obtain ⟨hrange, b, hb, rfl, hfront⟩ := (mem_read_iff h hcached hmax hread).mp he
    exact ⟨hrange, b, hb, hbytes, hexposes, hfront⟩
  · rintro ⟨hrange, b, hb, hbytes, hexposes, hfront⟩
    exact ⟨b.entry, (mem_read_iff h hcached hmax hread).mpr ⟨hrange, b, hb, rfl, hfront⟩,
      hexposes, hbytes⟩

theorem waiting_served_iff [WalEngine W] {topicPartition : TopicPartition} {streamId : ℕ}
    {startOffset : ℤ} {tiers : Tiers W} {actions : List PartitionAction} {s : ServedLog W}
    (hfresh : ∀ offset, tiers.logCache.get streamId offset = none)
    (hrun : run exec (fresh topicPartition streamId startOffset tiers) actions = some s)
    (hcached : s.AllCached) (isolationLevel offset : ℤ) {maxBytes : ℕ} (hmax : 1 ≤ maxBytes) :
    (s.Waiting isolationLevel offset → s.records isolationLevel offset maxBytes ≠ []) ↔
      (s.Waiting isolationLevel offset → s.InWindow isolationLevel offset maxBytes) := by
  have htracked : Tracked s := run_invariant (fun _ _ _ h _ hexec => tracked_exec h hexec)
    (tracked_fresh hfresh) (along_of_forall fun _ _ => trivial) hrun
  rw [records_ne_nil_iff htracked hcached isolationLevel offset hmax]

def markerFirst : List PartitionAction :=
  [.append (TxnLog.plainBatch 0x20 1000), .append (TxnLog.plainBatch 0 (-1))]

def emptyServed : ServedLog MemoryWal := fresh ⟨"orders", 0⟩ 100 0 PartitionLog.emptyTiers

theorem markerFirst_stuck :
    ∃ s, run exec emptyServed markerFirst = some s ∧ s.AllCached ∧ s.Waiting 0 0 ∧
      s.records 0 0 1 = [] := by
  have hend : (run exec emptyServed markerFirst).map
      (fun s => decide (s.AllCached ∧ s.Waiting 0 0 ∧ s.records 0 0 1 = [])) = some true := by
    decide +kernel
  obtain ⟨s, hrun, hs⟩ := Option.map_eq_some_iff.mp hend
  exact ⟨s, hrun, of_decide_eq_true hs⟩

theorem markerFirst_served :
    ∃ s, run exec emptyServed markerFirst = some s ∧ s.Waiting 0 0 ∧ s.records 0 0 1024 ≠ [] := by
  have hend : (run exec emptyServed markerFirst).map
      (fun s => decide ((s.AllCached ∧ s.Waiting 0 0) ∧
        (s.log.partition.logStartOffset ≤ 0 ∧ 0 < s.log.partition.highWatermark) ∧
        ∃ b ∈ s.log.stored, b.bytes ≠ [] ∧ s.log.partition.exposes 0 b.entry = true ∧
          ∃ x ∈ s.log.stored, x.base = 0 ∧ b.base = 0 + 1 ∧ x.bytes.length < 1024)) =
        some true := by
    decide +kernel
  obtain ⟨s, hrun, hs⟩ := Option.map_eq_some_iff.mp hend
  obtain ⟨⟨hcached, hwait⟩, hrange, b, hb, hbytes, hexposes, x, hx, hstart, hbase, hsize⟩ :=
    of_decide_eq_true hs
  have hwindow : s.InWindow 0 0 1024 :=
    ⟨hrange, b, hb, hbytes, hexposes, [x], by simpa using hx, ⟨hstart, trivial⟩, hbase,
      by simpa [LogCache.totalLength] using hsize⟩
  exact ⟨s, hrun, hwait, (waiting_served_iff (fun _ => rfl) hrun hcached 0 0
    (by decide)).mpr (fun _ => hwindow) hwait⟩

end ServedLog

end OxideMq.Broker
