import OxideMq.Lib.Run
import OxideMq.Broker.Partition

/-! Reading back what was appended to a partition while all of it is cached. -/

namespace OxideMq.Broker

open Lib OxideMq.Core OxideMq.Protocol OxideMq.Wal OxideMq.Stream List

/-- A batch that an append was answered with `Ok` for. -/
structure StoredBatch where
  base : ℤ
  count : ℤ
  bytes : Bytes
  deriving DecidableEq, Repr

structure PartitionLog (W : Type) where
  partition : Partition
  tiers : Tiers W
  stored : List StoredBatch

namespace PartitionLog

variable {W : Type}
variable {log log' : PartitionLog W}

def fresh (topicPartition : TopicPartition) (streamId : ℕ) (startOffset : ℤ) (tiers : Tiers W) :
    PartitionLog W :=
  ⟨Partition.new topicPartition (S3Stream.new streamId startOffset), tiers, []⟩

/-- The entry that an append answered with `Ok` adds to the list. -/
def storedBy (records : Bytes) (base : ℤ) : Except OxideMqError ℤ → List StoredBatch
  | .error _ => []
  | .ok _ => (patchRecordBatches records base).toList.map fun (bytes, count) => ⟨base, count, bytes⟩

def append [WalEngine W] (log : PartitionLog W) (records : Bytes) : Option (PartitionLog W) :=
  (log.partition.appendRecords log.tiers records).map fun (partition, tiers, result) =>
    ⟨partition, tiers, log.stored ++ storedBy records log.partition.stream.nextOffset result⟩

def Readable (log : PartitionLog W) (offset : ℤ) (maxBytes : ℕ) : Prop :=
  ∃ batch ∈ log.stored, ∃ rest,
    (log.partition.readRecords log.tiers offset maxBytes).2 =
      .ok ((batch.base, batch.bytes) :: rest) ∧
    batch.base ≤ offset ∧ offset < batch.base + batch.count

structure Cached (log : PartitionLog W) : Prop where
  noObjects : log.partition.stream.s3Objects = []
  counted : ∀ batch ∈ log.stored, 1 ≤ batch.count
  kept : ∀ batch ∈ log.stored,
    (log.tiers.logCache.get log.partition.stream.streamId batch.base).isSome
  nothingElse : ∀ offset bytes,
    log.tiers.logCache.get log.partition.stream.streamId offset = some bytes →
      ∃ batch ∈ log.stored, batch.base = offset ∧ batch.bytes = bytes

theorem cached_fresh {tp : TopicPartition} {sid : ℕ} {start : ℤ}
    {tiers : Tiers W} (hfresh : ∀ off, tiers.logCache.get sid off = none) :
    Cached (fresh tp sid start tiers) := by
  refine ⟨rfl, by simp [fresh], by simp [fresh], ?_⟩
  intro off bytes hget
  exact absurd ((hfresh off).symm.trans hget) (by simp)

theorem append_cases [WalEngine W] {recs : Bytes} (happ : log.append recs = some log') :
    ∃ patched count,
      patchRecordBatches recs log.partition.stream.nextOffset = some (patched, count) ∧
      log'.partition.stream = { log.partition.stream with
        nextOffset := wrapSigned 64 (log.partition.stream.nextOffset + count) } ∧
      (log'.stored = log.stored ++ [⟨log.partition.stream.nextOffset, count, patched⟩] ∧
          log'.tiers.logCache = log.tiers.logCache.put log.partition.stream.streamId
            log.partition.stream.nextOffset patched ∨
        log'.stored = log.stored ∧ log'.tiers.logCache = log.tiers.logCache) := by
  obtain ⟨⟨part, tiers, res⟩, hrecs, rfl⟩ := Option.map_eq_some_iff.mp happ
  obtain ⟨patched, count, hpat, rfl, hok | ⟨e, -, rfl, rfl⟩⟩ :=
    Partition.appendRecords_eq_some hrecs
  · obtain ⟨seq, -, rfl, rfl⟩ := hok
    refine ⟨patched, count, hpat, rfl, Or.inl ⟨?_, rfl⟩⟩
    simp [storedBy, hpat]
  · exact ⟨patched, count, hpat, rfl, Or.inr ⟨append_nil _, rfl⟩⟩

theorem cached_append [WalEngine W] {records : Bytes} (hlog : Cached log)
    (hfits : log.tiers.logCache.currentBytes + records.length ≤ log.tiers.logCache.maxBytes)
    (happ : log.append records = some log') :
    Cached log' ∧ log'.tiers.logCache.maxBytes = log.tiers.logCache.maxBytes ∧
      log'.tiers.logCache.currentBytes ≤ log.tiers.logCache.currentBytes + records.length := by
  obtain ⟨patched, count, hpat, hstr, ⟨hstored, hcache⟩ | ⟨hstored, hcache⟩⟩ :=
    append_cases happ
  · rw [← patchRecordBatches_length hpat] at hfits ⊢
    have hget : ∀ offset, log'.tiers.logCache.get log'.partition.stream.streamId offset =
        if offset = log.partition.stream.nextOffset then some patched
        else log.tiers.logCache.get log.partition.stream.streamId offset := by
      intro offset
      rw [hcache, hstr, LogCache.get_put_of_fits hfits]
      simp
    rw [hcache]
    refine ⟨⟨by rw [hstr]; exact hlog.noObjects, ?_, ?_, ?_⟩, LogCache.maxBytes_put _ _ _ _,
      LogCache.currentBytes_put_of_fits hfits _ _⟩
    · rw [hstored, forall_mem_append, forall_mem_singleton]
      exact ⟨hlog.counted, one_le_patchRecordBatches hpat⟩
    · rw [hstored, forall_mem_append, forall_mem_singleton]
      refine ⟨fun batch hb => ?_, by rw [hget, if_pos rfl]; rfl⟩
      rw [hget]
      split
      · rfl
      · exact hlog.kept batch hb
    · intro offset bytes hcached
      rw [hget] at hcached
      rw [hstored]
      split at hcached
      · rename_i hnew
        exact ⟨_, mem_append_right _ (mem_singleton_self _), hnew.symm, Option.some.inj hcached⟩
      · obtain ⟨batch, hmem, hb⟩ := hlog.nothingElse offset bytes hcached
        exact ⟨batch, mem_append_left _ hmem, hb⟩
  · rw [hcache]
    refine ⟨⟨?_, ?_, ?_, ?_⟩, rfl, Nat.le_add_right _ _⟩
    · rw [hstr]; exact hlog.noObjects
    · rw [hstored]; exact hlog.counted
    · rw [hstored, hcache, hstr]; exact hlog.kept
    · rw [hstored, hcache, hstr]; exact hlog.nothingElse

theorem cached_run [WalEngine W] {pays : List Bytes} (hlog : Cached log)
    (hfits : log.tiers.logCache.currentBytes + (pays.map length).sum ≤
      log.tiers.logCache.maxBytes) (hrun : run append log pays = some log') : Cached log' := by
  induction pays generalizing log with
  | nil => exact Option.some.inj hrun ▸ hlog
  | cons recs pays ih =>
    rw [map_cons, sum_cons] at hfits
    obtain ⟨mid, happ, hrest⟩ := run_cons_eq_some.mp hrun
    obtain ⟨hmid, hmax, hused⟩ := cached_append hlog (by omega) happ
    exact ih hmid (by omega) hrest

theorem readable_base (hlog : Cached log) {offset : ℤ}
    (hrange : log.partition.logStartOffset ≤ offset ∧ offset < log.partition.highWatermark)
    {batch : StoredBatch} (hmem : batch ∈ log.stored) (hbase : batch.base = offset) (maxBytes : ℕ) :
    log.Readable offset maxBytes := by
  obtain ⟨bytes, hget⟩ := Option.isSome_iff_exists.mp (hlog.kept batch hmem)
  rw [hbase] at hget
  obtain ⟨found, hfound, hstart, hbytes⟩ := hlog.nothingElse offset bytes hget
  obtain ⟨rest, hfetch⟩ := S3Stream.fetch_of_cached hrange hget maxBytes
  have hcnt := hlog.counted found hfound
  refine ⟨found, hfound, rest, ?_, by omega, by omega⟩
  rw [Partition.readRecords, hfetch, hstart, hbytes]

theorem readRecords_of_uncached (hlog : Cached log) {off : ℤ}
    (hnone : ∀ batch ∈ log.stored, batch.base ≠ off) (limit : ℕ) :
    (log.partition.readRecords log.tiers off limit).2 = .ok [] := by
  have hmiss : log.tiers.logCache.get log.partition.stream.streamId off = none := by
    cases hget : log.tiers.logCache.get log.partition.stream.streamId off with
    | none => rfl
    | some bytes =>
      obtain ⟨batch, hmem, hbase, -⟩ := hlog.nothingElse off bytes hget
      exact absurd hbase (hnone batch hmem)
  have hread : log.tiers.logCache.readRange log.partition.stream.streamId off limit = none :=
    LogCache.readRange_eq_none.mpr hmiss
  have hobj : log.partition.stream.coveringObject off = none := by
    rw [S3Stream.coveringObject, hlog.noObjects, find?_nil]
  rw [Partition.readRecords, S3Stream.fetch, hread, hobj]
  split <;> rfl

theorem not_readable_of_uncached (hlog : Cached log) {offset : ℤ}
    (hnone : ∀ batch ∈ log.stored, batch.base ≠ offset) (maxBytes : ℕ) :
    ¬log.Readable offset maxBytes := by
  rintro ⟨batch, -, rest, hread, -⟩
  rw [readRecords_of_uncached hlog hnone] at hread
  simp at hread

theorem readable_iff_base [WalEngine W] {topicPartition : TopicPartition} {streamId : ℕ}
    {startOffset : ℤ} {tiers : Tiers W} {payloads : List Bytes} {log : PartitionLog W}
    (hfresh : ∀ offset, tiers.logCache.get streamId offset = none)
    (hfits : tiers.logCache.currentBytes + (payloads.map List.length).sum ≤ tiers.logCache.maxBytes)
    (hrun : run append (fresh topicPartition streamId startOffset tiers) payloads = some log)
    {offset : ℤ} (hstart : log.partition.logStartOffset ≤ offset)
    (hend : offset < log.partition.highWatermark) (maxBytes : ℕ) :
    log.Readable offset maxBytes ↔ ∃ batch ∈ log.stored, batch.base = offset := by
  have hlog : Cached log := cached_run (cached_fresh hfresh) hfits hrun
  constructor
  · intro hread
    by_contra hnone
    exact not_readable_of_uncached hlog (fun b hb hbase => hnone ⟨b, hb, hbase⟩) maxBytes hread
  · rintro ⟨batch, hmem, hbase⟩
    exact readable_base hlog ⟨hstart, hend⟩ hmem hbase maxBytes

def emptyTiers : Tiers MemoryWal := ⟨MemoryWal.new, ∅, LogCache.new 4096, BlockCache.new 4096⟩

def headerOnly (lastOffsetDelta : ℤ) : Bytes :=
  assembleBatch 0 (batchTail 0 lastOffsetDelta 0 0 (-1) (-1) (-1) (lastOffsetDelta + 1) [])

theorem two_appends_readable : ∃ log : PartitionLog MemoryWal,
      run append (fresh ⟨"orders", 0⟩ 1 0 emptyTiers) [headerOnly 0, [1, 2, 3]] = some log ∧
      ∀ maxBytes, log.Readable 1 maxBytes := by
  have hfits : emptyTiers.logCache.currentBytes +
      ([headerOnly 0, [1, 2, 3]].map List.length).sum ≤ emptyTiers.logCache.maxBytes := by
    decide +kernel
  refine ⟨_, rfl, fun maxBytes => ?_⟩
  exact (readable_iff_base (fun _ => rfl) hfits rfl (by decide +kernel) (by decide +kernel)
    maxBytes).mpr (by decide +kernel)

theorem second_record_unreadable : ∃ log : PartitionLog MemoryWal,
      run append (fresh ⟨"orders", 0⟩ 1 0 emptyTiers) [headerOnly 1] = some log ∧
      log.partition.logStartOffset ≤ 1 ∧ 1 < log.partition.highWatermark ∧
      ¬log.Readable 1 1024 := by
  have hfits : emptyTiers.logCache.currentBytes + ([headerOnly 1].map List.length).sum ≤
      emptyTiers.logCache.maxBytes := by
    decide +kernel
  refine ⟨_, rfl, by decide +kernel, by decide +kernel, ?_⟩
  have hrun : run append (fresh ⟨"orders", 0⟩ 1 0 emptyTiers) [headerOnly 1] = some _ := rfl
  exact not_readable_of_uncached (cached_run (cached_fresh fun _ => rfl) hfits hrun)
    (by decide +kernel) 1024

end PartitionLog

end OxideMq.Broker
