import OxideMq.Broker.CachedReads
import OxideMq.Broker.Watermarks

/-! What an append does to a partition besides storing its payload. -/

namespace OxideMq.Broker

open Lib OxideMq.Core OxideMq.Protocol OxideMq.Wal OxideMq.Stream OxideMq.Broker.Partition

variable {W : Type}
variable {partition partition' : Partition} {tiers tiers' : Tiers W}
  {result : Except OxideMqError ℤ}

inductive AppendCall where
  | appendRecords (records : Bytes)
  | appendIdempotent (producerId producerEpoch sequence : ℤ) (records : Bytes)
  deriving DecidableEq, Repr

namespace AppendCall

def records : AppendCall → Bytes
  | .appendRecords records => records
  | .appendIdempotent _ _ _ records => records

/-- The call gets as far as `append_records`. -/
def Reaches (partition : Partition) : AppendCall → Prop
  | .appendRecords _ => True
  | .appendIdempotent producerId producerEpoch sequence _ =>
      partition.Admits producerId producerEpoch sequence

instance (partition : Partition) : (call : AppendCall) → Decidable (call.Reaches partition)
  | .appendRecords _ => inferInstanceAs (Decidable True)
  | .appendIdempotent producerId producerEpoch sequence _ =>
      inferInstanceAs (Decidable (partition.Admits producerId producerEpoch sequence))

def exec [WalEngine W] (partition : Partition) (tiers : Tiers W) :
    AppendCall → Option (Partition × Tiers W × Except OxideMqError ℤ)
  | .appendRecords records => partition.appendRecords tiers records
  | .appendIdempotent producerId producerEpoch sequence records =>
      (partition.appendIdempotent tiers producerId producerEpoch sequence records).map
        fun (partition', tiers', answer) => (partition', tiers', answer.map Prod.fst)

theorem exec_eq_some [WalEngine W] {part part' : Partition} {tiers tiers' : Tiers W}
    {call : AppendCall} {res : Except OxideMqError ℤ}
    (h : call.exec part tiers = some (part', tiers', res)) :
    call.Reaches part ∧ (∃ appended, part.appendRecords tiers call.records =
            some (appended, tiers', res) ∧
          part'.stream = appended.stream ∧ part'.ongoingTxns = appended.ongoingTxns ∧
          ((∃ e, res = .error e) → part' = appended)) ∨
      ¬call.Reaches part ∧ part' = part ∧ tiers' = tiers := by
  cases call with
  | appendRecords recs =>
    exact Or.inl ⟨trivial, part', h, rfl, rfl, fun _ => rfl⟩
  | appendIdempotent pid epoch seq recs =>
    obtain ⟨⟨part₀, tiers₀, answer⟩, happ, heq⟩ := Option.map_eq_some_iff.mp h
    cases heq
    refine (appendIdempotent_eq_some happ).imp ?_ ?_
    · rintro ⟨hadm, appended, res, hrecords, hans⟩
      refine ⟨hadm, appended, ?_⟩
      obtain ⟨e, rfl, rfl, rfl⟩ | ⟨base, rfl, rfl, rfl⟩ := hans
      · exact ⟨hrecords, rfl, rfl, fun _ => rfl⟩
      · exact ⟨hrecords, rfl, rfl, fun ⟨e, he⟩ => by cases he⟩
    · rintro ⟨href, rfl, rfl, -⟩
      exact ⟨href, rfl, rfl⟩

end AppendCall

def LogRefuses [WalEngine W] (partition : Partition) (tiers : Tiers W) (call : AppendCall) :
    Prop :=
  call.Reaches partition ∧ ∃ patched count e,
    patchRecordBatches call.records partition.stream.nextOffset = some (patched, count) ∧
    (WalEngine.append tiers.wal partition.stream.streamId partition.stream.nextOffset patched).2 =
      .error e

structure Traceless (partition : Partition) (tiers : Tiers W) (partition' : Partition)
    (tiers' : Tiers W) [WalEngine W] : Prop where
  highWatermark : partition'.highWatermark = partition.highWatermark
  lastStableOffset : partition'.lastStableOffset = partition.lastStableOffset
  ongoingTxns : partition'.ongoingTxns = partition.ongoingTxns
  producerStates : partition'.producerStates = partition.producerStates
  cached : tiers'.logCache = tiers.logCache
  nextOffset : ∀ (later : Tiers W) (records : Bytes) (partition'' : Partition) (later' : Tiers W)
    (baseOffset : ℤ), partition'.appendRecords later records =
      some (partition'', later', .ok baseOffset) → baseOffset = partition.highWatermark

@[simp] theorem Partition.noteTransaction_producerStates (part : Partition) (patched : Bytes)
    (off : ℤ) :
    (part.noteTransaction patched off).producerStates = part.producerStates := by
  unfold noteTransaction
  split <;> rfl

theorem highWatermark_append_ne [WalEngine W] {recs : Bytes}
    (h : partition.appendRecords tiers recs = some (partition', tiers', result)) :
    partition'.highWatermark ≠ partition.highWatermark := by
  obtain ⟨patched, count, hpat, rfl, -⟩ := appendRecords_eq_some h
  have hpos := one_le_patchRecordBatches hpat
  have hlt := patchRecordBatches_lt hpat
  exact wrapSigned_add_ne (by omega) (by omega) _

theorem kept_of_refused [WalEngine W] {recs : Bytes} {e : OxideMqError}
    (h : partition.appendRecords tiers recs = some (partition', tiers', .error e)) :
    partition'.producerStates = partition.producerStates ∧ tiers'.logCache = tiers.logCache := by
  obtain ⟨patched, count, hpat, rfl, hwal⟩ := appendRecords_eq_some h
  obtain ⟨seq, -, herr, -⟩ | ⟨e', -, -, rfl⟩ := hwal
  · cases herr
  · exact ⟨noteTransaction_producerStates _ _ _, rfl⟩

theorem error_of_refused [WalEngine W] {call : AppendCall} (href : LogRefuses partition tiers call)
    (h : partition.appendRecords tiers call.records = some (partition', tiers', result)) :
    ∃ e, result = .error e := by
  obtain ⟨-, patched, count, e, hpat, hwal⟩ := href
  obtain ⟨patched', count', hpat', -, ⟨seq, hok, -⟩ | ⟨e', -, rfl, -⟩⟩ :=
    appendRecords_eq_some h
  · cases hpat.symm.trans hpat'
    rw [hok] at hwal
    cases hwal
  · exact ⟨e', rfl⟩

theorem traceless_iff_log_takes [WalEngine W] {partition partition' : Partition}
    {tiers tiers' : Tiers W} {call : AppendCall} {result : Except OxideMqError ℤ}
    (h : call.exec partition tiers = some (partition', tiers', result)) :
    ((LogRefuses partition tiers call → (∃ e, result = .error e) →
        Traceless partition tiers partition' tiers') ↔ ¬LogRefuses partition tiers call) ∧
      (LogRefuses partition tiers call → (∃ e, result = .error e) ∧
        partition'.producerStates = partition.producerStates ∧
        tiers'.logCache = tiers.logCache) := by
  have hboth : LogRefuses partition tiers call → (∃ e, result = .error e) ∧
      partition'.producerStates = partition.producerStates ∧ tiers'.logCache = tiers.logCache ∧
      partition'.highWatermark ≠ partition.highWatermark := by
    intro href
    obtain ⟨-, appended, happ, -, -, hsame⟩ | ⟨hunreached, -⟩ := AppendCall.exec_eq_some h
    · obtain ⟨e, rfl⟩ := error_of_refused href happ
      obtain rfl := hsame ⟨e, rfl⟩
      obtain ⟨hstates, hcache⟩ := kept_of_refused happ
      exact ⟨⟨e, rfl⟩, hstates, hcache, highWatermark_append_ne happ⟩
    · exact absurd href.1 hunreached
  refine ⟨⟨fun htraceless href => ?_, fun htakes href => absurd href htakes⟩, ?_⟩
  · obtain ⟨herr, -, -, hmoved⟩ := hboth href
    exact hmoved (htraceless href herr).highWatermark
  · intro href
    obtain ⟨herr, hstates, hcache, -⟩ := hboth href
    exact ⟨herr, hstates, hcache⟩

structure FullLog where
  deriving DecidableEq, Repr

instance : WalEngine FullLog where
  append log _ _ _ := (log, .error (.storage "No space left on device"))
  trim log _ _ := (log, .ok ())

def newPartition : Partition := Partition.new ⟨"orders", 0⟩ (S3Stream.new 1 0)

def fullTiers : Tiers FullLog := ⟨⟨⟩, ∅, LogCache.new 4096, BlockCache.new 4096⟩

theorem refused_batch_leaves_traces : ∃ partition' tiers' e,
      (AppendCall.appendRecords (transactionalBatch 7)).exec newPartition fullTiers =
        some (partition', tiers', .error e) ∧
      LogRefuses newPartition fullTiers (.appendRecords (transactionalBatch 7)) ∧
      partition'.highWatermark = 1 ∧ partition'.ongoingTxns.lookup 7 = some 0 ∧
      ¬Traceless newPartition fullTiers partition' tiers' := by
  have hend : ((AppendCall.appendRecords (transactionalBatch 7)).exec newPartition fullTiers).map
      (fun s => (s.1.highWatermark, s.1.ongoingTxns.lookup 7, s.2.2)) =
        some (1, some 0, .error (.storage "No space left on device")) := by
    decide +kernel
  have hpat : (patchRecordBatches (transactionalBatch 7) 0).isSome = true := by decide +kernel
  obtain ⟨⟨patched, count⟩, hpat⟩ := Option.isSome_iff_exists.mp hpat
  obtain ⟨⟨partition', tiers', result⟩, hexec, heq⟩ := Option.map_eq_some_iff.mp hend
  obtain ⟨hhigh, hopen, rfl⟩ : _ ∧ _ ∧ _ := by simpa only [Prod.mk.injEq] using heq
  refine ⟨partition', tiers', _, hexec, ⟨trivial, patched, count, _, hpat, rfl⟩, hhigh, hopen, ?_⟩
  intro htraceless
  have hsame := htraceless.highWatermark
  rw [hhigh] at hsame
  exact absurd hsame (by decide)

theorem traceless_iff_log_takes_memory : ∃ partition' tiers' result,
      (AppendCall.appendRecords (transactionalBatch 7)).exec newPartition
        PartitionLog.emptyTiers = some (partition', tiers', result) ∧
      (LogRefuses newPartition PartitionLog.emptyTiers (.appendRecords (transactionalBatch 7)) →
        (∃ e, result = .error e) →
          Traceless newPartition PartitionLog.emptyTiers partition' tiers') := by
  have hsome : ((AppendCall.appendRecords (transactionalBatch 7)).exec newPartition
      PartitionLog.emptyTiers).isSome = true := by
    decide +kernel
  obtain ⟨⟨partition', tiers', result⟩, hexec⟩ := Option.isSome_iff_exists.mp hsome
  refine ⟨partition', tiers', result, hexec, (traceless_iff_log_takes hexec).1.mpr ?_⟩
  rintro ⟨-, patched, count, e, -, hwal⟩
  cases hwal

inductive PartitionCall where
  | append (call : AppendCall)
  | completeTxn (producerId : ℤ)
  | recordAbortedTxn (producerId firstOffset : ℤ)
  deriving DecidableEq, Repr

namespace PartitionCall

def exec [WalEngine W] : Partition × Tiers W → PartitionCall → Option (Partition × Tiers W)
  | (partition, tiers), .append call =>
      (call.exec partition tiers).map fun (partition', tiers', _) => (partition', tiers')
  | (partition, tiers), .completeTxn producerId => some (partition.completeTxn producerId, tiers)
  | (partition, tiers), .recordAbortedTxn producerId firstOffset =>
      some (partition.recordAbortedTxn producerId firstOffset, tiers)

def KeepsStable (partition partition' : Partition) : Prop :=
  partition.lastStableOffset ≤ partition'.lastStableOffset ∧
    partition'.lastStableOffset ≤ partition'.highWatermark

/-- The offsets of a payload stay in the `i64` range, or those that wrap around do not come below
the last stable offset. -/
def RoomAbove (s : Partition × Tiers W) : PartitionCall → Prop
  | .append call => call.Reaches s.1 →
      s.1.highWatermark + offsetsTaken call.records < 2 ^ 63 ∨
        s.1.lastStableOffset ≤ s.1.highWatermark + offsetsTaken call.records - 2 ^ 64
  | _ => True

instance (s : Partition × Tiers W) : (call : PartitionCall) → Decidable (RoomAbove s call)
  | .append call => inferInstanceAs (Decidable (call.Reaches s.1 →
      s.1.highWatermark + offsetsTaken call.records < 2 ^ 63 ∨
        s.1.lastStableOffset ≤ s.1.highWatermark + offsetsTaken call.records - 2 ^ 64))
  | .completeTxn _ => inferInstanceAs (Decidable True)
  | .recordAbortedTxn _ _ => inferInstanceAs (Decidable True)

theorem stable_append_iff [WalEngine W] {part part' : Partition} {tiers tiers' : Tiers W}
    {recs : Bytes} {res : Except OxideMqError ℤ}
    (happ : part.appendRecords tiers recs = some (part', tiers', res))
    (hfits : FitsSigned 64 part.highWatermark) :
    FitsSigned 64 part'.highWatermark ∧ (part.lastStableOffset ≤ part'.lastStableOffset ↔
        part.highWatermark + offsetsTaken recs < 2 ^ 63 ∨ part.lastStableOffset ≤
          part.highWatermark + offsetsTaken recs - 2 ^ 64) := by
  obtain ⟨patched, count, hpat, rfl, -⟩ := appendRecords_eq_some happ
  have hpos := one_le_patchRecordBatches hpat
  have hlt := patchRecordBatches_lt hpat
  obtain rfl := patchRecordBatches_count hfits hpat
  obtain ⟨hstable, hopen⟩ :=
    le_lastStableOffset_iff.mp (le_refl part.lastStableOffset)
  refine ⟨wrapSigned_fits (by norm_num) _, ?_⟩
  rw [le_lastStableOffset_iff, and_iff_left]
  · show part.lastStableOffset ≤ wrapSigned 64 (part.highWatermark + offsetsTaken recs) ↔ _
    obtain ⟨hroom, hsum⟩ | ⟨hover, hsum⟩ := wrapSigned_add_cases hfits (by omega) hlt
    · rw [hsum]
      exact iff_of_true (by omega) (Or.inl hroom)
    · rw [hsum, or_iff_right (not_lt.mpr hover)]
  · intro first hfirst
    rcases mem_values_noteTransaction hfirst with hold | rfl
    · exact hopen first hold
    · exact hstable

theorem stable_erase {part part' : Partition} {pid : ℤ} (hstr : part'.stream = part.stream)
    (hongoing : part'.ongoingTxns = part.ongoingTxns.erase pid) :
    part.lastStableOffset ≤ part'.lastStableOffset := by
  obtain ⟨hstable, hopen⟩ :=
    le_lastStableOffset_iff.mp (le_refl part.lastStableOffset)
  refine le_lastStableOffset_iff.mpr ⟨?_, fun first hfirst => ?_⟩
  · rw [highWatermark, hstr]
    exact hstable
  · obtain ⟨other, hl⟩ := HashMap.mem_values.mp hfirst
    rw [hongoing, HashMap.lookup_erase_ite] at hl
    split at hl
    · cases hl
    · exact hopen first (HashMap.mem_values.mpr ⟨other, hl⟩)

theorem keepsStable_iff [WalEngine W] {s s' : Partition × Tiers W} {call : PartitionCall}
    (hfits : FitsSigned 64 s.1.highWatermark) (hexec : exec s call = some s') :
    FitsSigned 64 s'.1.highWatermark ∧ (KeepsStable s.1 s'.1 ↔ RoomAbove s call) := by
  obtain ⟨partition, tiers⟩ := s
  rw [KeepsStable, and_iff_left (lastStableOffset_le_highWatermark _)]
  cases call with
  | append call =>
    obtain ⟨⟨partition', tiers', result⟩, hcall, rfl⟩ := Option.map_eq_some_iff.mp hexec
    obtain ⟨hreach, appended, happ, hstr, hongoing, -⟩ | ⟨hunreached, rfl, rfl⟩ :=
      AppendCall.exec_eq_some hcall
    · obtain ⟨hfits', hiff⟩ := stable_append_iff happ hfits
      have hhigh : partition'.highWatermark = appended.highWatermark := by
        rw [highWatermark, hstr, highWatermark]
      have hstable : partition'.lastStableOffset = appended.lastStableOffset := by
        rw [lastStableOffset, hongoing, hhigh, lastStableOffset]
      refine ⟨by rw [hhigh]; exact hfits', ?_⟩
      rw [hstable, RoomAbove, forall_prop_of_true hreach]
      exact hiff
    · exact ⟨hfits, iff_of_true le_rfl fun hreach => absurd hreach hunreached⟩
  | completeTxn pid =>
    cases hexec
    exact ⟨hfits, iff_of_true (stable_erase rfl rfl) trivial⟩
  | recordAbortedTxn pid firstOffset =>
    cases hexec
    exact ⟨hfits, iff_of_true (stable_erase rfl rfl) trivial⟩

theorem stable_offset_monotone_iff [WalEngine W] {partition : Partition} {tiers : Tiers W}
    (hfits : FitsSigned 64 partition.highWatermark) {calls : List PartitionCall}
    {t : Partition × Tiers W} (hrun : run exec (partition, tiers) calls = some t) :
    Along exec (fun s call => ∀ s', exec s call = some s' → KeepsStable s.1 s'.1)
        (partition, tiers) calls ↔
      Along exec RoomAbove (partition, tiers) calls := by
  refine along_iff_of_run (I := fun s => FitsSigned 64 s.1.highWatermark) ?_ hfits hrun
  intro s call s' hs hexec
  obtain ⟨hs', hiff⟩ := keepsStable_iff hs hexec
  refine ⟨hs', ⟨fun hk => hiff.mp (hk s' hexec), fun hroom s'' hexec' => ?_⟩⟩
  rw [← Option.some.inj (hexec.symm.trans hexec')]
  exact hiff.mpr hroom

theorem stable_offset_wraps : ∃ partition' tiers',
      exec (Partition.new ⟨"orders", 0⟩ (S3Stream.new 1 (2 ^ 63 - 1)), PartitionLog.emptyTiers)
        (.append (.appendRecords [])) = some (partition', tiers') ∧
      partition'.lastStableOffset = -2 ^ 63 ∧
      ¬KeepsStable (Partition.new ⟨"orders", 0⟩ (S3Stream.new 1 (2 ^ 63 - 1))) partition' := by
  have hend : (exec (new ⟨"orders", 0⟩ (S3Stream.new 1 (2 ^ 63 - 1)),
      PartitionLog.emptyTiers) (.append (.appendRecords []))).map
        (fun s => s.1.lastStableOffset) = some (-2 ^ 63) := by
    decide +kernel
  obtain ⟨⟨partition', tiers'⟩, hexec, hstable⟩ := Option.map_eq_some_iff.mp hend
  refine ⟨partition', tiers', hexec, hstable, fun hk => ?_⟩
  have hle := hk.1
  rw [hstable] at hle
  exact absurd hle (by decide)

theorem stable_offset_monotone_decided : Along exec (fun (s : Partition × Tiers MemoryWal) call =>
        ∀ s', exec s call = some s' → KeepsStable s.1 s'.1)
      (newPartition, PartitionLog.emptyTiers)
      [.append (.appendRecords (transactionalBatch 7)), .append (.appendIdempotent 7 0 5 [1]),
        .append (.appendIdempotent 7 0 9 [1]), .recordAbortedTxn 7 0, .completeTxn 8] := by
  have hsome : (run exec (newPartition, PartitionLog.emptyTiers)
      [.append (.appendRecords (transactionalBatch 7)), .append (.appendIdempotent 7 0 5 [1]),
        .append (.appendIdempotent 7 0 9 [1]), .recordAbortedTxn 7 0,
        .completeTxn 8]).isSome = true := by
    decide +kernel
  obtain ⟨t, hrun⟩ := Option.isSome_iff_exists.mp hsome
  exact (stable_offset_monotone_iff (by decide +kernel) hrun).mpr (by decide +kernel)

end PartitionCall

end OxideMq.Broker
