import OxideMq.Broker.Fetch
import OxideMq.Lib.Run

/-! The three watermarks of a partition: the log start, the last stable offset and the high
watermark. -/

namespace OxideMq.Broker

open Lib OxideMq.Core OxideMq.Protocol OxideMq.Wal OxideMq.Stream Option HashMap

variable {W : Type}

def declaredRecords : ℕ → Bytes → ℤ
  | 0, _ => 0
  | fuel + 1, rest =>
      if 21 ≤ rest.length ∧ magicOf rest = 2 ∧ 21 ≤ totalBatchSize rest ∧
          totalBatchSize rest ≤ rest.length then
        patchCount rest + declaredRecords fuel (rest.drop (totalBatchSize rest).toNat)
      else 0

/-- The declared records as an `i64`, and at least one. -/
def offsetsTaken (records : Bytes) : ℤ :=
  max (wrapSigned 64 (declaredRecords records.length records)) 1

theorem wrapSigned_wrapSigned_add (w : ℕ) (x y : ℤ) :
    wrapSigned w (wrapSigned w x + y) = wrapSigned w (x + y) :=
  Int.bmod_add_bmod

theorem wrapSigned_add_sub (w : ℕ) (x y : ℤ) :
    wrapSigned w (wrapSigned w (x + y) - x) = wrapSigned w y := by
  rw [sub_eq_add_neg, wrapSigned_wrapSigned_add]
  congr 1
  ring

theorem patchCount_patchHeader {rest : Bytes} (h : 21 ≤ rest.length) (total : ℕ) (off : ℤ) :
    patchCount (patchHeader rest total off) = patchCount rest := by
  rw [patchCount, patchHeader_length h, recordCountOf_patchHeader h, patchCount]

theorem patchLoop_offset {fuel cursor : ℕ} {rest buf : Bytes} {currentOffset offset : ℤ}
    (hfits : FitsSigned 64 currentOffset)
    (h : patchLoop fuel cursor rest currentOffset = some (buf, offset)) :
    offset = wrapSigned 64 (currentOffset + declaredRecords fuel rest) := by
  induction fuel generalizing cursor rest currentOffset buf offset with
  | zero =>
    cases h
    rw [declaredRecords, add_zero, wrapSigned_of_fits (by norm_num) hfits]
  | succ fuel ih =>
    have hstop : wrapSigned 64 (currentOffset + 0) = currentOffset := by
      rw [add_zero, wrapSigned_of_fits (by norm_num) hfits]
    rw [patchLoop] at h
    rw [declaredRecords]
    split at h
    · rename_i hb
      dsimp only at h
      split at h
      · cases h
        rw [if_neg (by omega), hstop]
      · split at h
        · simp at h
        · obtain ⟨⟨tail, last⟩, hloop, heq⟩ := map_eq_some_iff.mp h
          obtain ⟨-, rfl⟩ := Prod.mk.inj heq
          rw [patchCount_patchHeader hb.1, drop_patchHeader hb.1 _ _ (by omega)] at hloop
          rw [ih (wrapSigned_fits (by norm_num) _) hloop, wrapSigned_wrapSigned_add,
            if_pos ⟨hb.1, hb.2, by omega, by omega⟩, add_assoc]
    · rename_i hb
      cases h
      rw [if_neg (fun hall => hb ⟨hall.1, hall.2.1⟩), hstop]

theorem patchRecordBatches_count {records buf : Bytes} {baseOffset count : ℤ}
    (hfits : FitsSigned 64 baseOffset)
    (h : patchRecordBatches records baseOffset = some (buf, count)) :
    count = offsetsTaken records := by
  rw [patchRecordBatches] at h
  split at h
  · rename_i hshort
    cases h
    have hnone : declaredRecords records.length records = 0 := by
      cases hlen : records.length with
      | zero => rfl
      | succ n => rw [declaredRecords, if_neg (by omega)]
    rw [offsetsTaken, hnone]
    rfl
  · obtain ⟨⟨patched, offset⟩, hloop, heq⟩ := map_eq_some_iff.mp h
    cases heq
    rw [patchLoop_offset hfits hloop, wrapSigned_add_sub, offsetsTaken]

namespace Partition

variable {partition : Partition}

def WatermarksOrdered (partition : Partition) : Prop :=
  partition.logStartOffset ≤ partition.lastStableOffset ∧
    partition.lastStableOffset ≤ partition.highWatermark

instance (partition : Partition) : Decidable partition.WatermarksOrdered :=
  inferInstanceAs (Decidable (_ ∧ _))

theorem lastStableOffset_le_highWatermark (part : Partition) :
    part.lastStableOffset ≤ part.highWatermark := by
  unfold lastStableOffset
  split
  · exact min_le_right _ _
  · exact le_rfl

theorem le_lastStableOffset_iff {off : ℤ} : off ≤ partition.lastStableOffset ↔
      off ≤ partition.highWatermark ∧ ∀ first ∈ partition.ongoingTxns.values, off ≤ first := by
  unfold lastStableOffset
  split
  · rename_i least hleast
    obtain ⟨hmem, hmin⟩ := List.min?_eq_some_iff.mp hleast
    rw [le_min_iff, and_comm]
    refine and_congr Iff.rfl ⟨fun h first hfirst => h.trans (hmin first hfirst), ?_⟩
    exact fun h => h least hmem
  · rename_i hnone
    rw [List.min?_eq_none_iff.mp hnone]
    simp

theorem watermarksOrdered_iff : partition.WatermarksOrdered ↔
      partition.logStartOffset ≤ partition.highWatermark ∧
        ∀ first ∈ partition.ongoingTxns.values, partition.logStartOffset ≤ first := by
  rw [WatermarksOrdered, and_iff_left partition.lastStableOffset_le_highWatermark,
    le_lastStableOffset_iff]

theorem mem_values_noteTransaction {patched : Bytes} {offset first : ℤ}
    (h : first ∈ (partition.noteTransaction patched offset).ongoingTxns.values) :
    first ∈ partition.ongoingTxns.values ∨ first = offset := by
  obtain ⟨producerId, hl⟩ := mem_values.mp h
  rw [lookup_noteTransaction] at hl
  cases hold : partition.ongoingTxns.lookup producerId with
  | some old =>
    rw [hold, getD_some, ite_self] at hl
    cases hl
    exact Or.inl (mem_values.mpr ⟨producerId, hold⟩)
  | none =>
    rw [hold, getD_none] at hl
    split at hl
    · exact Or.inr (some.inj hl).symm
    · simp at hl

theorem WatermarksOrdered.decide {part' : Partition} (hord : partition.WatermarksOrdered)
    (hstr : part'.stream = partition.stream) {pid : ℤ}
    (hongoing : part'.ongoingTxns = partition.ongoingTxns.erase pid) :
    part'.WatermarksOrdered := by
  rw [watermarksOrdered_iff, highWatermark, logStartOffset] at hord ⊢
  rw [hstr]
  refine ⟨hord.1, fun first hfirst => hord.2 first ?_⟩
  obtain ⟨other, hl⟩ := mem_values.mp hfirst
  rw [hongoing] at hl
  rw [lookup_erase_ite] at hl
  split at hl
  · simp at hl
  · exact mem_values.mpr ⟨other, hl⟩

/-- A partition of the broker: the log starts at an offset that is not negative, and the high
watermark is an `i64`. -/
structure OffsetsFit (partition : Partition) : Prop where
  start : 0 ≤ partition.logStartOffset
  next : FitsSigned 64 partition.highWatermark

theorem watermarksOrdered_append_iff [WalEngine W] {partition' : Partition} {tiers tiers' : Tiers W}
    {records : Bytes} {result : Except OxideMqError ℤ}
    (happ : partition.appendRecords tiers records = some (partition', tiers', result))
    (hfit : partition.OffsetsFit) (hord : partition.WatermarksOrdered) :
    partition'.OffsetsFit ∧ (partition'.WatermarksOrdered ↔
        partition.highWatermark + offsetsTaken records < 2 ^ 63) := by
  obtain ⟨patched, count, hpat, rfl, -⟩ := appendRecords_eq_some happ
  have hpos := one_le_patchRecordBatches hpat
  have hlt := patchRecordBatches_lt hpat
  obtain rfl := patchRecordBatches_count hfit.next hpat
  obtain ⟨hstart, hopen⟩ := watermarksOrdered_iff.mp hord
  have hzero := hfit.start
  have hnext : partition.highWatermark < 2 ^ 63 := hfit.next.2
  have hsplit := wrapSigned_add_cases hfit.next (zero_le_one.trans hpos) hlt
  refine ⟨⟨hzero, wrapSigned_fits (by norm_num) _⟩, ?_⟩
  rw [watermarksOrdered_iff]
  simp only [highWatermark, logStartOffset] at *
  obtain ⟨hroom, hsum⟩ | ⟨hover, hsum⟩ := hsplit
  · rw [hsum]
    refine iff_of_true ⟨by omega, fun first hfirst => ?_⟩ hroom
    rcases mem_values_noteTransaction hfirst with hold | rfl
    · exact hopen first hold
    · exact hstart
  · rw [hsum]
    refine iff_of_false (fun h => ?_) (not_lt.mpr hover)
    have hstarts := h.1
    omega

def deletionTarget (partition : Partition) (beforeOffset : ℤ) : ℤ :=
  if beforeOffset = -1 then partition.highWatermark else beforeOffset

def InRange (partition : Partition) (beforeOffset : ℤ) : Prop :=
  beforeOffset = -1 ∨ 0 ≤ beforeOffset ∧ beforeOffset ≤ partition.highWatermark

instance (partition : Partition) (beforeOffset : ℤ) : Decidable (partition.InRange beforeOffset) :=
  inferInstanceAs (Decidable (_ ∨ _))

/-- The partition after `delete_records`. -/
def truncated (partition : Partition) (beforeOffset : ℤ) : Partition :=
  if partition.InRange beforeOffset ∧
      partition.logStartOffset < partition.deletionTarget beforeOffset then
    { partition with
      stream := { partition.stream with startOffset := partition.deletionTarget beforeOffset } }
  else partition

theorem watermarksOrdered_truncated_iff (hfit : partition.OffsetsFit)
    (hord : partition.WatermarksOrdered) (before : ℤ) :
    (partition.truncated before).OffsetsFit ∧ ((partition.truncated before).WatermarksOrdered ↔
        (partition.InRange before → ∀ first ∈ partition.ongoingTxns.values,
          partition.deletionTarget before ≤ first)) := by
  obtain ⟨hstart, hopen⟩ := watermarksOrdered_iff.mp hord
  have hzero := hfit.start
  rw [truncated]
  split_ifs with hmove
  · obtain ⟨hrange, hlt⟩ := hmove
    have htarget : partition.deletionTarget before ≤ partition.highWatermark := by
      rw [deletionTarget]
      split_ifs with hend
      · exact le_rfl
      · exact (hrange.resolve_left hend).2
    refine ⟨⟨hzero.trans hlt.le, hfit.next⟩, ?_⟩
    rw [watermarksOrdered_iff, forall_prop_of_true hrange]
    exact and_iff_right htarget
  · refine ⟨hfit, iff_of_true hord fun hrange first hfirst => ?_⟩
    have hle : partition.deletionTarget before ≤ partition.logStartOffset :=
      not_lt.mp fun hlt => hmove ⟨hrange, hlt⟩
    exact hle.trans (hopen first hfirst)

end Partition

namespace ClusterState

theorem getPartition_deleteRecords {cl : ClusterState W} {tp : TopicPartition}
    {part : Partition} (h : cl.getPartition tp = some part) (before : ℤ) :
    (cl.deleteRecords tp before).1.getPartition tp = some (part.truncated before) := by
  obtain ⟨ref, hptr, hobj⟩ := getPartition_eq_some.mp h
  have hfound : ((cl.partitions.lookup tp).bind fun ref =>
      (cl.heap[ref]?).map (Prod.mk ref)) = some (ref, part) := by
    rw [hptr, bind_some, hobj]
    rfl
  rw [deleteRecords, hfound]
  dsimp only
  rw [← Partition.deletionTarget]
  by_cases hrange : part.InRange before
  · rw [if_neg (by rw [Partition.InRange] at hrange; omega)]
    by_cases hlt : part.logStartOffset < part.deletionTarget before
    · rw [if_neg (not_le.mpr hlt),
        getPartition_setObject hptr, if_pos rfl, Partition.truncated, if_pos ⟨hrange, hlt⟩,
        Partition.advanceLogStartOffset, S3Stream.advanceStartOffset]
      exact congrArg some (by rw [if_pos (show _ > part.stream.startOffset from hlt)])
    · rw [if_pos (not_lt.mp hlt), Partition.truncated, if_neg fun hmove => hlt hmove.2]
      exact h
  · rw [if_pos (by rw [Partition.InRange] at hrange; omega), Partition.truncated,
      if_neg fun hmove => hrange hmove.1]
    exact h

end ClusterState

inductive WatermarkAction where
  | appendRecords (records : Bytes)
  | completeTxn (producerId : ℤ)
  | recordAbortedTxn (producerId firstOffset : ℤ)
  | deleteRecords (beforeOffset : ℤ)

namespace ClusterState

variable {cluster : ClusterState W} {tp : TopicPartition} {partition : Partition}

def modifyPartition (cluster : ClusterState W) (tp : TopicPartition) (f : Partition → Partition) :
    ClusterState W :=
  let (cluster', ref) := cluster.getOrCreatePartition tp
  cluster'.modifyObject ref f

def execOn [WalEngine W] (tp : TopicPartition) (cluster : ClusterState W) :
    WatermarkAction → Option (ClusterState W)
  | .appendRecords records => (cluster.appendTo tp records).map Prod.fst
  | .completeTxn producerId => some (cluster.modifyPartition tp (·.completeTxn producerId))
  | .recordAbortedTxn producerId firstOffset =>
      some (cluster.modifyPartition tp (·.recordAbortedTxn producerId firstOffset))
  | .deleteRecords beforeOffset => some (cluster.deleteRecords tp beforeOffset).1

def OrderedAt (tp : TopicPartition) (cluster : ClusterState W) : Prop :=
  ∀ partition ∈ cluster.getPartition tp, partition.WatermarksOrdered

/-- The offsets of an append stay in the `i64` range, and no open transaction starts below the
target of a deletion. -/
def KeepsOrder (tp : TopicPartition) (cluster : ClusterState W) : WatermarkAction → Prop
  | .appendRecords records => ∀ partition ∈ cluster.getPartition tp,
      partition.highWatermark + offsetsTaken records < 2 ^ 63
  | .deleteRecords beforeOffset => ∀ partition ∈ cluster.getPartition tp,
      partition.InRange beforeOffset → ∀ first ∈ partition.ongoingTxns.values,
        partition.deletionTarget beforeOffset ≤ first
  | _ => True

instance (tp : TopicPartition) (cluster : ClusterState W) :
    (a : WatermarkAction) → Decidable (KeepsOrder tp cluster a)
  | .appendRecords records => inferInstanceAs (Decidable (∀ partition ∈ cluster.getPartition tp,
      partition.highWatermark + offsetsTaken records < 2 ^ 63))
  | .deleteRecords beforeOffset => inferInstanceAs (Decidable
      (∀ partition ∈ cluster.getPartition tp, partition.InRange beforeOffset →
        ∀ first ∈ partition.ongoingTxns.values, partition.deletionTarget beforeOffset ≤ first))
  | .completeTxn _ => inferInstanceAs (Decidable True)
  | .recordAbortedTxn _ _ => inferInstanceAs (Decidable True)

theorem orderedAt_of_some (h : cluster.getPartition tp = some partition) :
    OrderedAt tp cluster ↔ partition.WatermarksOrdered := by
  rw [OrderedAt, h]
  simp

theorem getPartition_modifyPartition (h : cluster.getPartition tp = some partition)
    (f : Partition → Partition) :
    (cluster.modifyPartition tp f).getPartition tp = some (f partition) := by
  have hcr := cluster.created_getOrCreatePartition tp
  rw [modifyPartition]
  dsimp only
  rw [getPartition_modifyObject hcr.pointer, if_pos rfl, getPartition_getOrCreatePartition,
    if_pos rfl, partitionFor_of_some h]
  rfl

theorem orderedAt_execOn_iff [WalEngine W] {cl' : ClusterState W} {a : WatermarkAction}
    (h : cluster.getPartition tp = some partition) (hfit : partition.OffsetsFit)
    (hord : partition.WatermarksOrdered) (hexec : execOn tp cluster a = some cl') :
    ∃ part', cl'.getPartition tp = some part' ∧ part'.OffsetsFit ∧
      (part'.WatermarksOrdered ↔ KeepsOrder tp cluster a) := by
  cases a with
  | appendRecords recs =>
    obtain ⟨⟨cl₁, res⟩, happ, rfl⟩ := map_eq_some_iff.mp hexec
    obtain ⟨part', tiers, hpart, hupd⟩ := appendTo_eq_some happ
    rw [partitionFor_of_some h] at hpart
    obtain ⟨hfit', hiff⟩ := Partition.watermarksOrdered_append_iff hpart hfit hord
    refine ⟨part', ?_, hfit', ?_⟩
    · rw [hupd.partitions, if_pos rfl]
    · rw [hiff, KeepsOrder, h]
      simp
  | completeTxn pid =>
    cases hexec
    refine ⟨_, getPartition_modifyPartition h _, ⟨hfit.start, hfit.next⟩, ?_⟩
    exact iff_of_true (hord.decide rfl rfl) trivial
  | recordAbortedTxn pid firstOffset =>
    cases hexec
    refine ⟨_, getPartition_modifyPartition h _, ⟨hfit.start, hfit.next⟩, ?_⟩
    exact iff_of_true (hord.decide rfl rfl) trivial
  | deleteRecords before =>
    cases hexec
    obtain ⟨hfit', hiff⟩ :=
      Partition.watermarksOrdered_truncated_iff hfit hord before
    refine ⟨_, getPartition_deleteRecords h before, hfit', ?_⟩
    rw [hiff, KeepsOrder, h]
    simp

theorem watermarks_ordered_iff [WalEngine W] {cluster : ClusterState W} {tp : TopicPartition}
    (hnew : cluster.getPartition tp = none) {actions : List WatermarkAction} {t : ClusterState W}
    (hrun : run (execOn tp) (cluster.getOrCreatePartition tp).1 actions = some t) :
    (∀ front, front <+: actions → ∀ u,
        run (execOn tp) (cluster.getOrCreatePartition tp).1 front = some u → OrderedAt tp u) ↔
      Along (execOn tp) (KeepsOrder tp) (cluster.getOrCreatePartition tp).1 actions := by
  have hstart : (cluster.getOrCreatePartition tp).1.getPartition tp =
      some (cluster.newPartition tp) := by
    rw [getPartition_getOrCreatePartition, if_pos rfl, partitionFor, hnew, Option.getD_none]
  have hfit : (cluster.newPartition tp).OffsetsFit := ⟨le_rfl, (by decide : FitsSigned 64 0)⟩
  have hord : (cluster.newPartition tp).WatermarksOrdered := ⟨le_rfl, le_rfl⟩
  have hstep : ∀ (s : ClusterState W) a s',
      (∃ partition, s.getPartition tp = some partition ∧ partition.OffsetsFit) ∧ OrderedAt tp s →
      execOn tp s a = some s' →
        (∃ partition, s'.getPartition tp = some partition ∧ partition.OffsetsFit) ∧
          (OrderedAt tp s' ↔ KeepsOrder tp s a) := by
    rintro s a s' ⟨⟨partition, hpartition, hfits⟩, hs⟩ hexec
    obtain ⟨part', hpart', hfits', hiff⟩ :=
      orderedAt_execOn_iff hpartition hfits ((orderedAt_of_some hpartition).mp hs) hexec
    exact ⟨⟨part', hpart', hfits'⟩, (orderedAt_of_some hpart').trans hiff⟩
  have horderedAt := (orderedAt_of_some hstart).mpr hord
  exact reached_iff_along (fun s a s' hs hexec hs' => ⟨(hstep s a s' hs hexec).1, hs'⟩)
    (fun s a s' hs _ hexec => (hstep s a s' hs hexec).2)
    ⟨⟨_, hstart, hfit⟩, horderedAt⟩ horderedAt hrun

def emptyCluster : ClusterState MemoryWal :=
  new ⟨MemoryWal.new, ∅, LogCache.new 4096, BlockCache.new 4096⟩

theorem deletion_passes_stable_offset :
    ∃ (actions : List WatermarkAction) (t : ClusterState MemoryWal),
      run (execOn ⟨"orders", 0⟩) (emptyCluster.getOrCreatePartition ⟨"orders", 0⟩).1 actions =
        some t ∧ ¬OrderedAt ⟨"orders", 0⟩ t := by
  have hend : ((run (execOn ⟨"orders", 0⟩) (emptyCluster.getOrCreatePartition ⟨"orders", 0⟩).1
      [.appendRecords (transactionalBatch 7), .deleteRecords (-1)]).bind fun t =>
        (t.getPartition ⟨"orders", 0⟩).map fun partition =>
          (partition.logStartOffset, partition.lastStableOffset)) = some (1, 0) := by
    decide +kernel
  obtain ⟨t, hrun, ht⟩ := Option.bind_eq_some_iff.mp hend
  obtain ⟨partition, hpart, hoffs⟩ := Option.map_eq_some_iff.mp ht
  obtain ⟨hstart, hstable⟩ := Prod.mk.inj hoffs
  refine ⟨_, t, hrun, fun hord => ?_⟩
  have hle := ((orderedAt_of_some hpart).mp hord).1
  rw [hstart, hstable] at hle
  exact absurd hle (by decide)

theorem watermarks_ordered_iff_decided :
    ∃ t, run (execOn ⟨"orders", 0⟩) (emptyCluster.getOrCreatePartition ⟨"orders", 0⟩).1
      [.appendRecords (transactionalBatch 7), .deleteRecords 0, .completeTxn 7,
        .deleteRecords (-1)] = some t ∧ OrderedAt ⟨"orders", 0⟩ t := by
  have hend : (run (execOn ⟨"orders", 0⟩) (emptyCluster.getOrCreatePartition ⟨"orders", 0⟩).1
      [.appendRecords (transactionalBatch 7), .deleteRecords 0, .completeTxn 7,
        .deleteRecords (-1)]).isSome = true := by
    decide +kernel
  obtain ⟨t, hrun⟩ := Option.isSome_iff_exists.mp hend
  have hnew : emptyCluster.getPartition ⟨"orders", 0⟩ = none := rfl
  exact ⟨t, hrun,
    (watermarks_ordered_iff hnew hrun).mpr (by decide +kernel) _ List.prefix_rfl t hrun⟩

end ClusterState

end OxideMq.Broker
