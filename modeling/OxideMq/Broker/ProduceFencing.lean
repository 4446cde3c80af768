import OxideMq.Broker.Fencing

/-! The data path. -/

namespace OxideMq.Broker

open Lib OxideMq.Core OxideMq.Protocol OxideMq.Wal OxideMq.Stream Option ClusterState

structure ProduceGates where
  authorize : String → Bool
  decompressedRecords : Bytes → Except OxideMqError Bytes
  enableSchemaValidation : Bool
  validateRecordPayloads : Bytes → Bool

structure PartitionProduceResponse where
  partition : ℤ
  errorCode : KafkaErrorCode
  baseOffset : ℤ
  logStartOffset : ℤ

namespace ProduceGates

def refusal (gates : ProduceGates) (fault : Bool) (records : Bytes) : Option KafkaErrorCode :=
  if fault then some .unknownServer
  else
    match gates.decompressedRecords records with
    | .error _ => some .corruptMessage
    | .ok decompressed =>
        if gates.enableSchemaValidation && !gates.validateRecordPayloads decompressed then
          some .invalidRecord
        else none

def turnsAway (gates : ProduceGates) (fault : Bool) (topic : String) (records : Bytes) : Bool :=
  !gates.authorize topic || (gates.refusal fault records).isSome

end ProduceGates

def CarriesBatch (records batch : Bytes) : Prop :=
  WellFormed batch ∧ ∃ (before : List Bytes) (after : Bytes),
    (∀ b ∈ before, WellFormed b) ∧ records = before.flatten ++ batch ++ after

inductive BrokerRequest (W : Type) where
  | call (c : CoordinatorCall)
  | produce (tp : TopicPartition) (records : Bytes) (fault : Bool)
  | other (coordinator : TransactionCoordinator) (cluster : ClusterState W)

namespace Granting

variable {W : Type}

def produce [WalEngine W] (gates : ProduceGates) (cluster : ClusterState W) (tp : TopicPartition)
    (records : Bytes) (fault : Bool) : Option (ClusterState W × PartitionProduceResponse) :=
  if !gates.authorize tp.topic then
    some (cluster, ⟨tp.partition, .topicAuthorizationFailed, -1, 0⟩)
  else
    match gates.refusal fault records with
    | some e => some ((cluster.getOrCreatePartition tp).1, ⟨tp.partition, e, -1, 0⟩)
    | none =>
        (cluster.appendTo tp records).map fun (cluster', result) =>
          match result with
          | .ok baseOffset =>
              (cluster',
                ⟨tp.partition, .none, baseOffset, (cluster'.partitionFor tp).logStartOffset⟩)
          | .error _ => (cluster', ⟨tp.partition, .unknownServer, -1, 0⟩)

def handle [WalEngine W] (gates : ProduceGates) (s : Granting W) :
    BrokerRequest W → Option (Granting W)
  | .call c => s.exec c
  | .produce tp records fault =>
      (produce gates s.cluster tp records fault).map fun (cluster, _) =>
        { s with cluster := cluster }
  | .other coordinator cluster => some { s with coordinator := coordinator, cluster := cluster }

def Stale (s : Granting W) (records : Bytes) : Prop :=
  ∃ g ∈ s.grants, g.transactionalId ≠ none ∧ ∃ batch, CarriesBatch records batch ∧
    producerIdOf batch = g.producerId ∧ producerEpochOf batch < g.producerEpoch

end Granting

structure ClusterState.Untouched {W : Type} (cluster cluster' : ClusterState W) : Prop where
  tiers : cluster'.tiers = cluster.tiers
  partitions : ∀ tp partition, cluster.getPartition tp = some partition →
    cluster'.getPartition tp = some partition
  created : ∀ tp partition', cluster.getPartition tp = none →
    cluster'.getPartition tp = some partition' →
      partition'.highWatermark = 0 ∧ partition'.ongoingTxns = ∅

namespace Granting

variable {W : Type}

def Fenced [WalEngine W] (gates : ProduceGates) (s : Granting W) : BrokerRequest W → Prop
  | .produce tp records fault => s.Stale records →
      ∃ s', s.handle gates (.produce tp records fault) = some s' ∧
        s.cluster.Untouched s'.cluster
  | _ => True

def Refused (gates : ProduceGates) (s : Granting W) : BrokerRequest W → Prop
  | .produce tp records fault => s.Stale records → gates.turnsAway fault tp.topic records = true
  | _ => True

theorem untouched_refl (cluster : ClusterState W) : cluster.Untouched cluster :=
  ⟨rfl, fun _ _ h => h, fun _ _ hnone hsome => absurd (hnone.symm.trans hsome) (by simp)⟩

theorem untouched_getOrCreatePartition (cl : ClusterState W) (tp : TopicPartition) :
    cl.Untouched (cl.getOrCreatePartition tp).1 := by
  have hcr := cl.created_getOrCreatePartition tp
  have hget : (cl.getOrCreatePartition tp).1.getPartition tp = some (cl.partitionFor tp) :=
    getPartition_eq_some.mpr ⟨_, hcr.pointer, hcr.object⟩
  refine ⟨hcr.tiers, fun tp' part hold => ?_, fun tp' partition' hnone hnew => ?_⟩
  · by_cases hname : tp' = tp
    · subst hname
      rw [hget, partitionFor_of_some hold]
    · rw [hcr.others tp' hname, hold]
  · by_cases hname : tp' = tp
    · subst hname
      rw [hget, partitionFor, hnone, getD_none] at hnew
      cases hnew
      exact ⟨rfl, rfl⟩
    · rw [hcr.others tp' hname, hnone] at hnew
      simp at hnew

theorem produce_turnedAway [WalEngine W] {gates : ProduceGates} (cluster : ClusterState W)
    {tp : TopicPartition} {records : Bytes} {fault : Bool}
    (h : gates.turnsAway fault tp.topic records = true) :
    ∃ cluster' response, produce gates cluster tp records fault = some (cluster', response) ∧
      cluster.Untouched cluster' := by
  rw [produce]
  split
  · exact ⟨_, _, rfl, untouched_refl cluster⟩
  · rename_i hauthorized
    cases href : gates.refusal fault records with
    | some e => exact ⟨_, _, rfl, untouched_getOrCreatePartition cluster tp⟩
    | none =>
      rw [ProduceGates.turnsAway, href] at h
      simp_all

theorem appendTo_not_untouched [WalEngine W] {cluster cluster' : ClusterState W}
    {tp : TopicPartition} {records : Bytes} {result : Except OxideMqError ℤ}
    (h : cluster.appendTo tp records = some (cluster', result)) :
    ¬cluster.Untouched cluster' := by
  intro hsame
  obtain ⟨partition, tiers, happ, hupd⟩ := appendTo_eq_some h
  obtain ⟨patched, count, hpat, rfl, -⟩ := Partition.appendRecords_eq_some happ
  have hcnt := one_le_patchRecordBatches hpat
  have hmoved := wrapSigned_add_ne (w := 64) (by omega)
    ((patchRecordBatches_lt hpat).trans (by norm_num))
    (cluster.partitionFor tp).stream.nextOffset
  have hnew := hupd.partitions tp
  rw [if_pos rfl] at hnew
  cases hold : cluster.getPartition tp with
  | some partition =>
    rw [hsame.partitions tp partition hold] at hnew
    rw [partitionFor_of_some hold] at hnew hmoved
    exact hmoved (congrArg (fun p => p.stream.nextOffset) (some.inj hnew)).symm
  | none =>
    have hemp := (hsame.created tp _ hold hnew).1
    have hzero : (cluster.partitionFor tp).stream.nextOffset = 0 := by
      rw [partitionFor, hold]
      rfl
    rw [hzero] at hmoved
    rw [Partition.highWatermark, hzero] at hemp
    exact hmoved hemp

theorem untouched_iff_turnsAway [WalEngine W] (gates : ProduceGates) (s : Granting W)
    (tp : TopicPartition) (records : Bytes) (fault : Bool) :
    (∃ s', s.handle gates (.produce tp records fault) = some s' ∧ s.cluster.Untouched s'.cluster) ↔
      gates.turnsAway fault tp.topic records = true := by
  constructor
  · rintro ⟨s', hhandle, hsame⟩
    obtain ⟨⟨cluster, response⟩, hprod, rfl⟩ := map_eq_some_iff.mp hhandle
    rw [produce] at hprod
    split at hprod
    · rename_i hauthorized
      rw [ProduceGates.turnsAway, hauthorized, Bool.true_or]
    · cases href : gates.refusal fault records with
      | some e => rw [ProduceGates.turnsAway, href, isSome_some, Bool.or_true]
      | none =>
        rw [href] at hprod
        obtain ⟨⟨cluster₁, result⟩, happ, heq⟩ := map_eq_some_iff.mp hprod
        have hcl : cluster₁ = cluster := by
          cases result with
          | ok baseOffset => exact congrArg Prod.fst heq
          | error e => exact congrArg Prod.fst heq
        rw [hcl] at happ
        exact absurd hsame (appendTo_not_untouched happ)
  · intro h
    obtain ⟨cluster, response, hprod, hsame⟩ := produce_turnedAway s.cluster h
    refine ⟨{ s with cluster := cluster }, ?_, hsame⟩
    rw [handle, hprod]
    rfl

theorem fenced_iff_refused [WalEngine W] (gates : ProduceGates) (s : Granting W)
    (request : BrokerRequest W) : s.Fenced gates request ↔ s.Refused gates request := by
  cases request with
  | call c => exact Iff.rfl
  | produce tp records fault => exact imp_congr_right fun _ => untouched_iff_turnsAway _ _ _ _ _
  | other coordinator cluster => exact Iff.rfl

theorem stale_batches_fenced_iff [WalEngine W] (gates : ProduceGates) (tiers : Tiers W)
    (requests : List (BrokerRequest W)) :
    Along (handle gates) (Fenced gates) (fresh tiers) requests ↔
      Along (handle gates) (Refused gates) (fresh tiers) requests :=
  ⟨Along.imp fun s req => (fenced_iff_refused gates s req).mp,
    Along.imp fun s req => (fenced_iff_refused gates s req).mpr⟩

def openGates : ProduceGates := ⟨fun _ => true, .ok, false, fun _ => true⟩

def staleBatch : Bytes := assembleBatch 0 (batchTail 0x10 0 0 0 1000 0 0 1 [])

def zombie : List (BrokerRequest MemoryWal) :=
  [.call (.initProducerId (some "tx") 60000), .call (.initProducerId (some "tx") 60000),
    .produce ⟨"orders", 0⟩ staleBatch false]

theorem zombie_writes :
    ¬Along (handle openGates) (Fenced openGates) (fresh PartitionLog.emptyTiers) zombie := by
  intro halong
  have hfenced := ((halong.2 _ rfl).2 _ rfl).1
  have href := (fenced_iff_refused openGates _ _).mp hfenced
  have hturned := href ⟨⟨some "tx", 1000, 1⟩, by decide +kernel, by simp, staleBatch,
    ⟨by decide +kernel, [], [], by simp, by simp⟩, by decide +kernel, by decide +kernel⟩
  exact absurd hturned (by decide +kernel)

end Granting

end OxideMq.Broker
