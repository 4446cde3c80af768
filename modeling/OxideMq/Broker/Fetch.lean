import OxideMq.Broker.ClusterState
import OxideMq.Protocol.Responses

/-! The part of a fetch request that concerns one partition. -/

namespace OxideMq.Broker

open Lib OxideMq.Core OxideMq.Protocol OxideMq.Wal OxideMq.Stream

namespace Partition

def exposes (partition : Partition) (isolationLevel : ℤ) (e : ℤ × Bytes) : Bool :=
  if hasHeader e.2 then
    if isControl e.2 then false
    else if isolationLevel = 1 then
      if e.1 ≥ partition.lastStableOffset then false
      else !(isTransactional e.2 &&
        partition.abortedTransactions.any fun (apid, _) => apid == producerIdRead e.2)
    else true
  else true

def fetchResponse (partition : Partition) (partitionIndex isolationLevel : ℤ) :
    Except OxideMqError (List (ℤ × Bytes)) → FetchPartitionResponse
  | .ok batches =>
      ⟨partitionIndex, .none, partition.highWatermark, partition.lastStableOffset,
        ((batches.filter (partition.exposes isolationLevel)).map Prod.snd).flatten⟩
  | .error _ =>
      ⟨partitionIndex, .unknownServer, partition.highWatermark, partition.lastStableOffset, []⟩

theorem lastStableOffset_le {part : Partition} {pid first : ℤ}
    (h : part.ongoingTxns.lookup pid = some first) :
    part.lastStableOffset ≤ first := by
  have hval : first ∈ part.ongoingTxns.values := HashMap.mem_values.mpr ⟨pid, h⟩
  unfold lastStableOffset
  split
  · rename_i least hleast
    exact (min_le_left _ _).trans ((List.min?_eq_some_iff.mp hleast).2 first hval)
  · rename_i hnone
    rw [List.min?_eq_none_iff] at hnone
    rw [hnone] at hval
    simp at hval

end Partition

namespace ClusterState

variable {W : Type}

def fetchPartition (cluster : ClusterState W) (tp : TopicPartition) (fetchOffset : ℤ)
    (maxBytes : ℕ) (isolationLevel : ℤ) : Option (ClusterState W × FetchPartitionResponse) :=
  let (cluster', ref) := cluster.getOrCreatePartition tp
  (cluster'.heap[ref]?).map fun partition =>
    let (tiers, result) := partition.readRecords cluster'.tiers fetchOffset maxBytes
    (cluster'.setObject ref partition tiers,
      partition.fetchResponse tp.partition isolationLevel result)

theorem fetchPartition_eq_some (cl : ClusterState W) (tp : TopicPartition) (off : ℤ)
    (limit : ℕ) (iso : ℤ) :
    ∃ cl', cl.fetchPartition tp off limit iso =
      some (cl', (cl.partitionFor tp).fetchResponse tp.partition iso
        ((cl.partitionFor tp).readRecords cl.tiers off limit).2) := by
  have hcr := cl.created_getOrCreatePartition tp
  refine ⟨(cl.getOrCreatePartition tp).1.setObject (cl.getOrCreatePartition tp).2
    (cl.partitionFor tp)
    ((cl.partitionFor tp).readRecords cl.tiers off limit).1, ?_⟩
  rw [fetchPartition]
  dsimp only
  rw [hcr.object, hcr.tiers]
  rfl

end ClusterState

end OxideMq.Broker
