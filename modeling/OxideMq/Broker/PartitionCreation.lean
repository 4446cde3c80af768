import OxideMq.Broker.ClusterState
import OxideMq.Lib.Run

/-! Concurrent lookups that create partitions. -/

namespace OxideMq.Broker

open Lib OxideMq.Protocol OxideMq.Stream ClusterState List Option

/-- Where a call of `get_or_create_partition` is. -/
inductive LookupPhase where
  | called
  | missed
  | returned (ref : ℕ)
  deriving DecidableEq, Repr

structure PartitionCalls (W : Type) where
  cluster : ClusterState W
  calls : List (TopicPartition × LookupPhase)

inductive LookupAction where
  | call (tp : TopicPartition)
  | step (caller : ℕ)

namespace PartitionCalls

variable {W : Type} {s s' : PartitionCalls W}

def start (tiers : Tiers W) : PartitionCalls W := ⟨ClusterState.new tiers, []⟩

def setPhase (s : PartitionCalls W) (caller : ℕ) (tp : TopicPartition) (phase : LookupPhase) :
    PartitionCalls W :=
  { s with calls := s.calls.set caller (tp, phase) }

def stepFrom (s : PartitionCalls W) (caller : ℕ) (tp : TopicPartition) :
    LookupPhase → Option (PartitionCalls W)
  | .called =>
      match s.cluster.partitions.lookup tp with
      | some ref => some (s.setPhase caller tp (.returned ref))
      | none => some (s.setPhase caller tp .missed)
  | .missed =>
      let (cluster, ref) := s.cluster.getOrCreatePartition tp
      some ({ s with cluster := cluster }.setPhase caller tp (.returned ref))
  | .returned _ => none

def exec (s : PartitionCalls W) : LookupAction → Option (PartitionCalls W)
  | .call tp => some { s with calls := s.calls ++ [(tp, .called)] }
  | .step caller =>
      match s.calls[caller]? with
      | none => none
      | some (tp, phase) => s.stepFrom caller tp phase

structure Single (s : PartitionCalls W) : Prop where
  returned : ∀ tp ref, (tp, .returned ref) ∈ s.calls → s.cluster.partitions.lookup tp = some ref
  streams : ∀ tp tp' part part', s.cluster.getPartition tp = some part →
    s.cluster.getPartition tp' = some part' →
      part.stream.streamId = part'.stream.streamId → tp = tp'
  issued : ∀ tp part, s.cluster.getPartition tp = some part →
    part.stream.streamId < s.cluster.nextStreamId

theorem single_start (tiers : Tiers W) : Single (start tiers) := by
  have hnone (tp : TopicPartition) : (start tiers).cluster.getPartition tp = none := rfl
  exact ⟨by simp [start], by simp [hnone], by simp [hnone]⟩

theorem Single.setPhase (h : Single s) {caller : ℕ} {tp : TopicPartition} {phase : LookupPhase}
    (hphase : ∀ ref, phase = .returned ref → s.cluster.partitions.lookup tp = some ref) :
    Single (s.setPhase caller tp phase) := by
  refine ⟨fun tp' ref hmem => ?_, h.streams, h.issued⟩
  rcases mem_or_eq_of_mem_set hmem with hold | heq
  · exact h.returned tp' ref hold
  · obtain ⟨rfl, hret⟩ := Prod.mk.inj heq
    exact hphase ref hret.symm

theorem Single.getOrCreatePartition (h : Single s) (tp : TopicPartition) :
    Single { s with cluster := (s.cluster.getOrCreatePartition tp).1 } := by
  cases hl : s.cluster.partitions.lookup tp with
  | some ref => simpa only [ClusterState.getOrCreatePartition, hl] using h
  | none =>
    have hget : s.cluster.getPartition tp = none := by rw [getPartition, hl, bind_none]
    have hnext : (s.cluster.getOrCreatePartition tp).1.nextStreamId =
        s.cluster.nextStreamId + 1 := by
      rw [(created_getOrCreatePartition s.cluster tp).streamId, hget]
      rfl
    -- a partition is the new one, or one that was there
    have hpart {tp' : TopicPartition} {part : Partition}
        (h' : (s.cluster.getOrCreatePartition tp).1.getPartition tp' = some part) :
        tp' = tp ∧ part.stream.streamId = s.cluster.nextStreamId ∨
          s.cluster.getPartition tp' = some part := by
      rw [getPartition_getOrCreatePartition, partitionFor, hget, getD_none] at h'
      split_ifs at h' with hname
      · exact Or.inl ⟨hname, some.inj h' ▸ rfl⟩
      · exact Or.inr h'
    refine ⟨fun tp' ref hmem => ?_, fun tp₁ tp₂ part₁ part₂ h₁ h₂ hid => ?_, fun tp' part h' => ?_⟩
    · have hold := h.returned tp' ref hmem
      have hne : tp' ≠ tp := by
        rintro rfl
        exact absurd (hl.symm.trans hold) (by simp)
      simp only [ClusterState.getOrCreatePartition, hl]
      rw [HashMap.lookup_insert_ite, if_neg hne]
      exact hold
    · rcases hpart h₁ with ⟨rfl, hnew₁⟩ | hold₁
      · rcases hpart h₂ with ⟨rfl, -⟩ | hold₂
        · rfl
        · exact absurd (h.issued _ _ hold₂) (by omega)
      · rcases hpart h₂ with ⟨rfl, hnew₂⟩ | hold₂
        · exact absurd (h.issued _ _ hold₁) (by omega)
        · exact h.streams _ _ _ _ hold₁ hold₂ hid
    · change part.stream.streamId < (s.cluster.getOrCreatePartition tp).1.nextStreamId
      rw [hnext]
      rcases hpart h' with ⟨-, hnew⟩ | hold
      · omega
      · exact (h.issued _ _ hold).trans (Nat.lt_succ_self _)

theorem single_exec {act : LookupAction} (h : Single s) (hexec : s.exec act = some s') :
    Single s' := by
  cases act with
  | call tp =>
    cases hexec
    exact ⟨fun tp' ref hmem => h.returned tp' ref (by simpa using hmem), h.streams, h.issued⟩
  | step caller =>
    rw [exec] at hexec
    split at hexec
    · cases hexec
    · rename_i tp phase hcall
      cases phase with
      | called =>
        rw [stepFrom] at hexec
        split at hexec
        · rename_i ref hptr
          cases hexec
          refine h.setPhase ?_
          rintro ref' ⟨⟩
          exact hptr
        · cases hexec
          exact h.setPhase (by rintro ref' ⟨⟩)
      | missed =>
        cases hexec
        refine (h.getOrCreatePartition tp).setPhase ?_
        rintro ref ⟨⟩
        exact (created_getOrCreatePartition s.cluster tp).pointer
      | returned ref => cases hexec

theorem partition_created_once (tiers : Tiers W) (actions : List LookupAction)
    {s : PartitionCalls W} (hrun : run exec (start tiers) actions = some s) :
    (∀ tp ref, (tp, .returned ref) ∈ s.calls → ∃ part, s.cluster.heap[ref]? = some part) ∧
      (∀ tp ref ref', (tp, .returned ref) ∈ s.calls → (tp, .returned ref') ∈ s.calls →
        ref = ref') ∧
      ∀ tp tp' ref ref' part part', (tp, .returned ref) ∈ s.calls →
        (tp', .returned ref') ∈ s.calls → tp ≠ tp' → s.cluster.heap[ref]? = some part →
          s.cluster.heap[ref']? = some part' →
            part.stream.streamId ≠ part'.stream.streamId := by
  have h : Single s := run_invariant (fun _ _ _ h _ hexec => single_exec h hexec)
    (single_start tiers) (along_of_forall fun _ _ => trivial) hrun
  refine ⟨fun tp ref hmem => ?_, fun tp ref ref' hmem hmem' => ?_, ?_⟩
  · obtain ⟨part, hobj, -⟩ := getPartition_of_lookup (h.returned tp ref hmem)
    exact ⟨part, hobj⟩
  · exact some.inj ((h.returned tp ref hmem).symm.trans (h.returned tp ref' hmem'))
  · intro tp tp' ref ref' part part' hmem hmem' hne hobj hobj' hid
    exact hne (h.streams tp tp' part part'
      (getPartition_eq_some.mpr ⟨ref, h.returned tp ref hmem, hobj⟩)
      (getPartition_eq_some.mpr ⟨ref', h.returned tp' ref' hmem', hobj'⟩) hid)

def twoMisses : List LookupAction :=
  [.call ⟨"orders", 0⟩, .call ⟨"orders", 0⟩, .step 0, .step 1, .step 1, .step 0]

theorem partition_created_once_of_twoMisses : ∃ s : PartitionCalls Unit,
    run exec (start ⟨(), ∅, LogCache.new 64, BlockCache.new 64⟩) twoMisses = some s ∧
      s.calls = [(⟨"orders", 0⟩, .returned 0), (⟨"orders", 0⟩, .returned 0)] ∧
      ∀ tp ref ref', (tp, .returned ref) ∈ s.calls → (tp, .returned ref') ∈ s.calls →
        ref = ref' := by
  refine ⟨_, rfl, rfl, ?_⟩
  exact (partition_created_once ⟨(), ∅, LogCache.new 64, BlockCache.new 64⟩ twoMisses rfl).2.1

end PartitionCalls

end OxideMq.Broker
