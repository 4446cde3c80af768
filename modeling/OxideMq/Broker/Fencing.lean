import OxideMq.Broker.OpenTransactions

/-! What the coordinator hands out. -/

namespace OxideMq.Broker

open Lib OxideMq.Core OxideMq.Protocol OxideMq.Wal OxideMq.Stream TransactionCoordinator List

inductive CoordinatorCall where
  | initProducerId (transactionalId : Option String) (transactionTimeoutMs : ℤ)
  | addPartitionsToTxn (transactionalId : String) (producerId producerEpoch : ℤ)
      (partitions : List TopicPartition)
  | addOffsetsToTxn (transactionalId : String) (producerId producerEpoch : ℤ) (groupId : String)
  | endTxn (transactionalId : String) (producerId producerEpoch : ℤ) (committed : Bool)
      (clock : TopicPartition → ℤ) (order : List TopicPartition)

structure Grant where
  transactionalId : Option String
  producerId : ℤ
  producerEpoch : ℤ
  deriving DecidableEq, Repr

def Grant.Apart (g h : Grant) : Prop :=
  g.transactionalId = none ∨ g.transactionalId ≠ h.transactionalId → g.producerId ≠ h.producerId

instance : Std.Symm Grant.Apart where
  symm g h happart hcond heq := by
    refine happart ?_ heq.symm
    rcases hcond with hnone | hne
    · cases hname : g.transactionalId with
      | none => exact Or.inl rfl
      | some name =>
          right
          rw [hnone]
          exact Option.some_ne_none name
    · exact Or.inr hne.symm

namespace CoordinatorCall

end CoordinatorCall

namespace TransactionCoordinator

def stored (coordinator : TransactionCoordinator) (transactionalId : String) : Option (ℤ × ℤ) :=
  (coordinator.transactions.lookup transactionalId).map fun m => (m.producerId, m.producerEpoch)

variable {coordinator : TransactionCoordinator} {transactionalId : String}

theorem stored_modify (f : TransactionMetadata → TransactionMetadata)
    (hid : ∀ m, (f m).producerId = m.producerId) (hep : ∀ m, (f m).producerEpoch = m.producerEpoch)
    (next : ℤ) (txId : String) :
    (⟨coordinator.transactions.modify transactionalId f, next⟩ : TransactionCoordinator).stored
      txId = coordinator.stored txId := by
  rw [stored, stored, HashMap.lookup_modify]
  split
  · rename_i heq
    rw [Option.map_map, heq]
    exact congrArg (Option.map · _) (funext fun m => Prod.ext (hid m) (hep m))
  · rfl

theorem stored_drained (state : TransactionState) (txId : String) :
    (coordinator.drained transactionalId state).stored txId = coordinator.stored txId :=
  stored_modify (fun m => { m with state := state, partitions := ∅ }) (fun _ => rfl) (fun _ => rfl)
    _ txId

theorem stored_addPartitionsToTxn (pid epoch : ℤ) (parts : List TopicPartition) (txId : String) :
    (coordinator.addPartitionsToTxn transactionalId pid epoch parts).1.stored
      txId = coordinator.stored txId := by
  unfold addPartitionsToTxn
  split
  · rfl
  · exact stored_modify (fun m => { m with
      state := .ongoing, partitions := m.partitions ∪ parts.toFinset }) (fun _ => rfl)
      (fun _ => rfl) _ txId

theorem nextProducerId_addPartitionsToTxn (pid epoch : ℤ) (parts : List TopicPartition) :
    (coordinator.addPartitionsToTxn transactionalId pid epoch
      parts).1.nextProducerId = coordinator.nextProducerId := by
  unfold addPartitionsToTxn
  split
  · rfl
  · rfl

theorem initProducerId_new (hnew : coordinator.stored transactionalId = none) (timeout : ℤ) :
    ∃ coord', coordinator.initProducerId (some transactionalId) timeout =
        (coord', coordinator.nextProducerId, 0) ∧
      coord'.nextProducerId = coordinator.nextProducerId + 1 ∧
      ∀ txId, coord'.stored txId =
        if txId = transactionalId then some (coordinator.nextProducerId, 0)
        else coordinator.stored txId := by
  have hl : coordinator.transactions.lookup transactionalId = none :=
    Option.map_eq_none_iff.mp hnew
  refine ⟨_, by rw [initProducerId, hl], rfl, fun txId => ?_⟩
  rw [stored, HashMap.lookup_insert_ite]
  split
  · rfl
  · rfl

theorem initProducerId_known {pid epoch : ℤ}
    (hknown : coordinator.stored transactionalId = some (pid, epoch))
    (timeout : ℤ) :
    ∃ coord', coordinator.initProducerId (some transactionalId) timeout =
        (coord', pid, wrapSigned 16 (epoch + 1)) ∧
      coord'.nextProducerId = coordinator.nextProducerId ∧
      ∀ txId, coord'.stored txId =
        if txId = transactionalId then some (pid, wrapSigned 16 (epoch + 1))
        else coordinator.stored txId := by
  obtain ⟨metadata, hl, heq⟩ := Option.map_eq_some_iff.mp hknown
  cases heq
  have hinit : coordinator.initProducerId (some transactionalId) timeout =
      ({ coordinator with
          transactions := coordinator.transactions.modify transactionalId fun m =>
            { m with
              producerEpoch := wrapSigned 16 (metadata.producerEpoch + 1)
              partitions := ∅
              state := .empty } },
        metadata.producerId, wrapSigned 16 (metadata.producerEpoch + 1)) := by
    rw [initProducerId]
    rw [hl]
  refine ⟨_, hinit, rfl, fun txId => ?_⟩
  rw [stored, HashMap.lookup_modify, hl]
  split
  · rfl
  · rfl

theorem checkProducer_of_stored_ne {pid epoch : ℤ}
    (h : coordinator.stored transactionalId ≠ some (pid, epoch)) :
    ∃ e, coordinator.checkProducer transactionalId pid epoch = .error e ∧
      (e = .producerFenced ↔ ∃ current, coordinator.stored transactionalId = some (pid, current) ∧
          epoch < current) := by
  cases hl : coordinator.transactions.lookup transactionalId with
  | none => exact ⟨.invalidProducerIdMapping, by rw [checkProducer, hl], by simp [stored, hl]⟩
  | some metadata =>
    have hstored : coordinator.stored transactionalId =
        some (metadata.producerId, metadata.producerEpoch) := by rw [stored, hl]; rfl
    rw [hstored] at h ⊢
    rw [checkProducer, hl]
    dsimp only
    split_ifs with hid hold hnew
    · exact ⟨_, rfl, by simp [hid]⟩
    · exact ⟨_, rfl, by simp [not_not.mp hid, hold]⟩
    · exact ⟨_, rfl, by simp [hold]⟩
    · exact absurd (by rw [not_not.mp hid, le_antisymm (not_lt.mp hold) (not_lt.mp hnew)]) h

end TransactionCoordinator

structure Granting (W : Type) where
  coordinator : TransactionCoordinator
  cluster : ClusterState W
  grants : List Grant

namespace Granting

variable {W : Type}
variable {s s' : Granting W} {transactionalId : String} {producerEpoch producerId : ℤ}
  {coordinator : TransactionCoordinator}

def fresh (tiers : Tiers W) : Granting W :=
  ⟨TransactionCoordinator.new, ClusterState.new tiers, []⟩

def grantsTo (s : Granting W) (transactionalId : String) : List Grant :=
  s.grants.filter fun g => g.transactionalId = some transactionalId

def call [WalEngine W] (s : Granting W) :
    CoordinatorCall → Option (Granting W × Except KafkaErrorCode Unit)
  | .initProducerId transactionalId transactionTimeoutMs =>
      let (coordinator, producerId, producerEpoch) :=
        s.coordinator.initProducerId transactionalId transactionTimeoutMs
      some (⟨coordinator, s.cluster, s.grants ++ [⟨transactionalId, producerId, producerEpoch⟩]⟩,
        .ok ())
  | .addPartitionsToTxn transactionalId producerId producerEpoch partitions =>
      let (coordinator, result) :=
        s.coordinator.addPartitionsToTxn transactionalId producerId producerEpoch partitions
      some ({ s with coordinator := coordinator }, result)
  | .addOffsetsToTxn transactionalId producerId producerEpoch _ =>
      some (s, s.coordinator.addOffsetsToTxn transactionalId producerId producerEpoch)
  | .endTxn transactionalId producerId producerEpoch committed clock order =>
      if s.coordinator.DrainOrder transactionalId order then
        (s.coordinator.endTxn s.cluster transactionalId producerId producerEpoch committed clock
          order).map fun (coordinator, cluster, _, result) =>
            (⟨coordinator, cluster, s.grants⟩, result)
      else none

def exec [WalEngine W] (s : Granting W) (c : CoordinatorCall) : Option (Granting W) :=
  (s.call c).map Prod.fst

/-- The grants that `n + 1` calls yield; the epoch wraps around. -/
def history (transactionalId : String) (producerId : ℤ) (n : ℕ) : List Grant :=
  (List.range (n + 1)).map fun k : ℕ => ⟨some transactionalId, producerId, wrapSigned 16 k⟩

def Counted (s : Granting W) (transactionalId : String) : Prop :=
  (s.coordinator.stored transactionalId = none ∧ s.grantsTo transactionalId = []) ∨
    ∃ producerId, ∃ n : ℕ,
      s.coordinator.stored transactionalId = some (producerId, wrapSigned 16 n) ∧
      s.grantsTo transactionalId = history transactionalId producerId n

structure Inv (s : Granting W) : Prop where
  below : ∀ g ∈ s.grants, g.producerId < s.coordinator.nextProducerId
  apart : s.grants.Pairwise Grant.Apart
  counted : ∀ transactionalId, s.Counted transactionalId

theorem history_succ (txId : String) (pid : ℤ) (n : ℕ) : history txId pid (n + 1) =
      history txId pid n ++ [⟨some txId, pid, wrapSigned 16 (n + 1 : ℕ)⟩] := by
  rw [history, range_succ, map_append]
  rfl

theorem wrapSigned_succ (n : ℕ) :
    wrapSigned 16 (wrapSigned 16 n + 1) = wrapSigned 16 (n + 1 : ℕ) := by
  rw [wrapSigned, wrapSigned, wrapSigned, Int.bmod_add_bmod, Nat.cast_add, Nat.cast_one]

theorem inv_fresh (tiers : Tiers W) : Inv (fresh tiers) := by
  refine ⟨by simp [fresh], List.Pairwise.nil, fun transactionalId => Or.inl ⟨?_, rfl⟩⟩
  rfl

theorem grantsTo_append (s : Granting W) (coord : TransactionCoordinator) (g : Grant)
    (txId : String) :
    (⟨coord, s.cluster, s.grants ++ [g]⟩ : Granting W).grantsTo txId = s.grantsTo txId ++
        if g.transactionalId = some txId then [g] else [] := by
  rw [grantsTo, filter_append, filter_singleton]
  simp [grantsTo]

theorem Inv.of_stored (h : Inv s) (hgrant : s'.grants = s.grants)
    (hnext : s'.coordinator.nextProducerId = s.coordinator.nextProducerId)
    (hstored : ∀ txId, s'.coordinator.stored txId = s.coordinator.stored txId) : Inv s' := by
  refine ⟨?_, hgrant ▸ h.apart, fun txId => ?_⟩
  · rw [hgrant, hnext]
    exact h.below
  · have hto : s'.grantsTo txId = s.grantsTo txId := by rw [grantsTo, hgrant, grantsTo]
    rw [Counted, hstored, hto]
    exact h.counted txId

theorem Inv.grant_new (h : Inv s) {transactionalId : Option String}
    (hnext : coordinator.nextProducerId = s.coordinator.nextProducerId + 1)
    (hcounted : ∀ txId, (⟨coordinator, s.cluster,
      s.grants ++ [⟨transactionalId, s.coordinator.nextProducerId, 0⟩]⟩ : Granting W).Counted
        txId) :
    Inv (⟨coordinator, s.cluster,
      s.grants ++ [⟨transactionalId, s.coordinator.nextProducerId, 0⟩]⟩ : Granting W) := by
  refine ⟨fun g hg => ?_, pairwise_append.mpr ⟨h.apart, pairwise_singleton _ _, ?_⟩, hcounted⟩
  · rw [hnext]
    rcases mem_append.mp hg with hold | hnew
    · exact (h.below g hold).trans (lt_add_one _)
    · rw [mem_singleton.mp hnew]
      exact lt_add_one _
  · intro g hg g' hg' _
    rw [mem_singleton.mp hg']
    exact (h.below g hg).ne

theorem Inv.initProducerId_none (h : Inv s) :
    Inv (⟨{ s.coordinator with nextProducerId := s.coordinator.nextProducerId + 1 }, s.cluster,
      s.grants ++ [⟨none, s.coordinator.nextProducerId, 0⟩]⟩ : Granting W) := by
  refine h.grant_new rfl fun txId => ?_
  rw [Counted, grantsTo_append, if_neg (by simp), append_nil]
  exact h.counted txId

theorem Inv.initProducerId_new (h : Inv s) (hnew : s.coordinator.stored transactionalId = none)
    (hnext : coordinator.nextProducerId = s.coordinator.nextProducerId + 1)
    (hstored : ∀ txId, coordinator.stored txId =
      if txId = transactionalId then some (s.coordinator.nextProducerId, 0)
      else s.coordinator.stored txId) :
    Inv (⟨coordinator, s.cluster,
      s.grants ++ [⟨some transactionalId, s.coordinator.nextProducerId, 0⟩]⟩ : Granting W) := by
  refine h.grant_new hnext fun txId => ?_
  rw [Counted, grantsTo_append, hstored]
  by_cases hname : txId = transactionalId
  · subst hname
    obtain ⟨-, hnone⟩ | ⟨producerId, n, hsome, -⟩ := h.counted txId
    · rw [if_pos rfl, if_pos rfl, hnone]
      exact Or.inr ⟨s.coordinator.nextProducerId, 0, rfl, rfl⟩
    · rw [hnew] at hsome
      simp at hsome
  · rw [if_neg hname, if_neg (fun heq => hname (Option.some.inj heq).symm), append_nil]
    exact h.counted txId

theorem Inv.mem_grants (h : Inv s)
    (hknown : s.coordinator.stored transactionalId = some (producerId, producerEpoch)) :
    ⟨some transactionalId, producerId, producerEpoch⟩ ∈ s.grants := by
  obtain ⟨hnone, -⟩ | ⟨pid', n, hsome, hgrant⟩ := h.counted transactionalId
  · rw [hknown] at hnone
    simp at hnone
  obtain ⟨rfl, hep⟩ := Prod.mk.inj (Option.some.inj (hknown.symm.trans hsome))
  have hmem : ⟨some transactionalId, producerId, wrapSigned 16 n⟩ ∈ s.grantsTo transactionalId := by
    rw [hgrant, history, mem_map]
    exact ⟨n, mem_range.mpr (Nat.lt_succ_self n), rfl⟩
  rw [hep]
  exact mem_of_mem_filter hmem

theorem Inv.apart_known (h : Inv s)
    (hknown : s.coordinator.stored transactionalId = some (producerId, producerEpoch)) {g : Grant}
    (hg : g ∈ s.grants) (epoch : ℤ) :
    g.Apart ⟨some transactionalId, producerId, epoch⟩ := by
  intro hoth heq
  have hne : g.transactionalId ≠ some transactionalId := by
    rintro hsame
    rw [hsame] at hoth
    simp at hoth
  have hgrant := h.mem_grants hknown
  exact h.apart.forall hg hgrant (fun hsame => hne (by rw [hsame])) (Or.inr hne) heq

theorem Inv.initProducerId_known (h : Inv s)
    (hknown : s.coordinator.stored transactionalId = some (producerId, producerEpoch))
    (hnext : coordinator.nextProducerId = s.coordinator.nextProducerId)
    (hstored : ∀ txId, coordinator.stored txId =
      if txId = transactionalId then some (producerId, wrapSigned 16 (producerEpoch + 1))
      else s.coordinator.stored txId) :
    Inv (⟨coordinator, s.cluster, s.grants ++
      [⟨some transactionalId, producerId, wrapSigned 16 (producerEpoch + 1)⟩]⟩ : Granting W) := by
  obtain ⟨hnone, -⟩ | ⟨pid', n, hsome, hgrant⟩ := h.counted transactionalId
  · rw [hknown] at hnone
    simp at hnone
  obtain ⟨rfl, hep⟩ := Prod.mk.inj (Option.some.inj (hknown.symm.trans hsome))
  have hlt := h.below _ (h.mem_grants hknown)
  rw [hep] at hstored ⊢
  refine ⟨fun g hg => ?_, pairwise_append.mpr ⟨h.apart, pairwise_singleton _ _, ?_⟩, fun txId => ?_⟩
  · rw [hnext]
    rcases mem_append.mp hg with hold | hnew
    · exact h.below g hold
    · rw [mem_singleton.mp hnew]
      exact hlt
  · intro g hg g' hg'
    rw [mem_singleton.mp hg']
    exact h.apart_known hknown hg _
  · rw [Counted, grantsTo_append, hstored]
    by_cases hname : txId = transactionalId
    · subst hname
      rw [if_pos rfl, if_pos rfl, hgrant, wrapSigned_succ, ← history_succ]
      exact Or.inr ⟨producerId, n + 1, rfl, rfl⟩
    · rw [if_neg hname, if_neg (fun heq => hname (Option.some.inj heq).symm), append_nil]
      exact h.counted txId

theorem Inv.initProducerId (h : Inv s) (transactionalId : Option String) (timeout : ℤ) :
    Inv (⟨(s.coordinator.initProducerId transactionalId timeout).1, s.cluster, s.grants ++
      [⟨transactionalId, (s.coordinator.initProducerId transactionalId timeout).2.1,
        (s.coordinator.initProducerId transactionalId timeout).2.2⟩]⟩ : Granting W) := by
  cases transactionalId with
  | none => exact h.initProducerId_none
  | some txId =>
    cases hstored : s.coordinator.stored txId with
    | none =>
      obtain ⟨coordinator, hinit, hnext, hstored'⟩ :=
        TransactionCoordinator.initProducerId_new hstored timeout
      rw [hinit]
      exact h.initProducerId_new hstored hnext hstored'
    | some current =>
      obtain ⟨coordinator, hinit, hnext, hstored'⟩ :=
        TransactionCoordinator.initProducerId_known hstored timeout
      rw [hinit]
      exact h.initProducerId_known hstored hnext hstored'

theorem exec_inv [WalEngine W] (s : Granting W) (c : CoordinatorCall) (s' : Granting W)
    (h : Inv s) (_ : True) (hexec : s.exec c = some s') : Inv s' := by
  cases c with
  | initProducerId transactionalId timeout =>
    cases hexec
    exact h.initProducerId transactionalId timeout
  | addPartitionsToTxn transactionalId producerId producerEpoch parts =>
    cases hexec
    exact h.of_stored rfl
      (nextProducerId_addPartitionsToTxn _ _ _)
      (stored_addPartitionsToTxn _ _ _)
  | addOffsetsToTxn transactionalId producerId producerEpoch gid =>
    cases hexec
    exact h
  | endTxn transactionalId producerId producerEpoch committed clock order =>
    obtain ⟨⟨s₁, reply⟩, hcall, rfl⟩ := Option.map_eq_some_iff.mp hexec
    rw [call] at hcall
    split at hcall
    · obtain ⟨⟨coordinator, cl, written, res⟩, hend, heq⟩ :=
        Option.map_eq_some_iff.mp hcall
      cases heq
      obtain ⟨-, -, rfl, rfl, -⟩ | ⟨metadata, state, -, -, rfl⟩ :=
        endTxn_eq_some hend
      · exact h.of_stored rfl rfl fun _ => rfl
      · exact h.of_stored rfl rfl (stored_drained state)
    · simp at hcall

theorem wrapSigned_small {k : ℕ} (h : k ≤ 32767) : wrapSigned 16 k = k :=
  wrapSigned_of_fits (by norm_num) ⟨by omega, by omega⟩

end Granting

end OxideMq.Broker
