import OxideMq.Broker.Transaction

/-! Ending a transaction over a log that fails. -/

namespace OxideMq.Broker

open Lib OxideMq.Core OxideMq.Protocol OxideMq.Wal OxideMq.Stream

structure ScriptedWal where
  outcomes : List (Option OxideMqError)

namespace ScriptedWal

def append (wal : ScriptedWal) : ScriptedWal × Except OxideMqError ℕ :=
  match wal.outcomes with
  | [] => (wal, .ok 0)
  | none :: outcomes => (⟨outcomes⟩, .ok 0)
  | some e :: outcomes => (⟨outcomes⟩, .error e)

instance : WalEngine ScriptedWal := ⟨fun wal _ _ _ => wal.append, fun wal _ _ => (wal, .ok ())⟩

def Takes (wal : ScriptedWal) (n : ℕ) : Prop := ∀ outcome ∈ wal.outcomes.take n, outcome = none

theorem takes_succ_iff (wal : ScriptedWal) (n : ℕ) :
    wal.Takes (n + 1) ↔ (∃ seq, wal.append.2 = .ok seq) ∧ wal.append.1.Takes n := by
  obtain ⟨outcomes⟩ := wal
  cases outcomes with
  | nil => simp [Takes, append]
  | cons out outcomes =>
    cases out with
    | none => simp [Takes, append]
    | some e => simp [Takes, append]

end ScriptedWal

namespace TransactionCoordinator

variable {result : Except KafkaErrorCode Unit} {coordinator : TransactionCoordinator}

theorem writeMarkers_ok_iff (pid epoch : ℤ) (committed : Bool)
    (clock : TopicPartition → ℤ) {order : List TopicPartition} {cl : ClusterState ScriptedWal}
    {cl' : ClusterState ScriptedWal} {written : List TopicPartition}
    (h : writeMarkers pid epoch committed clock order cl = some (cl', written, result)) :
    result = .ok () ↔ cl.tiers.wal.Takes order.length := by
  induction order generalizing cl cl' written result with
  | nil =>
    obtain ⟨-, -, rfl⟩ : _ ∧ _ ∧ _ := by simpa [writeMarkers] using h
    simp [ScriptedWal.Takes]
  | cons tp tps ih =>
    rw [List.length_cons, ScriptedWal.takes_succ_iff]
    obtain ⟨cl₁, ⟨hok, hw, hupd⟩ | ⟨⟨e, herr⟩, hw, -⟩⟩ :=
      writeMarker_cases cl pid epoch committed (clock tp) tp
    · rw [writeMarkers, hw] at h
      obtain ⟨⟨cl₂, written₂, res₂⟩, hloop, heq⟩ := Option.map_eq_some_iff.mp h
      cases heq
      have hwal : cl₁.tiers.wal = cl.tiers.wal.append.1 :=
        congrArg Tiers.wal hupd.tiers
      rw [ih hloop, hwal]
      exact (and_iff_right hok).symm
    · rw [writeMarkers, hw] at h
      cases h
      have href : ¬∃ seq, cl.tiers.wal.append.2 = .ok seq := by
        rintro ⟨seq, hok⟩
        exact absurd (hok.symm.trans herr) (by simp)
      simp [href]

def recovered (cluster : ClusterState ScriptedWal) : ClusterState ScriptedWal :=
  { cluster with tiers := { cluster.tiers with wal := ⟨[]⟩ } }

def Retryable (coordinator : TransactionCoordinator) (cluster : ClusterState ScriptedWal)
    (transactionalId : String) (producerId producerEpoch : ℤ) (committed : Bool)
    (clock : TopicPartition → ℤ) (order : List TopicPartition) : Prop :=
  ∀ coordinator₁ cluster₁ written₁,
    endTxn coordinator cluster transactionalId producerId producerEpoch committed clock order =
      some (coordinator₁, cluster₁, written₁, .error .unknownServer) →
    ∀ clock₂ order₂, DrainOrder coordinator₁ transactionalId order₂ →
      ∃ coordinator₂ cluster₂ written₂ result,
        endTxn coordinator₁ (recovered cluster₁) transactionalId producerId producerEpoch committed
          clock₂ order₂ = some (coordinator₂, cluster₂, written₂, result) ∧
        ∀ tp ∈ order, tp ∉ written₁ → tp ∈ written₂ ∧
          ∀ partition, cluster₂.getPartition tp = some partition →
            partition.ongoingTxns.lookup producerId = none

def ClosedOnSuccess {W : Type} [WalEngine W] (coordinator : TransactionCoordinator)
    (cluster : ClusterState W) (transactionalId : String) (producerId producerEpoch : ℤ)
    (committed : Bool) (clock : TopicPartition → ℤ) (order : List TopicPartition) : Prop :=
  ∀ coordinator' cluster' written,
    endTxn coordinator cluster transactionalId producerId producerEpoch committed clock order =
      some (coordinator', cluster', written, .ok ()) →
    ∀ tp ∈ order, ∃ partition, cluster'.getPartition tp = some partition ∧
      partition.ongoingTxns.lookup producerId = none

theorem closedOnSuccess {W : Type} [WalEngine W] {order : List TopicPartition}
    (hnd : order.Nodup) (cl : ClusterState W) (txId : String)
    (pid epoch : ℤ) (committed : Bool) (clock : TopicPartition → ℤ) :
    ClosedOnSuccess coordinator cl txId pid epoch committed clock order := by
  intro coord' cl' written hend tp htp
  rcases endTxn_eq_some hend with ⟨e, -, -, -, -, hres⟩ | ⟨metadata, state, -, hloop, -⟩
  · simp at hres
  · obtain ⟨cl₁, written₁, rest, result, hloop₁, rfl, hres, -, -, hcl⟩ :=
      writeMarkers_spec pid epoch committed clock hnd cl
    cases hloop₁.symm.trans hloop
    rcases hres with ⟨rfl, -⟩ | ⟨-, herr⟩
    · rw [List.append_nil] at htp
      exact hcl tp htp
    · simp at herr

theorem drainOrder_drained (coord : TransactionCoordinator) (txId : String)
    (state : TransactionState) :
    DrainOrder (coord.drained txId state) txId [] := by
  refine ⟨List.nodup_nil, ?_⟩
  rw [lookup_drained, if_pos rfl]
  cases coord.transactions.lookup txId with
  | none => rfl
  | some metadata => rfl

theorem written_of_empty {W : Type} [WalEngine W] {coord' : TransactionCoordinator}
    {cl cl' : ClusterState W} {txId : String} {pid epoch : ℤ}
    {committed : Bool} {clock : TopicPartition → ℤ} {written : List TopicPartition}
    (h : endTxn coordinator cl txId pid epoch committed clock [] =
      some (coord', cl', written, result)) : written = [] := by
  rcases endTxn_eq_some h with ⟨e, -, -, -, hwr, -⟩ | ⟨metadata, state, -, hloop, -⟩
  · exact hwr
  · rw [writeMarkers] at hloop
    obtain ⟨-, hwr, -⟩ : _ ∧ [] = written ∧ _ := by
      simpa only [Option.some.injEq, Prod.mk.injEq] using hloop
    exact hwr.symm

theorem endTxn_retryable_iff {coordinator : TransactionCoordinator}
    {cluster : ClusterState ScriptedWal} {transactionalId : String}
    {order : List TopicPartition} (horder : DrainOrder coordinator transactionalId order)
    (producerId producerEpoch : ℤ) (committed : Bool) (clock : TopicPartition → ℤ) :
    (Retryable coordinator cluster transactionalId producerId producerEpoch committed clock order ↔
      (∃ e, coordinator.checkProducer transactionalId producerId producerEpoch = .error e) ∨
        cluster.tiers.wal.Takes order.length) ∧
    ClosedOnSuccess coordinator cluster transactionalId producerId producerEpoch committed clock
      order := by
  refine ⟨⟨fun hretry => ?_, ?_⟩, closedOnSuccess horder.1 _ _ _ _ _ _⟩
  · by_contra hcond
    rw [not_or] at hcond
    obtain ⟨hacc, href⟩ := hcond
    obtain ⟨cl₁, written₁, rest, result, hloop, hsplit, hres, -⟩ :=
      writeMarkers_spec producerId producerEpoch committed clock horder.1 cluster
    have hfailed := hres.resolve_left fun hok =>
      href ((writeMarkers_ok_iff producerId producerEpoch committed clock hloop).mp hok.2)
    obtain ⟨hrest, rfl⟩ := hfailed
    -- the first partition without a marker
    obtain ⟨tp, rest', rfl⟩ := List.exists_cons_of_ne_nil hrest
    have hmiss : tp ∉ written₁ := fun hmem =>
      List.disjoint_of_nodup_append (hsplit ▸ horder.1) hmem List.mem_cons_self
    have hreg : tp ∈ order := hsplit ▸ List.mem_append_right _ List.mem_cons_self
    cases hchk : coordinator.checkProducer transactionalId producerId producerEpoch with
    | error e => exact hacc ⟨e, hchk⟩
    | ok metadata =>
      have hend : endTxn coordinator cluster transactionalId producerId producerEpoch committed
          clock order = some (coordinator.drained transactionalId
            (if committed then .prepareCommit else .prepareAbort), cl₁, written₁,
              .error .unknownServer) := by
        rw [endTxn, hchk]
        rw [hloop]
        rfl
      obtain ⟨_, _, written₂, _, hend₂, hretried⟩ := hretry _ _ _ hend clock []
        (drainOrder_drained coordinator transactionalId _)
      have hwr := (hretried tp hreg hmiss).1
      rw [written_of_empty hend₂] at hwr
      simp at hwr
  · intro hcond coord₁ cl₁ written₁ hend
    exfalso
    rcases endTxn_eq_some hend with ⟨e, hchk, -, -, -, hres⟩ | ⟨metadata, state, hchk, hloop, -⟩
    · obtain rfl : KafkaErrorCode.unknownServer = e := Except.error.inj hres
      exact checkProducer_ne_unknownServer _ _ _ _ hchk
    · rcases hcond with ⟨e, herr⟩ | htake
      · rw [herr] at hchk
        simp at hchk
      · have hok := (writeMarkers_ok_iff producerId producerEpoch committed clock hloop).mpr htake
        simp at hok

def oneRegistered : TransactionCoordinator :=
  ((new.initProducerId (some "tx") 60000).1.addPartitionsToTxn "tx" 1000 0 [⟨"orders", 0⟩]).1

def oneProduced (outcomes : List (Option OxideMqError)) : Option (ClusterState ScriptedWal) :=
  (ClusterState.appendTo
    (ClusterState.new ⟨⟨none :: outcomes⟩, ∅, LogCache.new 4096, BlockCache.new 4096⟩)
    ⟨"orders", 0⟩ (transactionalBatch 1000)).map Prod.fst

theorem retryable_of_healthy_log : ∃ cluster, oneProduced [] = some cluster ∧
      Retryable oneRegistered cluster "tx" 1000 0 true (fun _ => 0) [⟨"orders", 0⟩] := by
  refine ⟨_, rfl, ?_⟩
  have hord : DrainOrder oneRegistered "tx" [⟨"orders", 0⟩] := by decide
  exact ((endTxn_retryable_iff hord 1000 0 true fun _ => 0).1).mpr
    (Or.inr (show ∀ out ∈ ([] : List (Option OxideMqError)), out = none from by simp))

theorem retry_leaves_transaction_open :
    ∃ cluster coordinator₁ cluster₁ coordinator₂ cluster₂ partition,
      oneProduced [some (.wal "disk full")] = some cluster ∧
      endTxn oneRegistered cluster "tx" 1000 0 true (fun _ => 0) [⟨"orders", 0⟩] =
        some (coordinator₁, cluster₁, [], .error .unknownServer) ∧
      endTxn coordinator₁ (recovered cluster₁) "tx" 1000 0 true (fun _ => 0) [] =
        some (coordinator₂, cluster₂, [], .ok ()) ∧
      cluster₂.getPartition ⟨"orders", 0⟩ = some partition ∧
      partition.ongoingTxns.lookup 1000 = some 0 ∧
      ¬Retryable oneRegistered cluster "tx" 1000 0 true (fun _ => 0) [⟨"orders", 0⟩] := by
  refine ⟨_, _, _, _, _, _, rfl, rfl, rfl, rfl, by decide +kernel, ?_⟩
  intro hretry
  obtain ⟨_, _, _, _, hend, hretried⟩ := hretry _ _ _ rfl (fun _ => 0) [] (by decide)
  have hwr := (hretried ⟨"orders", 0⟩ (by simp) (by simp)).1
  rw [written_of_empty hend] at hwr
  simp at hwr

end TransactionCoordinator

end OxideMq.Broker
