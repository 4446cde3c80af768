import OxideMq.Broker.CachedReads
import OxideMq.Broker.Transaction

/-! The coordinator and the partitions together. -/

namespace OxideMq.Broker

open Lib OxideMq.Core OxideMq.Protocol OxideMq.Wal OxideMq.Stream TransactionCoordinator Option HashMap

structure Sender where
  transactionalId : String
  producerId : ℤ
  producerEpoch : ℤ
  deriving DecidableEq, Repr

structure TxnBroker (W : Type) where
  coordinator : TransactionCoordinator
  cluster : ClusterState W

inductive TxnAction where
  | initProducerId (transactionalId : Option String) (transactionTimeoutMs : ℤ)
  | addPartitionsToTxn (transactionalId : String) (producerId producerEpoch : ℤ)
      (partitions : List TopicPartition)
  | endTxn (transactionalId : String) (producerId producerEpoch : ℤ) (committed : Bool)
      (clock : TopicPartition → ℤ) (order : List TopicPartition)
  | produce (sender : Sender) (tp : TopicPartition) (records : Bytes)

namespace TransactionCoordinator

variable {coordinator : TransactionCoordinator} {metadata : TransactionMetadata}
  {transactionalId txId : String} {tp : TopicPartition}
  {f : TransactionMetadata → TransactionMetadata}

structure Owns (coordinator : TransactionCoordinator) (producerId : ℤ) (tp : TopicPartition)
    (transactionalId : String) (metadata : TransactionMetadata) : Prop where
  entry : coordinator.transactions.lookup transactionalId = some metadata
  producer : metadata.producerId = producerId
  registered : tp ∈ metadata.partitions

structure DistinctOwners (coordinator : TransactionCoordinator) : Prop where
  below : ∀ transactionalId metadata,
    coordinator.transactions.lookup transactionalId = some metadata →
      metadata.producerId < coordinator.nextProducerId
  distinct : ∀ transactionalId transactionalId' metadata metadata',
    coordinator.transactions.lookup transactionalId = some metadata →
    coordinator.transactions.lookup transactionalId' = some metadata' →
      metadata.producerId = metadata'.producerId → transactionalId = transactionalId'

theorem distinctOwners_new : DistinctOwners new := ⟨by simp [new], by simp [new]⟩

theorem lookup_modify_producerId {transactions : HashMap String TransactionMetadata}
    (hf : ∀ m, (f m).producerId = m.producerId)
    (h : (transactions.modify transactionalId f).lookup txId = some metadata) :
    ∃ old, transactions.lookup txId = some old ∧ metadata.producerId = old.producerId := by
  rw [lookup_modify] at h
  split at h
  · rename_i heq
    subst heq
    obtain ⟨old, hold, rfl⟩ := map_eq_some_iff.mp h
    exact ⟨old, hold, hf old⟩
  · exact ⟨metadata, h, rfl⟩

theorem DistinctOwners.modify (h : coordinator.DistinctOwners) (transactionalId : String)
    (hf : ∀ m, (f m).producerId = m.producerId) :
    DistinctOwners { coordinator with
      transactions := coordinator.transactions.modify transactionalId f } := by
  constructor
  · intro txId metadata he
    obtain ⟨old, hold, heq⟩ := lookup_modify_producerId hf he
    rw [heq]
    exact h.below txId old hold
  · intro txId txId' metadata metadata' he he' heq
    obtain ⟨old, hold, hid⟩ := lookup_modify_producerId hf he
    obtain ⟨old', hold', hid'⟩ := lookup_modify_producerId hf he'
    exact h.distinct txId txId' old old' hold hold' (by rw [← hid, ← hid', heq])

theorem DistinctOwners.drained (h : coordinator.DistinctOwners) (transactionalId : String)
    (state : TransactionState) :
    (coordinator.drained transactionalId state).DistinctOwners :=
  h.modify transactionalId fun _ => rfl

theorem DistinctOwners.addPartitionsToTxn (h : coordinator.DistinctOwners)
    (transactionalId : String) (pid epoch : ℤ) (parts : List TopicPartition) :
    (coordinator.addPartitionsToTxn transactionalId pid epoch parts).1.DistinctOwners := by
  unfold TransactionCoordinator.addPartitionsToTxn
  split
  · exact h
  · exact h.modify transactionalId fun _ => rfl

theorem DistinctOwners.insert (h : coordinator.DistinctOwners) (transactionalId : String)
    (hid : metadata.producerId = coordinator.nextProducerId) :
    DistinctOwners ⟨coordinator.transactions.insert transactionalId metadata,
      coordinator.nextProducerId + 1⟩ := by
  constructor
  · intro txId m he
    rw [lookup_insert_ite] at he
    dsimp only
    split at he
    · rw [← some.inj he, hid]
      omega
    · have := h.below txId m he
      omega
  · intro txId txId' m m' he he' heq
    rw [lookup_insert_ite] at he he'
    split at he <;> split at he'
    · rename_i hname hname'
      rw [hname, hname']
    · have := h.below txId' m' he'
      rw [← some.inj he] at heq
      omega
    · have := h.below txId m he
      rw [← some.inj he'] at heq
      omega
    · exact h.distinct txId txId' m m' he he' heq

theorem DistinctOwners.initProducerId (h : coordinator.DistinctOwners)
    (transactionalId : Option String) (timeout : ℤ) :
    (coordinator.initProducerId transactionalId timeout).1.DistinctOwners := by
  cases transactionalId with
  | none =>
    refine ⟨fun txId metadata he => ?_, h.distinct⟩
    exact (h.below txId metadata he).trans (lt_add_one _)
  | some txId =>
    rw [TransactionCoordinator.initProducerId]
    split
    · exact h.modify txId fun _ => rfl
    · exact h.insert txId rfl

theorem Owns.initProducerId {pid : ℤ} (h : coordinator.Owns pid tp txId metadata)
    {transactionalId : Option String} (timeout : ℤ)
    (hoth : transactionalId ≠ some txId) :
    (coordinator.initProducerId transactionalId timeout).1.Owns pid tp txId metadata := by
  refine ⟨?_, h.producer, h.registered⟩
  cases transactionalId with
  | none => exact h.entry
  | some other =>
    have hne : txId ≠ other := fun heq => hoth (congrArg some heq.symm)
    rw [TransactionCoordinator.initProducerId]
    split
    · rw [lookup_modify, if_neg hne]
      exact h.entry
    · rw [lookup_insert_ite, if_neg hne]
      exact h.entry

theorem Owns.addPartitionsToTxn {pid : ℤ} (h : coordinator.Owns pid tp txId metadata)
    (transactionalId : String) (pid' epoch : ℤ) (parts : List TopicPartition) :
    ∃ metadata', (coordinator.addPartitionsToTxn transactionalId pid' epoch
      parts).1.Owns pid tp txId metadata' := by
  unfold TransactionCoordinator.addPartitionsToTxn
  split
  · exact ⟨metadata, h⟩
  · by_cases hname : txId = transactionalId
    · subst hname
      refine ⟨{ metadata with
        state := .ongoing, partitions := metadata.partitions ∪ parts.toFinset },
        ?_, h.producer, Finset.mem_union_left _ h.registered⟩
      rw [lookup_modify, if_pos rfl, h.entry]
      rfl
    · refine ⟨metadata, ?_, h.producer, h.registered⟩
      rw [lookup_modify, if_neg hname]
      exact h.entry

theorem Owns.drained {pid : ℤ} (h : coordinator.Owns pid tp txId metadata)
    (state : TransactionState) (hoth : txId ≠ transactionalId) :
    (coordinator.drained transactionalId state).Owns pid tp txId metadata := by
  refine ⟨?_, h.producer, h.registered⟩
  rw [lookup_drained, if_neg hoth]
  exact h.entry

theorem DrainOrder.mem_iff {order : List TopicPartition}
    (h : coordinator.DrainOrder transactionalId order)
    (he : coordinator.transactions.lookup transactionalId = some metadata) :
    tp ∈ order ↔ tp ∈ metadata.partitions := by
  have hset := h.2
  rw [he, map_some, getD_some] at hset
  rw [← List.mem_toFinset, hset]

theorem writeMarkers_all {W : Type} [WalEngine W] (hwal : WalEngine.NeverFails W)
    (pid epoch : ℤ) (committed : Bool) (clock : TopicPartition → ℤ)
    {order : List TopicPartition} (hnd : order.Nodup) (cl : ClusterState W) :
    ∃ cl', writeMarkers pid epoch committed clock order cl = some (cl', order, .ok ()) ∧
      OngoingFrom cl cl' ∧
      ∀ tp ∈ order, ∃ partition, cl'.getPartition tp = some partition ∧
        partition.ongoingTxns.lookup pid = none := by
  obtain ⟨cl', written, rest, res, hmark, rfl, hres, hongoing, -, hcl⟩ :=
    writeMarkers_spec pid epoch committed clock hnd cl
  obtain rfl := writeMarkers_of_neverFails hwal hmark
  obtain ⟨rfl, -⟩ | ⟨-, herr⟩ := hres
  · rw [List.append_nil] at hmark ⊢
    exact ⟨cl', hmark, hongoing, hcl⟩
  · simp at herr

end TransactionCoordinator

namespace TxnBroker

variable {W : Type}
variable {s : TxnBroker W}

def fresh (tiers : Tiers W) : TxnBroker W := ⟨TransactionCoordinator.new, ClusterState.new tiers⟩

def exec [WalEngine W] (s : TxnBroker W) : TxnAction → Option (TxnBroker W)
  | .initProducerId transactionalId transactionTimeoutMs =>
      some { s with
        coordinator := (s.coordinator.initProducerId transactionalId transactionTimeoutMs).1 }
  | .addPartitionsToTxn transactionalId producerId producerEpoch partitions =>
      some { s with
        coordinator := (s.coordinator.addPartitionsToTxn transactionalId producerId producerEpoch
          partitions).1 }
  | .endTxn transactionalId producerId producerEpoch committed clock order =>
      if s.coordinator.DrainOrder transactionalId order then
        (s.coordinator.endTxn s.cluster transactionalId producerId producerEpoch committed clock
          order).map fun (coordinator, cluster, _, _) => ⟨coordinator, cluster⟩
      else none
  | .produce _ tp records =>
      (s.cluster.appendTo tp records).map fun (cluster, _) => { s with cluster := cluster }

def Registered (s : TxnBroker W) (sender : Sender) (tp : TopicPartition) : Prop :=
  ∃ metadata, s.coordinator.checkProducer sender.transactionalId sender.producerId
    sender.producerEpoch = .ok metadata ∧ tp ∈ metadata.partitions

def opened (s : TxnBroker W) (tp : TopicPartition) (records : Bytes) : Option ℤ :=
  (patchRecordBatches records (s.cluster.partitionFor tp).stream.nextOffset).bind
    fun (patched, _) => opensTransaction patched

def Disciplined (s : TxnBroker W) : TxnAction → Prop
  | .produce sender tp records => (s.opened tp records).isSome → s.Registered sender tp
  | _ => True

def NoneOpen (s : TxnBroker W) (producerId : ℤ) : Prop :=
  ∀ tp partition, s.cluster.getPartition tp = some partition →
    partition.ongoingTxns.lookup producerId = none

def Safe (s : TxnBroker W) : TxnAction → Prop
  | .initProducerId (some transactionalId) _ =>
      ∀ metadata, s.coordinator.transactions.lookup transactionalId = some metadata →
        s.NoneOpen metadata.producerId
  | .produce sender tp records =>
      ∀ producerId, s.opened tp records = some producerId → producerId = sender.producerId
  | _ => True

def Owned (s : TxnBroker W) : Prop :=
  ∀ tp partition producerId first, s.cluster.getPartition tp = some partition →
    partition.ongoingTxns.lookup producerId = some first →
      ∃ transactionalId metadata, s.coordinator.Owns producerId tp transactionalId metadata

def Closable [WalEngine W] (s : TxnBroker W) (producerId : ℤ) (tp : TopicPartition)
    (transactionalId : String) (metadata : TransactionMetadata) : Prop :=
  ∀ committed clock order, s.coordinator.DrainOrder transactionalId order →
    ∃ coordinator cluster written partition,
      s.coordinator.endTxn s.cluster transactionalId producerId metadata.producerEpoch committed
        clock order = some (coordinator, cluster, written, .ok ()) ∧
      tp ∈ written ∧ cluster.getPartition tp = some partition ∧
      partition.ongoingTxns.lookup producerId = none

structure Inv (s : TxnBroker W) : Prop where
  owners : s.coordinator.DistinctOwners
  owned : s.Owned

theorem inv_fresh (tiers : Tiers W) : Inv (fresh tiers) := by
  refine ⟨distinctOwners_new, ?_⟩
  intro tp part pid first hget
  simp [fresh, ClusterState.new, ClusterState.getPartition] at hget

theorem Inv.initProducerId (h : Inv s) {transactionalId : Option String} {timeout : ℤ}
    (hsafe : s.Safe (.initProducerId transactionalId timeout)) :
    Inv { s with
      coordinator :=
        (s.coordinator.initProducerId transactionalId timeout).1 } := by
  refine ⟨h.owners.initProducerId transactionalId timeout, ?_⟩
  intro tp part pid first hget hopen
  obtain ⟨txId, metadata, howns⟩ := h.owned tp part pid first hget hopen
  refine ⟨txId, metadata, howns.initProducerId _ ?_⟩
  rintro rfl
  -- the entry that would lose its partitions owns no open transaction
  have hnone := hsafe metadata howns.entry tp part hget
  rw [howns.producer, hopen] at hnone
  exact some_ne_none _ hnone

theorem Inv.addPartitionsToTxn (h : Inv s) (transactionalId : String) (pid epoch : ℤ)
    (parts : List TopicPartition) :
    Inv { s with
      coordinator := (s.coordinator.addPartitionsToTxn transactionalId pid epoch parts).1 } := by
  refine ⟨h.owners.addPartitionsToTxn _ _ _ _, ?_⟩
  intro tp part q first hget hopen
  obtain ⟨txId, metadata, howns⟩ := h.owned tp part q first hget hopen
  exact ⟨txId, howns.addPartitionsToTxn _ _ _ _⟩

theorem Inv.endTxn [WalEngine W] (hwal : WalEngine.NeverFails W) (h : Inv s)
    {transactionalId : String} {pid epoch : ℤ} {committed : Bool}
    {clock : TopicPartition → ℤ} {order written : List TopicPartition}
    {coord : TransactionCoordinator} {cl : ClusterState W}
    {res : Except KafkaErrorCode Unit} (hord : s.coordinator.DrainOrder transactionalId order)
    (hend : s.coordinator.endTxn s.cluster transactionalId pid epoch committed clock
      order = some (coord, cl, written, res)) :
    Inv ⟨coord, cl⟩ := by
  obtain ⟨-, -, rfl, rfl, -⟩ | ⟨metadata, state, hchk, hmark, rfl⟩ :=
    endTxn_eq_some hend
  · exact h
  obtain ⟨he, hprod, -⟩ := checkProducer_eq_ok.mp hchk
  obtain ⟨cl₁, hall, hongoing, hcl⟩ := writeMarkers_all hwal
    pid epoch committed clock hord.1 s.cluster
  cases hmark.symm.trans hall
  refine ⟨h.owners.drained transactionalId state, ?_⟩
  intro tp part q first hget hopen
  obtain ⟨part₀, hget₀, hopen₀⟩ := hongoing tp part q first hget hopen
  obtain ⟨txId, metadata', howns⟩ := h.owned tp part₀ q first hget₀ hopen₀
  refine ⟨txId, metadata', howns.drained state ?_⟩
  rintro rfl
  obtain rfl : metadata = metadata' := some.inj (he.symm.trans howns.entry)
  obtain ⟨closed, hget', hnone⟩ := hcl tp ((hord.mem_iff howns.entry).mpr howns.registered)
  obtain rfl : part = closed := some.inj (hget.symm.trans hget')
  rw [← hprod, howns.producer, hopen] at hnone
  exact some_ne_none _ hnone

theorem Inv.produce [WalEngine W] (h : Inv s) {sender : Sender} {tp : TopicPartition}
    {recs : Bytes} {cl : ClusterState W} {res : Except OxideMqError ℤ}
    (hdisciplined : s.Disciplined (.produce sender tp recs))
    (hsafe : s.Safe (.produce sender tp recs))
    (happ : s.cluster.appendTo tp recs = some (cl, res)) :
    Inv { s with cluster := cl } := by
  refine ⟨h.owners, ?_⟩
  intro tp' part pid first hget hopen
  obtain ⟨part', tiers, hrecs, hupd⟩ := ClusterState.appendTo_eq_some happ
  rw [hupd.partitions] at hget
  split at hget
  · rename_i hname
    subst hname
    cases hget
    obtain ⟨patched, count, hpat, rfl, -⟩ := Partition.appendRecords_eq_some hrecs
    have hl := Partition.lookup_noteTransaction (s.cluster.partitionFor tp') patched
      (s.cluster.partitionFor tp').stream.nextOffset pid
    have hopened : s.opened tp' recs = opensTransaction patched := by
      rw [opened, hpat, bind_some]
    split at hl
    · rename_i hnew
      rw [hnew] at hopened
      obtain ⟨metadata, hchk, hreg⟩ := hdisciplined (by rw [hopened]; rfl)
      obtain ⟨he, hprod, -⟩ := checkProducer_eq_ok.mp hchk
      exact ⟨sender.transactionalId, metadata, he, hprod.trans (hsafe pid hopened).symm, hreg⟩
    · rw [hopen] at hl
      obtain ⟨old, hold, hfirst⟩ := ClusterState.ongoing_of_partitionFor hl.symm
      exact h.owned tp' old pid first hold hfirst
  · exact h.owned tp' part pid first hget hopen

theorem exec_inv [WalEngine W] (hwal : WalEngine.NeverFails W) (s : TxnBroker W) (a : TxnAction)
    (s' : TxnBroker W) (h : Inv s) (hcond : s.Disciplined a ∧ s.Safe a)
    (hexec : s.exec a = some s') : Inv s' := by
  cases a with
  | initProducerId transactionalId timeout =>
    cases hexec
    exact h.initProducerId hcond.2
  | addPartitionsToTxn transactionalId pid epoch parts =>
    cases hexec
    exact h.addPartitionsToTxn _ _ _ _
  | endTxn transactionalId pid epoch committed clock order =>
    rw [exec] at hexec
    split at hexec
    · rename_i hord
      obtain ⟨⟨coordinator, cl, written, res⟩, hend, rfl⟩ :=
        map_eq_some_iff.mp hexec
      exact h.endTxn hwal hord hend
    · simp at hexec
  | produce sender tp recs =>
    obtain ⟨⟨cl, res⟩, happ, rfl⟩ := map_eq_some_iff.mp hexec
    exact h.produce hcond.1 hcond.2 happ

theorem closable_of_owns [WalEngine W] (hwal : WalEngine.NeverFails W) (s : TxnBroker W)
    {pid : ℤ} {tp : TopicPartition} {transactionalId : String}
    {metadata : TransactionMetadata}
    (howns : s.coordinator.Owns pid tp transactionalId metadata) :
    s.Closable pid tp transactionalId metadata := by
  intro committed clock order hord
  have hchk : s.coordinator.checkProducer transactionalId pid metadata.producerEpoch =
      .ok metadata :=
    checkProducer_eq_ok.mpr ⟨howns.entry, howns.producer, rfl⟩
  have hmem : tp ∈ order := (hord.mem_iff howns.entry).mpr howns.registered
  obtain ⟨cl, hmark, -, hcl⟩ := writeMarkers_all hwal pid
    metadata.producerEpoch committed clock hord.1 s.cluster
  obtain ⟨part, hget, hnone⟩ := hcl tp hmem
  refine ⟨s.coordinator.drained transactionalId .empty, cl, order, part, ?_, hmem, hget, hnone⟩
  rw [endTxn, hchk]
  rw [hmark]
  rfl

theorem open_transaction_closable [WalEngine W] (hwal : WalEngine.NeverFails W) (tiers : Tiers W)
    (actions : List TxnAction) (s : TxnBroker W)
    (hdisciplined : Along exec Disciplined (fresh tiers) actions)
    (hsafe : Along exec Safe (fresh tiers) actions)
    (hrun : run exec (fresh tiers) actions = some s) (tp : TopicPartition) (partition : Partition)
    (producerId first : ℤ) (hget : s.cluster.getPartition tp = some partition)
    (hopen : partition.ongoingTxns.lookup producerId = some first) :
    ∃ transactionalId metadata, s.coordinator.Owns producerId tp transactionalId metadata ∧
      (∀ other metadata', s.coordinator.transactions.lookup other = some metadata' →
        metadata'.producerId = producerId → other = transactionalId) ∧
      s.Closable producerId tp transactionalId metadata := by
  have hinv : Inv s := run_invariant (exec_inv hwal) (inv_fresh tiers) (hdisciplined.and hsafe) hrun
  obtain ⟨transactionalId, metadata, howns⟩ :=
    hinv.owned tp partition producerId first hget hopen
  refine ⟨transactionalId, metadata, howns, ?_, closable_of_owns hwal s howns⟩
  intro other metadata' he hprod
  exact hinv.owners.distinct _ _ _ _ he howns.entry (hprod.trans howns.producer.symm)

def oneOpen : List TxnAction :=
  [.initProducerId (some "tx") 60000, .addPartitionsToTxn "tx" 1000 0 [⟨"orders", 0⟩],
    .produce ⟨"tx", 1000, 0⟩ ⟨"orders", 0⟩ (transactionalBatch 1000)]

def restarted : List TxnAction := oneOpen ++ [.initProducerId (some "tx") 60000]

theorem disciplined_restarted :
    Along exec Disciplined (fresh PartitionLog.emptyTiers) restarted := by
  refine Along.cons trivial rfl (Along.cons trivial rfl (Along.cons ?_ rfl
    (Along.cons trivial rfl trivial)))
  intro _
  exact ⟨_, rfl, by decide⟩

theorem one_open_closable : ∃ s transactionalId metadata,
      run exec (fresh PartitionLog.emptyTiers) oneOpen = some s ∧
      s.coordinator.Owns 1000 ⟨"orders", 0⟩ transactionalId metadata ∧
      s.Closable 1000 ⟨"orders", 0⟩ transactionalId metadata := by
  have hsafe : Along exec Safe (fresh PartitionLog.emptyTiers) oneOpen := by
    refine Along.cons (fun _ h => ?_) rfl (Along.cons trivial rfl (Along.cons ?_ rfl trivial))
    · exact absurd h (by simp [fresh, new])
    · intro pid hopen
      have hread : (fresh PartitionLog.emptyTiers).opened ⟨"orders", 0⟩ (transactionalBatch 1000) =
          some 1000 := by decide +kernel
      exact Option.some.inj (hopen.symm.trans hread)
  obtain ⟨transactionalId, metadata, howns, -, hclosable⟩ :=
    open_transaction_closable MemoryWal.neverFails PartitionLog.emptyTiers oneOpen _
      (along_append disciplined_restarted).1 hsafe rfl ⟨"orders", 0⟩ _ 1000 0 rfl
      (by decide +kernel)
  exact ⟨_, transactionalId, metadata, rfl, howns, hclosable⟩

theorem restart_strands_transaction : ∃ s partition coordinator cluster partition',
      Along exec Disciplined (fresh PartitionLog.emptyTiers) restarted ∧
      run exec (fresh PartitionLog.emptyTiers) restarted = some s ∧
      s.cluster.getPartition ⟨"orders", 0⟩ = some partition ∧
      partition.ongoingTxns.lookup 1000 = some 0 ∧
      (∀ transactionalId metadata,
        ¬s.coordinator.Owns 1000 ⟨"orders", 0⟩ transactionalId metadata) ∧
      s.coordinator.endTxn s.cluster "tx" 1000 1 true (fun _ => 0) [] =
        some (coordinator, cluster, [], .ok ()) ∧
      cluster.getPartition ⟨"orders", 0⟩ = some partition' ∧
      partition'.ongoingTxns.lookup 1000 = some 0 := by
  refine ⟨_, _, _, _, _, disciplined_restarted, rfl, rfl, by decide +kernel, ?_, rfl, rfl,
    by decide +kernel⟩
  intro transactionalId metadata howns
  have he := HashMap.lookup_eq_some.mp howns.entry
  obtain ⟨rfl, hmetadata⟩ := Sigma.mk.inj (List.mem_singleton.mp he)
  have hreg := howns.registered
  rw [eq_of_heq hmetadata] at hreg
  simp at hreg

end TxnBroker

end OxideMq.Broker
