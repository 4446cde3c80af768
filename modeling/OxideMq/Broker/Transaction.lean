import OxideMq.Broker.ClusterState

/-! The transaction coordinator. -/

namespace OxideMq.Broker

open Lib OxideMq.Core OxideMq.Protocol OxideMq.Wal OxideMq.Stream Option

inductive TransactionState where
  | empty
  | ongoing
  | prepareCommit
  | prepareAbort
  | completeCommit
  | completeAbort
  | dead
  deriving DecidableEq, Repr

structure TransactionMetadata where
  transactionalId : String
  producerId : ℤ
  producerEpoch : ℤ
  txnTimeoutMs : ℤ
  state : TransactionState
  partitions : Finset TopicPartition

structure TransactionCoordinator where
  transactions : HashMap String TransactionMetadata
  nextProducerId : ℤ

namespace TransactionCoordinator

variable {W : Type}
variable {producerEpoch producerId : ℤ} {cluster cluster' : ClusterState W} {committed : Bool}
  {order : List TopicPartition} {coordinator : TransactionCoordinator}
  {result : Except KafkaErrorCode Unit}

def new : TransactionCoordinator := ⟨∅, 1000⟩

def initProducerId (coordinator : TransactionCoordinator) (transactionalId : Option String)
    (transactionTimeoutMs : ℤ) : TransactionCoordinator × ℤ × ℤ :=
  match transactionalId with
  | none =>
      ({ coordinator with nextProducerId := coordinator.nextProducerId + 1 },
        coordinator.nextProducerId, 0)
  | some txId =>
      match coordinator.transactions.lookup txId with
      | some metadata =>
          let epoch := wrapSigned 16 (metadata.producerEpoch + 1)
          ({ coordinator with
              transactions := coordinator.transactions.modify txId fun m =>
                { m with producerEpoch := epoch, partitions := ∅, state := .empty } },
            metadata.producerId, epoch)
      | none =>
          ({ transactions := coordinator.transactions.insert txId
                ⟨txId, coordinator.nextProducerId, 0,
                  if transactionTimeoutMs ≤ 0 then 60000 else transactionTimeoutMs, .empty, ∅⟩
             nextProducerId := coordinator.nextProducerId + 1 },
            coordinator.nextProducerId, 0)

def checkProducer (coordinator : TransactionCoordinator) (transactionalId : String)
    (producerId producerEpoch : ℤ) : Except KafkaErrorCode TransactionMetadata :=
  match coordinator.transactions.lookup transactionalId with
  | none => .error .invalidProducerIdMapping
  | some metadata =>
      if metadata.producerId ≠ producerId then .error .invalidProducerIdMapping
      else if producerEpoch < metadata.producerEpoch then .error .producerFenced
      else if producerEpoch > metadata.producerEpoch then .error .invalidProducerEpoch
      else .ok metadata

def addPartitionsToTxn (coordinator : TransactionCoordinator) (transactionalId : String)
    (producerId producerEpoch : ℤ) (partitions : List TopicPartition) :
    TransactionCoordinator × Except KafkaErrorCode Unit :=
  match coordinator.checkProducer transactionalId producerId producerEpoch with
  | .error e => (coordinator, .error e)
  | .ok _ =>
      ({ coordinator with
          transactions := coordinator.transactions.modify transactionalId fun m =>
            { m with state := .ongoing, partitions := m.partitions ∪ partitions.toFinset } },
        .ok ())

def addOffsetsToTxn (coordinator : TransactionCoordinator) (transactionalId : String)
    (producerId producerEpoch : ℤ) : Except KafkaErrorCode Unit :=
  (coordinator.checkProducer transactionalId producerId producerEpoch).map fun _ => ()

def finishTxn (producerId : ℤ) (committed : Bool) (baseOffset : ℤ) (partition : Partition) :
    Partition :=
  if committed then partition.completeTxn producerId
  else partition.recordAbortedTxn producerId baseOffset

def concludeMarker (ref : ℕ) (producerId : ℤ) (committed : Bool) :
    ClusterState W × Except OxideMqError ℤ → ClusterState W × Bool
  | (cluster, .error _) => (cluster, false)
  | (cluster, .ok baseOffset) =>
      (cluster.modifyObject ref (finishTxn producerId committed baseOffset), true)

/-- One turn of the loop of `end_txn`, with the time at which the marker is written. -/
def writeMarker [WalEngine W] (cluster : ClusterState W) (producerId producerEpoch : ℤ)
    (committed : Bool) (now : ℤ) (tp : TopicPartition) : Option (ClusterState W × Bool) :=
  let (cluster', ref) := cluster.getOrCreatePartition tp
  (cluster'.appendRecords ref (encodeControlBatch now 0 producerId producerEpoch committed)).map
    (concludeMarker ref producerId committed)

/-- The loop of `end_txn`. -/
def writeMarkers [WalEngine W] (producerId producerEpoch : ℤ) (committed : Bool)
    (clock : TopicPartition → ℤ) :
    List TopicPartition → ClusterState W →
      Option (ClusterState W × List TopicPartition × Except KafkaErrorCode Unit)
  | [], cluster => some (cluster, [], .ok ())
  | tp :: tps, cluster =>
      match writeMarker cluster producerId producerEpoch committed (clock tp) tp with
      | none => none
      | some (cluster', false) => some (cluster', [], .error .unknownServer)
      | some (cluster', true) =>
          (writeMarkers producerId producerEpoch committed clock tps cluster').map
            fun (cluster'', written, result) => (cluster'', tp :: written, result)

def drained (coordinator : TransactionCoordinator) (transactionalId : String)
    (state : TransactionState) : TransactionCoordinator :=
  { coordinator with
    transactions := coordinator.transactions.modify transactionalId fun m =>
      { m with state := state, partitions := ∅ } }

def endTxn [WalEngine W] (coordinator : TransactionCoordinator) (cluster : ClusterState W)
    (transactionalId : String) (producerId producerEpoch : ℤ) (committed : Bool)
    (clock : TopicPartition → ℤ) (order : List TopicPartition) :
    Option (TransactionCoordinator × ClusterState W × List TopicPartition ×
      Except KafkaErrorCode Unit) :=
  match coordinator.checkProducer transactionalId producerId producerEpoch with
  | .error e => some (coordinator, cluster, [], .error e)
  | .ok _ =>
      (writeMarkers producerId producerEpoch committed clock order cluster).map
        fun (cluster', written, result) =>
          (coordinator.drained transactionalId
              (match result with
              | .ok _ => .empty
              | .error _ => if committed then .prepareCommit else .prepareAbort),
            cluster', written, result)

def DrainOrder (coordinator : TransactionCoordinator) (transactionalId : String)
    (order : List TopicPartition) : Prop :=
  order.Nodup ∧
    order.toFinset = ((coordinator.transactions.lookup transactionalId).map
      TransactionMetadata.partitions).getD ∅

instance (coordinator : TransactionCoordinator) (transactionalId : String)
    (order : List TopicPartition) : Decidable (DrainOrder coordinator transactionalId order) :=
  inferInstanceAs (Decidable (_ ∧ _))

theorem checkProducer_eq_ok {txId : String} {metadata : TransactionMetadata} :
    coordinator.checkProducer txId producerId producerEpoch = .ok metadata ↔
      coordinator.transactions.lookup txId = some metadata ∧
        metadata.producerId = producerId ∧ metadata.producerEpoch = producerEpoch := by
  unfold checkProducer
  cases coordinator.transactions.lookup txId with
  | none => simp
  | some m =>
    simp only [some.injEq]
    split_ifs with hid hold hnew
    · simp only [false_iff]
      rintro ⟨rfl, heq, -⟩
      exact hid heq
    · simp only [false_iff]
      rintro ⟨rfl, -, heq⟩
      omega
    · simp only [false_iff]
      rintro ⟨rfl, -, heq⟩
      omega
    · rw [Except.ok.injEq]
      constructor
      · rintro rfl
        exact ⟨rfl, not_not.mp hid, by omega⟩
      · rintro ⟨rfl, -⟩
        rfl

theorem lookup_drained (coord : TransactionCoordinator) (transactionalId txId : String)
    (state : TransactionState) :
    (coord.drained transactionalId state).transactions.lookup txId = if txId = transactionalId then
        (coord.transactions.lookup transactionalId).map fun m =>
          { m with state := state, partitions := ∅ }
      else coord.transactions.lookup txId := by
  rw [drained, HashMap.lookup_modify]

@[simp] theorem finishTxn_stream (pid : ℤ) (committed : Bool) (base : ℤ) (part : Partition) :
    (finishTxn pid committed base part).stream = part.stream := by
  unfold finishTxn
  split <;> rfl

@[simp] theorem finishTxn_ongoingTxns (producerId : ℤ) (committed : Bool) (baseOffset : ℤ)
    (partition : Partition) :
    (finishTxn producerId committed baseOffset partition).ongoingTxns =
      partition.ongoingTxns.erase producerId := by
  unfold finishTxn
  split <;> rfl

def marked (partition : Partition) (producerId producerEpoch : ℤ) (committed : Bool) (now : ℤ) :
    Partition :=
  finishTxn producerId committed partition.stream.nextOffset
    (partition.advance (encodeControlBatch now 0 producerId producerEpoch committed))

def marker (partition : Partition) (producerId producerEpoch : ℤ) (committed : Bool) (now : ℤ) :
    Bytes :=
  partition.patchedBatch (encodeControlBatch now 0 producerId producerEpoch committed)

theorem writeMarker_cases [WalEngine W] (cl : ClusterState W) (pid epoch : ℤ)
    (committed : Bool) (now : ℤ) (tp : TopicPartition) :
    let part := cl.partitionFor tp
    let bytes := marker part pid epoch committed now
    let wal := WalEngine.append cl.tiers.wal part.stream.streamId part.stream.nextOffset bytes
    ∃ cluster', ((∃ seq, wal.2 = .ok seq) ∧
        writeMarker cl pid epoch committed now tp = some (cluster', true) ∧
        cl.Updated cluster' tp (marked part pid epoch committed now)
          { cl.tiers with
            wal := wal.1
            logCache := cl.tiers.logCache.put part.stream.streamId part.stream.nextOffset bytes }) ∨
      ((∃ e, wal.2 = .error e) ∧
        writeMarker cl pid epoch committed now tp = some (cluster', false) ∧
        cl.Updated cluster' tp
          (part.advance (encodeControlBatch now 0 pid epoch committed))
          { cl.tiers with wal := wal.1 }) := by
  intro part bytes wal
  have hcr := cl.created_getOrCreatePartition tp
  obtain ⟨tiers, result, happ, hout⟩ := part.appendRecords_batch cl.tiers
    (encodeControlBatch_wellFormed now 0 pid epoch committed)
  obtain ⟨hrecs, hupd⟩ := hcr.appendRecords happ
  rcases hout with ⟨seq, hwal, rfl, rfl⟩ | ⟨e, hwal, rfl, rfl⟩
  · exact ⟨_, Or.inl ⟨⟨seq, hwal⟩, congrArg (Option.map _) hrecs, hupd.modifyObject hcr.pointer _⟩⟩
  · exact ⟨_, Or.inr ⟨⟨e, hwal⟩, congrArg (Option.map _) hrecs, hupd⟩⟩

theorem advance_marker_ongoingTxns (part : Partition) (pid epoch : ℤ) (committed : Bool) (now : ℤ) :
    (part.advance (encodeControlBatch now 0 pid epoch committed)).ongoingTxns =
      part.ongoingTxns := by
  rw [Partition.advance_control part (encodeControlBatch_wellFormed _ _ _ _ _)
    (isControl_encodeControlBatch _ _ _ _ _)]

theorem marked_ongoingTxns (partition : Partition) (producerId producerEpoch : ℤ)
    (committed : Bool) (now : ℤ) :
    (marked partition producerId producerEpoch committed now).ongoingTxns =
      partition.ongoingTxns.erase producerId := by
  rw [marked, finishTxn_ongoingTxns, advance_marker_ongoingTxns]

def OngoingFrom (cluster cluster' : ClusterState W) : Prop :=
  ∀ tp partition' producerId first, cluster'.getPartition tp = some partition' →
    partition'.ongoingTxns.lookup producerId = some first →
      ∃ partition, cluster.getPartition tp = some partition ∧
        partition.ongoingTxns.lookup producerId = some first

theorem OngoingFrom.of_updated {tp : TopicPartition} {part : Partition} {tiers : Tiers W}
    (hupd : cluster.Updated cluster' tp part tiers)
    (hsub : ∀ producerId first, part.ongoingTxns.lookup producerId = some first →
      (cluster.partitionFor tp).ongoingTxns.lookup producerId = some first) :
    OngoingFrom cluster cluster' := by
  intro tp' part' producerId first hget hopen
  rw [hupd.partitions] at hget
  split at hget
  · rename_i hname
    subst hname
    cases hget
    exact ClusterState.ongoing_of_partitionFor (hsub producerId first hopen)
  · exact ⟨part', hget, hopen⟩

theorem writeMarker_ongoing [WalEngine W] {now : ℤ} {tp : TopicPartition} {written : Bool}
    (h : writeMarker cluster producerId producerEpoch committed now tp = some (cluster', written)) :
    OngoingFrom cluster cluster' ∧
      (∀ tp', tp' ≠ tp → cluster'.getPartition tp' = cluster.getPartition tp') ∧
      (written = true → ∃ part, cluster'.getPartition tp = some part ∧
        part.ongoingTxns.lookup producerId = none) := by
  obtain ⟨cl₁, ⟨-, hwrite, hupdated⟩ | ⟨-, hwrite, hupdated⟩⟩ :=
    writeMarker_cases cluster producerId producerEpoch committed now tp
  · obtain ⟨rfl, rfl⟩ := Prod.mk.inj (some.inj (hwrite.symm.trans h))
    refine ⟨OngoingFrom.of_updated hupdated ?_, ?_,
      fun _ => ⟨marked (cluster.partitionFor tp) producerId producerEpoch committed now, ?_, ?_⟩⟩
    · intro q first hopen
      rw [marked_ongoingTxns, HashMap.lookup_erase_ite] at hopen
      split at hopen
      · simp at hopen
      · exact hopen
    · intro tp' hne
      rw [hupdated.partitions, if_neg hne]
    · rw [hupdated.partitions, if_pos rfl]
    · rw [marked_ongoingTxns, HashMap.lookup_erase_ite, if_pos rfl]
  · obtain ⟨rfl, rfl⟩ := Prod.mk.inj (some.inj (hwrite.symm.trans h))
    refine ⟨OngoingFrom.of_updated hupdated ?_, ?_, by simp⟩
    · intro q first hopen
      rwa [advance_marker_ongoingTxns] at hopen
    · intro tp' hne
      rw [hupdated.partitions, if_neg hne]

theorem writeMarkers_spec [WalEngine W] (pid epoch : ℤ) (committed : Bool)
    (clock : TopicPartition → ℤ) (hnd : order.Nodup) (cl : ClusterState W) :
    ∃ cluster' written rest result, writeMarkers pid epoch committed clock order cl =
        some (cluster', written, result) ∧
      order = written ++ rest ∧
      (rest = [] ∧ result = .ok () ∨ rest ≠ [] ∧ result = .error .unknownServer) ∧
      OngoingFrom cl cluster' ∧
      (∀ tp, tp ∉ order → cluster'.getPartition tp = cl.getPartition tp) ∧
      ∀ tp ∈ written, ∃ part, cluster'.getPartition tp = some part ∧
        part.ongoingTxns.lookup pid = none := by
  induction order generalizing cl with
  | nil =>
    exact ⟨cl, [], [], .ok (), rfl, rfl, Or.inl ⟨rfl, rfl⟩,
      fun _ part _ _ hget hopen => ⟨part, hget, hopen⟩, fun _ _ => rfl, by simp⟩
  | cons tp tps ih =>
    obtain ⟨hfresh, hrest⟩ := List.nodup_cons.mp hnd
    obtain ⟨cl₁, hw⟩ :=
      writeMarker_cases cl pid epoch committed (clock tp) tp
    rcases hw with ⟨-, hw, -⟩ | ⟨-, hw, -⟩
    · obtain ⟨hongoing, hoths, hcl⟩ := writeMarker_ongoing hw
      obtain ⟨cluster', written, rest, result, hloop, rfl, hres, hongoing', hoths', hall⟩ :=
        ih hrest cl₁
      refine ⟨cluster', tp :: written, rest, result, ?_, rfl, hres, ?_, ?_, ?_⟩
      · rw [writeMarkers, hw]
        dsimp only
        rw [hloop]
        rfl
      · intro tp' part' q first hget hopen
        obtain ⟨part₁, hget₁, hopen₁⟩ := hongoing' tp' part' q first hget hopen
        exact hongoing tp' part₁ q first hget₁ hopen₁
      · intro tp' hout
        rw [List.mem_cons, not_or] at hout
        rw [hoths' tp' hout.2, hoths tp' hout.1]
      · rw [List.forall_mem_cons]
        refine ⟨?_, hall⟩
        rw [hoths' tp hfresh]
        exact hcl rfl
    · obtain ⟨hongoing, hoths, -⟩ := writeMarker_ongoing hw
      refine ⟨cl₁, [], tp :: tps, .error .unknownServer, ?_, rfl,
        Or.inr ⟨by simp, rfl⟩, hongoing, ?_, by simp⟩
      · rw [writeMarkers, hw]
      · intro tp' hout
        exact hoths tp' (fun heq => hout (heq ▸ List.mem_cons_self))

theorem writeMarkers_of_neverFails [WalEngine W] (hwal : WalEngine.NeverFails W)
    {clock : TopicPartition → ℤ} {written : List TopicPartition}
    (h : writeMarkers producerId producerEpoch committed clock order cluster =
      some (cluster', written, result)) : result = .ok () := by
  induction order generalizing cluster cluster' written result with
  | nil =>
    obtain ⟨-, -, hres⟩ : _ ∧ _ ∧ _ = result := by
      simpa only [writeMarkers, some.injEq, Prod.mk.injEq] using h
    exact hres.symm
  | cons tp tps ih =>
    obtain ⟨cl₁, ⟨-, hw, -⟩ | ⟨⟨e, herr⟩, -⟩⟩ :=
      writeMarker_cases cluster producerId producerEpoch committed (clock tp) tp
    · rw [writeMarkers, hw] at h
      obtain ⟨⟨cl₂, written₂, res₂⟩, hloop, heq⟩ := map_eq_some_iff.mp h
      obtain ⟨-, -, rfl⟩ : _ ∧ _ ∧ res₂ = result := by simpa only [Prod.mk.injEq] using heq
      exact ih hloop
    · obtain ⟨seq, hok⟩ := hwal cluster.tiers.wal (cluster.partitionFor tp).stream.streamId
        (cluster.partitionFor tp).stream.nextOffset
        (marker (cluster.partitionFor tp) producerId producerEpoch committed (clock tp))
      exact absurd (hok.symm.trans herr) (by simp)

theorem endTxn_eq_some [WalEngine W] {coord' : TransactionCoordinator}
    {txId : String} {clock : TopicPartition → ℤ} {written : List TopicPartition}
    (h : endTxn coordinator cluster txId producerId producerEpoch committed clock order =
      some (coord', cluster', written, result)) :
    (∃ e, coordinator.checkProducer txId producerId producerEpoch = .error e ∧
      coord' = coordinator ∧ cluster' = cluster ∧ written = [] ∧ result = .error e) ∨
    ∃ metadata state, coordinator.checkProducer txId producerId producerEpoch = .ok metadata ∧
      writeMarkers producerId producerEpoch committed clock order cluster =
        some (cluster', written, result) ∧
      coord' = coordinator.drained txId state := by
  rw [endTxn] at h
  cases hchk : coordinator.checkProducer txId producerId producerEpoch with
  | error e =>
    rw [hchk] at h
    obtain ⟨rfl, rfl, rfl, rfl⟩ : _ ∧ _ ∧ _ ∧ _ := by
      simpa only [some.injEq, Prod.mk.injEq] using h
    exact Or.inl ⟨e, rfl, rfl, rfl, rfl, rfl⟩
  | ok metadata =>
    rw [hchk] at h
    obtain ⟨⟨cl₁, written₁, res₁⟩, hloop, heq⟩ := map_eq_some_iff.mp h
    obtain ⟨rfl, rfl, rfl, rfl⟩ : _ ∧ _ ∧ _ ∧ _ := by simpa only [Prod.mk.injEq] using heq
    exact Or.inr ⟨metadata, _, rfl, hloop, rfl⟩

theorem checkProducer_ne_unknownServer (coord : TransactionCoordinator)
    (txId : String) (pid epoch : ℤ) :
    coord.checkProducer txId pid epoch ≠ .error .unknownServer := by
  unfold checkProducer
  split
  · simp
  · split_ifs <;> simp

end TransactionCoordinator

end OxideMq.Broker
