import OxideMq.Broker.Handler
import OxideMq.Broker.TopicNumbering
import OxideMq.Lib.Maintains

/-! What the handlers change. -/

namespace OxideMq.Broker

open Lib OxideMq.Core OxideMq.Protocol OxideMq.Wal OxideMq.Stream

namespace BrokerEngine

variable {W : Type} [WalEngine W]

inductive Looks : Request → String → AclOperation → Prop
  | produce {r : ProduceRequest} {t} (ht : t ∈ r.topicData) (hne : t.partitions ≠ []) :
      Looks (.produce r) t.topic .write
  | fetch {r : FetchRequest} {t} (ht : t ∈ r.topics) (hne : t.partitions ≠ []) :
      Looks (.fetch r) t.topic .read
  | listOffsets {r : ListOffsetsRequest} {t} (ht : t ∈ r.topics) (hne : t.partitions ≠ []) :
      Looks (.listOffsets r) t.topic .describe

def Administers (request : Request) : TopicAction → Prop
  | .createTopic name _ _ _ => ∃ r, request = .createTopics r ∧ ∃ t ∈ r.topics, t.name = name
  | .getOrCreatePartition _ => False
  | _ => True

inductive Changes (acl : AclAuthorizer) (principal : String) (engine : BrokerEngine W) :
    Request → BrokerEngine W → Prop
  | lookup {request topic operation} (index : ℤ) (hlooks : Looks request topic operation)
      (hpermits : acl.permits principal .topic topic operation) :
      Changes acl principal engine request
        { engine with clusterState := (engine.clusterState.getOrCreatePartition ⟨topic, index⟩).1 }
  | append {r topic ref records cluster result}
      (hpermits : acl.permits principal .topic topic .write)
      (happend : engine.clusterState.appendRecords ref records = some (cluster, result)) :
      Changes acl principal engine (.produce r) { engine with clusterState := cluster }
  | fetch {r topic index offset maxBytes isolationLevel cluster response}
      (hlooks : Looks (.fetch r) topic .read) (hpermits : acl.permits principal .topic topic .read)
      (hfetch : engine.clusterState.fetchPartition ⟨topic, index⟩ offset maxBytes isolationLevel =
        some (cluster, response)) :
      Changes acl principal engine (.fetch r) { engine with clusterState := cluster }
  | administer {request name operation} (action) (haction : Administers request action)
      (hpermits : acl.permitsOrCluster principal .topic name operation) :
      Changes acl principal engine request
        { engine with clusterState := engine.clusterState.execTopic action }
  | deleteRecords {r tp offset} (hpermits : acl.permitsOrCluster principal .topic tp.topic .delete) :
      Changes acl principal engine (.deleteRecords r)
        { engine with clusterState := (engine.clusterState.deleteRecords tp offset).1 }
  | changeGroup {request groupId coordinator}
      (hpermits : acl.permits principal .group groupId .read) :
      Changes acl principal engine request { engine with coordinator := coordinator }
  | deleteGroups {r groupIds}
      (hpermits : ∀ gid ∈ groupIds, acl.permitsOrCluster principal .group gid .delete) :
      Changes acl principal engine (.deleteGroups r)
        { engine with coordinator := (engine.coordinator.deleteGroups groupIds).1 }
  | initProducerId {r timeout} : Changes acl principal engine (.initProducerId r)
        { engine with txnCoordinator := (engine.txnCoordinator.initProducerId none timeout).1 }
  | changeTransaction {request txnId coordinator}
      (hpermits : acl.permits principal .transactionalId txnId .write) :
      Changes acl principal engine request { engine with txnCoordinator := coordinator }
  | endTxn {r : EndTxnRequest} {clock order coordinator cluster written result}
      (hpermits : acl.permits principal .transactionalId r.transactionalId .write)
      (hend : engine.txnCoordinator.endTxn engine.clusterState r.transactionalId r.producerId
        r.producerEpoch r.committed clock order = some (coordinator, cluster, written, result)) :
      Changes acl principal engine (.endTxn r)
        { engine with txnCoordinator := coordinator, clusterState := cluster }
  | createAcls {r : CreateAclsRequest}
      (hpermits : acl.permits principal .cluster "kafka-cluster" .alter) :
      Changes acl principal engine (.createAcls r)
        { engine with authorizer := (engine.authorizer.createAcls r.creations).1 }
  | deleteAcls {r : DeleteAclsRequest}
      (hpermits : acl.permits principal .cluster "kafka-cluster" .alter) :
      Changes acl principal engine (.deleteAcls r)
        { engine with authorizer := (engine.authorizer.deleteAcls r.filters).1 }

def Keeps (I : BrokerEngine W → Prop) (acl : AclAuthorizer) (principal : String)
    (request : Request) : Prop :=
  ∀ engine engine', I engine → Changes acl principal engine request engine' → I engine'

end BrokerEngine

namespace Handler

open BrokerEngine

variable {W : Type} {I : BrokerEngine W → Prop} {acl : AclAuthorizer} {principal : String}
variable {α : Type}

theorem preserves_onCluster {f : ClusterState W → ClusterState W × α}
    (hf : ∀ eng, I eng → I { eng with clusterState := (f eng.clusterState).1 }) :
    Preserves I (onCluster f) :=
  .modifyGet hf

theorem preserves_onClusterOrAbort {f : ClusterState W → Option (ClusterState W × α)}
    (hf : ∀ eng cl a, I eng → f eng.clusterState = some (cl, a) →
      I { eng with clusterState := cl }) : Preserves I (onClusterOrAbort f) := by
  intro eng heng a eng' hrun
  cases hres : f eng.clusterState with
  | none => simp [onClusterOrAbort, hres] at hrun
  | some out =>
    obtain ⟨cl, b⟩ := out
    have hend : (onClusterOrAbort f).run eng = some (b, { eng with clusterState := cl }) := by
      simp [onClusterOrAbort, hres]
    cases hend.symm.trans hrun
    exact ⟨hf _ _ _ heng hres, trivial⟩

theorem preserves_object (ref : ℕ) : Preserves I (object ref) :=
  .get_bind fun _ _ => .lift _

theorem preserves_guarded {ask : Handler W Bool} {permitted : Bool} {refused : α}
    {m : Handler W α} (hask : Yields I ask (· = permitted))
    (hm : permitted = true → Preserves I m) :
    Preserves I (do if !(← ask) then return refused else m) := by
  refine hask.bind ?_
  rintro _ rfl
  exact Preserves.ite (fun _ => .pure _) fun hpermitted => hm (by simpa using hpermitted)

theorem preserves_topics {T P R A : Type} {topics : List T} {ask : T → Handler W Bool}
    {permitted : T → Bool} {parts : T → List P} {step : Bool → T → P → Handler W R}
    {answer : T → List R → A} (hask : ∀ t, Yields I (ask t) (· = permitted t))
    (hstep : ∀ t ∈ topics, ∀ p ∈ parts t, Preserves I (step (permitted t) t p)) :
    Preserves I (topics.mapM fun t => do
      let isAuthorized ← ask t
      return answer t (← (parts t).mapM (step isAuthorized t))) := by
  refine .mapM fun t ht => (hask t).bind ?_
  rintro _ rfl
  exact (Preserves.mapM fun p hp => hstep t ht p hp).bind fun _ => .pure _

theorem preserves_findCoordinator (r : FindCoordinatorRequest) :
    Preserves I (findCoordinator principal r) := by
  refine .bind ?_ fun isAuthorized => .get_bind fun _ _ => ?_
  · split
    · exact .get_bind fun _ _ => .pure _
    · exact .get_bind fun _ _ => .pure _
    · exact .pure _
  · exact .ite (fun _ => .pure _) fun _ => .pure _

theorem run_endTxn [WalEngine W] (env : Surroundings) (req : EndTxnRequest) (eng : BrokerEngine W) :
    (endTxn env principal req).run eng =
      if !eng.authorizer.permits principal .transactionalId req.transactionalId .write then
        some (⟨0, .transactionalIdAuthorizationFailed⟩, eng)
      else
        (eng.txnCoordinator.endTxn eng.clusterState req.transactionalId
          req.producerId req.producerEpoch req.committed env.markerTime
          (env.drain (((eng.txnCoordinator.transactions.lookup req.transactionalId).map
            TransactionMetadata.partitions).getD ∅))).map
          fun (txnCoordinator, cluster, _, result) =>
            (⟨0, codeOf result⟩,
              { eng with txnCoordinator := txnCoordinator, clusterState := cluster }) := by
  rw [endTxn, StateT.run_bind]
  simp only [permits, StateT.run_bind, StateT.run_get, pure_bind, StateT.run_pure]
  split
  · rfl
  · simp only [StateT.run_bind, StateT.run_get, pure_bind]
    generalize TransactionCoordinator.endTxn (W := W) eng.txnCoordinator _ _ _ _ _ _ _ = out
    cases out with
    | none => rfl
    | some ended => rfl

section Requests

variable (hacl : ∀ engine, I engine → engine.authorizer = acl)

include hacl

theorem yields_permits (kind : AclResourceType) (rname : String) (op : AclOperation) :
    Yields I (permits principal kind rname op) (· = acl.permits principal kind rname op) := by
  refine Ensures.get.yields.bind fun eng heng => Ensures.yields (.pure ?_)
  rw [hacl eng heng]

theorem yields_permitsOrCluster (kind : AclResourceType) (rname : String) (op : AclOperation) :
    Yields I (permitsOrCluster principal kind rname op)
      (· = acl.permitsOrCluster principal kind rname op) := by
  refine Ensures.get.yields.bind fun eng heng => Ensures.yields (.pure ?_)
  rw [hacl eng heng]

theorem yields_permitsConfigs (resourceType : ℤ) (resourceName : String)
    (operation : AclOperation) :
    Yields I (permitsConfigs principal resourceType resourceName operation) fun answer =>
      answer.1 = true → resourceType = 2 →
        acl.permitsOrCluster principal .topic resourceName operation := by
  unfold permitsConfigs
  split
  · refine (yields_permitsOrCluster hacl .topic resourceName operation).bind ?_
    rintro _ rfl
    exact Ensures.yields (.pure fun hperm _ => hperm)
  · exact (yields_permits hacl _ _ _).bind fun _ _ => Ensures.yields (.pure fun _ h => nomatch h)
  · exact Ensures.yields (.pure fun _ h => absurd h ‹_›)

variable [WalEngine W]

theorem preserves_produce (env : Surroundings) {r : ProduceRequest}
    (hk : Keeps I acl principal (.produce r)) : Preserves I (produce env principal r) := by
  refine .bind (preserves_topics (fun t => yields_permits hacl _ _ _) fun t ht p hp => ?_)
    fun _ => .pure _
  unfold producePartition
  refine .ite (fun _ => .pure _) fun hauthorized => ?_
  have hperm : acl.permits principal .topic t.topic .write := by simpa using hauthorized
  have hlooks := Looks.produce ht (List.ne_nil_of_mem hp)
  refine .bind (preserves_onCluster fun _ h => hk _ _ h (.lookup _ hlooks hperm)) fun ref => ?_
  refine .ite (fun _ => .pure _) fun _ => ?_
  refine (Preserves.lift _).bind fun plain => ?_
  split
  · exact .pure _
  · refine .ite (fun _ => .pure _) fun _ => ?_
    refine .bind (preserves_onClusterOrAbort fun _ _ _ h happ =>
      hk _ _ h (.append hperm happ)) fun res => ?_
    split
    · exact .pure _
    · exact (preserves_object ref).bind fun _ => .pure _

theorem preserves_fetch (env : Surroundings) {r : FetchRequest}
    (hk : Keeps I acl principal (.fetch r)) : Preserves I (fetch env principal r) := by
  refine .bind (preserves_topics (fun t => yields_permits hacl _ _ _) fun t ht p hp => ?_)
    fun _ => .pure _
  unfold fetchPartition
  refine .ite (fun _ => .pure _) fun hauthorized => ?_
  have hperm : acl.permits principal .topic t.topic .read := by simpa using hauthorized
  have hlooks := Looks.fetch ht (List.ne_nil_of_mem hp)
  refine .bind (.ite (fun _ => ?_) fun _ => ?_) fun response => ?_
  · refine .bind (preserves_onCluster fun _ h => hk _ _ h (.lookup _ hlooks hperm)) fun ref => ?_
    exact (preserves_object ref).bind fun _ => .pure _
  · exact preserves_onClusterOrAbort fun _ _ _ h hfetch =>
      hk _ _ h (.fetch hlooks hperm hfetch)
  · exact (Preserves.lift _).bind fun _ => .pure _

theorem preserves_listOffsets {r : ListOffsetsRequest}
    (hk : Keeps I acl principal (.listOffsets r)) : Preserves I (listOffsets principal r) := by
  refine .bind (preserves_topics (fun t => yields_permits hacl _ _ _) fun t ht p hp => ?_)
    fun _ => .pure _
  unfold listOffsetsPartition
  refine .ite (fun _ => .pure _) fun hauthorized => ?_
  have hperm : acl.permits principal .topic t.topic .describe := by simpa using hauthorized
  refine .bind (preserves_onCluster fun _ h =>
    hk _ _ h (.lookup _ (.listOffsets ht (List.ne_nil_of_mem hp)) hperm)) fun ref => ?_
  exact (preserves_object ref).bind fun _ => .pure _

theorem preserves_offsetCommit {r : OffsetCommitRequest}
    (hk : Keeps I acl principal (.offsetCommit r)) :
    Preserves I (offsetCommit principal r) := by
  refine (yields_permits hacl .group r.groupId .read).bind ?_
  rintro _ rfl
  refine Preserves.bind (.mapM fun t _ => .bind (.mapM fun p _ => ?_) fun _ => .pure _)
    fun _ => .pure _
  refine .ite (fun _ => .pure _) fun hauthorized => ?_
  refine .bind (.modifyGet fun _ h => ?_) fun _ => .pure _
  exact hk _ _ h (.changeGroup (by simpa using hauthorized))

theorem preserves_deleteGroups {r : DeleteGroupsRequest}
    (hk : Keeps I acl principal (.deleteGroups r)) :
    Preserves I (deleteGroups principal r) := by
  have hsplit : Yields I (splitGroups principal .delete r.groupsNames) fun answer =>
      ∀ gid ∈ answer.1, acl.permitsOrCluster principal .group gid .delete := by
    refine Ensures.get.yields.bind fun eng heng => Ensures.yields (.pure fun gid hgid => ?_)
    rw [List.partition_eq_filter_filter, hacl eng heng] at hgid
    exact (List.mem_filter.mp hgid).2
  exact hsplit.bind fun _ hperm =>
    Preserves.modifyGet fun _ h => hk _ _ h (.deleteGroups hperm)

theorem preserves_initProducerId {r : InitProducerIdRequest}
    (hk : Keeps I acl principal (.initProducerId r)) :
    Preserves I (initProducerId principal r) := by
  obtain ⟨txId, timeout, pid, epoch⟩ := r
  cases txId with
  | some txnId =>
    refine preserves_guarded (yields_permits hacl _ _ _) fun hperm => ?_
    exact .modifyGet fun _ h => hk _ _ h (.changeTransaction hperm)
  | none => exact .modifyGet fun _ h => hk _ _ h .initProducerId

theorem preserves_endTxn (env : Surroundings) {r : EndTxnRequest}
    (hk : Keeps I acl principal (.endTxn r)) : Preserves I (endTxn env principal r) := by
  intro eng heng resp eng' hrun
  rw [run_endTxn] at hrun
  split at hrun
  · cases hrun
    exact ⟨heng, trivial⟩
  · rename_i hperm
    obtain ⟨⟨coord, cl, written, res⟩, hend, heq⟩ := Option.map_eq_some_iff.mp hrun
    cases heq
    exact ⟨hk _ _ heng (.endTxn (by simpa [hacl eng heng] using hperm) hend), trivial⟩

theorem preserves_createTopics {r : CreateTopicsRequest}
    (hk : Keeps I acl principal (.createTopics r)) :
    Preserves I (createTopics principal r) := by
  refine .bind (.mapM fun t ht => ?_) fun _ => .pure _
  refine preserves_guarded (yields_permitsOrCluster hacl _ _ _) fun hperm => ?_
  refine .ite (fun _ => .get_bind fun _ _ => .pure _) fun _ => ?_
  refine .bind (preserves_onCluster fun _ h =>
    hk _ _ h (.administer (.createTopic _ _ _ _) ⟨r, rfl, t, ht, rfl⟩ hperm)) fun res => ?_
  split
  · exact .pure _
  · exact .pure _

theorem preserves_deleteTopics {r : DeleteTopicsRequest}
    (hk : Keeps I acl principal (.deleteTopics r)) :
    Preserves I (deleteTopics principal r) := by
  refine .bind (.mapM fun name _ => ?_) fun _ => .pure _
  refine preserves_guarded (yields_permitsOrCluster hacl _ _ _) fun hperm => ?_
  exact .bind (preserves_onCluster fun _ h =>
    hk _ _ h (.administer (.deleteTopic name) trivial hperm)) fun _ => .pure _

theorem preserves_createPartitions {r : CreatePartitionsRequest}
    (hk : Keeps I acl principal (.createPartitions r)) :
    Preserves I (createPartitions principal r) := by
  refine .bind (.mapM fun t _ => ?_) fun _ => .pure _
  refine preserves_guarded (yields_permitsOrCluster hacl _ _ _) fun hperm => ?_
  refine .bind (preserves_onCluster fun _ h =>
    hk _ _ h (.administer (.createPartitions _ _ _ _) trivial hperm)) fun res => ?_
  split
  · exact .pure _
  · exact .pure _

theorem preserves_deleteRecords {r : DeleteRecordsRequest}
    (hk : Keeps I acl principal (.deleteRecords r)) :
    Preserves I (deleteRecords principal r) := by
  refine .bind (preserves_topics (fun t => yields_permitsOrCluster hacl _ _ _) fun t _ p _ => ?_)
    fun _ => .pure _
  refine .ite (fun _ => .pure _) fun hauthorized => ?_
  refine .bind (preserves_onCluster fun _ h =>
    hk _ _ h (.deleteRecords (by simpa using hauthorized))) fun res => ?_
  split
  · exact .pure _
  · exact .pure _

theorem preserves_alterConfigs {r : AlterConfigsRequest}
    (hk : Keeps I acl principal (.alterConfigs r)) :
    Preserves I (alterConfigs principal r) := by
  refine .bind (.mapM fun res _ => ?_) fun _ => .pure _
  refine (yields_permitsConfigs hacl res.resourceType _ _).bind ?_
  rintro ⟨isAuth, errCode⟩ hpermits
  refine Preserves.ite (fun _ => .pure _) fun hauthorized => ?_
  split
  · refine .get_bind fun engine _ => ?_
    refine .ite (fun _ => .pure _) fun _ => .ite (fun _ => .pure _) fun _ => ?_
    refine .bind (preserves_onCluster fun _ h => hk _ _ h (.administer
      (.updateTopicConfigs _ _) trivial (hpermits (by simpa using hauthorized) ‹_›))) fun result => ?_
    split
    · exact .pure _
    · exact .pure _
  · exact .pure _
  · exact .pure _

omit [WalEngine W]

theorem preserves_describeConfigs (r : DescribeConfigsRequest) :
    Preserves I (describeConfigs principal r) := by
  refine .bind (.mapM fun res _ => ?_) fun _ => .pure _
  refine (yields_permitsConfigs hacl res.resourceType _ _).bind ?_
  rintro ⟨isAuth, errCode⟩ -
  refine Preserves.ite (fun _ => .pure _) fun _ => .get_bind fun engine _ => ?_
  split
  · split
    · exact .pure _
    · exact .pure _
  · exact .pure _
  · exact .pure _

theorem preserves_dispatch [WalEngine W] (env : Surroundings) {req : Request}
    (hreq : ∀ r, req ≠ .metadata r) (hk : Keeps I acl principal req) :
    Preserves I (dispatch env principal req) := by
  have hans {α : Type} (f : α → Option Response) {m : Handler W α} (hm : Preserves I m) :
      Preserves I (do return f (← m)) :=
    hm.bind fun a => .pure (f a)
  -- requests that only read
  have hreads {α : Type} {kind : AclResourceType} {name : String}
      {op : AclOperation} {refused : α} {answer : BrokerEngine W → α} :
      Preserves I (do
        if !(← permits principal kind name op) then return refused
        else return answer (← get)) :=
    preserves_guarded (yields_permits hacl _ _ _) fun _ => .get_bind fun _ _ => .pure _
  cases req with
  | metadata r => exact absurd rfl (hreq r)
  | apiVersions _ => exact .pure _
  | saslHandshake _ => exact .pure _
  | saslAuthenticate _ => exact .pure _
  | produce r => exact hans _ (preserves_produce hacl env hk)
  | fetch r => exact hans _ (preserves_fetch hacl env hk)
  | listOffsets r => exact hans _ (preserves_listOffsets hacl hk)
  | offsetCommit r => exact hans _ (preserves_offsetCommit hacl hk)
  | offsetFetch r => exact hans _ hreads
  | findCoordinator r => exact hans _ (preserves_findCoordinator r)
  | heartbeat r => exact hans _ hreads
  | leaveGroup r =>
    refine hans _ (preserves_guarded (yields_permits hacl _ _ _) fun hperm => ?_)
    exact .modifyGet fun _ h => hk _ _ h (.changeGroup hperm)
  | describeGroups r =>
    exact hans _ (.bind (.get_bind fun _ _ => .pure _) fun _ => .get_bind fun _ _ => .pure _)
  | listGroups => exact hans _ hreads
  | createTopics r => exact hans _ (preserves_createTopics hacl hk)
  | deleteTopics r => exact hans _ (preserves_deleteTopics hacl hk)
  | deleteRecords r => exact hans _ (preserves_deleteRecords hacl hk)
  | initProducerId r => exact hans _ (preserves_initProducerId hacl hk)
  | addPartitionsToTxn r =>
    refine hans _ (.bind ?_ fun _ => .pure _)
    refine preserves_guarded (yields_permits hacl _ _ _) fun hperm => ?_
    exact .modifyGet fun _ h => hk _ _ h (.changeTransaction hperm)
  | addOffsetsToTxn r => exact hans _ hreads
  | endTxn r => exact hans _ (preserves_endTxn hacl env hk)
  | describeAcls r => exact hans _ hreads
  | createAcls r =>
    refine hans _ (preserves_guarded (yields_permits hacl _ _ _) fun hperm => ?_)
    exact .modifyGet fun _ h => hk _ _ h (.createAcls hperm)
  | deleteAcls r =>
    refine hans _ (preserves_guarded (yields_permits hacl _ _ _) fun hperm => ?_)
    exact .modifyGet fun _ h => hk _ _ h (.deleteAcls hperm)
  | describeConfigs r => exact hans _ (preserves_describeConfigs hacl r)
  | alterConfigs r => exact hans _ (preserves_alterConfigs hacl hk)
  | createPartitions r => exact hans _ (preserves_createPartitions hacl hk)
  | deleteGroups r => exact hans _ (preserves_deleteGroups hacl hk)

end Requests

end Handler

end OxideMq.Broker
