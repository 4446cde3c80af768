import OxideMq.Broker.HandlerChanges

/-! Requests of a principal who is permitted nothing. -/

namespace OxideMq.Broker

open Lib OxideMq.Core OxideMq.Protocol OxideMq.Wal OxideMq.Stream

def AclAuthorizer.Denies (acl : AclAuthorizer) (principal : String) : Prop :=
  ∀ resourceType resourceName operation,
    acl.authorize principal "*" resourceType resourceName operation = false

namespace BrokerEngine

variable {W : Type}

structure Unchanged (engine engine' : BrokerEngine W) : Prop where
  topics : engine'.clusterState.topics = engine.clusterState.topics
  partitions : engine'.clusterState.partitions = engine.clusterState.partitions
  objects : engine'.clusterState.heap = engine.clusterState.heap
  tiers : engine'.clusterState.tiers = engine.clusterState.tiers
  groups : engine'.coordinator.groups = engine.coordinator.groups
  transactions : engine'.txnCoordinator.transactions = engine.txnCoordinator.transactions
  bindings : engine'.authorizer.bindings = engine.authorizer.bindings

structure Kept (engine engine' : BrokerEngine W) : Prop where
  clusterState : engine'.clusterState = engine.clusterState
  coordinator : engine'.coordinator = engine.coordinator
  transactions : engine'.txnCoordinator.transactions = engine.txnCoordinator.transactions
  authorizer : engine'.authorizer = engine.authorizer

theorem Kept.refl (engine : BrokerEngine W) : Kept engine engine := ⟨rfl, rfl, rfl, rfl⟩

theorem Kept.unchanged {engine engine' : BrokerEngine W} (h : Kept engine engine') :
    Unchanged engine engine' :=
  ⟨by rw [h.clusterState], by rw [h.clusterState], by rw [h.clusterState], by rw [h.clusterState],
    by rw [h.coordinator], h.transactions, by rw [h.authorizer]⟩

end BrokerEngine

namespace Handler

open BrokerEngine

variable {W : Type} [WalEngine W] {engine : BrokerEngine W} {principal : String}

theorem keeps_kept (hdenied : engine.authorizer.Denies principal) (request : Request) :
    Keeps (Kept engine) engine.authorizer principal request := by
  have hperm {resourceType : AclResourceType} {name : String} {operation : AclOperation} :
      ¬engine.authorizer.permits principal resourceType name operation := by
    rw [AclAuthorizer.permits, hdenied]
    exact Bool.false_ne_true
  have hcl {resourceType : AclResourceType} {name : String} {operation : AclOperation} :
      ¬engine.authorizer.permitsOrCluster principal resourceType name operation :=
    fun h => (Bool.or_eq_true_iff.mp h).elim hperm hperm
  intro engine₁ engine₂ hkept hchanges
  cases hchanges with
  | lookup _ _ h | append h _ | fetch _ h _ | changeGroup h | changeTransaction h | endTxn h _
  | createAcls h | deleteAcls h => exact absurd h hperm
  | administer _ _ h | deleteRecords h => exact absurd h hcl
  | deleteGroups h =>
    -- the list is empty, and nothing is deleted
    rw [List.eq_nil_iff_forall_not_mem.mpr fun gid hgid => hcl (h gid hgid)]
    exact ⟨hkept.clusterState, hkept.coordinator, hkept.transactions, hkept.authorizer⟩
  | initProducerId =>
    exact ⟨hkept.clusterState, hkept.coordinator, hkept.transactions, hkept.authorizer⟩

theorem preserves_kept (hdenied : engine.authorizer.Denies principal) (env : Surroundings)
    {req : Request} (hreq : ∀ r, req ≠ .metadata r) :
    Preserves (Kept engine) (dispatch env principal req) :=
  preserves_dispatch (fun _ h => h.authorizer) env hreq (keeps_kept hdenied req)

omit [WalEngine W]

theorem run_metadata (eng : BrokerEngine W) (prin : String) (req : MetadataRequest) :
    ∃ resp, (metadata prin req).run eng = some (resp, { eng with
        clusterState := (eng.clusterState.buildMetadataWithAutoCreate eng.identity
          req.topics req.allowAutoTopicCreation).1 }) := by
  let built := eng.clusterState.buildMetadataWithAutoCreate eng.identity req.topics
    req.allowAutoTopicCreation
  have hloop : Maintains (· = { eng with clusterState := built.1 })
      (built.2.topics.mapM fun topic => do
        if ← permits prin .topic topic.name .describe then return topic
        else return { topic with errorCode := .topicAuthorizationFailed, partitions := [] }) := by
    apply Maintains.mapM
    intro topic _
    refine Maintains.bind (Ensures.get.bind fun _ _ => Maintains.pure _) fun isAuthorized => ?_
    cases isAuthorized
    · exact .pure _
    · exact .pure _
  obtain ⟨topics, _, hrun, rfl, -⟩ := hloop _ rfl
  refine ⟨{ built.2 with topics := topics }, ?_⟩
  simp only [metadata, StateT.run_bind, StateT.run_get, pure_bind, run_onCluster,
    Option.bind_eq_bind, Option.bind_some]
  rw [hrun]
  rfl

end Handler

namespace BrokerEngine

variable {W : Type}

def CreatesTopic (auth : Sasl.SaslAuthenticator) (engine : BrokerEngine W)
    (session : Sasl.ConnectionAuthState) (header : RequestHeader) (body : Bytes) : Prop :=
  ∃ request rest,
    (decodeRequest auth.requireSasl session.outline header).run body =
        .ok (.metadata request) rest ∧
      engine.clusterState.AutoCreates request.topics request.allowAutoTopicCreation

theorem not_createsTopic {auth : Sasl.SaslAuthenticator} {eng : BrokerEngine W}
    {sess : Sasl.ConnectionAuthState} {header : RequestHeader} {body : Bytes}
    (hkey : header.apiKey ≠ .metadata) : ¬CreatesTopic auth eng sess header body := by
  rintro ⟨req, rest, hdec, -⟩
  rw [decodeRequest] at hdec
  split at hdec
  · exact hkey (Request.apiKey_of_decode hdec).symm
  · cases hdec

variable [WalEngine W]

theorem unchanged_handleRequest {env : Surroundings} {auth : Sasl.SaslAuthenticator}
    {crypto : Sasl.Crypto} {draws : Sasl.Draws} {engine engine' : BrokerEngine W}
    {session session' : Sasl.ConnectionAuthState} {request : Request}
    {result : Except OxideMqError (Sasl.Reply (Option Response))}
    (hdenied : engine.authorizer.Denies (session.principal.getD "ANONYMOUS"))
    (hreq : ∀ r, request ≠ .metadata r)
    (h : Sasl.handleRequest (execute env) auth crypto draws engine session request =
      some (engine', session', result)) :
    engine.Unchanged engine' := by
  unfold Sasl.handleRequest at h
  split at h
  · cases h
    exact (Kept.refl engine).unchanged
  · cases h
    exact (Kept.refl engine).unchanged
  · obtain ⟨⟨engine₁, outcome⟩, hexecute, heq⟩ := Option.map_eq_some_iff.mp h
    cases heq
    obtain ⟨⟨response, engine₂⟩, hrun, hout⟩ := Option.map_eq_some_iff.mp hexecute
    cases hout
    exact (Handler.preserves_kept hdenied env hreq engine (Kept.refl engine) _ _ hrun).1.unchanged

theorem handleRequest_metadata (env : Surroundings) (auth : Sasl.SaslAuthenticator)
    (crypto : Sasl.Crypto) (draws : Sasl.Draws) (eng : BrokerEngine W)
    (sess : Sasl.ConnectionAuthState) (req : MetadataRequest) :
    ∃ res, Sasl.handleRequest (execute env) auth crypto draws eng sess (.metadata req) =
      some ({ eng with
          clusterState := (eng.clusterState.buildMetadataWithAutoCreate eng.identity
            req.topics req.allowAutoTopicCreation).1 }, sess, res) := by
  obtain ⟨resp, hrun⟩ :=
    Handler.run_metadata eng (sess.principal.getD "ANONYMOUS") req
  refine ⟨.ok (.other (some (.metadata resp))), ?_⟩
  rw [Sasl.handleRequest, execute, Handler.dispatch, StateT.run_bind, hrun]
  · rfl
  · exact nofun
  · exact nofun

theorem denied_unchanged_iff (env : Surroundings) (auth : Sasl.SaslAuthenticator)
    (crypto : Sasl.Crypto) (draws : Sasl.Draws) (engine : BrokerEngine W)
    (session : Sasl.ConnectionAuthState) (header : RequestHeader) (body : Bytes)
    (hdenied : engine.authorizer.Denies (session.principal.getD "ANONYMOUS")) :
    (∀ engine' session' result,
      handleConnectionRequest env auth crypto draws engine session header body =
        some (engine', session', result) → engine.Unchanged engine') ↔
      ¬engine.CreatesTopic auth session header body := by
  unfold handleConnectionRequest CreatesTopic
  cases hdec : (decodeRequest auth.requireSasl session.outline header).run body with
  | err e =>
    refine iff_of_true ?_ (by rintro ⟨_, _, h, -⟩; cases h)
    intro engine' session' result h
    cases h
    exact (Kept.refl engine).unchanged
  | panic =>
    refine iff_of_true ?_ (by rintro ⟨_, _, h, -⟩; cases h)
    intro engine' session' result h
    cases h
  | ok req rest =>
    by_cases hmetadata : ∃ r, req = .metadata r
    · obtain ⟨r, rfl⟩ := hmetadata
      obtain ⟨result, hhand⟩ := handleRequest_metadata env auth crypto draws engine session r
      constructor
      · rintro hunchanged ⟨_, _, hok, hcreates⟩
        obtain ⟨hr, -⟩ := Outcome.ok.inj hok
        obtain rfl := Request.metadata.inj hr
        exact ClusterState.buildMetadata_of_autoCreates engine.identity hcreates
          (hunchanged _ _ _ hhand).partitions
      · intro hnot engine' session' res' h
        cases hhand.symm.trans h
        have hsame := ClusterState.buildMetadata_of_not_autoCreates engine.identity
          fun hcreates => hnot ⟨r, rest, rfl, hcreates⟩
        exact Kept.unchanged ⟨hsame, rfl, rfl, rfl⟩
    · have hreq : ∀ r, req ≠ .metadata r := fun r h => hmetadata ⟨r, h⟩
      refine iff_of_true (fun _ _ _ h => unchanged_handleRequest hdenied hreq h) ?_
      rintro ⟨r, _, hok, -⟩
      exact hreq r (Outcome.ok.inj hok).1

noncomputable def calm : Surroundings where
  libs := ⟨fun _ => .ok, fun _ => .ok⟩
  enableSchemaValidation := false
  validateRecordPayloads _ := true
  produceFault := false
  fetchFault := false
  recompress := some
  appendTime _ _ := 0
  markerTime _ := 0
  drain := Finset.toList
  nodup_drain := Finset.nodup_toList
  toFinset_drain := Finset.toList_toFinset

def lockedEngine : BrokerEngine MemoryWal :=
  ⟨ClusterState.new ⟨MemoryWal.new, ∅, LogCache.new 64, BlockCache.new 64⟩,
    ⟨1, "localhost", 9092, "cluster"⟩, GroupCoordinator.new, TransactionCoordinator.new,
    AclAuthorizer.new true [] false⟩

theorem lockedEngine_denies (principal : String) : lockedEngine.authorizer.Denies principal :=
  fun _ _ _ => rfl

noncomputable def malloryAsks (header : RequestHeader) (body : Bytes) :
    Option (BrokerEngine MemoryWal × Sasl.ConnectionAuthState ×
      Except OxideMqError (Sasl.Reply (Option Response))) :=
  handleConnectionRequest calm Sasl.Connection.plainOnly Sasl.Connection.plainCrypto ⟨none, none⟩
    lockedEngine (.authenticated "mallory") header body

def createBody : Bytes :=
  [0, 0, 0, 1, 0, 1, 116, 0, 0, 0, 1, 0, 1, 0, 0, 0, 0, 0, 0, 0, 0, 0, 0, 0, 0]

theorem denied_unchanged_creation : ∃ engine' session' result,
      malloryAsks ⟨.createTopics, 0, 1, none⟩ createBody = some (engine', session', result) ∧
        lockedEngine.Unchanged engine' := by
  have hans : (malloryAsks ⟨.createTopics, 0, 1, none⟩ createBody).isSome = true := by
    decide +kernel
  obtain ⟨⟨engine', session', result⟩, hhand⟩ := Option.isSome_iff_exists.mp hans
  have hunchanged := (denied_unchanged_iff calm Sasl.Connection.plainOnly
    Sasl.Connection.plainCrypto ⟨none, none⟩ lockedEngine (.authenticated "mallory")
    ⟨.createTopics, 0, 1, none⟩ createBody (lockedEngine_denies _)).mpr (not_createsTopic nofun)
  exact ⟨engine', session', result, hhand, hunchanged engine' session' result hhand⟩

def metadataBody : Bytes := [0, 0, 0, 1, 0, 1, 116, 1]

theorem denied_metadata_creates_topic : lockedEngine.authorizer.Denies "mallory" ∧
      ∃ engine' session' result,
        malloryAsks ⟨.metadata, 4, 1, none⟩ metadataBody = some (engine', session', result) ∧
        lockedEngine.clusterState.partitions.lookup ⟨"t", 0⟩ = none ∧
        engine'.clusterState.partitions.lookup ⟨"t", 0⟩ = some 0 := by
  refine ⟨lockedEngine_denies "mallory", ?_⟩
  have hcr : (malloryAsks ⟨.metadata, 4, 1, none⟩ metadataBody).map
      (fun out => out.1.clusterState.partitions.lookup ⟨"t", 0⟩) = some (some 0) := by
    decide +kernel
  obtain ⟨⟨engine', session', result⟩, hhand, hl⟩ := Option.map_eq_some_iff.mp hcr
  exact ⟨engine', session', result, hhand, rfl, hl⟩

end BrokerEngine

end OxideMq.Broker
