import OxideMq.Broker.DeniedRequests

/-! The names of topics. -/

namespace OxideMq.Broker

open Lib OxideMq.Core OxideMq.Protocol OxideMq.Wal OxideMq.Stream Option TransactionCoordinator

namespace ClusterState

variable {W : Type} {cluster cluster' : ClusterState W} {name : String}

/-- Every topic in one of the two maps has a name that `create_topic` accepts. -/
def NamesLegal (cluster : ClusterState W) : Prop :=
  ∀ name, cluster.hasTopic name → validName name

def TopicsIn (cluster : ClusterState W) (P : String → Prop) : Prop :=
  ∀ name, cluster.hasTopic name → P name

namespace TopicsIn

variable {P : String → Prop}

theorem of_tables (h : cluster.TopicsIn P) (htopics : cluster'.topics = cluster.topics)
    (hpartitions : cluster'.partitions = cluster.partitions) : cluster'.TopicsIn P := by
  intro name ht
  rw [hasTopic, htopics, hpartitions] at ht
  exact h name ht

theorem getOrCreatePartition (h : cluster.TopicsIn P) {topic : String} (hname : P topic)
    (index : ℤ) : (cluster.getOrCreatePartition ⟨topic, index⟩).1.TopicsIn P := by
  intro name ht
  rw [hasTopic_iff, topics_getOrCreatePartition] at ht
  rcases ht with hreg | ⟨i, hex⟩
  · exact h name (hasTopic_iff.mpr (Or.inl hreg))
  · rcases (exists_getOrCreatePartition cluster _ name i).mp hex with hold | ⟨rfl, -⟩
    · exact h name (hasTopic_iff.mpr (Or.inr ⟨i, hold⟩))
    · exact hname

theorem registers (h : cluster.TopicsIn P) {added : ℤ → Prop} {count : ℤ}
    (hregisters : Registers cluster cluster' name added count) (hname : P name) :
    cluster'.TopicsIn P := by
  intro name' ht
  by_cases heq : name' = name
  · exact heq ▸ hname
  · apply h name'
    rw [hasTopic_iff, hregisters.others name' heq] at ht
    refine hasTopic_iff.mpr (ht.imp_right ?_)
    rintro ⟨i, hexists⟩
    exact ⟨i, ((hregisters.existing name' i).mp hexists).resolve_right fun hnew => heq hnew.1⟩

theorem createTopic (h : cluster.TopicsIn P) {name : String} (hname : validName name → P name)
    (num repl : ℤ) (configs : HashMap String String) :
    (cluster.createTopic name num repl configs).1.TopicsIn P := by
  by_cases hvalid : validName name
  · rcases createTopic_cases cluster name num repl configs with
      hsame | ⟨parts, -, -, -, hregisters⟩
    · rw [hsame]
      exact h
    · exact h.registers hregisters (hname hvalid)
  · rw [ClusterState.createTopic, if_pos (by simpa using hvalid)]
    exact h

theorem deleteTopic (h : cluster.TopicsIn P) (name : String) :
    (cluster.deleteTopic name).1.TopicsIn P := by
  intro name' ht
  apply h name'
  rw [hasTopic_iff, topics_deleteTopic] at ht
  rw [hasTopic_iff]
  refine ht.imp (fun hreg => ?_) ?_
  · split_ifs at hreg
    · cases hreg
    · exact hreg
  · rintro ⟨i, hexists⟩
    exact ⟨i, ((exists_deleteTopic cluster name name' i).mp hexists).2⟩

theorem createPartitions (h : cluster.TopicsIn P) (name : String) (cnt : ℤ)
    (asgs : Option ℕ) (valOnly : Bool) :
    (cluster.createPartitions name cnt asgs valOnly).1.TopicsIn P := by
  by_cases hadm : cluster.AdmitsPartitions name cnt asgs valOnly
  · exact h.registers (registers_createPartitions hadm) (h name hadm.1)
  · rw [createPartitions_of_not_admitted hadm]
    exact h

theorem updateTopicConfigs (h : cluster.TopicsIn P) (name : String)
    (es : List (String × Option String)) :
    (cluster.updateTopicConfigs name es).1.TopicsIn P := by
  by_cases ht : cluster.hasTopic name
  · exact h.registers (registers_updateTopicConfigs ht es) (h name ht)
  · rw [updateTopicConfigs_of_no_topic ht]
    exact h

theorem deleteRecords (h : cluster.TopicsIn P) (tp : TopicPartition) (before : ℤ) :
    (cluster.deleteRecords tp before).1.TopicsIn P := by
  unfold ClusterState.deleteRecords
  split
  · exact h
  · rename_i part _
    dsimp only
    generalize (if before = -1 then part.highWatermark else before) = target
    split_ifs
    · exact h
    · exact h
    · exact h.of_tables rfl rfl

theorem appendRecords [WalEngine W] (h : cluster.TopicsIn P) {ref : ℕ} {recs : Bytes}
    {res : Except OxideMqError ℤ}
    (happ : cluster.appendRecords ref recs = some (cluster', res)) :
    cluster'.TopicsIn P := by
  obtain ⟨_, part, tiers, -, -, rfl⟩ := appendRecords_eq_some happ
  exact h.of_tables rfl rfl

theorem fetchPartition (h : cluster.TopicsIn P) {topic : String} (hname : P topic)
    {index off : ℤ} {limit : ℕ} {iso : ℤ} {resp : FetchPartitionResponse}
    (hfetch : cluster.fetchPartition ⟨topic, index⟩ off limit iso =
      some (cluster', resp)) : cluster'.TopicsIn P := by
  obtain ⟨part, -, heq⟩ := map_eq_some_iff.mp hfetch
  cases heq
  exact (h.getOrCreatePartition hname index).of_tables rfl rfl

theorem autoCreate {allowAutoCreate : Bool} {ts : List String} (h : cluster.TopicsIn P)
    {m : HashMap String (List ℤ)}
    (hn : allowAutoCreate = true → ∀ t ∈ ts, (m.lookup t).isSome ∨ P t) :
    (autoCreate allowAutoCreate ts cluster m).1.TopicsIn P := by
  induction ts generalizing cluster m with
  | nil => exact h
  | cons t ts ih =>
    unfold ClusterState.autoCreate
    split_ifs with hknown hallow
    · exact ih h fun hallow => (List.forall_mem_cons.mp (hn hallow)).2
    · obtain ⟨hfirst, hrest⟩ := List.forall_mem_cons.mp (hn hallow)
      refine ih (h.getOrCreatePartition (hfirst.resolve_left hknown) 0) fun _ t' ht' => ?_
      refine (hrest t' ht').imp_left fun hsome => ?_
      rw [HashMap.lookup_insert_ite]
      split_ifs
      · rfl
      · exact hsome
    · exact ih h fun hyes => absurd hyes hallow

theorem buildMetadata (h : cluster.TopicsIn P) (identity : Identity)
    {asked : Option (List String)} {allowAutoCreate : Bool}
    (hn : allowAutoCreate = true → ∀ t ∈ asked.getD [],
      cluster.hasPartition t = false → P t) :
    (cluster.buildMetadataWithAutoCreate identity asked allowAutoCreate).1.TopicsIn P := by
  apply h.autoCreate
  intro hallow t ht
  cases asked with
  | none => simp at ht
  | some ts =>
    have ht : t ∈ ts := ht
    rw [lookup_topicMap_isSome ht]
    cases hnew : cluster.hasPartition t with
    | true => exact Or.inl rfl
    | false => exact Or.inr (hn hallow t ht hnew)

theorem writeMarkers [WalEngine W] {pid epoch : ℤ} {committed : Bool}
    {clock : TopicPartition → ℤ} {tps written : List TopicPartition}
    {res : Except KafkaErrorCode Unit} (h : cluster.TopicsIn P)
    (hn : ∀ tp ∈ tps, P tp.topic)
    (hw : writeMarkers pid epoch committed clock tps
      cluster = some (cluster', written, res)) : cluster'.TopicsIn P := by
  induction tps generalizing cluster cluster' written res with
  | nil =>
    cases hw
    exact h
  | cons tp tps ih =>
    obtain ⟨hfirst, hrest⟩ := List.forall_mem_cons.mp hn
    have hmarker : ∀ {next : ClusterState W} {done : Bool},
        writeMarker cluster pid epoch committed (clock tp)
          tp = some (next, done) → next.TopicsIn P := by
      intro next done hdone
      obtain ⟨⟨appended, out⟩, happ, hconclude⟩ := map_eq_some_iff.mp hdone
      have happended := (h.getOrCreatePartition hfirst tp.partition).appendRecords happ
      cases out with
      | error e =>
        cases hconclude
        exact happended
      | ok base =>
        cases hconclude
        exact happended.of_tables rfl rfl
    rw [writeMarkers] at hw
    split at hw
    · simp at hw
    · rename_i next hdone
      cases hw
      exact hmarker hdone
    · rename_i next hdone
      obtain ⟨⟨last, rest, out⟩, hloop, heq⟩ := map_eq_some_iff.mp hw
      cases heq
      exact ih (hmarker hdone) hrest hloop

end TopicsIn

end ClusterState

def BrokerEngine.Named {W : Type} (P : String → Prop) (acl : AclAuthorizer)
    (engine : BrokerEngine W) : Prop :=
  engine.clusterState.TopicsIn P ∧ engine.authorizer = acl

namespace BrokerEngine

open ClusterState

variable {W : Type}

def Unchecked (engine : BrokerEngine W) (principal : String) : Request → String → Prop
  | .produce request, name => ∃ t ∈ request.topicData, t.topic = name ∧ t.partitions ≠ [] ∧
      engine.authorizer.permits principal .topic name .write
  | .fetch request, name => ∃ t ∈ request.topics, t.topic = name ∧ t.partitions ≠ [] ∧
      engine.authorizer.permits principal .topic name .read
  | .listOffsets request, name => ∃ t ∈ request.topics, t.topic = name ∧ t.partitions ≠ [] ∧
      engine.authorizer.permits principal .topic name .describe
  | .metadata request, name => request.allowAutoTopicCreation = true ∧
      name ∈ request.topics.getD [] ∧ engine.clusterState.hasPartition name = false
  | .endTxn request, name =>
      engine.authorizer.permits principal .transactionalId request.transactionalId .write ∧
      ∃ metadata, engine.txnCoordinator.checkProducer request.transactionalId request.producerId
        request.producerEpoch = .ok metadata ∧ ∃ tp ∈ metadata.partitions, tp.topic = name
  | _, _ => False

def Creates (engine : BrokerEngine W) (principal : String) (request : Request)
    (name : String) : Prop :=
  engine.Unchecked principal request name ∨
    validName name ∧ ∃ r, request = .createTopics r ∧ ∃ t ∈ r.topics, t.name = name

end BrokerEngine

namespace Handler

open ClusterState BrokerEngine

variable {W : Type} {principal : String} {P : String → Prop}

theorem topicsIn_endTxn [WalEngine W] (env : Surroundings) {req : EndTxnRequest}
    {eng eng' : BrokerEngine W} {resp : EndTxnResponse}
    (hleg : eng.clusterState.TopicsIn P)
    (hn : ∀ name, eng.Unchecked principal (.endTxn req) name → P name)
    (hrun : (endTxn env principal req).run eng = some (resp, eng')) :
    eng'.clusterState.TopicsIn P := by
  rw [run_endTxn] at hrun
  split at hrun
  · cases hrun
    exact hleg
  · rename_i hperm
    obtain ⟨⟨coord, cluster, written, res⟩, hend, heq⟩ := map_eq_some_iff.mp hrun
    cases heq
    rw [TransactionCoordinator.endTxn] at hend
    split at hend
    · cases hend
      exact hleg
    · rename_i metadata hchk
      obtain ⟨⟨cluster', written', res'⟩, hw, hended⟩ := map_eq_some_iff.mp hend
      cases hended
      refine hleg.writeMarkers (fun tp htp => ?_) hw
      have hl := (checkProducer_eq_ok.mp hchk).1
      rw [hl, map_some, getD_some, ← List.mem_toFinset, env.toFinset_drain] at htp
      exact hn tp.topic ⟨by simpa using hperm, metadata, hchk, tp, htp, rfl⟩

theorem keeps_named [WalEngine W] {acl : AclAuthorizer} {request : Request}
    (hn : ∀ topic operation, Looks request topic operation →
      acl.permits principal .topic topic operation → P topic)
    (hasked : ∀ r, request = .createTopics r → ∀ t ∈ r.topics, validName t.name → P t.name)
    (hend : ∀ r, request ≠ .endTxn r) (hcreate : ∀ r, request ≠ .createAcls r)
    (hdelete : ∀ r, request ≠ .deleteAcls r) :
    Keeps (W := W) (Named P acl) acl principal request := by
  rintro engine engine' ⟨hleg, hacl⟩ hchanges
  cases hchanges with
  | lookup index hlooks hperm =>
    exact ⟨hleg.getOrCreatePartition (hn _ _ hlooks hperm) index, hacl⟩
  | append _ happ => exact ⟨hleg.appendRecords happ, hacl⟩
  | fetch hlooks hperm hfetch =>
    exact ⟨hleg.fetchPartition (hn _ _ hlooks hperm) hfetch, hacl⟩
  | administer action haction _ =>
    refine ⟨?_, hacl⟩
    cases action with
    | createTopic name numPartitions replicationFactor configs =>
      obtain ⟨r, rfl, t, ht, rfl⟩ := haction
      exact hleg.createTopic (hasked r rfl t ht) _ _ _
    | createPartitions name newCount assignments validateOnly =>
      exact hleg.createPartitions _ _ _ _
    | deleteTopic name => exact hleg.deleteTopic name
    | updateTopicConfigs name entries => exact hleg.updateTopicConfigs name entries
    | getOrCreatePartition tp => exact haction.elim
  | deleteRecords _ => exact ⟨hleg.deleteRecords _ _, hacl⟩
  | changeGroup _ | deleteGroups _ | initProducerId | changeTransaction _ => exact ⟨hleg, hacl⟩
  | endTxn _ _ => exact absurd rfl (hend _)
  | createAcls _ => exact absurd rfl (hcreate _)
  | deleteAcls _ => exact absurd rfl (hdelete _)

theorem topicsIn_dispatch [WalEngine W] (env : Surroundings) {req : Request}
    {eng eng' : BrokerEngine W} {resp : Option Response}
    (hleg : eng.clusterState.TopicsIn P)
    (hn : ∀ name, eng.Creates principal req name → P name)
    (hrun : (dispatch env principal req).run eng = some (resp, eng')) :
    eng'.clusterState.TopicsIn P := by
  -- access control is not about names
  have hacls {α : Type} {refused : α} {f : α → Option Response}
      {change : BrokerEngine W → α × BrokerEngine W}
      (hchange : ∀ eng, (change eng).2.clusterState = eng.clusterState)
      (hrun : (do
        let answer ← (do
          if !(← permits principal .cluster "kafka-cluster" .alter) then return refused
          else modifyGet change)
        return f answer : Handler W _).run eng = some (resp, eng')) :
      eng'.clusterState.TopicsIn P := by
    have hkept : Preserves (fun e : BrokerEngine W => e.clusterState = eng.clusterState) (do
        if !(← permits principal .cluster "kafka-cluster" .alter) then return refused
        else modifyGet change) := by
      refine .bind (.get_bind fun _ _ => .pure _) fun _ => .ite (fun _ => .pure _) fun _ => ?_
      exact .modifyGet fun e he => (hchange e).trans he
    exact ((hkept.bind fun a => .pure (f a)) eng rfl _ _ hrun).1 ▸ hleg
  by_cases hmetadata : ∃ r, req = .metadata r
  · obtain ⟨r, rfl⟩ := hmetadata
    obtain ⟨built, hbuilt⟩ := run_metadata eng principal r
    rw [dispatch, StateT.run_bind, hbuilt] at hrun
    cases hrun
    exact hleg.buildMetadata eng.identity fun hallow t ht hnew =>
      hn t (Or.inl ⟨hallow, ht, hnew⟩)
  by_cases hend : ∃ r, req = .endTxn r
  · obtain ⟨r, rfl⟩ := hend
    rw [dispatch, StateT.run_bind] at hrun
    obtain ⟨⟨ended, eng₁⟩, hend, hrest⟩ := bind_eq_some_iff.mp hrun
    cases hrest
    exact topicsIn_endTxn env hleg (fun name h => hn name (Or.inl h)) hend
  by_cases hcreate : ∃ r, req = .createAcls r
  · obtain ⟨r, rfl⟩ := hcreate
    exact hacls (fun _ => rfl) hrun
  by_cases hdelete : ∃ r, req = .deleteAcls r
  · obtain ⟨r, rfl⟩ := hdelete
    exact hacls (fun _ => rfl) hrun
  have hlooks : ∀ topic op, Looks req topic op →
      eng.authorizer.permits principal .topic topic op → P topic := by
    rintro _ _ (⟨ht, hne⟩ | ⟨ht, hne⟩ | ⟨ht, hne⟩) hpermits
    all_goals exact hn _ (Or.inl ⟨_, ht, rfl, hne, hpermits⟩)
  have hasked : ∀ r, req = .createTopics r → ∀ t ∈ r.topics, validName t.name → P t.name :=
    fun r hr t ht hvalid => hn _ (Or.inr ⟨hvalid, r, hr, t, ht, rfl⟩)
  simp only [not_exists] at hmetadata hend hcreate hdelete
  exact (preserves_dispatch (fun _ h => h.2) env hmetadata
    (keeps_named hlooks hasked hend hcreate hdelete) eng ⟨hleg, rfl⟩ _ _ hrun).1.1

end Handler

structure IncomingRequest where
  env : Surroundings
  draws : Sasl.Draws
  session : Sasl.ConnectionAuthState
  header : RequestHeader
  body : Bytes

namespace BrokerEngine

open ClusterState

variable {W : Type}

def serve [WalEngine W] (auth : Sasl.SaslAuthenticator) (crypto : Sasl.Crypto)
    (engine : BrokerEngine W) (incoming : IncomingRequest) : Option (BrokerEngine W) :=
  (handleConnectionRequest incoming.env auth crypto incoming.draws engine incoming.session
    incoming.header incoming.body).map Prod.fst

def CreatesLegal (auth : Sasl.SaslAuthenticator) (engine : BrokerEngine W)
    (incoming : IncomingRequest) : Prop :=
  ∀ request rest, (decodeRequest auth.requireSasl incoming.session.outline incoming.header).run
      incoming.body = .ok request rest →
    ∀ name, engine.Unchecked (incoming.session.principal.getD "ANONYMOUS") request name →
      validName name

def CreatesOnly (auth : Sasl.SaslAuthenticator) (P : String → Prop) (engine : BrokerEngine W)
    (incoming : IncomingRequest) : Prop :=
  ∀ request rest, (decodeRequest auth.requireSasl incoming.session.outline incoming.header).run
      incoming.body = .ok request rest →
    ∀ name, engine.Creates (incoming.session.principal.getD "ANONYMOUS") request name → P name

variable [WalEngine W] {P : String → Prop}

theorem topicsIn_handleRequest {env : Surroundings} {auth : Sasl.SaslAuthenticator}
    {crypto : Sasl.Crypto} {draws : Sasl.Draws} {eng eng' : BrokerEngine W}
    {sess sess' : Sasl.ConnectionAuthState} {req : Request}
    {res : Except OxideMqError (Sasl.Reply (Option Response))}
    (hleg : eng.clusterState.TopicsIn P)
    (hn : ∀ name, eng.Creates (sess.principal.getD "ANONYMOUS") req name → P name)
    (h : Sasl.handleRequest (execute env) auth crypto draws eng sess req =
      some (eng', sess', res)) :
    eng'.clusterState.TopicsIn P := by
  unfold Sasl.handleRequest at h
  split at h
  · cases h
    exact hleg
  · cases h
    exact hleg
  · obtain ⟨⟨eng₁, out⟩, hexecute, heq⟩ := map_eq_some_iff.mp h
    cases heq
    obtain ⟨⟨resp, eng₂⟩, hrun, hout⟩ := map_eq_some_iff.mp hexecute
    cases hout
    exact Handler.topicsIn_dispatch env hleg hn hrun

theorem topicsIn_serve {auth : Sasl.SaslAuthenticator} {crypto : Sasl.Crypto}
    {eng eng' : BrokerEngine W} {incoming : IncomingRequest}
    (hleg : eng.clusterState.TopicsIn P) (hn : eng.CreatesOnly auth P incoming)
    (hserve : serve auth crypto eng incoming = some eng') :
    eng'.clusterState.TopicsIn P := by
  obtain ⟨⟨eng₁, sess, res⟩, hhand, rfl⟩ := map_eq_some_iff.mp hserve
  unfold handleConnectionRequest at hhand
  cases hdec : (decodeRequest auth.requireSasl incoming.session.outline incoming.header).run
      incoming.body with
  | err e =>
    rw [hdec] at hhand
    cases hhand
    exact hleg
  | panic =>
    rw [hdec] at hhand
    cases hhand
  | ok req rest =>
    rw [hdec] at hhand
    exact topicsIn_handleRequest hleg (hn req rest hdec) hhand

theorem topic_names_legal {auth : Sasl.SaslAuthenticator} {crypto : Sasl.Crypto}
    {engine : BrokerEngine W} (hlegal : engine.clusterState.NamesLegal)
    {requests : List IncomingRequest} {engine' : BrokerEngine W}
    (hnames : Along (serve auth crypto) (CreatesLegal auth) engine requests)
    (hrun : run (serve auth crypto) engine requests = some engine') :
    engine'.clusterState.NamesLegal :=
  run_invariant (fun _ _ _ hs hcond hserve => topicsIn_serve hs (fun request rest hdec name hname =>
    hname.elim (hcond request rest hdec name) And.left) hserve) hlegal hnames hrun

def openEngine : BrokerEngine MemoryWal :=
  ⟨ClusterState.new ⟨MemoryWal.new, ∅, LogCache.new 64, BlockCache.new 64⟩,
    ⟨1, "localhost", 9092, "cluster"⟩, GroupCoordinator.new, TransactionCoordinator.new,
    AclAuthorizer.new false [] true⟩

def openAuth : Sasl.SaslAuthenticator := ⟨∅, [.plain], false⟩

theorem openEngine_namesLegal : openEngine.clusterState.NamesLegal := by
  intro name ht
  cases ht

noncomputable def asksFor (octet : UInt8) : IncomingRequest :=
  ⟨calm, ⟨none, none⟩, .unauthenticated, ⟨.metadata, 4, 1, none⟩, [0, 0, 0, 1, 0, 1, octet, 1]⟩

theorem metadata_creates_illegal_name : openEngine.clusterState.NamesLegal ∧
      ∃ engine', run (serve openAuth Sasl.Connection.plainCrypto) openEngine [asksFor 33] =
          some engine' ∧ ¬engine'.clusterState.NamesLegal := by
  refine ⟨openEngine_namesLegal, ?_⟩
  have hcr : (run (serve openAuth Sasl.Connection.plainCrypto) openEngine [asksFor 33]).map
      (fun engine' => engine'.clusterState.hasTopic "!") = some true := by
    decide +kernel
  obtain ⟨engine', hrun, ht⟩ := Option.map_eq_some_iff.mp hcr
  exact ⟨engine', hrun, fun hleg => absurd (hleg "!" ht) (by decide +kernel)⟩

theorem createsOnly_asksFor {octet : UInt8} (text : String) {P : String → Prop}
    (hdecoded : (match (decodeRequest openAuth.requireSasl (asksFor octet).session.outline
      (asksFor octet).header).run (asksFor octet).body with
    | .ok (.metadata r) _ => decide (r.topics = some [text])
    | _ => false) = true) (htext : P text) (engine : BrokerEngine MemoryWal) :
    engine.CreatesOnly openAuth P (asksFor octet) := by
  intro req rest hdec name hname
  rw [hdec] at hdecoded
  cases req with
  | metadata r =>
    have htopics : r.topics = some [text] := of_decide_eq_true hdecoded
    rcases hname with ⟨-, hmem, -⟩ | ⟨-, _, hcreate, -⟩
    · rw [htopics] at hmem
      exact List.mem_singleton.mp hmem ▸ htext
    · cases hcreate
  | _ => cases hdecoded

theorem topic_names_legal_metadata :
    ∃ engine', run (serve openAuth Sasl.Connection.plainCrypto) openEngine [asksFor 116] =
        some engine' ∧ engine'.clusterState.hasTopic "t" ∧ engine'.clusterState.NamesLegal := by
  have hcr : (run (serve openAuth Sasl.Connection.plainCrypto) openEngine [asksFor 116]).map
      (fun engine' => engine'.clusterState.hasTopic "t") = some true := by
    decide +kernel
  have honly : openEngine.CreatesOnly openAuth (validName ·) (asksFor 116) :=
    createsOnly_asksFor "t" (by decide +kernel) (by decide +kernel) _
  have hleg : Along (serve openAuth Sasl.Connection.plainCrypto) (CreatesLegal openAuth)
      openEngine [asksFor 116] :=
    ⟨fun req rest hdec name hname => honly req rest hdec name (Or.inl hname), fun _ _ => trivial⟩
  obtain ⟨engine', hrun, ht⟩ := Option.map_eq_some_iff.mp hcr
  exact ⟨engine', hrun, ht, topic_names_legal openEngine_namesLegal hleg hrun⟩

def deleteTopic (engine : BrokerEngine W) (name : String) : BrokerEngine W :=
  { engine with clusterState := (engine.clusterState.deleteTopic name).1 }

omit [WalEngine W] in
theorem topicsIn_deleteTopic (engine : BrokerEngine W) (name : String) :
    (engine.deleteTopic name).clusterState.TopicsIn (· ≠ name) := by
  rintro _ ht rfl
  rw [hasTopic_iff] at ht
  rcases ht with hreg | ⟨i, hex⟩
  · rw [deleteTopic, topics_deleteTopic, if_pos rfl] at hreg
    cases hreg
  · exact ((exists_deleteTopic engine.clusterState _ _ i).mp hex).1 rfl

theorem deleted_topic_stays_deleted {auth : Sasl.SaslAuthenticator} {crypto : Sasl.Crypto}
    (engine : BrokerEngine W) (name : String) {requests : List IncomingRequest}
    {engine' : BrokerEngine W}
    (hspared : Along (serve auth crypto) (CreatesOnly auth (· ≠ name)) (engine.deleteTopic name)
      requests)
    (hrun : run (serve auth crypto) (engine.deleteTopic name) requests = some engine') :
    engine'.clusterState.hasTopic name = false := by
  have hnames : engine'.clusterState.TopicsIn (· ≠ name) :=
    run_invariant (fun _ _ _ hs hcond hserve => topicsIn_serve hs hcond hserve)
      (engine.topicsIn_deleteTopic name) hspared hrun
  exact Bool.eq_false_iff.mpr fun ht => hnames name ht rfl

def servingEngine : BrokerEngine MemoryWal :=
  { openEngine with clusterState := (openEngine.clusterState.getOrCreatePartition ⟨"t", 0⟩).1 }

theorem deleted_topic_stays_deleted_metadata : ∃ engine',
    run (serve openAuth Sasl.Connection.plainCrypto) (servingEngine.deleteTopic "t") [asksFor 33] =
        some engine' ∧
      engine'.clusterState.hasTopic "!" ∧ engine'.clusterState.hasTopic "t" = false := by
  have hcr : (run (serve openAuth Sasl.Connection.plainCrypto) (servingEngine.deleteTopic "t")
      [asksFor 33]).map (fun engine' => engine'.clusterState.hasTopic "!") = some true := by
    decide +kernel
  have honly : (servingEngine.deleteTopic "t").CreatesOnly openAuth (· ≠ "t") (asksFor 33) :=
    createsOnly_asksFor "!" (by decide +kernel) (by decide) _
  have hspared : Along (serve openAuth Sasl.Connection.plainCrypto)
      (CreatesOnly openAuth (· ≠ "t")) (servingEngine.deleteTopic "t") [asksFor 33] :=
    ⟨honly, fun _ _ => trivial⟩
  obtain ⟨engine', hrun, ht⟩ := Option.map_eq_some_iff.mp hcr
  exact ⟨engine', hrun, ht, deleted_topic_stays_deleted servingEngine "t" hspared hrun⟩

noncomputable def listsOffsets : IncomingRequest :=
  ⟨calm, ⟨none, none⟩, .unauthenticated, ⟨.listOffsets, 1, 1, none⟩,
    [0, 0, 0, 0, 0, 0, 0, 1, 0, 1, 116, 0, 0, 0, 1, 0, 0, 0, 0, 0, 0, 0, 0, 0, 0, 0, 0]⟩

theorem listOffsets_brings_topic_back :
    (servingEngine.clusterState.deleteTopic "t").2 = .ok () ∧
      (servingEngine.deleteTopic "t").clusterState.hasTopic "t" = false ∧
      ∃ engine', run (serve openAuth Sasl.Connection.plainCrypto)
          (servingEngine.deleteTopic "t") [listsOffsets] = some engine' ∧
        engine'.clusterState.hasTopic "t" = true := by
  have hcr : (run (serve openAuth Sasl.Connection.plainCrypto) (servingEngine.deleteTopic "t")
      [listsOffsets]).map (fun engine' => engine'.clusterState.hasTopic "t") = some true := by
    decide +kernel
  exact ⟨rfl, by decide +kernel, Option.map_eq_some_iff.mp hcr⟩

end BrokerEngine

end OxideMq.Broker
