import OxideMq.Broker.Fetch
import OxideMq.Broker.Transaction
import OxideMq.Broker.GroupCoordinator
import OxideMq.Broker.Acl
import OxideMq.Broker.ClusterMetadata
import OxideMq.Broker.Connection
import OxideMq.Protocol.Records

/-! The request handlers of the broker. -/

namespace OxideMq.Broker

open Lib OxideMq.Core OxideMq.Protocol OxideMq.Wal OxideMq.Stream

structure BrokerEngine (W : Type) where
  clusterState : ClusterState W
  identity : Identity
  coordinator : GroupCoordinator
  txnCoordinator : TransactionCoordinator
  authorizer : AclAuthorizer

structure Surroundings where
  libs : Compressors
  enableSchemaValidation : Bool
  validateRecordPayloads : Bytes → Bool
  produceFault : Bool
  fetchFault : Bool
  recompress : Bytes → Option Bytes
  appendTime : TopicPartition → ℤ → ℤ
  markerTime : TopicPartition → ℤ
  drain : Finset TopicPartition → List TopicPartition
  nodup_drain : ∀ tps, (drain tps).Nodup
  toFinset_drain : ∀ tps, (drain tps).toFinset = tps

abbrev Handler (W α : Type) := StateT (BrokerEngine W) Option α

namespace AclAuthorizer

def permits (acl : AclAuthorizer) (principal : String) (resourceType : AclResourceType)
    (resourceName : String) (operation : AclOperation) : Bool :=
  acl.authorize principal "*" resourceType resourceName operation

def permitsOrCluster (acl : AclAuthorizer) (principal : String) (resourceType : AclResourceType)
    (resourceName : String) (operation : AclOperation) : Bool :=
  acl.permits principal resourceType resourceName operation ||
    acl.permits principal .cluster "kafka-cluster" operation

end AclAuthorizer

namespace Handler

variable {W : Type}

def permits (principal : String) (resourceType : AclResourceType) (resourceName : String)
    (operation : AclOperation) : Handler W Bool := do
  return (← get).authorizer.permits principal resourceType resourceName operation

def permitsOrCluster (principal : String) (resourceType : AclResourceType) (resourceName : String)
    (operation : AclOperation) : Handler W Bool := do
  return (← get).authorizer.permitsOrCluster principal resourceType resourceName operation

def onCluster {α : Type} (f : ClusterState W → ClusterState W × α) : Handler W α :=
  modifyGet fun engine =>
    let (cluster, a) := f engine.clusterState
    (a, { engine with clusterState := cluster })

theorem run_onCluster {α : Type} (f : ClusterState W → ClusterState W × α) (eng : BrokerEngine W) :
    (onCluster f).run eng =
      some ((f eng.clusterState).2, { eng with clusterState := (f eng.clusterState).1 }) :=
  rfl

def onClusterOrAbort {α : Type} (f : ClusterState W → Option (ClusterState W × α)) :
    Handler W α := do
  let (cluster, a) ← f (← get).clusterState
  modify ({ · with clusterState := cluster })
  return a

def object (ref : ℕ) : Handler W Partition := do
  (← get).clusterState.heap[ref]?

def metadata (principal : String) (request : MetadataRequest) : Handler W MetadataResponse := do
  let identity := (← get).identity
  let response ← onCluster fun cluster =>
    cluster.buildMetadataWithAutoCreate identity request.topics request.allowAutoTopicCreation
  let topics ← response.topics.mapM fun topic => do
    if ← permits principal .topic topic.name .describe then return topic
    else return { topic with errorCode := .topicAuthorizationFailed, partitions := [] }
  return { response with topics := topics }

def producePartition [WalEngine W] (env : Surroundings) (isAuthorized : Bool) (topic : String)
    (p : PartitionProduceData) : Handler W Protocol.PartitionProduceResponse := do
  let refused (code : KafkaErrorCode) : Protocol.PartitionProduceResponse :=
    ⟨p.partition, code, -1, -1, 0⟩
  if !isAuthorized then return refused .topicAuthorizationFailed
  else
    let tp : TopicPartition := ⟨topic, p.partition⟩
    let ref ← onCluster (·.getOrCreatePartition tp)
    if env.produceFault then return refused .unknownServer
    else
      match ← decompressRecordBatch env.libs p.records with
      | .error _ => return refused .corruptMessage
      | .ok decompressed =>
          if env.enableSchemaValidation && !env.validateRecordPayloads decompressed then
            return refused .invalidRecord
          else
            match ← onClusterOrAbort (·.appendRecords ref p.records) with
            | .error _ => return refused .unknownServer
            | .ok baseOffset =>
                return ⟨p.partition, .none, baseOffset, env.appendTime tp baseOffset,
                  (← object ref).logStartOffset⟩

def produce [WalEngine W] (env : Surroundings) (principal : String) (request : ProduceRequest) :
    Handler W ProduceResponse := do
  let responses ← request.topicData.mapM fun t => do
    let isAuthorized ← permits principal .topic t.topic .write
    return ⟨t.topic, ← t.partitions.mapM (producePartition env isAuthorized t.topic)⟩
  return ⟨responses, 0⟩

def fetchPartition (env : Surroundings) (isTopicAuthorized : Bool) (topic : String)
    (isolationLevel : ℤ) (p : FetchPartition) : Handler W FetchPartitionResponse := do
  if !isTopicAuthorized then return ⟨p.partition, .topicAuthorizationFailed, -1, -1, []⟩
  else
    let tp : TopicPartition := ⟨topic, p.partition⟩
    let response ← (if env.fetchFault then do
        let partition ← object (← onCluster (·.getOrCreatePartition tp))
        return ⟨p.partition, .unknownServer, partition.highWatermark, partition.lastStableOffset, []⟩
      else onClusterOrAbort (·.fetchPartition tp p.fetchOffset (ofSigned 64 p.partitionMaxBytes)
        isolationLevel))
    return { response with records := ← env.recompress response.records }

def fetch (env : Surroundings) (principal : String) (request : FetchRequest) :
    Handler W FetchResponse := do
  let responses ← request.topics.mapM fun t => do
    let isTopicAuthorized ← permits principal .topic t.topic .read
    return ⟨t.topic, ← t.partitions.mapM
      (fetchPartition env isTopicAuthorized t.topic request.isolationLevel)⟩
  return ⟨0, .none, responses⟩

def listOffsetsPartition (isAuthorized : Bool) (topic : String) (p : ListOffsetsPartition) :
    Handler W ListOffsetsPartitionResponse := do
  if !isAuthorized then return ⟨p.partition, .topicAuthorizationFailed, -1, -1, 0⟩
  else
    let partition ← object (← onCluster (·.getOrCreatePartition ⟨topic, p.partition⟩))
    let offset := if p.timestamp = -2 then partition.logStartOffset else partition.highWatermark
    return ⟨p.partition, .none, -1, offset, 0⟩

def listOffsets (principal : String) (request : ListOffsetsRequest) :
    Handler W ListOffsetsResponse := do
  let topics ← request.topics.mapM fun t => do
    let isAuthorized ← permits principal .topic t.topic .describe
    return ⟨t.topic, ← t.partitions.mapM (listOffsetsPartition isAuthorized t.topic)⟩
  return ⟨0, topics⟩

def findCoordinator (principal : String) (request : FindCoordinatorRequest) :
    Handler W FindCoordinatorResponse := do
  let isAuthorized ← (match request.keyType with
    | 0 => permits principal .group request.key .describe
    | 1 => permits principal .transactionalId request.key .describe
    | _ => pure true)
  let identity := (← get).identity
  if !isAuthorized then
    let err : KafkaErrorCode := match request.keyType with
      | 0 => .groupAuthorizationFailed
      | 1 => .transactionalIdAuthorizationFailed
      | _ => .clusterAuthorizationFailed
    return ⟨0, err, none, -1, "", -1⟩
  else return ⟨0, .none, none, identity.nodeId, identity.host, identity.port⟩

def offsetCommitPartition (isAuthorized : Bool) (groupId topic : String)
    (p : OffsetCommitPartition) : Handler W OffsetCommitPartitionResponse := do
  if !isAuthorized then return ⟨p.partition, .groupAuthorizationFailed⟩
  else
    modify fun engine =>
      { engine with
        coordinator := engine.coordinator.commitOffset groupId ⟨topic, p.partition⟩
          p.committedOffset }
    return ⟨p.partition, .none⟩

def offsetCommit (principal : String) (request : OffsetCommitRequest) :
    Handler W OffsetCommitResponse := do
  let isAuthorized ← permits principal .group request.groupId .read
  let topics ← request.topics.mapM fun t => do
    return ⟨t.topic, ← t.partitions.mapM
      (offsetCommitPartition isAuthorized request.groupId t.topic)⟩
  return ⟨0, topics⟩

def offsetFetch (principal : String) (request : OffsetFetchRequest) :
    Handler W OffsetFetchResponse := do
  if !(← permits principal .group request.groupId .describe) then
    return ⟨0, [], .groupAuthorizationFailed⟩
  else
    let coordinator := (← get).coordinator
    let topics := (request.topics.getD []).map fun t =>
      OffsetFetchTopicResponse.mk t.topic (t.partitions.map fun p =>
        ⟨p, (coordinator.fetchOffset request.groupId ⟨t.topic, p⟩).getD (-1), none, .none⟩)
    return ⟨0, topics, .none⟩

def heartbeat (principal : String) (request : HeartbeatRequest) : Handler W HeartbeatResponse := do
  if !(← permits principal .group request.groupId .read) then
    return ⟨0, .groupAuthorizationFailed⟩
  else
    return ⟨0, (← get).coordinator.handleHeartbeat request.groupId request.generationId
      request.memberId⟩

def leaveGroup (principal : String) (request : LeaveGroupRequest) :
    Handler W LeaveGroupResponse := do
  if !(← permits principal .group request.groupId .read) then
    return ⟨0, .groupAuthorizationFailed⟩
  else
    modifyGet fun engine =>
      let (coordinator, err) := engine.coordinator.handleLeaveGroup request.groupId request.memberId
      (⟨0, err⟩, { engine with coordinator := coordinator })

def listGroups (principal : String) : Handler W ListGroupsResponse := do
  if !(← permits principal .cluster "kafka-cluster" .describe) then
    return ⟨0, .clusterAuthorizationFailed, []⟩
  else
    let groups := (← get).coordinator.listGroups
    return ⟨0, .none, groups.map fun (groupId, protocolType) => ⟨groupId, protocolType⟩⟩

def splitGroups (principal : String) (operation : AclOperation) (groupIds : List String) :
    Handler W (List String × List String) := do
  let authorizer := (← get).authorizer
  return groupIds.partition fun gid => authorizer.permitsOrCluster principal .group gid operation

structure DescribeGroupsResponse where
  throttleTimeMs : ℤ
  groups : List DescribedGroup

def describeGroups (principal : String) (request : DescribeGroupsRequest) :
    Handler W DescribeGroupsResponse := do
  let (groupsToQuery, refused) ← splitGroups principal .describe request.groups
  let results := refused.map fun gid =>
    DescribedGroup.mk .groupAuthorizationFailed gid "" "" "" []
  return ⟨0, results ++ (← get).coordinator.describeGroups groupsToQuery⟩

def deleteGroups (principal : String) (request : DeleteGroupsRequest) :
    Handler W DeleteGroupsResponse := do
  let (groupsToDelete, refused) ← splitGroups principal .delete request.groupsNames
  let results := refused.map fun gid => DeletableGroupResult.mk gid .groupAuthorizationFailed
  modifyGet fun engine =>
    let (coordinator, deleted) := engine.coordinator.deleteGroups groupsToDelete
    (⟨0, results ++ deleted.map fun (groupId, code) => ⟨groupId, code⟩⟩,
      { engine with coordinator := coordinator })

def codeOf : Except KafkaErrorCode Unit → KafkaErrorCode
  | .ok _ => .none
  | .error code => code

def initProducerId (principal : String) (request : InitProducerIdRequest) :
    Handler W InitProducerIdResponse := do
  let isAuthorized ← (match request.transactionalId with
    | some txnId => permits principal .transactionalId txnId .write
    | none => pure true)
  if !isAuthorized then return ⟨0, .transactionalIdAuthorizationFailed, -1, -1⟩
  else
    modifyGet fun engine =>
      let (txnCoordinator, pid, epoch) := engine.txnCoordinator.initProducerId
        request.transactionalId request.transactionTimeoutMs
      (⟨0, .none, pid, epoch⟩, { engine with txnCoordinator := txnCoordinator })

def addPartitionsToTxn (principal : String) (request : AddPartitionsToTxnRequest) :
    Handler W AddPartitionsToTxnResponse := do
  let overallErr ← (do
    if !(← permits principal .transactionalId request.transactionalId .write) then
      return KafkaErrorCode.transactionalIdAuthorizationFailed
    else
      let allTps := request.topics.flatMap fun t => t.partitions.map (TopicPartition.mk t.name)
      modifyGet fun engine =>
        let (txnCoordinator, result) := engine.txnCoordinator.addPartitionsToTxn
          request.transactionalId request.producerId request.producerEpoch allTps
        (codeOf result, { engine with txnCoordinator := txnCoordinator }))
  return ⟨0, request.topics.map fun t => ⟨t.name, t.partitions.map fun p => ⟨p, overallErr⟩⟩⟩

def addOffsetsToTxn (principal : String) (request : AddOffsetsToTxnRequest) :
    Handler W AddOffsetsToTxnResponse := do
  if !(← permits principal .transactionalId request.transactionalId .write) then
    return ⟨0, .transactionalIdAuthorizationFailed⟩
  else
    return ⟨0, codeOf ((← get).txnCoordinator.addOffsetsToTxn request.transactionalId
      request.producerId request.producerEpoch)⟩

def endTxn [WalEngine W] (env : Surroundings) (principal : String) (request : EndTxnRequest) :
    Handler W EndTxnResponse := do
  if !(← permits principal .transactionalId request.transactionalId .write) then
    return ⟨0, .transactionalIdAuthorizationFailed⟩
  else
    let engine ← get
    let registered := ((engine.txnCoordinator.transactions.lookup request.transactionalId).map
      TransactionMetadata.partitions).getD ∅
    let (txnCoordinator, cluster, _, result) ← engine.txnCoordinator.endTxn engine.clusterState
      request.transactionalId request.producerId request.producerEpoch request.committed
      env.markerTime (env.drain registered)
    set { engine with txnCoordinator := txnCoordinator, clusterState := cluster }
    return ⟨0, codeOf result⟩

def describeAcls (principal : String) (request : AclFilter) : Handler W DescribeAclsResponse := do
  if !(← permits principal .cluster "kafka-cluster" .describe) then
    return ⟨0, .clusterAuthorizationFailed,
      some "Cluster authorization failed: Describe required on Cluster:kafka-cluster", []⟩
  else return ⟨0, .none, none, (← get).authorizer.describeAcls request⟩

def alterRequired : String :=
  "Cluster authorization failed: Alter required on Cluster:kafka-cluster"

def createAcls (principal : String) (request : CreateAclsRequest) :
    Handler W CreateAclsResponse := do
  if !(← permits principal .cluster "kafka-cluster" .alter) then
    return ⟨0, request.creations.map fun _ => ⟨.clusterAuthorizationFailed, some alterRequired⟩⟩
  else
    modifyGet fun engine =>
      let (authorizer, results) := engine.authorizer.createAcls request.creations
      (⟨0, results⟩, { engine with authorizer := authorizer })

def deleteAcls (principal : String) (request : DeleteAclsRequest) :
    Handler W DeleteAclsResponse := do
  if !(← permits principal .cluster "kafka-cluster" .alter) then
    return ⟨0, request.filters.map fun _ => ⟨.clusterAuthorizationFailed, some alterRequired, []⟩⟩
  else
    modifyGet fun engine =>
      let (authorizer, results) := engine.authorizer.deleteAcls request.filters
      (⟨0, results⟩, { engine with authorizer := authorizer })

def validateTopic (cluster : ClusterState W) (t : CreatableTopic) :
    KafkaErrorCode × Option String :=
  if !ClusterState.validName t.name then (.invalidTopicException, some "Invalid topic name")
  else if cluster.hasTopic t.name then (.topicAlreadyExists, some "Topic already exists")
  else if t.numPartitions ≤ 0 ∧ t.numPartitions ≠ -1 then
    (.invalidPartitions, some "Number of partitions must be positive")
  else if t.replicationFactor ≤ 0 ∧ t.replicationFactor ≠ -1 then
    (.invalidReplicationFactor, some "Replication factor must be positive")
  else (.none, none)

def creationMessage : KafkaErrorCode → String
  | .topicAlreadyExists => "Topic already exists"
  | .invalidTopicException => "Invalid topic name"
  | .invalidPartitions => "Number of partitions must be positive"
  | .invalidReplicationFactor => "Replication factor must be positive"
  | _ => "Topic creation failed"

def createTopic (principal : String) (validateOnly : Bool) (t : CreatableTopic) :
    Handler W CreatableTopicResult := do
  if !(← permitsOrCluster principal .topic t.name .create) then
    return ⟨t.name, .topicAuthorizationFailed,
      some "Topic authorization failed: Create required on Topic or Cluster"⟩
  else if validateOnly then
    let (code, message) := validateTopic (← get).clusterState t
    return ⟨t.name, code, message⟩
  else
    let configs := ClusterState.givenConfigs (t.configs.map fun c => (c.name, c.value))
    let parts := if !t.assignments.isEmpty then wrapSigned 32 t.assignments.length
      else t.numPartitions
    match ← onCluster (·.createTopic t.name parts t.replicationFactor configs) with
    | .ok _ => return ⟨t.name, .none, none⟩
    | .error code => return ⟨t.name, code, some (creationMessage code)⟩

def createTopics (principal : String) (request : CreateTopicsRequest) :
    Handler W CreateTopicsResponse := do
  return ⟨0, ← request.topics.mapM (createTopic principal request.validateOnly)⟩

def deleteTopic (principal topicName : String) : Handler W DeletableTopicResult := do
  if !(← permitsOrCluster principal .topic topicName .delete) then
    return ⟨topicName, .topicAuthorizationFailed⟩
  else return ⟨topicName, codeOf (← onCluster (·.deleteTopic topicName))⟩

def deleteTopics (principal : String) (request : DeleteTopicsRequest) :
    Handler W DeleteTopicsResponse := do
  return ⟨0, ← request.topicNames.mapM (deleteTopic principal)⟩

def permitsConfigs (principal : String) (resourceType : ℤ) (resourceName : String)
    (operation : AclOperation) : Handler W (Bool × KafkaErrorCode) := do
  match resourceType with
  | 2 => return (← permitsOrCluster principal .topic resourceName operation,
      .topicAuthorizationFailed)
  | 4 => return (← permits principal .cluster "kafka-cluster" operation,
      .clusterAuthorizationFailed)
  | _ => return (true, .none)

def describeConfigsResource (principal : String) (res : DescribeConfigsResource) :
    Handler W DescribeConfigsResult := do
  let (isAuth, errCode) ← permitsConfigs principal res.resourceType res.resourceName
    .describeConfigs
  let answer (code : KafkaErrorCode) (message : Option String)
      (configs : List DescribeConfigsResourceResult) : DescribeConfigsResult :=
    ⟨code, message, res.resourceType, res.resourceName, configs⟩
  if !isAuth then return answer errCode (some "Authorization failed for DescribeConfigs") []
  else
    let engine ← get
    match res.resourceType with
    | 2 =>
        match engine.clusterState.describeTopicConfigs res.resourceName res.configurationKeys with
        | .ok configs => return answer .none none configs
        | .error err => return answer err (some "Topic does not exist") []
    | 4 => return answer .none none (engine.identity.describeBrokerConfigs res.configurationKeys)
    | _ =>
        let message := "Unsupported resource type " ++ toString res.resourceType
        return answer .invalidRequest (some message) []

def describeConfigs (principal : String) (request : DescribeConfigsRequest) :
    Handler W DescribeConfigsResponse := do
  return ⟨0, ← request.resources.mapM (describeConfigsResource principal)⟩

def alterConfigsResource (principal : String) (validateOnly : Bool) (res : AlterConfigsResource) :
    Handler W AlterConfigsResourceResponse := do
  let (isAuth, errCode) ← permitsConfigs principal res.resourceType res.resourceName .alterConfigs
  let answer (code : KafkaErrorCode) (message : Option String) : AlterConfigsResourceResponse :=
    ⟨code, message, res.resourceType, res.resourceName⟩
  if !isAuth then return answer errCode (some "Authorization failed for AlterConfigs")
  else
    match res.resourceType with
    | 2 =>
        if !(← get).clusterState.hasTopic res.resourceName then
          return answer .unknownTopicOrPartition (some "Topic does not exist")
        else if validateOnly then return answer .none none
        else
          match ← onCluster (·.updateTopicConfigs res.resourceName
            (res.configs.map fun c => (c.name, c.value))) with
          | .ok _ => return answer .none none
          | .error code => return answer code (some "Failed to update topic configs")
    | 4 => return answer .none none
    | _ =>
        let message := "Unsupported resource type " ++ toString res.resourceType
        return answer .invalidRequest (some message)

def alterConfigs (principal : String) (request : AlterConfigsRequest) :
    Handler W AlterConfigsResponse := do
  return ⟨0, ← request.resources.mapM (alterConfigsResource principal request.validateOnly)⟩

def deleteRecordsPartition (isAuthorized : Bool) (topic : String) (p : DeleteRecordsPartition) :
    Handler W DeleteRecordsPartitionResult := do
  if !isAuthorized then return ⟨p.partitionIndex, -1, .topicAuthorizationFailed⟩
  else
    match ← onCluster (·.deleteRecords ⟨topic, p.partitionIndex⟩ p.offset) with
    | .ok newLw => return ⟨p.partitionIndex, newLw, .none⟩
    | .error err => return ⟨p.partitionIndex, -1, err⟩

def deleteRecords (principal : String) (request : DeleteRecordsRequest) :
    Handler W DeleteRecordsResponse := do
  let topics ← request.topics.mapM fun t => do
    let isAuthorized ← permitsOrCluster principal .topic t.name .delete
    return ⟨t.name, ← t.partitions.mapM (deleteRecordsPartition isAuthorized t.name)⟩
  return ⟨0, topics⟩

def expansionMessage : KafkaErrorCode → String
  | .unknownTopicOrPartition => "Topic does not exist"
  | .invalidPartitions =>
      "Number of partitions must be greater than existing number of partitions"
  | .invalidRequest => "Invalid partition replica assignments"
  | _ => "Failed to expand partitions"

def createPartitionsTopic (principal : String) (validateOnly : Bool) (t : CreatePartitionsTopic) :
    Handler W CreatePartitionsTopicResult := do
  if !(← permitsOrCluster principal .topic t.name .alter) then
    return ⟨t.name, .topicAuthorizationFailed,
      some "Topic authorization failed: Alter required on Topic or Cluster"⟩
  else
    match ← onCluster (·.createPartitions t.name t.count (t.assignments.map List.length)
      validateOnly) with
    | .ok _ => return ⟨t.name, .none, none⟩
    | .error err => return ⟨t.name, err, some (expansionMessage err)⟩

def createPartitions (principal : String) (request : CreatePartitionsRequest) :
    Handler W CreatePartitionsResponse := do
  return ⟨0, ← request.topicPartitions.mapM (createPartitionsTopic principal request.validateOnly)⟩

end Handler

inductive Response where
  | produce (response : ProduceResponse)
  | fetch (response : FetchResponse)
  | listOffsets (response : ListOffsetsResponse)
  | metadata (response : MetadataResponse)
  | offsetCommit (response : OffsetCommitResponse)
  | offsetFetch (response : OffsetFetchResponse)
  | findCoordinator (response : FindCoordinatorResponse)
  | heartbeat (response : HeartbeatResponse)
  | leaveGroup (response : LeaveGroupResponse)
  | describeGroups (response : Handler.DescribeGroupsResponse)
  | listGroups (response : ListGroupsResponse)
  | apiVersions (response : ApiVersionsResponse)
  | createTopics (response : CreateTopicsResponse)
  | deleteTopics (response : DeleteTopicsResponse)
  | deleteRecords (response : DeleteRecordsResponse)
  | initProducerId (response : InitProducerIdResponse)
  | addPartitionsToTxn (response : AddPartitionsToTxnResponse)
  | addOffsetsToTxn (response : AddOffsetsToTxnResponse)
  | endTxn (response : EndTxnResponse)
  | describeAcls (response : DescribeAclsResponse)
  | createAcls (response : CreateAclsResponse)
  | deleteAcls (response : DeleteAclsResponse)
  | describeConfigs (response : DescribeConfigsResponse)
  | alterConfigs (response : AlterConfigsResponse)
  | createPartitions (response : CreatePartitionsResponse)
  | deleteGroups (response : DeleteGroupsResponse)

def Handler.dispatch {W : Type} [WalEngine W] (env : Surroundings) (principal : String) :
    Request → Handler W (Option Response)
  | .produce request => do return some (.produce (← produce env principal request))
  | .fetch request => do return some (.fetch (← fetch env principal request))
  | .listOffsets request => do return some (.listOffsets (← listOffsets principal request))
  | .metadata request => do return some (.metadata (← metadata principal request))
  | .offsetCommit request => do return some (.offsetCommit (← offsetCommit principal request))
  | .offsetFetch request => do return some (.offsetFetch (← offsetFetch principal request))
  | .findCoordinator request => do
      return some (.findCoordinator (← findCoordinator principal request))
  | .heartbeat request => do return some (.heartbeat (← heartbeat principal request))
  | .leaveGroup request => do return some (.leaveGroup (← leaveGroup principal request))
  | .describeGroups request => do
      return some (.describeGroups (← describeGroups principal request))
  | .listGroups => do return some (.listGroups (← listGroups principal))
  | .apiVersions _ => return some (.apiVersions .defaultSupported)
  | .createTopics request => do return some (.createTopics (← createTopics principal request))
  | .deleteTopics request => do return some (.deleteTopics (← deleteTopics principal request))
  | .deleteRecords request => do return some (.deleteRecords (← deleteRecords principal request))
  | .initProducerId request => do
      return some (.initProducerId (← initProducerId principal request))
  | .addPartitionsToTxn request => do
      return some (.addPartitionsToTxn (← addPartitionsToTxn principal request))
  | .addOffsetsToTxn request => do
      return some (.addOffsetsToTxn (← addOffsetsToTxn principal request))
  | .endTxn request => do return some (.endTxn (← endTxn env principal request))
  | .describeAcls request => do return some (.describeAcls (← describeAcls principal request))
  | .createAcls request => do return some (.createAcls (← createAcls principal request))
  | .deleteAcls request => do return some (.deleteAcls (← deleteAcls principal request))
  | .describeConfigs request => do
      return some (.describeConfigs (← describeConfigs principal request))
  | .alterConfigs request => do return some (.alterConfigs (← alterConfigs principal request))
  | .createPartitions request => do
      return some (.createPartitions (← createPartitions principal request))
  | .deleteGroups request => do return some (.deleteGroups (← deleteGroups principal request))
  | .saslHandshake _ | .saslAuthenticate _ => return none

namespace BrokerEngine

variable {W : Type} [WalEngine W]

def execute (env : Surroundings) : Sasl.Execute (BrokerEngine W) (Option Response) :=
  fun engine principal request =>
    ((Handler.dispatch env principal request).run engine).map fun (response, engine') =>
      (engine', .ok response)

def handleConnectionRequest (env : Surroundings) (auth : Sasl.SaslAuthenticator)
    (crypto : Sasl.Crypto) (draws : Sasl.Draws) (engine : BrokerEngine W)
    (session : Sasl.ConnectionAuthState) (header : RequestHeader) (body : Bytes) :
    Option (BrokerEngine W × Sasl.ConnectionAuthState ×
      Except OxideMqError (Sasl.Reply (Option Response))) :=
  match (decodeRequest auth.requireSasl session.outline header).run body with
  | .ok request _ => Sasl.handleRequest (execute env) auth crypto draws engine session request
  | .err e => some (engine, session, .error e)
  | .panic => none

end BrokerEngine

end OxideMq.Broker
