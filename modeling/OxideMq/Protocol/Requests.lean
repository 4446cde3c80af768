import OxideMq.Protocol.KafkaDecoder

/-! The requests and their decoders. -/

namespace OxideMq.Protocol

open Lib OxideMq.Core

inductive ApiKey where
  | produce | fetch | listOffsets | metadata | offsetCommit | offsetFetch | findCoordinator
  | joinGroup | heartbeat | leaveGroup | syncGroup | describeGroups | listGroups | saslHandshake
  | apiVersions | createTopics | deleteTopics | deleteRecords | initProducerId
  | addPartitionsToTxn | addOffsetsToTxn | endTxn | describeAcls | createAcls | deleteAcls
  | describeConfigs | alterConfigs | saslAuthenticate | createPartitions | deleteGroups
  deriving DecidableEq, Repr

def ApiKey.fromI16 : ℤ → Option ApiKey
  | 0 => some .produce
  | 1 => some .fetch
  | 2 => some .listOffsets
  | 3 => some .metadata
  | 8 => some .offsetCommit
  | 9 => some .offsetFetch
  | 10 => some .findCoordinator
  | 11 => some .joinGroup
  | 12 => some .heartbeat
  | 13 => some .leaveGroup
  | 14 => some .syncGroup
  | 15 => some .describeGroups
  | 16 => some .listGroups
  | 17 => some .saslHandshake
  | 18 => some .apiVersions
  | 19 => some .createTopics
  | 20 => some .deleteTopics
  | 21 => some .deleteRecords
  | 22 => some .initProducerId
  | 24 => some .addPartitionsToTxn
  | 25 => some .addOffsetsToTxn
  | 26 => some .endTxn
  | 29 => some .describeAcls
  | 30 => some .createAcls
  | 31 => some .deleteAcls
  | 32 => some .describeConfigs
  | 33 => some .alterConfigs
  | 36 => some .saslAuthenticate
  | 37 => some .createPartitions
  | 42 => some .deleteGroups
  | _ => none

/-- The name of a key as its `Debug` rendering gives it. -/
def ApiKey.debug : ApiKey → String
  | .produce => "Produce" | .fetch => "Fetch" | .listOffsets => "ListOffsets"
  | .metadata => "Metadata" | .offsetCommit => "OffsetCommit" | .offsetFetch => "OffsetFetch"
  | .findCoordinator => "FindCoordinator" | .joinGroup => "JoinGroup"
  | .heartbeat => "Heartbeat" | .leaveGroup => "LeaveGroup" | .syncGroup => "SyncGroup"
  | .describeGroups => "DescribeGroups" | .listGroups => "ListGroups"
  | .saslHandshake => "SaslHandshake" | .apiVersions => "ApiVersions"
  | .createTopics => "CreateTopics" | .deleteTopics => "DeleteTopics"
  | .deleteRecords => "DeleteRecords" | .initProducerId => "InitProducerId"
  | .addPartitionsToTxn => "AddPartitionsToTxn" | .addOffsetsToTxn => "AddOffsetsToTxn"
  | .endTxn => "EndTxn" | .describeAcls => "DescribeAcls" | .createAcls => "CreateAcls"
  | .deleteAcls => "DeleteAcls" | .describeConfigs => "DescribeConfigs"
  | .alterConfigs => "AlterConfigs" | .saslAuthenticate => "SaslAuthenticate"
  | .createPartitions => "CreatePartitions" | .deleteGroups => "DeleteGroups"

def fromVersion (n version : ℤ) : Bool := decide (version ≥ n)

def readStringOrEmpty : Parser String := do
  let s ← KafkaDecoder.readString
  return s.getD ""

def readStringOf (compact : Bool) : Parser (Option String) :=
  if compact then KafkaDecoder.readCompactString else KafkaDecoder.readString

def trailingTags (flexible : Bool) : Parser ℕ :=
  if flexible then Decoder.whenLeft 1 0 KafkaDecoder.readUnsignedVarint else pure 0

structure RequestHeader where
  apiKey : ApiKey
  apiVersion : ℤ
  correlationId : ℤ
  clientId : Option String
  deriving DecidableEq, Repr

def RequestHeader.decode : Parser RequestHeader := do
  Decoder.atLeast 8 (.protocol "Truncated request header")
  let keyRaw ← getI16
  match ApiKey.fromI16 keyRaw with
  | none => protocolError ("Unsupported API key: " ++ toString keyRaw)
  | some apiKey =>
      let apiVersion ← getI16
      let correlationId ← getI32
      let clientId ← KafkaDecoder.readString
      let _ ← trailingTags (apiKey == .apiVersions && fromVersion 3 apiVersion)
      return ⟨apiKey, apiVersion, correlationId, clientId⟩

structure ApiVersionsRequest where
  clientSoftwareName : Option String
  clientSoftwareVersion : Option String

def ApiVersionsRequest.decode (version : ℤ) : Parser ApiVersionsRequest :=
  if fromVersion 3 version then do
    let clientSoftwareName ← KafkaDecoder.readCompactString
    let clientSoftwareVersion ← KafkaDecoder.readCompactString
    let _ ← KafkaDecoder.readUnsignedVarint
    return ⟨clientSoftwareName, clientSoftwareVersion⟩
  else return ⟨none, none⟩

structure SaslHandshakeRequest where
  mechanism : String

def SaslHandshakeRequest.decode : Parser SaslHandshakeRequest := do
  let mechanism ← KafkaDecoder.readString
  match mechanism with
  | some mechanism => return ⟨mechanism⟩
  | none => protocolError "Missing SASL mechanism"

structure SaslAuthenticateRequest where
  authBytes : Bytes

def SaslAuthenticateRequest.decode (version : ℤ) : Parser SaslAuthenticateRequest := do
  let bytes ← (if fromVersion 2 version then KafkaDecoder.readCompactBytes
    else KafkaDecoder.readBytes)
  let _ ← trailingTags (fromVersion 2 version)
  return ⟨bytes.getD []⟩

structure MetadataRequest where
  topics : Option (List String)
  allowAutoTopicCreation : Bool

def MetadataRequest.decode : Parser MetadataRequest :=
  Decoder.whenLeft 4 ⟨none, false⟩ do
    let topics ← nullableArray 24 KafkaDecoder.readString
    let allowAuto ← Decoder.whenLeft 1 1 getU8
    return ⟨topics.map (·.reduceOption), allowAuto ≠ 0⟩

structure PartitionProduceData where
  partition : ℤ
  records : Bytes

structure TopicProduceData where
  topic : String
  partitions : List PartitionProduceData

structure ProduceRequest where
  acks : ℤ
  timeoutMs : ℤ
  topicData : List TopicProduceData

def PartitionProduceData.decode : Parser PartitionProduceData := do
  let partition ← getI32
  let records ← KafkaDecoder.readBytes
  return ⟨partition, records.getD []⟩

def TopicProduceData.decode : Parser TopicProduceData := do
  let topic ← readStringOrEmpty
  let partitions ← uncheckedArray 40 PartitionProduceData.decode
  return ⟨topic, partitions⟩

def ProduceRequest.decode (version : ℤ) : Parser ProduceRequest := do
  let _ ← (if fromVersion 3 version then KafkaDecoder.readString else pure none)
  let acks ← getI16
  let timeoutMs ← getI32
  let topicData ← uncheckedArray 48 TopicProduceData.decode
  return ⟨acks, timeoutMs, topicData⟩

structure FetchPartition where
  partition : ℤ
  fetchOffset : ℤ
  partitionMaxBytes : ℤ

structure FetchTopic where
  topic : String
  partitions : List FetchPartition

structure FetchRequest where
  maxWaitMs : ℤ
  minBytes : ℤ
  maxBytes : ℤ
  isolationLevel : ℤ
  topics : List FetchTopic

def FetchPartition.decode (version : ℤ) : Parser FetchPartition := do
  let partition ← getI32
  let _ ← (if fromVersion 9 version then getI32 else pure 0)
  let fetchOffset ← getI64
  let _ ← (if fromVersion 5 version then getI64 else pure 0)
  let partitionMaxBytes ← getI32
  return ⟨partition, fetchOffset, partitionMaxBytes⟩

def FetchTopic.decode (version : ℤ) : Parser FetchTopic := do
  let topic ← readStringOrEmpty
  let partitions ← uncheckedArray 16 (FetchPartition.decode version)
  return ⟨topic, partitions⟩

def FetchRequest.decode (version : ℤ) : Parser FetchRequest := do
  let _ ← getI32
  let maxWaitMs ← getI32
  let minBytes ← getI32
  let maxBytes ← (if fromVersion 3 version then getI32 else pure 0x7FFFFFFF)
  let isolationLevel ← (if fromVersion 4 version then getI8 else pure 0)
  let _ ← (if fromVersion 7 version then getI32 else pure 0)
  let _ ← (if fromVersion 7 version then getI32 else pure 0)
  let topics ← uncheckedArray 48 (FetchTopic.decode version)
  return ⟨maxWaitMs, minBytes, maxBytes, isolationLevel, topics⟩

structure ListOffsetsPartition where
  partition : ℤ
  currentLeaderEpoch : ℤ
  timestamp : ℤ

structure ListOffsetsTopic where
  topic : String
  partitions : List ListOffsetsPartition

structure ListOffsetsRequest where
  replicaId : ℤ
  isolationLevel : ℤ
  topics : List ListOffsetsTopic

def ListOffsetsPartition.decode (version : ℤ) : Parser ListOffsetsPartition := do
  let partition ← getI32
  let currentLeaderEpoch ← (if fromVersion 4 version then getI32 else pure (-1))
  let timestamp ← getI64
  return ⟨partition, currentLeaderEpoch, timestamp⟩

def ListOffsetsTopic.decode (version : ℤ) : Parser ListOffsetsTopic := do
  let topic ← readStringOrEmpty
  let partitions ← uncheckedArray 16 (ListOffsetsPartition.decode version)
  return ⟨topic, partitions⟩

def ListOffsetsRequest.decode (version : ℤ) : Parser ListOffsetsRequest := do
  let replicaId ← getI32
  let isolationLevel ← (if fromVersion 2 version then getI8 else pure 0)
  let topics ← uncheckedArray 48 (ListOffsetsTopic.decode version)
  return ⟨replicaId, isolationLevel, topics⟩

structure OffsetCommitPartition where
  partition : ℤ
  committedOffset : ℤ
  metadata : Option String

structure OffsetCommitTopic where
  topic : String
  partitions : List OffsetCommitPartition

structure OffsetCommitRequest where
  groupId : String
  generationId : ℤ
  memberId : String
  topics : List OffsetCommitTopic

def OffsetCommitPartition.decode : Parser OffsetCommitPartition := do
  let partition ← getI32
  let committedOffset ← getI64
  let metadata ← KafkaDecoder.readString
  return ⟨partition, committedOffset, metadata⟩

def OffsetCommitTopic.decode : Parser OffsetCommitTopic := do
  let topic ← readStringOrEmpty
  let partitions ← uncheckedArray 40 OffsetCommitPartition.decode
  return ⟨topic, partitions⟩

def OffsetCommitRequest.decode (version : ℤ) : Parser OffsetCommitRequest := do
  let groupId ← readStringOrEmpty
  let generationId ← (if fromVersion 1 version then getI32 else pure 0)
  let memberId ← (if fromVersion 1 version then readStringOrEmpty else pure "")
  let _ ← (if fromVersion 2 version && !fromVersion 5 version then getI64 else pure 0)
  let topics ← uncheckedArray 48 OffsetCommitTopic.decode
  return ⟨groupId, generationId, memberId, topics⟩

structure OffsetFetchTopic where
  topic : String
  partitions : List ℤ

structure OffsetFetchRequest where
  groupId : String
  topics : Option (List OffsetFetchTopic)

def OffsetFetchTopic.decode : Parser OffsetFetchTopic := do
  let topic ← readStringOrEmpty
  let partitions ← uncheckedArray 4 getI32
  return ⟨topic, partitions⟩

def OffsetFetchRequest.decode : Parser OffsetFetchRequest := do
  let groupId ← readStringOrEmpty
  let topics ← nullableArray 48 OffsetFetchTopic.decode
  return ⟨groupId, topics⟩

structure FindCoordinatorRequest where
  key : String
  keyType : ℤ

def FindCoordinatorRequest.decode (version : ℤ) : Parser FindCoordinatorRequest := do
  let key ← readStringOrEmpty
  let keyType ← (if fromVersion 1 version then getI8 else pure 0)
  return ⟨key, keyType⟩

structure HeartbeatRequest where
  groupId : String
  generationId : ℤ
  memberId : String

def HeartbeatRequest.decode : Parser HeartbeatRequest := do
  let groupId ← readStringOrEmpty
  let generationId ← getI32
  let memberId ← readStringOrEmpty
  return ⟨groupId, generationId, memberId⟩

structure LeaveGroupRequest where
  groupId : String
  memberId : String

def LeaveGroupRequest.decode : Parser LeaveGroupRequest := do
  let groupId ← readStringOrEmpty
  let memberId ← readStringOrEmpty
  return ⟨groupId, memberId⟩

def namesDecode (truncated negative : String) : Parser (List String) := do
  Decoder.atLeast 4 (.protocol truncated)
  let names ← signedArray negative 24 KafkaDecoder.readString
  return names.reduceOption

structure DescribeGroupsRequest where
  groups : List String

def DescribeGroupsRequest.decode : Parser DescribeGroupsRequest := do
  let groups ← namesDecode "Truncated DescribeGroupsRequest groups count" "Negative groups count"
  return ⟨groups⟩

structure DeleteGroupsRequest where
  groupsNames : List String

def DeleteGroupsRequest.decode : Parser DeleteGroupsRequest := do
  let groupsNames ← namesDecode "Truncated DeleteGroupsRequest groups count"
    "Negative groups count"
  return ⟨groupsNames⟩

structure InitProducerIdRequest where
  transactionalId : Option String
  transactionTimeoutMs : ℤ
  producerId : ℤ
  producerEpoch : ℤ

def InitProducerIdRequest.decode (version : ℤ) : Parser InitProducerIdRequest := do
  let transactionalId ← KafkaDecoder.readString
  let transactionTimeoutMs ← getI32
  let producerId ← (if fromVersion 3 version then getI64 else pure (-1))
  let producerEpoch ← (if fromVersion 3 version then getI16 else pure (-1))
  return ⟨transactionalId, transactionTimeoutMs, producerId, producerEpoch⟩

structure AddPartitionsToTxnTopic where
  name : String
  partitions : List ℤ

structure AddPartitionsToTxnRequest where
  transactionalId : String
  producerId : ℤ
  producerEpoch : ℤ
  topics : List AddPartitionsToTxnTopic

def AddPartitionsToTxnTopic.decode : Parser AddPartitionsToTxnTopic := do
  let name ← readStringOrEmpty
  let partitions ← uncheckedArray 4 getI32
  return ⟨name, partitions⟩

def AddPartitionsToTxnRequest.decode : Parser AddPartitionsToTxnRequest := do
  let transactionalId ← readStringOrEmpty
  let producerId ← getI64
  let producerEpoch ← getI16
  let topics ← uncheckedArray 48 AddPartitionsToTxnTopic.decode
  return ⟨transactionalId, producerId, producerEpoch, topics⟩

structure AddOffsetsToTxnRequest where
  transactionalId : String
  producerId : ℤ
  producerEpoch : ℤ
  groupId : String

def AddOffsetsToTxnRequest.decode : Parser AddOffsetsToTxnRequest := do
  let transactionalId ← readStringOrEmpty
  let producerId ← getI64
  let producerEpoch ← getI16
  let groupId ← readStringOrEmpty
  return ⟨transactionalId, producerId, producerEpoch, groupId⟩

structure EndTxnRequest where
  transactionalId : String
  producerId : ℤ
  producerEpoch : ℤ
  committed : Bool

def EndTxnRequest.decode : Parser EndTxnRequest := do
  let transactionalId ← readStringOrEmpty
  let producerId ← getI64
  let producerEpoch ← getI16
  let committed ← getI8
  return ⟨transactionalId, producerId, producerEpoch, committed ≠ 0⟩

structure AclFilter where
  resourceTypeFilter : ℤ
  resourceNameFilter : Option String
  resourcePatternTypeFilter : ℤ
  principalFilter : Option String
  hostFilter : Option String
  operation : ℤ
  permissionType : ℤ

def aclDecode (version patternType : ℤ) (noType noPattern noOperation : String) :
    Parser AclFilter := do
  Decoder.atLeast 1 (.protocol noType)
  let resourceType ← getI8
  let resourceName ← readStringOf (fromVersion 2 version)
  let resourcePatternType ← (if fromVersion 1 version then do
      Decoder.atLeast 1 (.protocol noPattern)
      getI8
    else pure patternType)
  let principal ← readStringOf (fromVersion 2 version)
  let host ← readStringOf (fromVersion 2 version)
  Decoder.atLeast 2 (.protocol noOperation)
  let operation ← getI8
  let permissionType ← getI8
  let _ ← trailingTags (fromVersion 2 version)
  return ⟨resourceType, resourceName, resourcePatternType, principal, host, operation,
    permissionType⟩

def aclArray {α : Type} (version : ℤ) (truncated : String) (element : Parser α) :
    Parser (List α) :=
  if fromVersion 2 version then do
    let len ← KafkaDecoder.readUnsignedVarint
    vec 80 (len - 1) element
  else do
    Decoder.atLeast 4 (.protocol truncated)
    uncheckedArray 80 element

structure AclCreation where
  resourceType : ℤ
  resourceName : String
  resourcePatternType : ℤ
  principal : String
  host : String
  operation : ℤ
  permissionType : ℤ

def AclCreation.decode (version : ℤ) : Parser AclCreation := do
  let e ← aclDecode version 3 "Truncated AclCreation resource_type"
    "Truncated resource_pattern_type" "Truncated operation / permission_type"
  return ⟨e.resourceTypeFilter, e.resourceNameFilter.getD "", e.resourcePatternTypeFilter,
    e.principalFilter.getD "", e.hostFilter.getD "", e.operation, e.permissionType⟩

structure CreateAclsRequest where
  creations : List AclCreation

def CreateAclsRequest.decode (version : ℤ) : Parser CreateAclsRequest := do
  let creations ← aclArray version "Truncated CreateAclsRequest count" (AclCreation.decode version)
  let _ ← trailingTags (fromVersion 2 version)
  return ⟨creations⟩

def DescribeAclsRequest.decode (version : ℤ) : Parser AclFilter :=
  aclDecode version 1 "Truncated DescribeAclsRequest resource_type"
    "Truncated resource_pattern_type_filter" "Truncated operation / permission_type"

structure DeleteAclsRequest where
  filters : List AclFilter

def DeleteAclsFilter.decode (version : ℤ) : Parser AclFilter :=
  aclDecode version 1 "Truncated filter resource_type" "Truncated resource_pattern_type_filter"
    "Truncated filter operation/permission"

def DeleteAclsRequest.decode (version : ℤ) : Parser DeleteAclsRequest := do
  let filters ← aclArray version "Truncated DeleteAclsRequest filters count"
    (DeleteAclsFilter.decode version)
  let _ ← trailingTags (fromVersion 2 version)
  return ⟨filters⟩

structure CreateTopicsReplicaAssignment where
  partitionIndex : ℤ
  brokerIds : List ℤ

structure ConfigEntry where
  name : String
  value : Option String

structure CreatableTopic where
  name : String
  numPartitions : ℤ
  replicationFactor : ℤ
  assignments : List CreateTopicsReplicaAssignment
  configs : List ConfigEntry

structure CreateTopicsRequest where
  topics : List CreatableTopic
  timeoutMs : ℤ
  validateOnly : Bool

def CreateTopicsReplicaAssignment.decode : Parser CreateTopicsReplicaAssignment := do
  Decoder.atLeast 8 (.protocol "Truncated assignment data")
  let partitionIndex ← getI32
  let ids ← readBrokerIds "Truncated broker_ids"
  return ⟨partitionIndex, ids⟩

def ConfigEntry.decode : Parser ConfigEntry := do
  let name ← readStringOrEmpty
  let value ← KafkaDecoder.readString
  return ⟨name, value⟩

def CreatableTopic.decode : Parser CreatableTopic := do
  let name ← readStringOrEmpty
  Decoder.atLeast 6 (.protocol "Truncated CreatableTopic partitions/replication")
  let numPartitions ← getI32
  let replicationFactor ← getI16
  Decoder.atLeast 4 (.protocol "Truncated assignments count")
  let assignments ← clampedArray 32 CreateTopicsReplicaAssignment.decode
  Decoder.atLeast 4 (.protocol "Truncated configs count")
  let configs ← clampedArray 48 ConfigEntry.decode
  return ⟨name, numPartitions, replicationFactor, assignments, configs⟩

def CreateTopicsRequest.decode (version : ℤ) : Parser CreateTopicsRequest := do
  Decoder.atLeast 4 (.protocol "Truncated CreateTopicsRequest topics count")
  let topics ← signedArray "Negative topics count" 80 CreatableTopic.decode
  Decoder.atLeast 4 (.protocol "Truncated timeout_ms")
  let timeoutMs ← getI32
  let validateOnly ← (if fromVersion 1 version then Decoder.whenLeft 1 0 getU8 else pure 0)
  return ⟨topics, timeoutMs, validateOnly ≠ 0⟩

structure DeleteTopicsRequest where
  topicNames : List String
  timeoutMs : ℤ

def DeleteTopicsRequest.decode : Parser DeleteTopicsRequest := do
  Decoder.atLeast 4 (.protocol "Truncated DeleteTopicsRequest count")
  let names ← signedArray "Negative count" 24 KafkaDecoder.readString
  Decoder.atLeast 4 (.protocol "Truncated timeout_ms")
  let timeoutMs ← getI32
  return ⟨names.reduceOption, timeoutMs⟩

structure DescribeConfigsResource where
  resourceType : ℤ
  resourceName : String
  configurationKeys : Option (List String)

structure DescribeConfigsRequest where
  resources : List DescribeConfigsResource
  includeSynonyms : Bool

def DescribeConfigsResource.decode : Parser DescribeConfigsResource := do
  Decoder.atLeast 1 (.protocol "Truncated resource_type")
  let resourceType ← getI8
  let resourceName ← readStringOrEmpty
  Decoder.atLeast 4 (.protocol "Truncated configuration_keys count")
  let keys ← nullableArray 24 KafkaDecoder.readString
  return ⟨resourceType, resourceName, keys.map (·.reduceOption)⟩

def DescribeConfigsRequest.decode (version : ℤ) : Parser DescribeConfigsRequest := do
  Decoder.atLeast 4 (.protocol "Truncated DescribeConfigsRequest resources count")
  let resources ← signedArray "Negative resources count" 56 DescribeConfigsResource.decode
  let includeSynonyms ← (if fromVersion 1 version then do
      Decoder.atLeast 1 (.protocol "Truncated include_synonyms")
      getU8
    else pure 0)
  return ⟨resources, includeSynonyms ≠ 0⟩

structure AlterConfigsResource where
  resourceType : ℤ
  resourceName : String
  configs : List ConfigEntry

structure AlterConfigsRequest where
  resources : List AlterConfigsResource
  validateOnly : Bool

def AlterConfigsResource.decode : Parser AlterConfigsResource := do
  Decoder.atLeast 1 (.protocol "Truncated resource_type")
  let resourceType ← getI8
  let resourceName ← readStringOrEmpty
  Decoder.atLeast 4 (.protocol "Truncated configs count")
  let configs ← signedArray "Negative configs count" 48 ConfigEntry.decode
  return ⟨resourceType, resourceName, configs⟩

def AlterConfigsRequest.decode : Parser AlterConfigsRequest := do
  Decoder.atLeast 4 (.protocol "Truncated AlterConfigsRequest resources count")
  let resources ← signedArray "Negative resources count" 56 AlterConfigsResource.decode
  Decoder.atLeast 1 (.protocol "Truncated validate_only")
  let validateOnly ← getU8
  return ⟨resources, validateOnly ≠ 0⟩

structure DeleteRecordsPartition where
  partitionIndex : ℤ
  offset : ℤ

structure DeleteRecordsTopic where
  name : String
  partitions : List DeleteRecordsPartition

structure DeleteRecordsRequest where
  topics : List DeleteRecordsTopic
  timeoutMs : ℤ

def DeleteRecordsPartition.decode : Parser DeleteRecordsPartition := do
  Decoder.atLeast 12 (.protocol "Truncated DeleteRecords partition item")
  let partitionIndex ← getI32
  let offset ← getI64
  return ⟨partitionIndex, offset⟩

def DeleteRecordsTopic.decode : Parser DeleteRecordsTopic := do
  let name ← readStringOrEmpty
  Decoder.atLeast 4 (.protocol "Truncated DeleteRecords partitions count")
  let partitions ← signedArray "Negative DeleteRecords partitions count" 16
    DeleteRecordsPartition.decode
  return ⟨name, partitions⟩

def DeleteRecordsRequest.decode : Parser DeleteRecordsRequest := do
  Decoder.atLeast 4 (.protocol "Truncated DeleteRecords topics count")
  let topics ← signedArray "Negative DeleteRecords topics count" 48 DeleteRecordsTopic.decode
  Decoder.atLeast 4 (.protocol "Truncated DeleteRecords timeout_ms")
  let timeoutMs ← getI32
  return ⟨topics, timeoutMs⟩

structure CreatePartitionsTopic where
  name : String
  count : ℤ
  assignments : Option (List (List ℤ))

structure CreatePartitionsRequest where
  topicPartitions : List CreatePartitionsTopic
  timeoutMs : ℤ
  validateOnly : Bool

def CreatePartitionsAssignment.decode : Parser (List ℤ) := do
  Decoder.atLeast 4 (.protocol "Truncated CreatePartitions assignment broker count")
  readBrokerIds "Truncated CreatePartitions assignment broker ids"

def CreatePartitionsTopic.decode : Parser CreatePartitionsTopic := do
  let name ← readStringOrEmpty
  Decoder.atLeast 8 (.protocol "Truncated CreatePartitionsTopic count or assignments")
  let count ← getI32
  let assignments ← nullableArray 24 CreatePartitionsAssignment.decode
  return ⟨name, count, assignments⟩

def CreatePartitionsRequest.decode : Parser CreatePartitionsRequest := do
  Decoder.atLeast 4 (.protocol "Truncated CreatePartitionsRequest topics count")
  let topicPartitions ← signedArray "Negative CreatePartitionsRequest topics count" 56
    CreatePartitionsTopic.decode
  Decoder.atLeast 4 (.protocol "Truncated CreatePartitions timeout_ms")
  let timeoutMs ← getI32
  let validateOnly ← Decoder.whenLeft 1 0 getU8
  return ⟨topicPartitions, timeoutMs, validateOnly ≠ 0⟩

inductive Request where
  | produce (request : ProduceRequest)
  | fetch (request : FetchRequest)
  | listOffsets (request : ListOffsetsRequest)
  | metadata (request : MetadataRequest)
  | offsetCommit (request : OffsetCommitRequest)
  | offsetFetch (request : OffsetFetchRequest)
  | findCoordinator (request : FindCoordinatorRequest)
  | heartbeat (request : HeartbeatRequest)
  | leaveGroup (request : LeaveGroupRequest)
  | describeGroups (request : DescribeGroupsRequest)
  | listGroups
  | saslHandshake (request : SaslHandshakeRequest)
  | apiVersions (request : ApiVersionsRequest)
  | createTopics (request : CreateTopicsRequest)
  | deleteTopics (request : DeleteTopicsRequest)
  | deleteRecords (request : DeleteRecordsRequest)
  | initProducerId (request : InitProducerIdRequest)
  | addPartitionsToTxn (request : AddPartitionsToTxnRequest)
  | addOffsetsToTxn (request : AddOffsetsToTxnRequest)
  | endTxn (request : EndTxnRequest)
  | describeAcls (request : AclFilter)
  | createAcls (request : CreateAclsRequest)
  | deleteAcls (request : DeleteAclsRequest)
  | describeConfigs (request : DescribeConfigsRequest)
  | alterConfigs (request : AlterConfigsRequest)
  | saslAuthenticate (request : SaslAuthenticateRequest)
  | createPartitions (request : CreatePartitionsRequest)
  | deleteGroups (request : DeleteGroupsRequest)

def Request.decode (version : ℤ) : ApiKey → Parser Request
  | .produce => do return .produce (← ProduceRequest.decode version)
  | .fetch => do return .fetch (← FetchRequest.decode version)
  | .listOffsets => do return .listOffsets (← ListOffsetsRequest.decode version)
  | .metadata => do return .metadata (← MetadataRequest.decode)
  | .offsetCommit => do return .offsetCommit (← OffsetCommitRequest.decode version)
  | .offsetFetch => do return .offsetFetch (← OffsetFetchRequest.decode)
  | .findCoordinator => do return .findCoordinator (← FindCoordinatorRequest.decode version)
  | .heartbeat => do return .heartbeat (← HeartbeatRequest.decode)
  | .leaveGroup => do return .leaveGroup (← LeaveGroupRequest.decode)
  | .describeGroups => do return .describeGroups (← DescribeGroupsRequest.decode)
  | .listGroups => return .listGroups
  | .saslHandshake => do return .saslHandshake (← SaslHandshakeRequest.decode)
  | .apiVersions => do return .apiVersions (← ApiVersionsRequest.decode version)
  | .createTopics => do return .createTopics (← CreateTopicsRequest.decode version)
  | .deleteTopics => do return .deleteTopics (← DeleteTopicsRequest.decode)
  | .deleteRecords => do return .deleteRecords (← DeleteRecordsRequest.decode)
  | .initProducerId => do return .initProducerId (← InitProducerIdRequest.decode version)
  | .addPartitionsToTxn => do return .addPartitionsToTxn (← AddPartitionsToTxnRequest.decode)
  | .addOffsetsToTxn => do return .addOffsetsToTxn (← AddOffsetsToTxnRequest.decode)
  | .endTxn => do return .endTxn (← EndTxnRequest.decode)
  | .describeAcls => do return .describeAcls (← DescribeAclsRequest.decode version)
  | .createAcls => do return .createAcls (← CreateAclsRequest.decode version)
  | .deleteAcls => do return .deleteAcls (← DeleteAclsRequest.decode version)
  | .describeConfigs => do return .describeConfigs (← DescribeConfigsRequest.decode version)
  | .alterConfigs => do return .alterConfigs (← AlterConfigsRequest.decode)
  | .saslAuthenticate => do return .saslAuthenticate (← SaslAuthenticateRequest.decode version)
  | .createPartitions => do return .createPartitions (← CreatePartitionsRequest.decode)
  | .deleteGroups => do return .deleteGroups (← DeleteGroupsRequest.decode)
  | .joinGroup => protocolError ("Unsupported Kafka API Key " ++ ApiKey.joinGroup.debug)
  | .syncGroup => protocolError ("Unsupported Kafka API Key " ++ ApiKey.syncGroup.debug)

def Request.apiKey : Request → ApiKey
  | .produce _ => .produce
  | .fetch _ => .fetch
  | .listOffsets _ => .listOffsets
  | .metadata _ => .metadata
  | .offsetCommit _ => .offsetCommit
  | .offsetFetch _ => .offsetFetch
  | .findCoordinator _ => .findCoordinator
  | .heartbeat _ => .heartbeat
  | .leaveGroup _ => .leaveGroup
  | .describeGroups _ => .describeGroups
  | .listGroups => .listGroups
  | .saslHandshake _ => .saslHandshake
  | .apiVersions _ => .apiVersions
  | .createTopics _ => .createTopics
  | .deleteTopics _ => .deleteTopics
  | .deleteRecords _ => .deleteRecords
  | .initProducerId _ => .initProducerId
  | .addPartitionsToTxn _ => .addPartitionsToTxn
  | .addOffsetsToTxn _ => .addOffsetsToTxn
  | .endTxn _ => .endTxn
  | .describeAcls _ => .describeAcls
  | .createAcls _ => .createAcls
  | .deleteAcls _ => .deleteAcls
  | .describeConfigs _ => .describeConfigs
  | .alterConfigs _ => .alterConfigs
  | .saslAuthenticate _ => .saslAuthenticate
  | .createPartitions _ => .createPartitions
  | .deleteGroups _ => .deleteGroups

theorem Request.apiKey_of_decode {v : ℤ} {key : ApiKey} {req : Request} {src rest : Bytes}
    (h : (Request.decode v key).run src = .ok req rest) : req.apiKey = key := by
  cases key with
  | listGroups =>
    obtain ⟨rfl, -⟩ := Outcome.ok.inj h
    rfl
  | joinGroup => exact absurd h nofun
  | syncGroup => exact absurd h nofun
  | _ =>
    obtain ⟨a, -, rfl⟩ := Decoder.run_bind_pure_eq_ok h
    rfl

end OxideMq.Protocol
