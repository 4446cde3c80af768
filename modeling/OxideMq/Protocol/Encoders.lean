import OxideMq.Protocol.KafkaEncoder
import OxideMq.Protocol.Requests
import OxideMq.Protocol.Responses

/-! Encoders of requests and responses, and the decoders of the responses. -/

namespace OxideMq.Protocol

open Lib OxideMq.Core KafkaEncoder

def writeStringOf (compact : Bool) (s : Option String) : Bytes :=
  if compact then writeCompactString s else writeString s

def flexibleArray {α : Type} (size : ℕ) (version : ℤ) (truncated : String) (element : Parser α) :
    Parser (List α) :=
  if fromVersion 2 version then do
    let len ← KafkaDecoder.readUnsignedVarint
    vec size (len - 1) element
  else do
    Decoder.atLeast 4 (.protocol truncated)
    uncheckedArray size element

def putFlexibleArray {α : Type} (version : ℤ) (element : α → Bytes) (xs : List α) : Bytes :=
  if fromVersion 2 version then putCompactArray element xs else putArray element xs

def putTags (flexible : Bool) : Bytes := if flexible then writeUnsignedVarint 10 0 else []

def MetadataRequest.encode (request : MetadataRequest) : Bytes :=
  [match request.topics with
    | some names => putArray (fun name => writeString (some name)) names
    | none => putI32 (-1),
    putBool request.allowAutoTopicCreation].flatten

def BrokerMetadata.encode (version : ℤ) (b : BrokerMetadata) : Bytes :=
  [putI32 b.nodeId, writeString (some b.host), putI32 b.port,
    if fromVersion 1 version then writeString b.rack else []].flatten

def PartitionMetadata.encode (version : ℤ) (p : PartitionMetadata) : Bytes :=
  [putI16 p.errorCode.code, putI32 p.partitionIndex, putI32 p.leaderId,
    if fromVersion 7 version then putI32 p.leaderEpoch else [],
    putArray putI32 p.replicaNodes, putArray putI32 p.isrNodes,
    if fromVersion 5 version then putI32 0 else []].flatten

def TopicMetadata.encode (version : ℤ) (t : TopicMetadata) : Bytes :=
  [putI16 t.errorCode.code, writeString (some t.name),
    if fromVersion 1 version then putBool t.isInternal else [],
    putArray (PartitionMetadata.encode version) t.partitions].flatten

def MetadataResponse.encode (version : ℤ) (response : MetadataResponse) : Bytes :=
  [if fromVersion 3 version then putI32 response.throttleTimeMs else [],
    putArray (BrokerMetadata.encode version) response.brokers,
    if fromVersion 2 version then writeString response.clusterId else [],
    if fromVersion 1 version then putI32 response.controllerId else [],
    putArray (TopicMetadata.encode version) response.topics].flatten

def readErrorCode : Parser KafkaErrorCode := do
  let code ← getI16
  return KafkaErrorCode.fromI16 code

def BrokerMetadata.decode (version : ℤ) : Parser BrokerMetadata := do
  let nodeId ← getI32
  let host ← readStringOrEmpty
  let port ← getI32
  let rack ← (if fromVersion 1 version then KafkaDecoder.readString else pure none)
  return ⟨nodeId, host, port, rack⟩

def PartitionMetadata.decode (version : ℤ) : Parser PartitionMetadata := do
  let errorCode ← readErrorCode
  let partitionIndex ← getI32
  let leaderId ← getI32
  let leaderEpoch ← (if fromVersion 7 version then getI32 else pure 0)
  let replicaNodes ← uncheckedArray 4 getI32
  let isrNodes ← uncheckedArray 4 getI32
  let _ ← (if fromVersion 5 version then do
      let offlineCount ← getI32
      getI32.times (asUsize offlineCount)
    else pure [])
  return ⟨errorCode, partitionIndex, leaderId, leaderEpoch, replicaNodes, isrNodes⟩

def TopicMetadata.decode (version : ℤ) : Parser TopicMetadata := do
  let errorCode ← readErrorCode
  let name ← readStringOrEmpty
  let isInternal ← (if fromVersion 1 version then getU8 else pure 0)
  let partitions ← uncheckedArray 64 (PartitionMetadata.decode version)
  return ⟨errorCode, name, isInternal ≠ 0, partitions⟩

def MetadataResponse.decode (version : ℤ) : Parser MetadataResponse := do
  let throttleTimeMs ← (if fromVersion 3 version then getI32 else pure 0)
  let brokers ← uncheckedArray 56 (BrokerMetadata.decode version)
  let clusterId ← (if fromVersion 2 version then KafkaDecoder.readString else pure none)
  let controllerId ← (if fromVersion 1 version then getI32 else pure 0)
  let topics ← uncheckedArray 56 (TopicMetadata.decode version)
  return ⟨throttleTimeMs, brokers, clusterId, controllerId, topics⟩

def PartitionProduceData.encode (p : PartitionProduceData) : Bytes :=
  [putI32 p.partition, writeBytes (some p.records)].flatten

def TopicProduceData.encode (t : TopicProduceData) : Bytes :=
  [writeString (some t.topic), putArray PartitionProduceData.encode t.partitions].flatten

def ProduceRequest.encode (version : ℤ) (request : ProduceRequest) : Bytes :=
  [if fromVersion 3 version then writeString none else [],
    putI16 request.acks, putI32 request.timeoutMs,
    putArray TopicProduceData.encode request.topicData].flatten

def PartitionProduceResponse.encode (version : ℤ) (p : PartitionProduceResponse) : Bytes :=
  [putI32 p.partition, putI16 p.errorCode.code, putI64 p.baseOffset,
    if fromVersion 2 version then putI64 p.logAppendTimeMs else [],
    if fromVersion 5 version then putI64 p.logStartOffset else []].flatten

def TopicProduceResponse.encode (version : ℤ) (t : TopicProduceResponse) : Bytes :=
  [writeString (some t.topic),
    putArray (PartitionProduceResponse.encode version) t.partitions].flatten

def ProduceResponse.encode (version : ℤ) (response : ProduceResponse) : Bytes :=
  [putArray (TopicProduceResponse.encode version) response.responses,
    if fromVersion 1 version then putI32 response.throttleTimeMs else []].flatten

def PartitionProduceResponse.decode (version : ℤ) : Parser PartitionProduceResponse := do
  let partition ← getI32
  let errorCode ← readErrorCode
  let baseOffset ← getI64
  let logAppendTimeMs ← (if fromVersion 2 version then getI64 else pure (-1))
  let logStartOffset ← (if fromVersion 5 version then getI64 else pure 0)
  return ⟨partition, errorCode, baseOffset, logAppendTimeMs, logStartOffset⟩

def TopicProduceResponse.decode (version : ℤ) : Parser TopicProduceResponse := do
  let topic ← readStringOrEmpty
  let partitions ← uncheckedArray 32 (PartitionProduceResponse.decode version)
  return ⟨topic, partitions⟩

def ProduceResponse.decode (version : ℤ) : Parser ProduceResponse := do
  let responses ← uncheckedArray 48 (TopicProduceResponse.decode version)
  let throttleTimeMs ← (if fromVersion 1 version then getI32 else pure 0)
  return ⟨responses, throttleTimeMs⟩

def FetchPartition.encode (version : ℤ) (p : FetchPartition) : Bytes :=
  [putI32 p.partition, if fromVersion 9 version then putI32 (-1) else [],
    putI64 p.fetchOffset, if fromVersion 5 version then putI64 0 else [],
    putI32 p.partitionMaxBytes].flatten

def FetchTopic.encode (version : ℤ) (t : FetchTopic) : Bytes :=
  [writeString (some t.topic), putArray (FetchPartition.encode version) t.partitions].flatten

def FetchRequest.encode (version : ℤ) (request : FetchRequest) : Bytes :=
  [putI32 (-1), putI32 request.maxWaitMs, putI32 request.minBytes,
    if fromVersion 3 version then putI32 request.maxBytes else [],
    if fromVersion 4 version then putI8 request.isolationLevel else [],
    if fromVersion 7 version then putI32 0 else [],
    if fromVersion 7 version then putI32 0 else [],
    putArray (FetchTopic.encode version) request.topics].flatten

def FetchPartitionResponse.stableFields (p : FetchPartitionResponse) : Bytes :=
  [putI64 p.lastStableOffset, putI64 0, putI32 (-1)].flatten

def FetchPartitionResponse.encode (version : ℤ) (p : FetchPartitionResponse) : Bytes :=
  [putI32 p.partitionIndex, putI16 p.errorCode.code, putI64 p.highWatermark,
    if fromVersion 4 version then p.stableFields else [],
    writeBytes (some p.records)].flatten

def FetchTopicResponse.encode (version : ℤ) (t : FetchTopicResponse) : Bytes :=
  [writeString (some t.topic),
    putArray (FetchPartitionResponse.encode version) t.partitions].flatten

def FetchResponse.encode (version : ℤ) (response : FetchResponse) : Bytes :=
  [if fromVersion 1 version then putI32 response.throttleTimeMs else [],
    if fromVersion 7 version then [putI16 response.errorCode.code, putI32 0].flatten else [],
    putArray (FetchTopicResponse.encode version) response.responses].flatten

def skipAbortedTransaction : Parser ℤ := do
  let _ ← getI64
  getI64

def FetchPartitionResponse.decodeStable : Parser ℤ := do
  let lso ← getI64
  let _ ← getI64
  let abortedCount ← getI32
  let _ ← skipAbortedTransaction.times abortedCount.toNat
  return lso

def FetchPartitionResponse.decode (version : ℤ) : Parser FetchPartitionResponse := do
  let partitionIndex ← getI32
  let errorCode ← readErrorCode
  let highWatermark ← getI64
  let lastStableOffset ← (if fromVersion 4 version then FetchPartitionResponse.decodeStable
    else pure highWatermark)
  let records ← KafkaDecoder.readBytes
  return ⟨partitionIndex, errorCode, highWatermark, lastStableOffset, records.getD []⟩

def FetchTopicResponse.decode (version : ℤ) : Parser FetchTopicResponse := do
  let topic ← readStringOrEmpty
  let partitions ← uncheckedArray 56 (FetchPartitionResponse.decode version)
  return ⟨topic, partitions⟩

def FetchResponse.decode (version : ℤ) : Parser FetchResponse := do
  let throttleTimeMs ← (if fromVersion 1 version then getI32 else pure 0)
  let errorCode ← (if fromVersion 7 version then do
      let code ← readErrorCode
      let _ ← getI32
      return code
    else pure .none)
  let responses ← uncheckedArray 48 (FetchTopicResponse.decode version)
  return ⟨throttleTimeMs, errorCode, responses⟩

def OffsetCommitPartition.encode (p : OffsetCommitPartition) : Bytes :=
  [putI32 p.partition, putI64 p.committedOffset, writeString p.metadata].flatten

def OffsetCommitTopic.encode (t : OffsetCommitTopic) : Bytes :=
  [writeString (some t.topic), putArray OffsetCommitPartition.encode t.partitions].flatten

def OffsetCommitRequest.encode (version : ℤ) (request : OffsetCommitRequest) : Bytes :=
  [writeString (some request.groupId),
    if fromVersion 1 version then putI32 request.generationId else [],
    if fromVersion 1 version then writeString (some request.memberId) else [],
    if fromVersion 2 version && !fromVersion 5 version then putI64 (-1) else [],
    putArray OffsetCommitTopic.encode request.topics].flatten

def AclFilter.encode (version : ℤ) (f : AclFilter) : Bytes :=
  [putI8 f.resourceTypeFilter, writeStringOf (fromVersion 2 version) f.resourceNameFilter,
    if fromVersion 1 version then putI8 f.resourcePatternTypeFilter else [],
    writeStringOf (fromVersion 2 version) f.principalFilter,
    writeStringOf (fromVersion 2 version) f.hostFilter,
    putI8 f.operation, putI8 f.permissionType, putTags (fromVersion 2 version)].flatten

def AclCreation.encode (version : ℤ) (c : AclCreation) : Bytes :=
  [putI8 c.resourceType, writeStringOf (fromVersion 2 version) (some c.resourceName),
    if fromVersion 1 version then putI8 c.resourcePatternType else [],
    writeStringOf (fromVersion 2 version) (some c.principal),
    writeStringOf (fromVersion 2 version) (some c.host),
    putI8 c.operation, putI8 c.permissionType, putTags (fromVersion 2 version)].flatten

def CreateAclsRequest.encode (version : ℤ) (request : CreateAclsRequest) : Bytes :=
  [putFlexibleArray version (AclCreation.encode version) request.creations,
    putTags (fromVersion 2 version)].flatten

def AclDescription.encode (version : ℤ) (acl : AclDescription) : Bytes :=
  [writeStringOf (fromVersion 2 version) (some acl.principal),
    writeStringOf (fromVersion 2 version) (some acl.host),
    putI8 acl.operation, putI8 acl.permissionType, putTags (fromVersion 2 version)].flatten

def DescribeAclsResource.encode (version : ℤ) (res : DescribeAclsResource) : Bytes :=
  [putI8 res.resourceType, writeStringOf (fromVersion 2 version) (some res.resourceName),
    if fromVersion 1 version then putI8 res.resourcePatternType else [],
    putFlexibleArray version (AclDescription.encode version) res.acls,
    putTags (fromVersion 2 version)].flatten

def DescribeAclsResponse.encode (version : ℤ) (response : DescribeAclsResponse) : Bytes :=
  [putI32 response.throttleTimeMs, putI16 response.errorCode.code,
    writeStringOf (fromVersion 2 version) response.errorMessage,
    putFlexibleArray version (DescribeAclsResource.encode version) response.resources,
    putTags (fromVersion 2 version)].flatten

def AclDescription.decode (version : ℤ) : Parser AclDescription := do
  let principal ← readStringOf (fromVersion 2 version)
  let host ← readStringOf (fromVersion 2 version)
  Decoder.atLeast 2 (.protocol "Truncated acl operation/permission")
  let operation ← getI8
  let permissionType ← getI8
  let _ ← trailingTags (fromVersion 2 version)
  return ⟨principal.getD "", host.getD "", operation, permissionType⟩

def DescribeAclsResource.decode (version : ℤ) : Parser DescribeAclsResource := do
  Decoder.atLeast 1 (.protocol "Truncated resource_type")
  let resourceType ← getI8
  let resourceName ← readStringOf (fromVersion 2 version)
  let resourcePatternType ← (if fromVersion 1 version then do
      Decoder.atLeast 1 (.protocol "Truncated pattern_type")
      getI8
    else pure 3)
  let acls ← flexibleArray 56 version "Truncated acls count" (AclDescription.decode version)
  let _ ← trailingTags (fromVersion 2 version)
  return ⟨resourceType, resourceName.getD "", resourcePatternType, acls⟩

def DescribeAclsResponse.decode (version : ℤ) : Parser DescribeAclsResponse := do
  Decoder.atLeast 6 (.protocol "Truncated DescribeAclsResponse header")
  let throttleTimeMs ← getI32
  let errorCode ← readErrorCode
  let errorMessage ← readStringOf (fromVersion 2 version)
  let resources ← flexibleArray 56 version "Truncated resources count"
    (DescribeAclsResource.decode version)
  let _ ← trailingTags (fromVersion 2 version)
  return ⟨throttleTimeMs, errorCode, errorMessage, resources⟩

def CreateTopicsReplicaAssignment.encode (a : CreateTopicsReplicaAssignment) : Bytes :=
  [putI32 a.partitionIndex, putArray putI32 a.brokerIds].flatten

def ConfigEntry.encode (c : ConfigEntry) : Bytes :=
  [writeString (some c.name), writeString c.value].flatten

def CreatableTopic.encode (t : CreatableTopic) : Bytes :=
  [writeString (some t.name), putI32 t.numPartitions, putI16 t.replicationFactor,
    putArray CreateTopicsReplicaAssignment.encode t.assignments,
    putArray ConfigEntry.encode t.configs].flatten

def CreateTopicsRequest.encode (version : ℤ) (request : CreateTopicsRequest) : Bytes :=
  [putArray CreatableTopic.encode request.topics, putI32 request.timeoutMs,
    if fromVersion 1 version then putBool request.validateOnly else []].flatten

def DescribeConfigsSynonym.encode (s : DescribeConfigsSynonym) : Bytes :=
  [writeString (some s.name), writeString s.value, putI8 s.source].flatten

def DescribeConfigsResourceResult.encode (version : ℤ) (c : DescribeConfigsResourceResult) :
    Bytes :=
  [writeString (some c.name), writeString c.value, putBool c.readOnly,
    if version = 0 then putBool c.isDefault else putI8 c.configSource,
    putBool c.isSensitive,
    if fromVersion 1 version then putArray DescribeConfigsSynonym.encode c.synonyms
      else []].flatten

def DescribeConfigsResult.encode (version : ℤ) (res : DescribeConfigsResult) : Bytes :=
  [putI16 res.errorCode.code, writeString res.errorMessage, putI8 res.resourceType,
    writeString (some res.resourceName),
    putArray (DescribeConfigsResourceResult.encode version) res.configs].flatten

def DescribeConfigsResponse.encode (version : ℤ) (response : DescribeConfigsResponse) : Bytes :=
  [putI32 response.throttleTimeMs,
    putArray (DescribeConfigsResult.encode version) response.results].flatten

def DescribeConfigsSynonym.decode : Parser DescribeConfigsSynonym := do
  let name ← readStringOrEmpty
  let value ← KafkaDecoder.readString
  Decoder.atLeast 1 (.protocol "Truncated synonym source")
  let source ← getI8
  return ⟨name, value, source⟩

def readFlag (truncated : String) : Parser Bool := do
  Decoder.atLeast 1 (.protocol truncated)
  let flag ← getU8
  return flag ≠ 0

def decodeOrigin (version : ℤ) : Parser (Bool × ℤ) :=
  if version = 0 then do
    let isDefault ← readFlag "Truncated is_default"
    return (isDefault, -1)
  else do
    Decoder.atLeast 1 (.protocol "Truncated config_source")
    let source ← getI8
    return (false, source)

def DescribeConfigsResourceResult.decode (version : ℤ) : Parser DescribeConfigsResourceResult := do
  let name ← readStringOrEmpty
  let value ← KafkaDecoder.readString
  let readOnly ← readFlag "Truncated read_only"
  let origin ← decodeOrigin version
  let isSensitive ← readFlag "Truncated is_sensitive"
  let synonyms ← (if fromVersion 1 version then do
      Decoder.atLeast 4 (.protocol "Truncated synonyms count")
      clampedArray 56 DescribeConfigsSynonym.decode
    else pure [])
  return ⟨name, value, readOnly, origin.1, origin.2, isSensitive, synonyms⟩

def DescribeConfigsResult.decode (version : ℤ) : Parser DescribeConfigsResult := do
  Decoder.atLeast 2 (.protocol "Truncated error_code")
  let errorCode ← readErrorCode
  let errorMessage ← KafkaDecoder.readString
  Decoder.atLeast 1 (.protocol "Truncated resource_type")
  let resourceType ← getI8
  let resourceName ← readStringOrEmpty
  Decoder.atLeast 4 (.protocol "Truncated configs count")
  let configs ← signedArray "Negative configs count" 80
    (DescribeConfigsResourceResult.decode version)
  return ⟨errorCode, errorMessage, resourceType, resourceName, configs⟩

def DescribeConfigsResponse.decode (version : ℤ) : Parser DescribeConfigsResponse := do
  Decoder.atLeast 4 (.protocol "Truncated throttle_time_ms")
  let throttleTimeMs ← getI32
  Decoder.atLeast 4 (.protocol "Truncated results count")
  let results ← signedArray "Negative results count" 80 (DescribeConfigsResult.decode version)
  return ⟨throttleTimeMs, results⟩

end OxideMq.Protocol
