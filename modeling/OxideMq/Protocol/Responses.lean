import OxideMq.Lib.Bytes
import OxideMq.Protocol.ErrorCode

/-! The responses of the broker, and the versions of its interfaces that it advertises. -/

namespace OxideMq.Protocol

open Lib

structure ApiVersionKey where
  apiKey : ℤ
  minVersion : ℤ
  maxVersion : ℤ
  deriving DecidableEq, Repr

structure ApiVersionsResponse where
  errorCode : KafkaErrorCode
  apiKeys : List ApiVersionKey
  throttleTimeMs : ℤ

def ApiVersionsResponse.defaultSupported : ApiVersionsResponse :=
  ⟨.none,
    [⟨0, 0, 7⟩, ⟨1, 0, 6⟩, ⟨2, 0, 5⟩, ⟨3, 0, 7⟩, ⟨8, 0, 2⟩, ⟨9, 0, 5⟩, ⟨10, 0, 2⟩, ⟨11, 0, 5⟩,
      ⟨12, 0, 3⟩, ⟨13, 0, 3⟩, ⟨14, 0, 3⟩, ⟨15, 0, 2⟩, ⟨16, 0, 2⟩, ⟨17, 0, 1⟩, ⟨18, 0, 3⟩,
      ⟨19, 0, 4⟩, ⟨20, 0, 3⟩, ⟨21, 0, 2⟩, ⟨22, 0, 4⟩, ⟨24, 0, 3⟩, ⟨25, 0, 3⟩, ⟨26, 0, 3⟩,
      ⟨29, 0, 2⟩, ⟨30, 0, 2⟩, ⟨31, 0, 2⟩, ⟨32, 0, 2⟩, ⟨33, 0, 1⟩, ⟨36, 0, 2⟩, ⟨37, 0, 2⟩,
      ⟨42, 0, 2⟩], 0⟩

structure CodeResponse where
  throttleTimeMs : ℤ
  errorCode : KafkaErrorCode

structure BrokerMetadata where
  nodeId : ℤ
  host : String
  port : ℤ
  rack : Option String

structure PartitionMetadata where
  errorCode : KafkaErrorCode
  partitionIndex : ℤ
  leaderId : ℤ
  leaderEpoch : ℤ
  replicaNodes : List ℤ
  isrNodes : List ℤ

structure TopicMetadata where
  errorCode : KafkaErrorCode
  name : String
  isInternal : Bool
  partitions : List PartitionMetadata

structure MetadataResponse where
  throttleTimeMs : ℤ
  brokers : List BrokerMetadata
  clusterId : Option String
  controllerId : ℤ
  topics : List TopicMetadata

structure PartitionProduceResponse where
  partition : ℤ
  errorCode : KafkaErrorCode
  baseOffset : ℤ
  logAppendTimeMs : ℤ
  logStartOffset : ℤ

structure TopicProduceResponse where
  topic : String
  partitions : List PartitionProduceResponse

structure ProduceResponse where
  responses : List TopicProduceResponse
  throttleTimeMs : ℤ

structure FetchPartitionResponse where
  partitionIndex : ℤ
  errorCode : KafkaErrorCode
  highWatermark : ℤ
  lastStableOffset : ℤ
  records : Bytes

structure FetchTopicResponse where
  topic : String
  partitions : List FetchPartitionResponse

structure FetchResponse where
  throttleTimeMs : ℤ
  errorCode : KafkaErrorCode
  responses : List FetchTopicResponse

structure ListOffsetsPartitionResponse where
  partition : ℤ
  errorCode : KafkaErrorCode
  timestamp : ℤ
  offset : ℤ
  leaderEpoch : ℤ

structure ListOffsetsTopicResponse where
  topic : String
  partitions : List ListOffsetsPartitionResponse

structure ListOffsetsResponse where
  throttleTimeMs : ℤ
  topics : List ListOffsetsTopicResponse

structure FindCoordinatorResponse where
  throttleTimeMs : ℤ
  errorCode : KafkaErrorCode
  errorMessage : Option String
  nodeId : ℤ
  host : String
  port : ℤ

structure OffsetCommitPartitionResponse where
  partition : ℤ
  errorCode : KafkaErrorCode

structure OffsetCommitTopicResponse where
  topic : String
  partitions : List OffsetCommitPartitionResponse

structure OffsetCommitResponse where
  throttleTimeMs : ℤ
  topics : List OffsetCommitTopicResponse

structure OffsetFetchPartitionResponse where
  partition : ℤ
  offset : ℤ
  metadata : Option String
  errorCode : KafkaErrorCode

structure OffsetFetchTopicResponse where
  topic : String
  partitions : List OffsetFetchPartitionResponse

structure OffsetFetchResponse where
  throttleTimeMs : ℤ
  topics : List OffsetFetchTopicResponse
  errorCode : KafkaErrorCode

abbrev HeartbeatResponse := CodeResponse

abbrev LeaveGroupResponse := CodeResponse

structure ListedGroup where
  groupId : String
  protocolType : String

structure ListGroupsResponse where
  throttleTimeMs : ℤ
  errorCode : KafkaErrorCode
  groups : List ListedGroup

structure DeletableGroupResult where
  groupId : String
  errorCode : KafkaErrorCode

structure DeleteGroupsResponse where
  throttleTimeMs : ℤ
  results : List DeletableGroupResult

structure InitProducerIdResponse where
  throttleTimeMs : ℤ
  errorCode : KafkaErrorCode
  producerId : ℤ
  producerEpoch : ℤ

structure AddPartitionsToTxnPartitionResult where
  partitionIndex : ℤ
  errorCode : KafkaErrorCode

structure AddPartitionsToTxnTopicResult where
  name : String
  results : List AddPartitionsToTxnPartitionResult

structure AddPartitionsToTxnResponse where
  throttleTimeMs : ℤ
  errors : List AddPartitionsToTxnTopicResult

abbrev AddOffsetsToTxnResponse := CodeResponse

abbrev EndTxnResponse := CodeResponse

structure AclCreationResult where
  errorCode : KafkaErrorCode
  errorMessage : Option String

structure CreateAclsResponse where
  throttleTimeMs : ℤ
  results : List AclCreationResult

structure AclDescription where
  principal : String
  host : String
  operation : ℤ
  permissionType : ℤ

structure DescribeAclsResource where
  resourceType : ℤ
  resourceName : String
  resourcePatternType : ℤ
  acls : List AclDescription

structure DescribeAclsResponse where
  throttleTimeMs : ℤ
  errorCode : KafkaErrorCode
  errorMessage : Option String
  resources : List DescribeAclsResource

structure DeleteAclsMatchingAcl where
  errorCode : KafkaErrorCode
  errorMessage : Option String
  resourceType : ℤ
  resourceName : String
  resourcePatternType : ℤ
  principal : String
  host : String
  operation : ℤ
  permissionType : ℤ

structure DeleteAclsFilterResult where
  errorCode : KafkaErrorCode
  errorMessage : Option String
  matchingAcls : List DeleteAclsMatchingAcl

structure DeleteAclsResponse where
  throttleTimeMs : ℤ
  filterResults : List DeleteAclsFilterResult

structure CreatableTopicResult where
  name : String
  errorCode : KafkaErrorCode
  errorMessage : Option String

structure CreateTopicsResponse where
  throttleTimeMs : ℤ
  topics : List CreatableTopicResult

structure DeletableTopicResult where
  name : String
  errorCode : KafkaErrorCode

structure DeleteTopicsResponse where
  throttleTimeMs : ℤ
  responses : List DeletableTopicResult

structure DescribeConfigsSynonym where
  name : String
  value : Option String
  source : ℤ

structure DescribeConfigsResourceResult where
  name : String
  value : Option String
  readOnly : Bool
  isDefault : Bool
  configSource : ℤ
  isSensitive : Bool
  synonyms : List DescribeConfigsSynonym

structure DescribeConfigsResult where
  errorCode : KafkaErrorCode
  errorMessage : Option String
  resourceType : ℤ
  resourceName : String
  configs : List DescribeConfigsResourceResult

structure DescribeConfigsResponse where
  throttleTimeMs : ℤ
  results : List DescribeConfigsResult

structure AlterConfigsResourceResponse where
  errorCode : KafkaErrorCode
  errorMessage : Option String
  resourceType : ℤ
  resourceName : String

structure AlterConfigsResponse where
  throttleTimeMs : ℤ
  responses : List AlterConfigsResourceResponse

structure DeleteRecordsPartitionResult where
  partitionIndex : ℤ
  lowWatermark : ℤ
  errorCode : KafkaErrorCode

structure DeleteRecordsTopicResult where
  name : String
  partitions : List DeleteRecordsPartitionResult

structure DeleteRecordsResponse where
  throttleTimeMs : ℤ
  topics : List DeleteRecordsTopicResult

structure CreatePartitionsTopicResult where
  name : String
  errorCode : KafkaErrorCode
  errorMessage : Option String

structure CreatePartitionsResponse where
  throttleTimeMs : ℤ
  results : List CreatePartitionsTopicResult

end OxideMq.Protocol
