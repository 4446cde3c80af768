import OxideMq.Protocol.Encoders

/-! What an encoder writes, the decoder of the same version reads back and stops behind. -/

namespace OxideMq.Protocol

open Lib OxideMq.Core KafkaEncoder KafkaDecoder List

variable {version : ℤ}

theorem reads_stringOrEmpty {s : String} (h : TextFits false s) :
    Reads readStringOrEmpty (writeString (some s)) s := by
  refine .bind_pure (fun o : Option String => o.getD "") (reads_string fun t ht => ?_)
  cases ht
  exact h

theorem reads_stringOf {compact : Bool} {o : Option String} (h : ∀ s ∈ o, TextFits compact s) :
    Reads (readStringOf compact) (writeStringOf compact o) o := by
  cases compact with
  | true => exact reads_compactString h
  | false => exact reads_string h

theorem reads_someOf {compact : Bool} {s : String} (h : TextFits compact s) :
    Reads (readStringOf compact) (writeStringOf compact (some s)) (some s) := by
  refine reads_stringOf fun t ht => ?_
  cases ht
  exact h

theorem reads_errorCode (c : KafkaErrorCode) : Reads readErrorCode (putI16 c.code) c := by
  have hfits : FitsSigned 16 c.code := by cases c <;> decide
  have hreads : Reads readErrorCode (putI16 c.code) (KafkaErrorCode.fromI16 c.code) :=
    .bind_pure KafkaErrorCode.fromI16 (reads_i16 hfits)
  rwa [KafkaErrorCode.fromI16_code] at hreads

theorem reads_tags (flexible : Bool) : Reads (trailingTags flexible) (putTags flexible) 0 := by
  cases flexible with
  | true =>
    have hnone : Reads readUnsignedVarint (writeUnsignedVarint 10 0) 0 :=
      reads_unsignedVarint (by decide)
    exact .whenLeft 0 le_rfl hnone
  | false => exact .pure 0

theorem reads_flag (trunc : String) (b : Bool) : Reads (readFlag trunc) (putBool b) b := by
  have hflag : Reads (readFlag trunc) (putBool b) (b.toNat ≠ 0 : Bool) :=
    .atLeast _ le_rfl (.bind_pure (fun n => decide (n ≠ 0)) (reads_bool b))
  cases b with
  | true => exact hflag
  | false => exact hflag

theorem four_le_putArray {α : Type} (encode : α → Bytes) (xs : List α) :
    4 ≤ (putArray encode xs).length := by
  rw [putArray, length_append, putI32, putInt_length]
  omega

theorem reads_flexibleArray {α β : Type} {size : ℕ} {element : Parser β} {encode : α → Bytes}
    {value : α → β} {fits : α → Prop} {xs : List α} (v : ℤ) (trunc : String)
    (h : ListFits fits xs) (hsize : size < 2 ^ 32)
    (hx : ∀ {x}, fits x → Reads element (encode x) (value x)) :
    Reads (flexibleArray size v trunc element) (putFlexibleArray v encode xs) (xs.map value) := by
  have hlen := h.1
  rw [flexibleArray, putFlexibleArray]
  split
  · exact .bind (reads_unsignedVarint (by omega)) (reads_vec h hsize hx (Nat.add_sub_cancel _ _))
  · exact .atLeast _ (four_le_putArray _ _) (reads_uncheckedArray h hsize hx)

theorem flag_since (c b : Bool) :
    decide ((if c then b.toNat else 0) ≠ 0) = if c then b else false := by
  cases c with
  | false => rfl
  | true => cases b <;> rfl

structure MetadataRequest.Fits (request : MetadataRequest) : Prop where
  topics : ∀ names ∈ request.topics, ListFits (TextFits false) names

theorem reduceOption_somes {α : Type} (xs : List α) : (xs.map some).reduceOption = xs := by
  rw [reduceOption, filterMap_map]
  exact filterMap_some

theorem MetadataRequest.reads {request : MetadataRequest} (h : request.Fits) :
    Reads MetadataRequest.decode request.encode request := by
  obtain ⟨topics, allowAuto⟩ := request
  have hflag : Reads (Decoder.whenLeft 1 1 getU8) (putBool allowAuto) allowAuto.toNat :=
    .whenLeft 1 le_rfl (reads_bool allowAuto)
  have hallow : (allowAuto.toNat ≠ 0 : Bool) = allowAuto := by cases allowAuto <;> rfl
  cases topics with
  | none =>
    refine .whenLeft _ (Reads.length_le_flatten le_rfl) ?_
    refine .field (.bind_tail (reads_i32 (by decide)) (.pure none)) ?_
    refine .field hflag ?_
    rw [hallow]
    exact .pure _
  | some names =>
    have hn : Reads (nullableArray 24 readString)
        (putArray (fun name => writeString (some name)) names) (some (names.map some)) := by
      refine reads_nullableArray (h.topics names rfl) (by norm_num) fun hname => reads_string ?_
      rintro t ⟨⟩
      exact hname
    refine .whenLeft _ (Reads.length_le_flatten (four_le_putArray _ _)) ?_
    refine .field hn (.field hflag ?_)
    rw [hallow, Option.map_some, reduceOption_somes]
    exact .pure _

structure BrokerMetadata.Fits (version : ℤ) (b : BrokerMetadata) : Prop where
  nodeId : FitsSigned 32 b.nodeId
  host : TextFits false b.host
  port : FitsSigned 32 b.port
  rack : fromVersion 1 version → ∀ s ∈ b.rack, TextFits false s

def BrokerMetadata.carried (version : ℤ) (b : BrokerMetadata) : BrokerMetadata :=
  { b with rack := if fromVersion 1 version then b.rack else none }

theorem BrokerMetadata.reads {b : BrokerMetadata} (h : b.Fits version) :
    Reads (BrokerMetadata.decode version) (b.encode version) (b.carried version) := by
  refine .field (reads_i32 h.nodeId) ?_
  refine .field (reads_stringOrEmpty h.host) ?_
  refine .field (reads_i32 h.port) ?_
  refine .field (.since none fun hv => reads_string (h.rack hv)) ?_
  exact .pure _

structure PartitionMetadata.Fits (p : PartitionMetadata) : Prop where
  partitionIndex : FitsSigned 32 p.partitionIndex
  leaderId : FitsSigned 32 p.leaderId
  leaderEpoch : FitsSigned 32 p.leaderEpoch
  replicaNodes : ListFits (FitsSigned 32) p.replicaNodes
  isrNodes : ListFits (FitsSigned 32) p.isrNodes

def PartitionMetadata.carried (version : ℤ) (p : PartitionMetadata) : PartitionMetadata :=
  { p with leaderEpoch := if fromVersion 7 version then p.leaderEpoch else 0 }

theorem reads_noOffline :
    Reads (getI32 >>= fun offlineCount => getI32.times (asUsize offlineCount)) (putI32 0) [] :=
  .bind_tail (reads_i32 (by decide)) (.pure [])

theorem PartitionMetadata.reads (v : ℤ) {p : PartitionMetadata} (h : p.Fits) :
    Reads (PartitionMetadata.decode v) (p.encode v) (p.carried v) := by
  refine .field (reads_errorCode p.errorCode) ?_
  refine .field (reads_i32 h.partitionIndex) ?_
  refine .field (reads_i32 h.leaderId) ?_
  refine .field (.since 0 fun _ => reads_i32 h.leaderEpoch) ?_
  refine .field (reads_self (reads_uncheckedArray h.replicaNodes (by norm_num) reads_i32)) ?_
  refine .field (reads_self (reads_uncheckedArray h.isrNodes (by norm_num) reads_i32)) ?_
  refine .field (.since [] fun _ => reads_noOffline) ?_
  exact .pure _

structure TopicMetadata.Fits (t : TopicMetadata) : Prop where
  name : TextFits false t.name
  partitions : ListFits (·.Fits) t.partitions

def TopicMetadata.carried (version : ℤ) (t : TopicMetadata) : TopicMetadata :=
  { t with
    isInternal := if fromVersion 1 version then t.isInternal else false
    partitions := t.partitions.map (·.carried version) }

structure MetadataResponse.Fits (version : ℤ) (response : MetadataResponse) : Prop where
  throttleTimeMs : FitsSigned 32 response.throttleTimeMs
  brokers : ListFits (·.Fits version) response.brokers
  clusterId : fromVersion 2 version → ∀ s ∈ response.clusterId, TextFits false s
  controllerId : FitsSigned 32 response.controllerId
  topics : ListFits (·.Fits) response.topics

def MetadataResponse.carried (version : ℤ) (response : MetadataResponse) : MetadataResponse :=
  { throttleTimeMs := if fromVersion 3 version then response.throttleTimeMs else 0
    brokers := response.brokers.map (·.carried version)
    clusterId := if fromVersion 2 version then response.clusterId else none
    controllerId := if fromVersion 1 version then response.controllerId else 0
    topics := response.topics.map (·.carried version) }

theorem TopicMetadata.reads (v : ℤ) {t : TopicMetadata} (h : t.Fits) :
    Reads (TopicMetadata.decode v) (t.encode v) (t.carried v) := by
  refine .field (reads_errorCode t.errorCode) ?_
  refine .field (reads_stringOrEmpty h.name) ?_
  refine .field (.since 0 fun _ => reads_bool t.isInternal) ?_
  refine .field (reads_uncheckedArray h.partitions (by norm_num) (PartitionMetadata.reads v)) ?_
  rw [flag_since]
  exact .pure _

theorem MetadataResponse.reads {resp : MetadataResponse} (h : resp.Fits version) :
    Reads (MetadataResponse.decode version) (resp.encode version) (resp.carried version) := by
  refine .field (.since 0 fun _ => reads_i32 h.throttleTimeMs) ?_
  refine .field (reads_uncheckedArray h.brokers (by norm_num) BrokerMetadata.reads) ?_
  refine .field (.since none fun hv => reads_string (h.clusterId hv)) ?_
  refine .field (.since 0 fun _ => reads_i32 h.controllerId) ?_
  refine .field (reads_uncheckedArray h.topics (by norm_num) (TopicMetadata.reads version)) ?_
  exact .pure _

structure PartitionProduceData.Fits (p : PartitionProduceData) : Prop where
  partition : FitsSigned 32 p.partition
  records : p.records.length < 2 ^ 31

structure TopicProduceData.Fits (t : TopicProduceData) : Prop where
  topic : TextFits false t.topic
  partitions : ListFits (·.Fits) t.partitions

structure ProduceRequest.Fits (request : ProduceRequest) : Prop where
  acks : FitsSigned 16 request.acks
  timeoutMs : FitsSigned 32 request.timeoutMs
  topicData : ListFits (·.Fits) request.topicData

theorem PartitionProduceData.reads {p : PartitionProduceData} (h : p.Fits) :
    Reads PartitionProduceData.decode p.encode p := by
  refine .field (reads_i32 h.partition) ?_
  refine .field (reads_bytes h.records) ?_
  exact .pure _

theorem TopicProduceData.reads {t : TopicProduceData} (h : t.Fits) :
    Reads TopicProduceData.decode t.encode t := by
  refine .field (reads_stringOrEmpty h.topic) ?_
  refine .field (reads_self (reads_uncheckedArray h.partitions (by norm_num) PartitionProduceData.reads)) ?_
  exact .pure _

theorem ProduceRequest.reads (version : ℤ) {request : ProduceRequest} (h : request.Fits) :
    Reads (ProduceRequest.decode version) (request.encode version) request := by
  refine .field (.since none fun _ => reads_string nofun) ?_
  refine .field (reads_i16 h.acks) ?_
  refine .field (reads_i32 h.timeoutMs) ?_
  refine .field (reads_self (reads_uncheckedArray h.topicData (by norm_num) TopicProduceData.reads)) ?_
  exact .pure _

structure PartitionProduceResponse.Fits (p : PartitionProduceResponse) : Prop where
  partition : FitsSigned 32 p.partition
  baseOffset : FitsSigned 64 p.baseOffset
  logAppendTimeMs : FitsSigned 64 p.logAppendTimeMs
  logStartOffset : FitsSigned 64 p.logStartOffset

structure TopicProduceResponse.Fits (t : TopicProduceResponse) : Prop where
  topic : TextFits false t.topic
  partitions : ListFits (·.Fits) t.partitions

structure ProduceResponse.Fits (response : ProduceResponse) : Prop where
  responses : ListFits (·.Fits) response.responses
  throttleTimeMs : FitsSigned 32 response.throttleTimeMs

def PartitionProduceResponse.carried (version : ℤ) (p : PartitionProduceResponse) :
    PartitionProduceResponse :=
  { p with
    logAppendTimeMs := if fromVersion 2 version then p.logAppendTimeMs else -1
    logStartOffset := if fromVersion 5 version then p.logStartOffset else 0 }

def TopicProduceResponse.carried (version : ℤ) (t : TopicProduceResponse) :
    TopicProduceResponse :=
  { t with partitions := t.partitions.map (·.carried version) }

def ProduceResponse.carried (version : ℤ) (response : ProduceResponse) : ProduceResponse :=
  { responses := response.responses.map (·.carried version)
    throttleTimeMs := if fromVersion 1 version then response.throttleTimeMs else 0 }

theorem PartitionProduceResponse.reads (v : ℤ) {p : PartitionProduceResponse} (h : p.Fits) :
    Reads (PartitionProduceResponse.decode v) (p.encode v) (p.carried v) := by
  refine .field (reads_i32 h.partition) ?_
  refine .field (reads_errorCode p.errorCode) ?_
  refine .field (reads_i64 h.baseOffset) ?_
  refine .field (.since (-1) fun _ => reads_i64 h.logAppendTimeMs) ?_
  refine .field (.since 0 fun _ => reads_i64 h.logStartOffset) ?_
  exact .pure _

theorem TopicProduceResponse.reads (v : ℤ) {t : TopicProduceResponse} (h : t.Fits) :
    Reads (TopicProduceResponse.decode v) (t.encode v) (t.carried v) := by
  refine .field (reads_stringOrEmpty h.topic) ?_
  refine .field (reads_uncheckedArray h.partitions (by norm_num) (PartitionProduceResponse.reads v)) ?_
  exact .pure _

theorem ProduceResponse.reads (v : ℤ) {resp : ProduceResponse} (h : resp.Fits) :
    Reads (ProduceResponse.decode v) (resp.encode v) (resp.carried v) := by
  refine .field (reads_uncheckedArray h.responses (by norm_num) (TopicProduceResponse.reads v)) ?_
  refine .field (.since 0 fun _ => reads_i32 h.throttleTimeMs) ?_
  exact .pure _

structure FetchPartition.Fits (p : FetchPartition) : Prop where
  partition : FitsSigned 32 p.partition
  fetchOffset : FitsSigned 64 p.fetchOffset
  partitionMaxBytes : FitsSigned 32 p.partitionMaxBytes

structure FetchTopic.Fits (t : FetchTopic) : Prop where
  topic : TextFits false t.topic
  partitions : ListFits (·.Fits) t.partitions

structure FetchRequest.Fits (request : FetchRequest) : Prop where
  maxWaitMs : FitsSigned 32 request.maxWaitMs
  minBytes : FitsSigned 32 request.minBytes
  maxBytes : FitsSigned 32 request.maxBytes
  isolationLevel : FitsSigned 8 request.isolationLevel
  topics : ListFits (·.Fits) request.topics

def FetchRequest.carried (version : ℤ) (request : FetchRequest) : FetchRequest :=
  { request with
    maxBytes := if fromVersion 3 version then request.maxBytes else 0x7FFFFFFF
    isolationLevel := if fromVersion 4 version then request.isolationLevel else 0 }

theorem FetchPartition.reads (v : ℤ) {p : FetchPartition} (h : p.Fits) :
    Reads (FetchPartition.decode v) (p.encode v) p := by
  refine .field (reads_i32 h.partition) ?_
  refine .field (.since 0 fun _ => reads_i32 (by decide)) ?_
  refine .field (reads_i64 h.fetchOffset) ?_
  refine .field (.since 0 fun _ => reads_i64 (by decide)) ?_
  refine .field (reads_i32 h.partitionMaxBytes) ?_
  exact .pure _

theorem FetchTopic.reads (v : ℤ) {t : FetchTopic} (h : t.Fits) :
    Reads (FetchTopic.decode v) (t.encode v) t := by
  refine .field (reads_stringOrEmpty h.topic) ?_
  refine .field (reads_self (reads_uncheckedArray h.partitions (by norm_num) (FetchPartition.reads v))) ?_
  exact .pure _

theorem FetchRequest.reads (v : ℤ) {req : FetchRequest} (h : req.Fits) :
    Reads (FetchRequest.decode v) (req.encode v) (req.carried v) := by
  refine .field (reads_i32 (by decide)) ?_
  refine .field (reads_i32 h.maxWaitMs) ?_
  refine .field (reads_i32 h.minBytes) ?_
  refine .field (.since 0x7FFFFFFF fun _ => reads_i32 h.maxBytes) ?_
  refine .field (.since 0 fun _ => reads_i8 h.isolationLevel) ?_
  refine .field (.since 0 fun _ => reads_i32 (by decide)) ?_
  refine .field (.since 0 fun _ => reads_i32 (by decide)) ?_
  refine .field (reads_self (reads_uncheckedArray h.topics (by norm_num) (FetchTopic.reads v))) ?_
  exact .pure _

structure FetchPartitionResponse.Fits (p : FetchPartitionResponse) : Prop where
  partitionIndex : FitsSigned 32 p.partitionIndex
  highWatermark : FitsSigned 64 p.highWatermark
  lastStableOffset : FitsSigned 64 p.lastStableOffset
  records : p.records.length < 2 ^ 31

structure FetchTopicResponse.Fits (t : FetchTopicResponse) : Prop where
  topic : TextFits false t.topic
  partitions : ListFits (·.Fits) t.partitions

structure FetchResponse.Fits (response : FetchResponse) : Prop where
  throttleTimeMs : FitsSigned 32 response.throttleTimeMs
  responses : ListFits (·.Fits) response.responses

def FetchPartitionResponse.carried (version : ℤ) (p : FetchPartitionResponse) :
    FetchPartitionResponse :=
  { p with
    lastStableOffset := if fromVersion 4 version then p.lastStableOffset else p.highWatermark }

def FetchTopicResponse.carried (version : ℤ) (t : FetchTopicResponse) : FetchTopicResponse :=
  { t with partitions := t.partitions.map (·.carried version) }

def FetchResponse.carried (version : ℤ) (response : FetchResponse) : FetchResponse :=
  { throttleTimeMs := if fromVersion 1 version then response.throttleTimeMs else 0
    errorCode := if fromVersion 7 version then response.errorCode else .none
    responses := response.responses.map (·.carried version) }

theorem FetchPartitionResponse.reads_stable {p : FetchPartitionResponse} (h : p.Fits) :
    Reads FetchPartitionResponse.decodeStable p.stableFields p.lastStableOffset := by
  refine .field (reads_i64 h.lastStableOffset) ?_
  refine .field (reads_i64 (by decide)) ?_
  refine .field (reads_i32 (by decide)) ?_
  exact .pure _

theorem FetchPartitionResponse.reads (v : ℤ) {p : FetchPartitionResponse} (h : p.Fits) :
    Reads (FetchPartitionResponse.decode v) (p.encode v) (p.carried v) := by
  refine .field (reads_i32 h.partitionIndex) ?_
  refine .field (reads_errorCode p.errorCode) ?_
  refine .field (reads_i64 h.highWatermark) ?_
  refine .field (.since p.highWatermark fun _ => reads_stable h) ?_
  refine .field (reads_bytes h.records) ?_
  exact .pure _

theorem FetchTopicResponse.reads (v : ℤ) {t : FetchTopicResponse} (h : t.Fits) :
    Reads (FetchTopicResponse.decode v) (t.encode v) (t.carried v) := by
  refine .field (reads_stringOrEmpty h.topic) ?_
  refine .field (reads_uncheckedArray h.partitions (by norm_num) (FetchPartitionResponse.reads v)) ?_
  exact .pure _

theorem FetchResponse.reads (v : ℤ) {resp : FetchResponse} (h : resp.Fits) :
    Reads (FetchResponse.decode v) (resp.encode v) (resp.carried v) := by
  have hcode : Reads (do
      let code ← readErrorCode
      let _ ← getI32
      return code) [putI16 resp.errorCode.code, putI32 0].flatten resp.errorCode := by
    refine .field (reads_errorCode resp.errorCode) ?_
    refine .field (reads_i32 (by decide)) ?_
    exact .pure _
  refine .field (.since 0 fun _ => reads_i32 h.throttleTimeMs) ?_
  refine .field (.since KafkaErrorCode.none fun _ => hcode) ?_
  refine .field (reads_uncheckedArray h.responses (by norm_num) (FetchTopicResponse.reads v)) ?_
  exact .pure _

structure OffsetCommitPartition.Fits (p : OffsetCommitPartition) : Prop where
  partition : FitsSigned 32 p.partition
  committedOffset : FitsSigned 64 p.committedOffset
  metadata : ∀ s ∈ p.metadata, TextFits false s

structure OffsetCommitTopic.Fits (t : OffsetCommitTopic) : Prop where
  topic : TextFits false t.topic
  partitions : ListFits (·.Fits) t.partitions

structure OffsetCommitRequest.Fits (version : ℤ) (request : OffsetCommitRequest) : Prop where
  groupId : TextFits false request.groupId
  generationId : FitsSigned 32 request.generationId
  memberId : fromVersion 1 version → TextFits false request.memberId
  topics : ListFits (·.Fits) request.topics

def OffsetCommitRequest.carried (version : ℤ) (request : OffsetCommitRequest) :
    OffsetCommitRequest :=
  { request with
    generationId := if fromVersion 1 version then request.generationId else 0
    memberId := if fromVersion 1 version then request.memberId else "" }

theorem OffsetCommitPartition.reads {p : OffsetCommitPartition} (h : p.Fits) :
    Reads OffsetCommitPartition.decode p.encode p := by
  refine .field (reads_i32 h.partition) ?_
  refine .field (reads_i64 h.committedOffset) ?_
  refine .field (reads_string h.metadata) ?_
  exact .pure _

theorem OffsetCommitTopic.reads {t : OffsetCommitTopic} (h : t.Fits) :
    Reads OffsetCommitTopic.decode t.encode t := by
  refine .field (reads_stringOrEmpty h.topic) ?_
  refine .field (reads_self (reads_uncheckedArray h.partitions (by norm_num) OffsetCommitPartition.reads)) ?_
  exact .pure _

theorem OffsetCommitRequest.reads {req : OffsetCommitRequest} (h : req.Fits version) :
    Reads (OffsetCommitRequest.decode version) (req.encode version) (req.carried version) := by
  refine .field (reads_stringOrEmpty h.groupId) ?_
  refine .field (.since 0 fun _ => reads_i32 h.generationId) ?_
  refine .field (.since "" fun hv => reads_stringOrEmpty (h.memberId hv)) ?_
  refine .field (.since 0 fun _ => reads_i64 (by decide)) ?_
  refine .field (reads_self (reads_uncheckedArray h.topics (by norm_num) OffsetCommitTopic.reads)) ?_
  exact .pure _

structure AclFilter.Fits (version : ℤ) (f : AclFilter) : Prop where
  resourceType : FitsSigned 8 f.resourceTypeFilter
  resourceName : ∀ s ∈ f.resourceNameFilter, TextFits (fromVersion 2 version) s
  resourcePatternType : FitsSigned 8 f.resourcePatternTypeFilter
  principal : ∀ s ∈ f.principalFilter, TextFits (fromVersion 2 version) s
  host : ∀ s ∈ f.hostFilter, TextFits (fromVersion 2 version) s
  operation : FitsSigned 8 f.operation
  permissionType : FitsSigned 8 f.permissionType

structure AclCreation.Fits (version : ℤ) (c : AclCreation) : Prop where
  resourceType : FitsSigned 8 c.resourceType
  resourceName : TextFits (fromVersion 2 version) c.resourceName
  resourcePatternType : FitsSigned 8 c.resourcePatternType
  principal : TextFits (fromVersion 2 version) c.principal
  host : TextFits (fromVersion 2 version) c.host
  operation : FitsSigned 8 c.operation
  permissionType : FitsSigned 8 c.permissionType

structure CreateAclsRequest.Fits (version : ℤ) (request : CreateAclsRequest) : Prop where
  creations : ListFits (·.Fits version) request.creations

def AclCreation.carried (version : ℤ) (c : AclCreation) : AclCreation :=
  { c with resourcePatternType := if fromVersion 1 version then c.resourcePatternType else 3 }

def CreateAclsRequest.carried (version : ℤ) (request : CreateAclsRequest) : CreateAclsRequest :=
  { creations := request.creations.map (·.carried version) }

theorem reads_i8Since {c : Bool} {x : ℤ} (trunc : String) (default : ℤ) (hx : FitsSigned 8 x) :
    Reads (if c then Decoder.atLeast 1 (.protocol trunc) >>= fun _ => getI8 else pure default)
      (if c then putI8 x else []) (if c then x else default) :=
  .since default fun _ => .atLeast _ le_rfl (reads_i8 hx)

theorem two_le_octets (x y : ℤ) (fields : List Bytes) :
    2 ≤ (putI8 x :: putI8 y :: fields).flatten.length := by
  simp only [flatten_cons, length_append, putI8, putInt_length]
  omega

theorem AclFilter.reads {f : AclFilter} (patternType : ℤ) (noType noPattern noOperation : String)
    (h : f.Fits version) :
    Reads (aclDecode version patternType noType noPattern noOperation) (f.encode version)
      { f with resourcePatternTypeFilter :=
          if fromVersion 1 version then f.resourcePatternTypeFilter else patternType } := by
  refine .atLeast _ (Reads.length_le_flatten le_rfl) ?_
  refine .field (reads_i8 h.resourceType) ?_
  refine .field (reads_stringOf h.resourceName) ?_
  refine .field (reads_i8Since _ patternType h.resourcePatternType) ?_
  refine .field (reads_stringOf h.principal) ?_
  refine .field (reads_stringOf h.host) ?_
  refine .atLeast _ (two_le_octets _ _ _) ?_
  refine .field (reads_i8 h.operation) ?_
  refine .field (reads_i8 h.permissionType) ?_
  refine .field (reads_tags _) ?_
  exact .pure _

theorem AclCreation.reads {c : AclCreation} (h : c.Fits version) :
    Reads (AclCreation.decode version) (c.encode version) (c.carried version) := by
  have hsome : ∀ {s : String}, TextFits (fromVersion 2 version) s →
      ∀ t ∈ some s, TextFits (fromVersion 2 version) t := by
    rintro s hs t ⟨⟩
    exact hs
  refine .bind_pure (fun e : AclFilter => (⟨e.resourceTypeFilter,
    e.resourceNameFilter.getD "", e.resourcePatternTypeFilter, e.principalFilter.getD "",
    e.hostFilter.getD "", e.operation, e.permissionType⟩ : AclCreation))
    (AclFilter.reads (f := ⟨c.resourceType, some c.resourceName, c.resourcePatternType,
      some c.principal, some c.host, c.operation, c.permissionType⟩) 3 _ _ _ ?_)
  exact ⟨h.resourceType, hsome h.resourceName, h.resourcePatternType, hsome h.principal,
    hsome h.host, h.operation, h.permissionType⟩

theorem CreateAclsRequest.reads {req : CreateAclsRequest} (h : req.Fits version) :
    Reads (CreateAclsRequest.decode version) (req.encode version) (req.carried version) := by
  have hcreations : Reads (flexibleArray 80 version "Truncated CreateAclsRequest count"
      (AclCreation.decode version)) (putFlexibleArray version (AclCreation.encode version)
        req.creations) (req.creations.map (·.carried version)) :=
    reads_flexibleArray version _ h.creations (by norm_num) AclCreation.reads
  refine .field hcreations ?_
  refine .field (reads_tags _) ?_
  exact .pure _

structure AclDescription.Fits (version : ℤ) (acl : AclDescription) : Prop where
  principal : TextFits (fromVersion 2 version) acl.principal
  host : TextFits (fromVersion 2 version) acl.host
  operation : FitsSigned 8 acl.operation
  permissionType : FitsSigned 8 acl.permissionType

structure DescribeAclsResource.Fits (version : ℤ) (res : DescribeAclsResource) : Prop where
  resourceType : FitsSigned 8 res.resourceType
  resourceName : TextFits (fromVersion 2 version) res.resourceName
  resourcePatternType : FitsSigned 8 res.resourcePatternType
  acls : ListFits (·.Fits version) res.acls

structure DescribeAclsResponse.Fits (version : ℤ) (response : DescribeAclsResponse) : Prop where
  throttleTimeMs : FitsSigned 32 response.throttleTimeMs
  errorMessage : ∀ s ∈ response.errorMessage, TextFits (fromVersion 2 version) s
  resources : ListFits (·.Fits version) response.resources

def DescribeAclsResource.carried (version : ℤ) (res : DescribeAclsResource) :
    DescribeAclsResource :=
  { res with
    resourcePatternType := if fromVersion 1 version then res.resourcePatternType else 3 }

def DescribeAclsResponse.carried (version : ℤ) (response : DescribeAclsResponse) :
    DescribeAclsResponse :=
  { response with resources := response.resources.map (·.carried version) }

theorem AclDescription.reads {acl : AclDescription} (h : acl.Fits version) :
    Reads (AclDescription.decode version) (acl.encode version) acl := by
  refine .field (reads_someOf h.principal) ?_
  refine .field (reads_someOf h.host) ?_
  refine .atLeast _ (two_le_octets _ _ _) ?_
  refine .field (reads_i8 h.operation) ?_
  refine .field (reads_i8 h.permissionType) ?_
  refine .field (reads_tags _) ?_
  exact .pure _

theorem DescribeAclsResource.reads {res : DescribeAclsResource} (h : res.Fits version) :
    Reads (DescribeAclsResource.decode version) (res.encode version) (res.carried version) := by
  refine .atLeast _ (Reads.length_le_flatten le_rfl) ?_
  refine .field (reads_i8 h.resourceType) ?_
  refine .field (reads_someOf h.resourceName) ?_
  refine .field (reads_i8Since _ 3 h.resourcePatternType) ?_
  refine .field (reads_self (reads_flexibleArray version _ h.acls (by norm_num) AclDescription.reads)) ?_
  refine .field (reads_tags _) ?_
  exact .pure _

theorem DescribeAclsResponse.reads {resp : DescribeAclsResponse} (h : resp.Fits version) :
    Reads (DescribeAclsResponse.decode version) (resp.encode version) (resp.carried version) := by
  refine .atLeast _ ?_ ?_
  · simp only [DescribeAclsResponse.encode, flatten_cons, length_append, putI32, putI16,
      putInt_length]
    omega
  · refine .field (reads_i32 h.throttleTimeMs) ?_
    refine .field (reads_errorCode resp.errorCode) ?_
    refine .field (reads_stringOf h.errorMessage) ?_
    refine .field (reads_flexibleArray version _ h.resources (by norm_num) DescribeAclsResource.reads) ?_
    refine .field (reads_tags _) ?_
    exact .pure _

structure CreateTopicsReplicaAssignment.Fits (a : CreateTopicsReplicaAssignment) : Prop where
  partitionIndex : FitsSigned 32 a.partitionIndex
  brokerIds : ListFits (FitsSigned 32) a.brokerIds

structure ConfigEntry.Fits (c : ConfigEntry) : Prop where
  name : TextFits false c.name
  value : ∀ s ∈ c.value, TextFits false s

structure CreatableTopic.Fits (t : CreatableTopic) : Prop where
  name : TextFits false t.name
  numPartitions : FitsSigned 32 t.numPartitions
  replicationFactor : FitsSigned 16 t.replicationFactor
  assignments : ListFits (·.Fits) t.assignments
  configs : ListFits (·.Fits) t.configs

structure CreateTopicsRequest.Fits (request : CreateTopicsRequest) : Prop where
  topics : ListFits (·.Fits) request.topics
  timeoutMs : FitsSigned 32 request.timeoutMs

def CreateTopicsRequest.carried (version : ℤ) (request : CreateTopicsRequest) :
    CreateTopicsRequest :=
  { request with validateOnly := if fromVersion 1 version then request.validateOnly else false }

theorem CreateTopicsReplicaAssignment.reads {a : CreateTopicsReplicaAssignment} (h : a.Fits) :
    Reads CreateTopicsReplicaAssignment.decode a.encode a := by
  refine .atLeast _ ?_ ?_
  · have hids := four_le_putArray putI32 a.brokerIds
    simp only [CreateTopicsReplicaAssignment.encode, flatten_cons, length_append,
      putI32, putInt_length]
    exact Nat.add_le_add_left (hids.trans (Nat.le_add_right _ _)) 4
  · refine .field (reads_i32 h.partitionIndex) ?_
    refine .field (reads_brokerIds _ h.brokerIds) ?_
    exact .pure _

theorem ConfigEntry.reads {c : ConfigEntry} (h : c.Fits) : Reads ConfigEntry.decode c.encode c := by
  refine .field (reads_stringOrEmpty h.name) ?_
  refine .field (reads_string h.value) ?_
  exact .pure _

theorem CreatableTopic.reads {t : CreatableTopic} (h : t.Fits) :
    Reads CreatableTopic.decode t.encode t := by
  refine .field (reads_stringOrEmpty h.name) ?_
  refine .atLeast _ ?_ ?_
  · simp only [flatten_cons, length_append, putI32, putI16, putInt_length]
    omega
  refine .field (reads_i32 h.numPartitions) ?_
  refine .field (reads_i16 h.replicationFactor) ?_
  refine .atLeast _ (Reads.length_le_flatten (four_le_putArray _ _)) ?_
  refine .field (reads_self (reads_clampedArray h.assignments (by norm_num) CreateTopicsReplicaAssignment.reads)) ?_
  refine .atLeast _ (Reads.length_le_flatten (four_le_putArray _ _)) ?_
  refine .field (reads_self (reads_clampedArray h.configs (by norm_num) ConfigEntry.reads)) ?_
  exact .pure _

theorem CreateTopicsRequest.reads (v : ℤ) {req : CreateTopicsRequest} (h : req.Fits) :
    Reads (CreateTopicsRequest.decode v) (req.encode v) (req.carried v) := by
  refine .atLeast _ (Reads.length_le_flatten (four_le_putArray _ _)) ?_
  refine .field (reads_self (reads_signedArray h.topics (by norm_num) CreatableTopic.reads _)) ?_
  refine .atLeast _ (Reads.length_le_flatten le_rfl) ?_
  refine .field (reads_i32 h.timeoutMs) ?_
  refine .field (.since 0 fun _ =>
    .whenLeft 0 le_rfl (reads_bool req.validateOnly)) ?_
  rw [flag_since]
  exact .pure _

structure DescribeConfigsSynonym.Fits (s : DescribeConfigsSynonym) : Prop where
  name : TextFits false s.name
  value : ∀ t ∈ s.value, TextFits false t
  source : FitsSigned 8 s.source

structure DescribeConfigsResourceResult.Fits (version : ℤ) (c : DescribeConfigsResourceResult) :
    Prop where
  name : TextFits false c.name
  value : ∀ s ∈ c.value, TextFits false s
  configSource : FitsSigned 8 c.configSource
  synonyms : fromVersion 1 version → ListFits (·.Fits) c.synonyms

structure DescribeConfigsResult.Fits (version : ℤ) (res : DescribeConfigsResult) : Prop where
  errorMessage : ∀ s ∈ res.errorMessage, TextFits false s
  resourceType : FitsSigned 8 res.resourceType
  resourceName : TextFits false res.resourceName
  configs : ListFits (·.Fits version) res.configs

structure DescribeConfigsResponse.Fits (version : ℤ) (response : DescribeConfigsResponse) :
    Prop where
  throttleTimeMs : FitsSigned 32 response.throttleTimeMs
  results : ListFits (·.Fits version) response.results

def DescribeConfigsResourceResult.carried (version : ℤ) (c : DescribeConfigsResourceResult) :
    DescribeConfigsResourceResult :=
  { c with
    isDefault := if version = 0 then c.isDefault else false
    configSource := if version = 0 then -1 else c.configSource
    synonyms := if fromVersion 1 version then c.synonyms else [] }

def DescribeConfigsResult.carried (version : ℤ) (res : DescribeConfigsResult) :
    DescribeConfigsResult :=
  { res with configs := res.configs.map (·.carried version) }

def DescribeConfigsResponse.carried (version : ℤ) (response : DescribeConfigsResponse) :
    DescribeConfigsResponse :=
  { response with results := response.results.map (·.carried version) }

theorem DescribeConfigsSynonym.reads {s : DescribeConfigsSynonym} (h : s.Fits) :
    Reads DescribeConfigsSynonym.decode s.encode s := by
  refine .field (reads_stringOrEmpty h.name) ?_
  refine .field (reads_string h.value) ?_
  refine .atLeast _ (Reads.length_le_flatten le_rfl) ?_
  refine .field (reads_i8 h.source) ?_
  exact .pure _

theorem reads_origin {source : ℤ} (isDefault : Bool) (h : FitsSigned 8 source) :
    Reads (decodeOrigin version) (if version = 0 then putBool isDefault else putI8 source)
      (if version = 0 then isDefault else false, if version = 0 then -1 else source) := by
  rw [decodeOrigin]
  split
  · exact .bind_pure (fun b => (b, (-1 : ℤ))) (reads_flag _ isDefault)
  · exact .atLeast _ le_rfl (.bind_pure (fun x => (false, x)) (reads_i8 h))

theorem DescribeConfigsResourceResult.reads {c : DescribeConfigsResourceResult}
    (h : c.Fits version) :
    Reads (DescribeConfigsResourceResult.decode version) (c.encode version)
      (c.carried version) := by
  refine .field (reads_stringOrEmpty h.name) ?_
  refine .field (reads_string h.value) ?_
  refine .field (reads_flag _ c.readOnly) ?_
  refine .field (reads_origin c.isDefault h.configSource) ?_
  refine .field (reads_flag _ c.isSensitive) ?_
  refine .field (.since [] fun hv => .atLeast _ (four_le_putArray _ _) <|
    reads_self (reads_clampedArray (h.synonyms hv) (by norm_num) DescribeConfigsSynonym.reads)) ?_
  exact .pure _

theorem DescribeConfigsResult.reads {res : DescribeConfigsResult} (h : res.Fits version) :
    Reads (DescribeConfigsResult.decode version) (res.encode version) (res.carried version) := by
  refine .atLeast _ (Reads.length_le_flatten le_rfl) ?_
  refine .field (reads_errorCode res.errorCode) ?_
  refine .field (reads_string h.errorMessage) ?_
  refine .atLeast _ (Reads.length_le_flatten le_rfl) ?_
  refine .field (reads_i8 h.resourceType) ?_
  refine .field (reads_stringOrEmpty h.resourceName) ?_
  refine .atLeast _ (Reads.length_le_flatten (four_le_putArray _ _)) ?_
  refine .field (reads_signedArray h.configs (by norm_num) DescribeConfigsResourceResult.reads _) ?_
  exact .pure _

theorem DescribeConfigsResponse.reads {resp : DescribeConfigsResponse} (h : resp.Fits version) :
    Reads (DescribeConfigsResponse.decode version) (resp.encode version)
      (resp.carried version) := by
  refine .atLeast _ (Reads.length_le_flatten le_rfl) ?_
  refine .field (reads_i32 h.throttleTimeMs) ?_
  refine .atLeast _ (Reads.length_le_flatten (four_le_putArray _ _)) ?_
  refine .field (reads_signedArray h.results (by norm_num) DescribeConfigsResult.reads _) ?_
  exact .pure _

theorem messages_read_back (version : ℤ) :
    (∀ m : MetadataRequest, m.Fits → Reads MetadataRequest.decode m.encode m) ∧
    (∀ m : MetadataResponse, m.Fits version →
      Reads (MetadataResponse.decode version) (m.encode version) (m.carried version)) ∧
    (∀ m : ProduceRequest, m.Fits → Reads (ProduceRequest.decode version) (m.encode version) m) ∧
    (∀ m : ProduceResponse, m.Fits →
      Reads (ProduceResponse.decode version) (m.encode version) (m.carried version)) ∧
    (∀ m : FetchRequest, m.Fits →
      Reads (FetchRequest.decode version) (m.encode version) (m.carried version)) ∧
    (∀ m : FetchResponse, m.Fits →
      Reads (FetchResponse.decode version) (m.encode version) (m.carried version)) ∧
    (∀ m : OffsetCommitRequest, m.Fits version →
      Reads (OffsetCommitRequest.decode version) (m.encode version) (m.carried version)) ∧
    (∀ m : CreateAclsRequest, m.Fits version →
      Reads (CreateAclsRequest.decode version) (m.encode version) (m.carried version)) ∧
    (∀ m : DescribeAclsResponse, m.Fits version →
      Reads (DescribeAclsResponse.decode version) (m.encode version) (m.carried version)) ∧
    (∀ m : CreateTopicsRequest, m.Fits →
      Reads (CreateTopicsRequest.decode version) (m.encode version) (m.carried version)) ∧
    (∀ m : DescribeConfigsResponse, m.Fits version →
      Reads (DescribeConfigsResponse.decode version) (m.encode version) (m.carried version)) :=
  ⟨fun _ h => MetadataRequest.reads h, fun _ h => MetadataResponse.reads h,
    fun _ h => ProduceRequest.reads version h, fun _ h => ProduceResponse.reads version h,
    fun _ h => FetchRequest.reads version h, fun _ h => FetchResponse.reads version h,
    fun _ h => OffsetCommitRequest.reads h, fun _ h => CreateAclsRequest.reads h,
    fun _ h => DescribeAclsResponse.reads h, fun _ h => CreateTopicsRequest.reads version h,
    fun _ h => DescribeConfigsResponse.reads h⟩

def commitOfMember : OffsetCommitRequest := ⟨"g", 7, "m", [⟨"t", [⟨0, 5, some "x"⟩]⟩]⟩

theorem messages_read_back_commit : commitOfMember.Fits 0 ∧
      Reads (OffsetCommitRequest.decode 0) (commitOfMember.encode 0) (commitOfMember.carried 0) ∧
      commitOfMember.carried 0 = ⟨"g", 0, "", commitOfMember.topics⟩ := by
  have hmetadata : ∀ s ∈ some "x", TextFits false s := by
    rintro s ⟨⟩
    decide
  have hfits : commitOfMember.Fits 0 :=
    ⟨by decide, by decide, nofun, by decide, List.forall_mem_singleton.mpr
      ⟨by decide, by decide, List.forall_mem_singleton.mpr ⟨by decide, by decide, hmetadata⟩⟩⟩
  exact ⟨hfits, (messages_read_back 0).2.2.2.2.2.2.1 commitOfMember hfits, rfl⟩

end OxideMq.Protocol
