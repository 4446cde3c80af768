import OxideMq.Protocol.Requests

/-! The layouts of the requests: which fields are tested before they are read, which are not, and
what is done with array counts. -/

namespace OxideMq.Protocol

open Lib OxideMq.Core KafkaDecoder

namespace Layout

open Lib.Layout

def string : Layout := reads KafkaDecoder.readString

def compactString : Layout := reads KafkaDecoder.readCompactString

def varint : Layout := reads KafkaDecoder.readUnsignedVarint

def stringOf (compact : Bool) : Layout := if compact then compactString else string

def requiredString : Layout := fun src =>
  match KafkaDecoder.readString.run src with
  | .ok (some _) rest => .more rest
  | .ok none _ => .stop
  | .err _ => .stop
  | .panic => .crash

def tags (flexible : Bool) : Layout := since flexible (optional 1 varint)

def uncheckedArray (element : Layout) : Layout := array .crash crashes element

def signedArray (element : Layout) : Layout := array .stop stops element

def nullableArray (element : Layout) : Layout := array .stop (seq []) element

def topics (partition : Layout) : Layout :=
  uncheckedArray (seq [string, uncheckedArray partition])

def acl (version : ℤ) : Layout :=
  seq [atLeast 1, checked 1, stringOf (fromVersion 2 version),
    since (fromVersion 1 version) (seq [atLeast 1, checked 1]),
    stringOf (fromVersion 2 version), stringOf (fromVersion 2 version),
    atLeast 2, checked 1, checked 1, tags (fromVersion 2 version)]

def aclArray (version : ℤ) : Layout :=
  if fromVersion 2 version then compactArray 80 (acl version)
  else seq [atLeast 4, array .stop crashes (acl version)]

def config : Layout := seq [string, string]

def request (version : ℤ) : ApiKey → Layout
  | .produce => seq [since (fromVersion 3 version) string, unchecked 2, unchecked 4,
      topics (seq [unchecked 4, reads KafkaDecoder.readBytes])]
  | .fetch => seq [unchecked 4, unchecked 4, unchecked 4,
      since (fromVersion 3 version) (unchecked 4), since (fromVersion 4 version) (unchecked 1),
      since (fromVersion 7 version) (unchecked 4), since (fromVersion 7 version) (unchecked 4),
      topics (seq [unchecked 4, since (fromVersion 9 version) (unchecked 4), unchecked 8,
        since (fromVersion 5 version) (unchecked 8), unchecked 4])]
  | .listOffsets => seq [unchecked 4, since (fromVersion 2 version) (unchecked 1),
      topics (seq [unchecked 4, since (fromVersion 4 version) (unchecked 4), unchecked 8])]
  | .metadata => optional 4 (seq [nullableArray string, optional 1 (checked 1)])
  | .offsetCommit => seq [string, since (fromVersion 1 version) (unchecked 4),
      since (fromVersion 1 version) string,
      since (fromVersion 2 version && !fromVersion 5 version) (unchecked 8),
      topics (seq [unchecked 4, unchecked 8, string])]
  | .offsetFetch => seq [string,
      array .crash (seq []) (seq [string, uncheckedArray (unchecked 4)])]
  | .findCoordinator => seq [string, since (fromVersion 1 version) (unchecked 1)]
  | .heartbeat => seq [string, unchecked 4, string]
  | .leaveGroup => seq [string, string]
  | .describeGroups => seq [atLeast 4, signedArray string]
  | .deleteGroups => seq [atLeast 4, signedArray string]
  | .listGroups => seq []
  | .saslHandshake => requiredString
  | .apiVersions => since (fromVersion 3 version) (seq [compactString, compactString, varint])
  | .createTopics => seq [atLeast 4,
      signedArray (seq [string, atLeast 6, checked 4, checked 2, atLeast 4,
        nullableArray (seq [atLeast 8, checked 4, idArray]), atLeast 4, nullableArray config]),
      atLeast 4, checked 4, since (fromVersion 1 version) (optional 1 (checked 1))]
  | .deleteTopics => seq [atLeast 4, signedArray string, atLeast 4, checked 4]
  | .deleteRecords => seq [atLeast 4,
      signedArray (seq [string, atLeast 4, signedArray (seq [atLeast 12, checked 4, checked 8])]),
      atLeast 4, checked 4]
  | .initProducerId => seq [string, unchecked 4, since (fromVersion 3 version) (unchecked 8),
      since (fromVersion 3 version) (unchecked 2)]
  | .addPartitionsToTxn => seq [string, unchecked 8, unchecked 2, topics (unchecked 4)]
  | .addOffsetsToTxn => seq [string, unchecked 8, unchecked 2, string]
  | .endTxn => seq [string, unchecked 8, unchecked 2, unchecked 1]
  | .describeAcls => acl version
  | .createAcls => seq [aclArray version, tags (fromVersion 2 version)]
  | .deleteAcls => seq [aclArray version, tags (fromVersion 2 version)]
  | .describeConfigs => seq [atLeast 4,
      signedArray (seq [atLeast 1, checked 1, string, atLeast 4, nullableArray string]),
      since (fromVersion 1 version) (seq [atLeast 1, checked 1])]
  | .alterConfigs => seq [atLeast 4,
      signedArray (seq [atLeast 1, checked 1, string, atLeast 4, signedArray config]),
      atLeast 1, checked 1]
  | .saslAuthenticate => seq [if fromVersion 2 version then reads KafkaDecoder.readCompactBytes
      else reads KafkaDecoder.readBytes, tags (fromVersion 2 version)]
  | .createPartitions => seq [atLeast 4,
      signedArray (seq [string, atLeast 8, checked 4, nullableArray (seq [atLeast 4, idArray])]),
      atLeast 4, checked 4, optional 1 (checked 1)]
  | .joinGroup => stops
  | .syncGroup => stops

end Layout

section

open Layout

variable {α : Type} {k size : ℕ} {l : Layout}

theorem under_readStringOrEmpty : Under k readStringOrEmpty string :=
  .bind_pure _ (under_reads _)

theorem under_readStringOf (compact : Bool) : Under k (readStringOf compact) (stringOf compact) :=
  .ite (under_reads _) (under_reads _)

theorem under_trailingTags (flexible : Bool) : Under k (trailingTags flexible) (tags flexible) :=
  .since 0 (.whenLeft 0 (under_reads _))

theorem under_topics {β : Type} {part : Parser α} {make : String → List α → β}
    (hsize : 0 < size ∧ size < 2 ^ 32) (hpart : Under 0 part l) :
    Under k (uncheckedArray 48 (do
      let topic ← readStringOrEmpty
      let parts ← uncheckedArray size part
      return make topic parts)) (topics l) := by
  refine under_uncheckedArray (by norm_num) ?_ (fun _ => rfl)
  refine .bind under_readStringOrEmpty fun topic => ?_
  exact .last (.bind_pure _ (under_uncheckedArray hsize hpart fun _ => rfl))

theorem under_produce (v : ℤ) : Under 0 (ProduceRequest.decode v) (request v .produce) := by
  refine .bind (.since none (under_reads _)) fun _ => ?_
  refine .bind (under_getInt 2) fun acks => ?_
  refine .bind (under_getInt 4) fun timeoutMs => ?_
  refine .last (.bind_pure _ (under_topics (by norm_num) ?_))
  refine .bind (under_getInt 4) fun part => ?_
  exact .last (.bind_pure _ (under_reads _))

theorem under_fetch (v : ℤ) : Under 0 (FetchRequest.decode v) (request v .fetch) := by
  refine .bind (under_getInt 4) fun _ => ?_
  refine .bind (under_getInt 4) fun maxWaitMs => ?_
  refine .bind (under_getInt 4) fun minBytes => ?_
  refine .bind (.since _ (under_getInt 4)) fun limit => ?_
  refine .bind (.since _ (under_getInt 1)) fun iso => ?_
  refine .bind (.since _ (under_getInt 4)) fun _ => ?_
  refine .bind (.since _ (under_getInt 4)) fun _ => ?_
  refine .last (.bind_pure _ (under_topics (by norm_num) ?_))
  refine .bind (under_getInt 4) fun part => ?_
  refine .bind (.since _ (under_getInt 4)) fun _ => ?_
  refine .bind (under_getInt 8) fun off => ?_
  refine .bind (.since _ (under_getInt 8)) fun _ => ?_
  exact .last (.bind_pure _ (under_getInt 4))

theorem under_listOffsets (v : ℤ) :
    Under 0 (ListOffsetsRequest.decode v) (request v .listOffsets) := by
  refine .bind (under_getInt 4) fun replicaId => ?_
  refine .bind (.since _ (under_getInt 1)) fun iso => ?_
  refine .last (.bind_pure _ (under_topics (by norm_num) ?_))
  refine .bind (under_getInt 4) fun part => ?_
  refine .bind (.since _ (under_getInt 4)) fun currentLeaderEpoch => ?_
  exact .last (.bind_pure _ (under_getInt 8))

theorem under_metadata (v : ℤ) : Under 0 MetadataRequest.decode (request v .metadata) := by
  refine .whenLeft _ ?_
  refine .bind (under_nullableArray (by norm_num) (under_reads _) (by simp)) fun topics => ?_
  exact .last (.bind_pure _ (.whenLeft 1 (.known under_getU8 le_rfl)))

theorem under_offsetCommit (v : ℤ) :
    Under 0 (OffsetCommitRequest.decode v) (request v .offsetCommit) := by
  refine .bind under_readStringOrEmpty fun gid => ?_
  refine .bind (.since _ (under_getInt 4)) fun gen => ?_
  refine .bind (.since _ under_readStringOrEmpty) fun mid => ?_
  refine .bind (.since _ (under_getInt 8)) fun _ => ?_
  refine .last (.bind_pure _ (under_topics (by norm_num) ?_))
  refine .bind (under_getInt 4) fun part => ?_
  refine .bind (under_getInt 8) fun committedOffset => ?_
  exact .last (.bind_pure _ (under_reads _))

theorem under_offsetFetch (v : ℤ) : Under 0 OffsetFetchRequest.decode (request v .offsetFetch) := by
  refine .bind under_readStringOrEmpty fun gid => ?_
  refine .last (.bind_pure _ (under_nullableArray (by norm_num) ?_ fun _ => rfl))
  refine .bind under_readStringOrEmpty fun topic => ?_
  refine .last (.bind_pure _ ?_)
  exact under_uncheckedArray (by norm_num) (under_getInt 4) fun _ => rfl

theorem under_findCoordinator (v : ℤ) :
    Under 0 (FindCoordinatorRequest.decode v) (request v .findCoordinator) := by
  refine .bind under_readStringOrEmpty fun key => ?_
  exact .last (.bind_pure _ (.since _ (under_getInt 1)))

theorem under_heartbeat (v : ℤ) : Under 0 HeartbeatRequest.decode (request v .heartbeat) := by
  refine .bind under_readStringOrEmpty fun gid => ?_
  refine .bind (under_getInt 4) fun gen => ?_
  exact .last (.bind_pure _ under_readStringOrEmpty)

theorem under_leaveGroup (v : ℤ) : Under 0 LeaveGroupRequest.decode (request v .leaveGroup) := by
  refine .bind under_readStringOrEmpty fun gid => ?_
  exact .last (.bind_pure _ under_readStringOrEmpty)

theorem under_namesDecode (trunc negative : String) : Under 0 (namesDecode trunc negative)
      (Layout.seq [Layout.atLeast 4, Layout.signedArray string]) := by
  refine .atLeast _ (.last (.bind_pure _ ?_))
  exact under_signedArray negative (by norm_num) (under_reads _) (by simp)

theorem under_initProducerId (v : ℤ) :
    Under 0 (InitProducerIdRequest.decode v) (request v .initProducerId) := by
  refine .bind (under_reads _) fun txId => ?_
  refine .bind (under_getInt 4) fun timeout => ?_
  refine .bind (.since _ (under_getInt 8)) fun pid => ?_
  exact .last (.bind_pure _ (.since _ (under_getInt 2)))

theorem under_addPartitionsToTxn (v : ℤ) :
    Under 0 AddPartitionsToTxnRequest.decode (request v .addPartitionsToTxn) := by
  refine .bind under_readStringOrEmpty fun txId => ?_
  refine .bind (under_getInt 8) fun pid => ?_
  refine .bind (under_getInt 2) fun epoch => ?_
  exact .last (.bind_pure _ (under_topics (by norm_num) (under_getInt 4)))

theorem under_addOffsetsToTxn (v : ℤ) :
    Under 0 AddOffsetsToTxnRequest.decode (request v .addOffsetsToTxn) := by
  refine .bind under_readStringOrEmpty fun txId => ?_
  refine .bind (under_getInt 8) fun pid => ?_
  refine .bind (under_getInt 2) fun epoch => ?_
  exact .last (.bind_pure _ under_readStringOrEmpty)

theorem under_endTxn (v : ℤ) : Under 0 EndTxnRequest.decode (request v .endTxn) := by
  refine .bind under_readStringOrEmpty fun txId => ?_
  refine .bind (under_getInt 8) fun pid => ?_
  refine .bind (under_getInt 2) fun epoch => ?_
  exact .last (.bind_pure _ (under_getInt 1))

theorem under_aclDecode (v patternType : ℤ) (noType noPattern noOperation : String) :
    Under 0 (aclDecode v patternType noType noPattern noOperation) (acl v) := by
  refine .atLeast _ (under_knownInt le_rfl fun kind => ?_)
  refine .bind (under_readStringOf _) fun rname => ?_
  refine .bind (.since _ ?_) fun resourcePatternType => ?_
  · exact .atLeast _ (.last (.known (under_getInt 1) le_rfl))
  refine .bind (under_readStringOf _) fun prin => ?_
  refine .bind (under_readStringOf _) fun host => ?_
  refine .atLeast _ (under_knownInt (by norm_num) fun op => ?_)
  refine under_knownInt (by norm_num) fun permissionType => ?_
  exact .last (.bind_pure _ (under_trailingTags _))

theorem under_compactArray {x : Parser α} (helt : Under 0 x l) :
    Under k (do let len ← readUnsignedVarint; vec size (len - 1) x) (compactArray size l) := by
  intro src _
  rw [Decoder.run_bind, compactArray]
  cases readUnsignedVarint.run src with
  | ok len rest =>
    dsimp only
    rw [run_vec]
    by_cases hover : (len - 1) * size > isizeMax
    · rw [if_pos hover, if_pos hover]
      rfl
    · rw [if_neg hover, if_neg hover]
      exact Under.times helt (len - 1) rest (Nat.zero_le _)
  | err e => rfl
  | panic => rfl

theorem under_aclArray {x : Parser α} (v : ℤ) (trunc : String) (helt : Under 0 x (acl v)) :
    Under 0 (Protocol.aclArray v trunc x) (Layout.aclArray v) := by
  refine .ite (under_compactArray helt) (.atLeast _ (.last ?_))
  exact under_uncheckedArray (by norm_num) helt (by simp)

theorem under_createAcls (v : ℤ) :
    Under 0 (CreateAclsRequest.decode v) (request v .createAcls) := by
  refine .bind (under_aclArray v _ (.bind_pure _ ?_)) fun creations => ?_
  · exact under_aclDecode v _ _ _ _
  exact .last (.bind_pure _ (under_trailingTags _))

theorem under_deleteAcls (v : ℤ) :
    Under 0 (DeleteAclsRequest.decode v) (request v .deleteAcls) := by
  refine .bind (under_aclArray v _ (under_aclDecode v _ _ _ _)) fun filters => ?_
  exact .last (.bind_pure _ (under_trailingTags _))

theorem under_configEntry : Under 0 ConfigEntry.decode config := by
  refine .bind under_readStringOrEmpty fun name => ?_
  exact .last (.bind_pure _ (under_reads _))

theorem under_createTopics (v : ℤ) :
    Under 0 (CreateTopicsRequest.decode v) (request v .createTopics) := by
  refine .atLeast _ (.bind (under_signedArray _ (by norm_num) ?_ (by simp)) fun topics => ?_)
  · refine .bind under_readStringOrEmpty fun name => ?_
    refine .atLeast _ (under_knownInt (by norm_num) fun num => ?_)
    refine under_knownInt (by norm_num) fun repl => ?_
    refine .atLeast _ (.bind (under_clampedArray (by norm_num) ?_ (by simp)) fun _ => ?_)
    · refine .atLeast _ (under_knownInt (by norm_num) fun partitionIndex => ?_)
      exact .last (.bind_pure _ (under_readBrokerIds _ (by norm_num)))
    refine .atLeast _ (.last (.bind_pure _ ?_))
    exact under_clampedArray (by norm_num) under_configEntry (by simp)
  refine .atLeast _ (under_knownInt le_rfl fun timeoutMs => ?_)
  refine .last (.bind_pure _ (.since _ (.whenLeft _ ?_)))
  exact .known under_getU8 le_rfl

theorem under_deleteTopics (v : ℤ) :
    Under 0 DeleteTopicsRequest.decode (request v .deleteTopics) := by
  refine .atLeast _ (.bind ?_ fun names => ?_)
  · exact under_signedArray _ (by norm_num) (under_reads _) (by simp)
  refine .atLeast _ (.last (.bind_pure _ ?_))
  exact .known (under_getInt 4) le_rfl

theorem under_describeConfigs (v : ℤ) :
    Under 0 (DescribeConfigsRequest.decode v) (request v .describeConfigs) := by
  refine .atLeast _ (.bind (under_signedArray _ (by norm_num) ?_ (by simp)) fun _ => ?_)
  · refine .atLeast _ (under_knownInt le_rfl fun kind => ?_)
    refine .bind under_readStringOrEmpty fun rname => ?_
    refine .atLeast _ (.last (.bind_pure _ ?_))
    exact under_nullableArray (by norm_num) (under_reads _) (by simp)
  refine .last (.bind_pure _ (.since _ ?_))
  exact .atLeast _ (.last (.known under_getU8 le_rfl))

theorem under_alterConfigs (v : ℤ) :
    Under 0 AlterConfigsRequest.decode (request v .alterConfigs) := by
  refine .atLeast _ (.bind (under_signedArray _ (by norm_num) ?_ (by simp)) fun _ => ?_)
  · refine .atLeast _ (under_knownInt le_rfl fun kind => ?_)
    refine .bind under_readStringOrEmpty fun rname => ?_
    refine .atLeast _ (.last (.bind_pure _ ?_))
    exact under_signedArray _ (by norm_num) under_configEntry (by simp)
  exact .atLeast _ (.last (.bind_pure _ (.known under_getU8 le_rfl)))

theorem under_deleteRecords (v : ℤ) :
    Under 0 DeleteRecordsRequest.decode (request v .deleteRecords) := by
  refine .atLeast _ (.bind (under_signedArray _ (by norm_num) ?_ (by simp)) fun _ => ?_)
  · refine .bind under_readStringOrEmpty fun name => ?_
    refine .atLeast _ (.last (.bind_pure _ ?_))
    refine under_signedArray _ (by norm_num) ?_ (by simp)
    refine .atLeast _ (under_knownInt (by norm_num) fun partitionIndex => ?_)
    exact .last (.bind_pure _ (.known (under_getInt 8) (by norm_num)))
  refine .atLeast _ (.last (.bind_pure _ ?_))
  exact .known (under_getInt 4) le_rfl

theorem under_createPartitions (v : ℤ) :
    Under 0 CreatePartitionsRequest.decode (request v .createPartitions) := by
  refine .atLeast _ (.bind (under_signedArray _ (by norm_num) ?_ (by simp)) fun _ => ?_)
  · refine .bind under_readStringOrEmpty fun name => ?_
    refine .atLeast _ (under_knownInt (by norm_num) fun count => ?_)
    refine .last (.bind_pure _ (under_nullableArray (by norm_num) ?_ (by simp)))
    exact .atLeast _ (.last (under_readBrokerIds _ le_rfl))
  refine .atLeast _ (under_knownInt le_rfl fun timeoutMs => ?_)
  exact .last (.bind_pure _ (.whenLeft _ (.known under_getU8 le_rfl)))

theorem under_saslHandshake (v : ℤ) :
    Under 0 SaslHandshakeRequest.decode (request v .saslHandshake) := by
  intro src _
  rw [SaslHandshakeRequest.decode, Decoder.run_bind, request, requiredString]
  cases readString.run src with
  | ok mechanism rest =>
    cases mechanism with
    | none => rfl
    | some mechanism => rfl
  | err e => rfl
  | panic => rfl

theorem under_saslAuthenticate (v : ℤ) :
    Under 0 (SaslAuthenticateRequest.decode v) (request v .saslAuthenticate) := by
  refine .bind (.ite (under_reads _) (under_reads _)) fun bytes => ?_
  exact .last (.bind_pure _ (under_trailingTags _))

theorem under_apiVersions (v : ℤ) :
    Under 0 (ApiVersionsRequest.decode v) (request v .apiVersions) := by
  refine .since _ ?_
  refine .bind (under_reads _) fun clientSoftwareName => ?_
  refine .bind (under_reads _) fun clientSoftwareVersion => ?_
  exact .last (.bind_pure _ (under_reads _))

theorem under_request (v : ℤ) (key : ApiKey) : Under 0 (Request.decode v key) (request v key) := by
  cases key with
  | produce => exact .bind_pure _ (under_produce v)
  | fetch => exact .bind_pure _ (under_fetch v)
  | listOffsets => exact .bind_pure _ (under_listOffsets v)
  | metadata => exact .bind_pure _ (under_metadata v)
  | offsetCommit => exact .bind_pure _ (under_offsetCommit v)
  | offsetFetch => exact .bind_pure _ (under_offsetFetch v)
  | findCoordinator => exact .bind_pure _ (under_findCoordinator v)
  | joinGroup => exact .fail _
  | heartbeat => exact .bind_pure _ (under_heartbeat v)
  | leaveGroup => exact .bind_pure _ (under_leaveGroup v)
  | syncGroup => exact .fail _
  | describeGroups => exact .bind_pure _ (.bind_pure _ (under_namesDecode _ _))
  | listGroups => exact .pure _
  | saslHandshake => exact .bind_pure _ (under_saslHandshake v)
  | apiVersions => exact .bind_pure _ (under_apiVersions v)
  | createTopics => exact .bind_pure _ (under_createTopics v)
  | deleteTopics => exact .bind_pure _ (under_deleteTopics v)
  | deleteRecords => exact .bind_pure _ (under_deleteRecords v)
  | initProducerId => exact .bind_pure _ (under_initProducerId v)
  | addPartitionsToTxn => exact .bind_pure _ (under_addPartitionsToTxn v)
  | addOffsetsToTxn => exact .bind_pure _ (under_addOffsetsToTxn v)
  | endTxn => exact .bind_pure _ (under_endTxn v)
  | describeAcls => exact .bind_pure _ (under_aclDecode v _ _ _ _)
  | createAcls => exact .bind_pure _ (under_createAcls v)
  | deleteAcls => exact .bind_pure _ (under_deleteAcls v)
  | describeConfigs => exact .bind_pure _ (under_describeConfigs v)
  | alterConfigs => exact .bind_pure _ (under_alterConfigs v)
  | saslAuthenticate => exact .bind_pure _ (under_saslAuthenticate v)
  | createPartitions => exact .bind_pure _ (under_createPartitions v)
  | deleteGroups => exact .bind_pure _ (.bind_pure _ (under_namesDecode _ _))

end

namespace Layout

open Lib.Layout

theorem neverCrashes_string : string.NeverCrashes :=
  neverCrashes_reads returns_readString

theorem neverCrashes_varint : varint.NeverCrashes :=
  neverCrashes_reads returns_readUnsignedVarint

theorem neverCrashes_tags (flexible : Bool) : (tags flexible).NeverCrashes :=
  neverCrashes_since (neverCrashes_optional neverCrashes_varint)

theorem neverCrashes_stops : stops.NeverCrashes := fun _ => nofun

end Layout

end OxideMq.Protocol
