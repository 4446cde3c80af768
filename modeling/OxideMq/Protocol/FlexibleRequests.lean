import OxideMq.Protocol.MessageRoundTrips

/-! Requests with flexible bodies. -/

namespace OxideMq.Protocol

open Lib OxideMq.Core KafkaEncoder KafkaDecoder Decoder List

/-- `api_key as i16`. -/
def ApiKey.toI16 : ApiKey → ℤ
  | .produce => 0 | .fetch => 1 | .listOffsets => 2 | .metadata => 3 | .offsetCommit => 8
  | .offsetFetch => 9 | .findCoordinator => 10 | .joinGroup => 11 | .heartbeat => 12
  | .leaveGroup => 13 | .syncGroup => 14 | .describeGroups => 15 | .listGroups => 16
  | .saslHandshake => 17 | .apiVersions => 18 | .createTopics => 19 | .deleteTopics => 20
  | .deleteRecords => 21 | .initProducerId => 22 | .addPartitionsToTxn => 24
  | .addOffsetsToTxn => 25 | .endTxn => 26 | .describeAcls => 29 | .createAcls => 30
  | .deleteAcls => 31 | .describeConfigs => 32 | .alterConfigs => 33 | .saslAuthenticate => 36
  | .createPartitions => 37 | .deleteGroups => 42

def RequestHeader.encode (header : RequestHeader) : Bytes :=
  [putI16 header.apiKey.toI16, putI16 header.apiVersion, putI32 header.correlationId,
    writeString header.clientId].flatten

def ApiVersionsRequest.encode (version : ℤ) (request : ApiVersionsRequest) : Bytes :=
  if fromVersion 3 version then
    [writeCompactString request.clientSoftwareName,
      writeCompactString request.clientSoftwareVersion, writeUnsignedVarint 10 0].flatten
  else []

def SaslAuthenticateRequest.encode (version : ℤ) (request : SaslAuthenticateRequest) : Bytes :=
  [if fromVersion 2 version then writeCompactBytes (some request.authBytes)
    else writeBytes (some request.authBytes), putTags (fromVersion 2 version)].flatten

def DescribeAclsRequest.encode (version : ℤ) (request : AclFilter) : Bytes :=
  request.encode version

def DeleteAclsRequest.encode (version : ℤ) (request : DeleteAclsRequest) : Bytes :=
  [putFlexibleArray version (AclFilter.encode version) request.filters,
    putTags (fromVersion 2 version)].flatten

inductive FlexibleBody where
  | apiVersions (request : ApiVersionsRequest)
  | saslAuthenticate (request : SaslAuthenticateRequest)
  | createAcls (request : CreateAclsRequest)
  | describeAcls (request : AclFilter)
  | deleteAcls (request : DeleteAclsRequest)

namespace FlexibleBody

def key : FlexibleBody → ApiKey
  | .apiVersions _ => .apiVersions
  | .saslAuthenticate _ => .saslAuthenticate
  | .createAcls _ => .createAcls
  | .describeAcls _ => .describeAcls
  | .deleteAcls _ => .deleteAcls

def version : FlexibleBody → ℤ
  | .apiVersions _ => 3
  | _ => 2

def encode (body : FlexibleBody) : Bytes :=
  match body with
  | .apiVersions request => request.encode body.version
  | .saslAuthenticate request => request.encode body.version
  | .createAcls request => request.encode body.version
  | .describeAcls request => DescribeAclsRequest.encode body.version request
  | .deleteAcls request => request.encode body.version

def request : FlexibleBody → Request
  | .apiVersions request => .apiVersions request
  | .saslAuthenticate request => .saslAuthenticate request
  | .createAcls request => .createAcls request
  | .describeAcls request => .describeAcls request
  | .deleteAcls request => .deleteAcls request

def header (body : FlexibleBody) (correlationId : ℤ) (clientId : Option String) : RequestHeader :=
  ⟨body.key, body.version, correlationId, clientId⟩

def framed (body : FlexibleBody) (correlationId : ℤ) (clientId : Option String) : Bytes :=
  (body.header correlationId clientId).encode ++ writeUnsignedVarint 10 0 ++ body.encode

def Fits : FlexibleBody → Prop
  | .apiVersions request => (∀ s ∈ request.clientSoftwareName, TextFits true s) ∧
      ∀ s ∈ request.clientSoftwareVersion, TextFits true s
  | _ => True

def Unshifted : FlexibleBody → Prop
  | .apiVersions _ => True
  | .saslAuthenticate request => request.authBytes = []
  | .createAcls request => request.creations = []
  | .describeAcls request => request = ⟨0, none, 0, none, none, 0, 0⟩
  | .deleteAcls request => request.filters = []

end FlexibleBody

def decodeWithHeader : Parser (RequestHeader × Request) := do
  let header ← RequestHeader.decode
  let request ← Request.decode header.apiVersion header.apiKey
  return (header, request)

theorem ApiKey.fromI16_toI16 (key : ApiKey) : fromI16 key.toI16 = some key := by
  cases key <;> rfl

theorem ApiKey.fits_toI16 (key : ApiKey) : FitsSigned 16 key.toI16 := by
  cases key <;> decide

theorem RequestHeader.reads {header : RequestHeader} (hver : FitsSigned 16 header.apiVersion)
    (hcorr : FitsSigned 32 header.correlationId) (hclient : ∀ s ∈ header.clientId, TextFits false s) :
    Reads RequestHeader.decode (header.encode ++
      putTags (header.apiKey == .apiVersions && fromVersion 3 header.apiVersion)) header := by
  obtain ⟨key, v, corr, client⟩ := header
  have hfields : (RequestHeader.encode ⟨key, v, corr, client⟩ ++
      putTags (key == .apiVersions && fromVersion 3 v)) =
      [putI16 key.toI16, putI16 v, putI32 corr, writeString client,
        putTags (key == .apiVersions && fromVersion 3 v)].flatten := by
    simp [RequestHeader.encode]
  rw [hfields]
  refine .atLeast _ ?_ (.field (reads_i16 key.fits_toI16) ?_)
  · simp only [flatten_cons, length_append, putI16, putI32, putInt_length]
    omega
  rw [key.fromI16_toI16]
  refine .field (reads_i16 hver) (.field (reads_i32 hcorr) (.field (reads_string hclient) ?_))
  refine .field (reads_tags _) ?_
  exact .pure _

namespace FlexibleBody

variable {body : FlexibleBody} {correlationId : ℤ} {clientId : Option String}

def shifted (body : FlexibleBody) : Bytes :=
  match body with
  | .apiVersions _ => body.encode
  | _ => 0 :: body.encode

theorem run_framed (hcorr : FitsSigned 32 correlationId) (hclient : ∀ s ∈ clientId, TextFits false s)
    {rest : Bytes} :
    decodeWithHeader.run (body.framed correlationId clientId) =
        .ok (body.header correlationId clientId, body.request) rest ↔
      (Request.decode body.version body.key).run body.shifted = .ok body.request rest := by
  have hver : FitsSigned 16 body.version := by
    cases body <;> exact ⟨by norm_num [version], by norm_num [version]⟩
  have hhead : RequestHeader.decode.run (body.framed correlationId clientId) =
      .ok (body.header correlationId clientId) body.shifted := by
    have hreads := @RequestHeader.reads (body.header correlationId clientId) hver hcorr hclient
      body.shifted
    rw [← hreads]
    cases body <;> simp [framed, shifted, header, key, version, putTags, fromVersion,
      writeUnsignedVarint]
  rw [decodeWithHeader, run_bind_of_ok hhead]
  constructor
  · intro h
    obtain ⟨req, hreq, heq⟩ := run_bind_pure_eq_ok h
    rw [(Prod.mk.inj heq).2]
    exact hreq
  · intro h
    exact run_bind_of_ok h _

theorem putI8_zero : putI8 0 = [0] := by decide

theorem run_varint_zero (bytes : Bytes) : readUnsignedVarint.run (0 :: bytes) = .ok 0 bytes := rfl

theorem run_stringOf_zero (bytes : Bytes) :
    (readStringOf (fromVersion 2 2)).run (0 :: bytes) = .ok none bytes := by
  rw [readStringOf, if_pos (by decide), readCompactString, run_bind_of_ok (run_varint_zero bytes)]
  rfl

theorem run_compactBytes_zero (bytes : Bytes) :
    readCompactBytes.run (0 :: bytes) = .ok none bytes := by
  rw [readCompactBytes, run_bind_of_ok (run_varint_zero bytes)]
  rfl

theorem run_i8_zero (bytes : Bytes) : getI8.run (0 :: bytes) = .ok 0 bytes := by
  have h := reads_i8 (x := 0) (by decide) bytes
  rwa [putI8_zero] at h

theorem run_aclArray_zero {α : Type} (trunc : String) (x : Parser α) (bytes : Bytes) :
    (aclArray 2 trunc x).run (0 :: bytes) = .ok [] bytes := by
  rw [aclArray, if_pos (by decide), run_bind_of_ok (run_varint_zero bytes)]
  rfl

theorem saslAuthenticate_of_run {req : SaslAuthenticateRequest} {bytes rest : Bytes}
    (h : (SaslAuthenticateRequest.decode 2).run (0 :: bytes) = .ok req rest) :
    req.authBytes = [] := by
  rw [SaslAuthenticateRequest.decode, if_pos (by decide),
    run_bind_of_ok (run_compactBytes_zero bytes)] at h
  obtain ⟨tags, -, rfl⟩ := run_bind_pure_eq_ok h
  rfl

theorem createAcls_of_run {req : CreateAclsRequest} {bytes rest : Bytes}
    (h : (CreateAclsRequest.decode 2).run (0 :: bytes) = .ok req rest) : req.creations = [] := by
  rw [CreateAclsRequest.decode, run_bind_of_ok (run_aclArray_zero _ _ bytes)] at h
  obtain ⟨tags, -, rfl⟩ := run_bind_pure_eq_ok h
  rfl

theorem deleteAcls_of_run {req : DeleteAclsRequest} {bytes rest : Bytes}
    (h : (DeleteAclsRequest.decode 2).run (0 :: bytes) = .ok req rest) : req.filters = [] := by
  rw [DeleteAclsRequest.decode, run_bind_of_ok (run_aclArray_zero _ _ bytes)] at h
  obtain ⟨tags, -, rfl⟩ := run_bind_pure_eq_ok h
  rfl

theorem writeStringOf_none : writeStringOf (fromVersion 2 2) none = [0] := by decide

theorem describeAcls_of_run {f : AclFilter} {rest : Bytes}
    (h : (DescribeAclsRequest.decode 2).run (0 :: DescribeAclsRequest.encode 2 f) = .ok f rest) :
    f = ⟨0, none, 0, none, none, 0, 0⟩ := by
  obtain ⟨rtype, name, pattern, prin, host, op, perm⟩ := f
  rw [DescribeAclsRequest.decode, aclDecode, DescribeAclsRequest.encode, AclFilter.encode] at h
  simp only [flatten_cons] at h
  obtain ⟨_, s₀, h₀, h⟩ := run_bind_eq_ok h
  obtain ⟨rtype', s₁, h₁, h⟩ := run_bind_eq_ok h
  obtain ⟨name', s₂, h₂, h⟩ := run_bind_eq_ok h
  obtain ⟨pattern', s₃, h₃, h⟩ := run_bind_eq_ok h
  obtain ⟨prin', s₄, h₄, h⟩ := run_bind_eq_ok h
  obtain ⟨host', s₅, h₅, h⟩ := run_bind_eq_ok h
  obtain ⟨_, s₆, h₆, h⟩ := run_bind_eq_ok h
  obtain ⟨op', s₇, h₇, h⟩ := run_bind_eq_ok h
  obtain ⟨perm', s₈, h₈, h⟩ := run_bind_eq_ok h
  obtain ⟨tags, -, heq⟩ := run_bind_pure_eq_ok h
  obtain ⟨rfl, rfl, rfl, rfl, rfl, rfl, rfl⟩ := AclFilter.mk.inj heq
  obtain rfl := rest_of_atLeast h₀
  obtain ⟨rfl, rfl⟩ := Outcome.ok.inj ((run_i8_zero _).symm.trans h₁)
  rw [putI8_zero, singleton_append] at h₂
  obtain ⟨rfl, rfl⟩ := Outcome.ok.inj ((run_stringOf_zero _).symm.trans h₂)
  rw [if_pos (by decide), writeStringOf_none, singleton_append] at h₃
  obtain ⟨_, s, hs, h₃⟩ := run_bind_eq_ok h₃
  obtain rfl := rest_of_atLeast hs
  obtain ⟨rfl, rfl⟩ := Outcome.ok.inj ((run_i8_zero _).symm.trans h₃)
  rw [if_pos (by decide), putI8_zero, singleton_append] at h₄
  obtain ⟨rfl, rfl⟩ := Outcome.ok.inj ((run_stringOf_zero _).symm.trans h₄)
  rw [writeStringOf_none, singleton_append] at h₅
  obtain ⟨rfl, rfl⟩ := Outcome.ok.inj ((run_stringOf_zero _).symm.trans h₅)
  obtain rfl := rest_of_atLeast h₆
  rw [writeStringOf_none, singleton_append] at h₇
  obtain ⟨rfl, rfl⟩ := Outcome.ok.inj ((run_i8_zero _).symm.trans h₇)
  rw [putI8_zero, singleton_append] at h₈
  obtain ⟨rfl, rfl⟩ := Outcome.ok.inj ((run_i8_zero _).symm.trans h₈)
  rfl

theorem apiVersions_reads {req : ApiVersionsRequest} (h : (FlexibleBody.apiVersions req).Fits) :
    Reads (ApiVersionsRequest.decode 3) (req.encode 3) req := by
  have hflexible : fromVersion 3 3 = true := by decide
  rw [ApiVersionsRequest.decode, ApiVersionsRequest.encode, if_pos hflexible, if_pos hflexible]
  refine .field (reads_compactString h.1) (.field (reads_compactString h.2) ?_)
  refine .field (reads_unsignedVarint (by decide)) ?_
  exact .pure _

theorem unshifted_of_run {rest : Bytes}
    (h : (Request.decode body.version body.key).run body.shifted = .ok body.request rest) :
    body.Unshifted := by
  cases body with
  | apiVersions req => trivial
  | saslAuthenticate req =>
    obtain ⟨req', hrun, heq⟩ := run_bind_pure_eq_ok h
    obtain rfl := Request.saslAuthenticate.inj heq
    exact saslAuthenticate_of_run hrun
  | createAcls req =>
    obtain ⟨req', hrun, heq⟩ := run_bind_pure_eq_ok h
    obtain rfl := Request.createAcls.inj heq
    exact createAcls_of_run hrun
  | describeAcls req =>
    obtain ⟨req', hrun, heq⟩ := run_bind_pure_eq_ok h
    obtain rfl := Request.describeAcls.inj heq
    exact describeAcls_of_run hrun
  | deleteAcls req =>
    obtain ⟨req', hrun, heq⟩ := run_bind_pure_eq_ok h
    obtain rfl := Request.deleteAcls.inj heq
    exact deleteAcls_of_run hrun

theorem run_of_unshifted (hfits : body.Fits) (h : body.Unshifted) : ∃ rest,
    (Request.decode body.version body.key).run body.shifted = .ok body.request rest := by
  cases body with
  | apiVersions req =>
    have hreads := apiVersions_reads hfits []
    rw [append_nil] at hreads
    exact ⟨[], run_bind_of_ok hreads _⟩
  | saslAuthenticate req =>
    obtain ⟨auth⟩ := req
    obtain rfl : auth = [] := h
    exact ⟨[0], rfl⟩
  | createAcls req =>
    obtain ⟨creations⟩ := req
    obtain rfl : creations = [] := h
    exact ⟨[0], rfl⟩
  | describeAcls req =>
    obtain rfl : req = _ := h
    -- a body of zeros is the same one octet later
    have hreads := @AclFilter.reads 2 ⟨0, none, 0, none, none, 0, 0⟩ 1
      "Truncated DescribeAclsRequest resource_type" "Truncated resource_pattern_type_filter"
      "Truncated operation / permission_type"
      ⟨by decide, by simp, by decide, by simp, by simp, by decide, by decide⟩ [0]
    exact ⟨[0], run_bind_of_ok hreads _⟩
  | deleteAcls req =>
    obtain ⟨filters⟩ := req
    obtain rfl : filters = [] := h
    exact ⟨[0], rfl⟩

theorem flexible_framing_iff (body : FlexibleBody) (correlationId : ℤ) (clientId : Option String)
    (hcorrelation : FitsSigned 32 correlationId) (hclient : ∀ s ∈ clientId, TextFits false s)
    (hbody : body.Fits) :
    (∃ rest, decodeWithHeader.run (body.framed correlationId clientId) =
        .ok (body.header correlationId clientId, body.request) rest) ↔ body.Unshifted := by
  constructor
  · rintro ⟨rest, hrun⟩
    exact unshifted_of_run ((run_framed hcorrelation hclient).mp hrun)
  · intro h
    obtain ⟨rest, hrun⟩ := run_of_unshifted hbody h
    exact ⟨rest, (run_framed hcorrelation hclient).mpr hrun⟩

theorem flexible_framing_of_apiVersions : ∃ rest, decodeWithHeader.run
    (framed (.apiVersions ⟨some "app", none⟩) 7 (some "c")) =
      .ok (header (.apiVersions ⟨some "app", none⟩) 7 (some "c"),
        .apiVersions ⟨some "app", none⟩) rest :=
  (flexible_framing_iff (.apiVersions ⟨some "app", none⟩) 7 (some "c") (by decide)
    (by simp; decide) ⟨by simp; decide, by simp⟩).mpr trivial

theorem flexible_bodies_lost :
    List.Forall (fun body : FlexibleBody => ¬∃ rest,
        decodeWithHeader.run (body.framed 7 none) = .ok (body.header 7 none, body.request) rest)
      [.saslAuthenticate ⟨[1]⟩, .createAcls ⟨[⟨2, "t", 3, "u", "*", 3, 3⟩]⟩,
        .describeAcls ⟨1, none, 1, none, none, 1, 1⟩,
        .deleteAcls ⟨[⟨1, none, 1, none, none, 1, 1⟩]⟩] := by
  rw [List.forall_iff_forall_mem]
  intro body hbody ⟨rest, hrun⟩
  have h := unshifted_of_run ((run_framed (by decide) (by simp)).mp hrun)
  simp only [mem_cons, not_mem_nil, or_false] at hbody
  rcases hbody with rfl | rfl | rfl | rfl
  · simp [Unshifted] at h
  · simp [Unshifted] at h
  · simp [Unshifted] at h
  · simp [Unshifted] at h

end FlexibleBody

end OxideMq.Protocol
