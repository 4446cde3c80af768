import OxideMq.Lib.HashMap
import OxideMq.Protocol.Requests
import OxideMq.Protocol.Responses

/-! Access control: a list of bindings, each of which allows or denies a principal an operation on
resources with a name or a prefix. -/

namespace OxideMq.Broker

open Lib OxideMq.Protocol

inductive AclResourceType where
  | unknown | any | topic | group | cluster | transactionalId | delegationToken | user
  deriving DecidableEq, Repr

def AclResourceType.fromI8 : ℤ → AclResourceType
  | 1 => .any
  | 2 => .topic
  | 3 => .group
  | 4 => .cluster
  | 5 => .transactionalId
  | 6 => .delegationToken
  | 7 => .user
  | _ => .unknown

def AclResourceType.toI8 : AclResourceType → ℤ
  | .unknown => 0
  | .any => 1
  | .topic => 2
  | .group => 3
  | .cluster => 4
  | .transactionalId => 5
  | .delegationToken => 6
  | .user => 7

inductive AclResourcePatternType where
  | unknown | any | match | literal | prefixed
  deriving DecidableEq, Repr

def AclResourcePatternType.fromI8 : ℤ → AclResourcePatternType
  | 1 => .any
  | 2 => .match
  | 3 => .literal
  | 4 => .prefixed
  | _ => .unknown

def AclResourcePatternType.toI8 : AclResourcePatternType → ℤ
  | .unknown => 0
  | .any => 1
  | .match => 2
  | .literal => 3
  | .prefixed => 4

inductive AclOperation where
  | unknown | any | all | read | write | create | delete | alter | describe | clusterAction
  | describeConfigs | alterConfigs | idempotentWrite
  deriving DecidableEq, Repr

def AclOperation.fromI8 : ℤ → AclOperation
  | 1 => .any
  | 2 => .all
  | 3 => .read
  | 4 => .write
  | 5 => .create
  | 6 => .delete
  | 7 => .alter
  | 8 => .describe
  | 9 => .clusterAction
  | 10 => .describeConfigs
  | 11 => .alterConfigs
  | 12 => .idempotentWrite
  | _ => .unknown

def AclOperation.toI8 : AclOperation → ℤ
  | .unknown => 0
  | .any => 1
  | .all => 2
  | .read => 3
  | .write => 4
  | .create => 5
  | .delete => 6
  | .alter => 7
  | .describe => 8
  | .clusterAction => 9
  | .describeConfigs => 10
  | .alterConfigs => 11
  | .idempotentWrite => 12

inductive AclPermissionType where
  | unknown | any | deny | allow
  deriving DecidableEq, Repr

def AclPermissionType.fromI8 : ℤ → AclPermissionType
  | 1 => .any
  | 2 => .deny
  | 3 => .allow
  | _ => .unknown

def AclPermissionType.toI8 : AclPermissionType → ℤ
  | .unknown => 0
  | .any => 1
  | .deny => 2
  | .allow => 3

structure AclBinding where
  resourceType : AclResourceType
  resourceName : String
  patternType : AclResourcePatternType
  principal : String
  host : String
  operation : AclOperation
  permissionType : AclPermissionType
  deriving DecidableEq, Repr

def startsWith (text start : String) : Bool := start.toList.isPrefixOf text.toList

def normalizePrincipal (principal : String) : String :=
  if principal.toList.contains ':' then principal else "User:" ++ principal

namespace AclBinding

def covers (b : AclBinding) (resourceType : AclResourceType) (resourceName : String) : Bool :=
  b.resourceType == resourceType &&
    match b.patternType with
    | .prefixed => startsWith resourceName b.resourceName
    | _ => b.resourceName == resourceName || b.resourceName == "*"

def concerns (b : AclBinding) (normPrincipal host : String) (operation : AclOperation) : Bool :=
  (b.principal == normPrincipal || b.principal == "User:*" || b.principal == "*") &&
    (b.host == host || b.host == "*") && (b.operation == operation || b.operation == .all)

end AclBinding

structure AclAuthorizer where
  enabled : Bool
  superUsers : List String
  allowEveryoneIfNoAclFound : Bool
  bindings : List AclBinding

namespace AclAuthorizer

def new (enabled : Bool) (superUsers : List String) (allowEveryoneIfNoAclFound : Bool) :
    AclAuthorizer :=
  ⟨enabled, superUsers.map normalizePrincipal, allowEveryoneIfNoAclFound, []⟩

def matchedAllows (applies : AclBinding → Bool) : Bool → List AclBinding → Bool
  | allows, [] => allows
  | allows, b :: bindings =>
      if !applies b then matchedAllows applies allows bindings
      else if b.permissionType = .deny then false
      else matchedAllows applies (allows || b.permissionType = .allow) bindings

def authorize (acl : AclAuthorizer) (principal host : String) (resourceType : AclResourceType)
    (resourceName : String) (operation : AclOperation) : Bool :=
  let normPrincipal := normalizePrincipal principal
  if !acl.enabled then true
  else if acl.superUsers.contains normPrincipal || acl.superUsers.contains principal then true
  else if !acl.bindings.any (·.covers resourceType resourceName) then
    acl.allowEveryoneIfNoAclFound
  else
    matchedAllows (fun b => b.covers resourceType resourceName &&
      b.concerns normPrincipal host operation) false acl.bindings

def createAcl (bindings : List AclBinding) (c : AclCreation) :
    List AclBinding × AclCreationResult :=
  let binding : AclBinding :=
    { resourceType := .fromI8 c.resourceType
      resourceName := c.resourceName
      patternType := .fromI8 c.resourcePatternType
      principal := normalizePrincipal c.principal
      host := if c.host.isEmpty then "*" else c.host
      operation := .fromI8 c.operation
      permissionType := .fromI8 c.permissionType }
  if binding.resourceType = .unknown ∨ binding.patternType = .unknown ∨
      binding.operation = .unknown ∨ binding.permissionType = .unknown then
    (bindings, ⟨.invalidRequest, some "Invalid ACL creation parameters"⟩)
  else (if bindings.contains binding then bindings else bindings ++ [binding], ⟨.none, none⟩)

def createAcls (acl : AclAuthorizer) : List AclCreation → AclAuthorizer × List AclCreationResult
  | [] => (acl, [])
  | c :: creations =>
      let (bindings, result) := createAcl acl.bindings c
      let (acl', results) := createAcls { acl with bindings := bindings } creations
      (acl', result :: results)

def selects (filter : AclFilter) (b : AclBinding) : Bool :=
  (filter.resourceTypeFilter == 1 || b.resourceType.toI8 == filter.resourceTypeFilter) &&
  (match filter.resourceNameFilter with
    | none => true
    | some nameFilter =>
        if filter.resourcePatternTypeFilter = 1 ∨ filter.resourcePatternTypeFilter = 2 then
          b.resourceName == nameFilter || startsWith nameFilter b.resourceName ||
            b.resourceName == "*"
        else if filter.resourcePatternTypeFilter = 4 then startsWith nameFilter b.resourceName
        else b.resourceName == nameFilter) &&
  (match filter.principalFilter with
    | none => true
    | some principalFilter =>
        principalFilter == "*" || b.principal == normalizePrincipal principalFilter ||
          b.principal == principalFilter) &&
  (match filter.hostFilter with
    | none => true
    | some hostFilter => hostFilter == "*" || b.host == hostFilter) &&
  (filter.operation == 1 || b.operation.toI8 == filter.operation) &&
  (filter.permissionType == 1 || b.permissionType.toI8 == filter.permissionType)

def describeAcls (acl : AclAuthorizer) (filter : AclFilter) : List DescribeAclsResource :=
  let grouped : HashMap (ℤ × String × ℤ) (List AclDescription) :=
    (acl.bindings.filter (selects filter)).foldl (fun grouped b =>
      let key := (b.resourceType.toI8, b.resourceName, b.patternType.toI8)
      (grouped.entryOrInsert key []).modify key
        (· ++ [⟨b.principal, b.host, b.operation.toI8, b.permissionType.toI8⟩])) ∅
  grouped.entries.reverse.map fun e => ⟨e.1.1, e.1.2.1, e.1.2.2, e.2⟩

def matchingAcl (b : AclBinding) : DeleteAclsMatchingAcl :=
  ⟨.none, none, b.resourceType.toI8, b.resourceName, b.patternType.toI8, b.principal, b.host,
    b.operation.toI8, b.permissionType.toI8⟩

def deleteAcls (acl : AclAuthorizer) :
    List AclFilter → AclAuthorizer × List DeleteAclsFilterResult
  | [] => (acl, [])
  | filter :: filters =>
      let (acl', results) :=
        deleteAcls { acl with bindings := acl.bindings.filter fun b => !selects filter b } filters
      (acl', ⟨.none, none, (acl.bindings.filter (selects filter)).map matchingAcl⟩ :: results)

end AclAuthorizer

end OxideMq.Broker
