import OxideMq.Broker.Sasl
import OxideMq.Broker.Snapshot
import OxideMq.Lib.Interner
import OxideMq.Lib.Run

/-! The schema registry: subjects with their versions, ids that name schemas across subjects, and
the compatibility that a new version must have with the latest one. -/

namespace OxideMq.Broker

open Lib HashMap

inductive SchemaType where
  | avro
  | protobuf
  | json
  deriving DecidableEq, Repr

def SchemaType.debug : SchemaType → String
  | .avro => "Avro"
  | .protobuf => "Protobuf"
  | .json => "Json"

structure SchemaReference where
  name : String
  subject : String
  version : ℤ
  deriving DecidableEq, Repr

structure SchemaEntry where
  subject : String
  version : ℤ
  id : ℤ
  schemaType : SchemaType
  schema : String
  references : List SchemaReference
  deriving DecidableEq, Repr

inductive CompatibilityLevel where
  | none
  | backward
  | backwardTransitive
  | forward
  | forwardTransitive
  | full
  | fullTransitive
  deriving DecidableEq, Repr

inductive SchemaRegistryError where
  | subjectNotFound (subject : String)
  | versionNotFound (version : String)
  | schemaNotFound (id : ℤ)
  | invalidSchema (message : String)
  | incompatibleSchema (message : String)
  | invalidRecordPayload
  deriving DecidableEq, Repr

structure SubjectRecord where
  versions : List SchemaEntry
  config : Option CompatibilityLevel

def SubjectRecord.default : SubjectRecord := ⟨[], none⟩

structure SchemaRegistry where
  nextGlobalId : ℤ
  subjects : HashMap String SubjectRecord
  globalSchemas : HashMap ℤ SchemaEntry
  schemaFingerprints : HashMap (SchemaType × String) ℤ
  globalConfig : CompatibilityLevel

structure SerdeJson where
  Value : Type
  decEq : DecidableEq Value
  fromStr : String → Except String Value
  topName : Value → Option Value
  display : Value → String

/-- `str::trim`. -/
def trimmed (text : String) : String := String.ofList (Sasl.trim text.toList)

/-- `str::contains`. -/
def containsText (text pattern : String) : Bool := decide (pattern.toList <:+: text.toList)

/-- `str::eq_ignore_ascii_case` with `latest`. -/
def isLatest (version : String) : Bool := version.toList.map Char.toLower = "latest".toList

namespace SchemaRegistry

def new : SchemaRegistry := ⟨1, ∅, ∅, ∅, .backward⟩

def versions (registry : SchemaRegistry) (subject : String) : List SchemaEntry :=
  ((registry.subjects.lookup subject).map (·.versions)).getD []

def validateSchemaSyntax (json : SerdeJson) (schema : String) (schemaType : SchemaType) :
    Except SchemaRegistryError Unit :=
  if (trimmed schema).isEmpty then .error (.invalidSchema "Schema definition cannot be empty")
  else match schemaType with
    | .avro | .json =>
        match json.fromStr schema with
        | .error e => .error (.invalidSchema ("Malformed JSON: " ++ e))
        | .ok _ => .ok ()
    | .protobuf =>
        if !containsText schema "syntax" && !containsText schema "message" then
          .error (.invalidSchema "Protobuf schema must contain message definition")
        else .ok ()

def compareNames (json : SerdeJson) (prev next : Option json.Value) :
    Except SchemaRegistryError Unit :=
  have := json.decEq
  match prev, next with
  | some prevName, some nextName =>
      if prevName ≠ nextName then
        .error (.incompatibleSchema ("Top-level record name changed from " ++
          json.display prevName ++ " to " ++ json.display nextName))
      else .ok ()
  | _, _ => .ok ()

def verifyCompatibility (json : SerdeJson) (level : CompatibilityLevel) (existing : SchemaEntry)
    (candidate : String) (candidateType : SchemaType) : Except SchemaRegistryError Unit :=
  if level = .none then .ok ()
  else if existing.schemaType ≠ candidateType then
    .error (.incompatibleSchema ("Cannot change schema type from " ++ existing.schemaType.debug ++
      " to " ++ candidateType.debug))
  else if candidateType = .avro ∨ candidateType = .json then
    match json.fromStr candidate with
    | .error e => .error (.invalidSchema e)
    | .ok next =>
        compareNames json ((json.fromStr existing.schema).toOption.bind json.topName)
          (json.topName next)
  else .ok ()

def verifyLatest (json : SerdeJson) (registry : SchemaRegistry) (subject schema : String)
    (schemaType : SchemaType) : Except SchemaRegistryError Unit :=
  match (registry.versions subject).getLast? with
  | none => .ok ()
  | some latest =>
      let config := (registry.subjects.lookup subject).bind (·.config)
      verifyCompatibility json (config.getD registry.globalConfig) latest schema schemaType

/-- The number of the next version is that of the stored ones plus one, as an `i32`. -/
def nextVersion (registry : SchemaRegistry) (subject : String) : ℤ :=
  wrapSigned 32 (wrapSigned 32 (registry.versions subject).length + 1)

def addVersion (registry : SchemaRegistry) (subject schema : String) (schemaType : SchemaType)
    (references : List SchemaReference) : SchemaRegistry × ℤ :=
  let normalized := trimmed schema
  let numbered := intern 32 registry.nextGlobalId registry.schemaFingerprints
    (schemaType, normalized)
  let entry : SchemaEntry :=
    ⟨subject, registry.nextVersion subject, numbered.1, schemaType, normalized, references⟩
  ({ registry with
      nextGlobalId := numbered.2.1
      schemaFingerprints := numbered.2.2
      subjects := (registry.subjects.entryOrInsert subject .default).modify subject fun record =>
        { record with versions := record.versions ++ [entry] }
      globalSchemas := registry.globalSchemas.insert numbered.1 entry }, numbered.1)

def registeredEntry (registry : SchemaRegistry) (subject schema : String)
    (schemaType : SchemaType) : Option SchemaEntry :=
  (registry.versions subject).find? fun e =>
    e.schemaType = schemaType ∧ trimmed e.schema = trimmed schema

def registerSchema (json : SerdeJson) (registry : SchemaRegistry) (subject schema : String)
    (schemaType : Option SchemaType) (references : List SchemaReference) :
    SchemaRegistry × Except SchemaRegistryError ℤ :=
  let st := schemaType.getD .avro
  match validateSchemaSyntax json schema st with
  | .error e => (registry, .error e)
  | .ok () =>
      match registry.registeredEntry subject schema st with
      | some entry => (registry, .ok entry.id)
      | none =>
          match verifyLatest json registry subject schema st with
          | .error e => (registry, .error e)
          | .ok () =>
              let added := registry.addVersion subject schema st references
              (added.1, .ok added.2)

def getSchemaById (registry : SchemaRegistry) (id : ℤ) : Option SchemaEntry :=
  registry.globalSchemas.lookup id

def findSubject (registry : SchemaRegistry) (subject : String) :
    Except SchemaRegistryError (List SchemaEntry) :=
  if (registry.versions subject).isEmpty then .error (.subjectNotFound subject)
  else .ok (registry.versions subject)

def targetVersion (versions : List SchemaEntry) (version : String) :
    Except SchemaRegistryError ℤ :=
  match (if isLatest version then versions.getLast?.map (·.version)
    else parseI32 version.toList) with
  | some target => .ok target
  | none => .error (.versionNotFound version)

def getSchemaBySubjectVersion (registry : SchemaRegistry) (subject version : String) :
    Except SchemaRegistryError SchemaEntry :=
  match registry.findSubject subject with
  | .error e => .error e
  | .ok versions =>
      let found :=
        if isLatest version then versions.getLast?
        else (parseI32 version.toList).bind fun target => versions.find? (·.version = target)
      match found with
      | some entry => .ok entry
      | none => .error (.versionNotFound version)

def listVersions (registry : SchemaRegistry) (subject : String) :
    Except SchemaRegistryError (List ℤ) :=
  match registry.findSubject subject with
  | .error e => .error e
  | .ok versions => .ok (versions.map (·.version))

def setVersions (registry : SchemaRegistry) (subject : String) (versions : List SchemaEntry) :
    SchemaRegistry :=
  { registry with
    subjects := registry.subjects.modify subject fun record =>
      { record with versions := versions } }

def deleteSubject (registry : SchemaRegistry) (subject : String) :
    SchemaRegistry × Except SchemaRegistryError (List ℤ) :=
  match registry.findSubject subject with
  | .error e => (registry, .error e)
  | .ok versions => (registry.setVersions subject [], .ok (versions.map (·.version)))

def deleteVersion (registry : SchemaRegistry) (subject version : String) :
    SchemaRegistry × Except SchemaRegistryError ℤ :=
  match registry.findSubject subject with
  | .error e => (registry, .error e)
  | .ok versions =>
      match targetVersion versions version with
      | .error e => (registry, .error e)
      | .ok target =>
          if versions.any (·.version = target) then
            (registry.setVersions subject (versions.eraseP (·.version = target)), .ok target)
          else (registry, .error (.versionNotFound version))

def setConfig (registry : SchemaRegistry) (subject : Option String) (level : CompatibilityLevel) :
    SchemaRegistry :=
  match subject with
  | some subject =>
      { registry with
        subjects := (registry.subjects.entryOrInsert subject .default).modify subject fun record =>
          { record with config := some level } }
  | none => { registry with globalConfig := level }

end SchemaRegistry

namespace SchemaRegistry

variable {registry : SchemaRegistry} {subject subject' schema version : String}

def newEntry (registry : SchemaRegistry) (subject schema : String) (schemaType : SchemaType)
    (references : List SchemaReference) : SchemaEntry :=
  ⟨subject, registry.nextVersion subject,
    (intern 32 registry.nextGlobalId registry.schemaFingerprints (schemaType, trimmed schema)).1,
    schemaType, trimmed schema, references⟩

@[simp] theorem newEntry_subject (registry : SchemaRegistry) (subject schema : String)
    (schemaType : SchemaType) (references : List SchemaReference) :
    (registry.newEntry subject schema schemaType references).subject = subject := by
  rw [newEntry]

@[simp] theorem newEntry_version (registry : SchemaRegistry) (subject schema : String)
    (schemaType : SchemaType) (references : List SchemaReference) :
    (registry.newEntry subject schema schemaType references).version =
      registry.nextVersion subject := by
  rw [newEntry]

theorem nextVersion_fits (reg : SchemaRegistry) (subj : String) :
    FitsSigned 32 (reg.nextVersion subj) := by
  rw [nextVersion]
  exact wrapSigned_fits (by norm_num) _

theorem versions_addVersion (registry : SchemaRegistry) (subject schema : String)
    (schemaType : SchemaType) (references : List SchemaReference) (subject' : String) :
    (registry.addVersion subject schema schemaType references).1.versions subject' =
      if subject' = subject then
        registry.versions subject ++ [registry.newEntry subject schema schemaType references]
      else registry.versions subject' := by
  simp only [versions, addVersion, lookup_modify, lookup_entryOrInsert]
  by_cases hsubj : subject' = subject
  · rw [if_pos hsubj, if_pos hsubj, if_pos trivial]
    cases registry.subjects.lookup subject with
    | none => rfl
    | some record => rfl
  · rw [if_neg hsubj, if_neg hsubj, if_neg hsubj]

theorem versions_setVersions {found : List SchemaEntry}
    (h : registry.findSubject subject = .ok found) (kept : List SchemaEntry)
    (subject' : String) :
    (registry.setVersions subject kept).versions subject' =
      if subject' = subject then kept else registry.versions subject' := by
  rw [versions, setVersions, lookup_modify]
  by_cases hsubj : subject' = subject
  · rw [if_pos hsubj, if_pos hsubj]
    cases hl : registry.subjects.lookup subject with
    | none =>
      rw [findSubject, versions, hl] at h
      cases h
    | some record => rfl
  · rw [if_neg hsubj, if_neg hsubj]
    rfl

theorem versions_setConfig (registry : SchemaRegistry) (subject : Option String)
    (level : CompatibilityLevel) (subject' : String) :
    (registry.setConfig subject level).versions subject' = registry.versions subject' := by
  cases subject with
  | none => rfl
  | some subject =>
    simp only [versions, setConfig, lookup_modify, lookup_entryOrInsert]
    by_cases hsubj : subject' = subject
    · rw [if_pos hsubj, if_pos trivial, hsubj]
      cases registry.subjects.lookup subject with
      | none => rfl
      | some record => rfl
    · rw [if_neg hsubj, if_neg hsubj]

theorem findSubject_eq_ok {found : List SchemaEntry} (h : registry.findSubject subject = .ok found) :
    found = registry.versions subject ∧ registry.versions subject ≠ [] := by
  rw [findSubject] at h
  split at h
  · cases h
  · next hsome =>
    exact ⟨(Except.ok.inj h).symm, fun hnil => hsome (by rw [hnil]; rfl)⟩

structure Adds (json : SerdeJson) (registry : SchemaRegistry) (subject schema : String)
    (schemaType : SchemaType) : Prop where
  valid : validateSchemaSyntax json schema schemaType = .ok ()
  fresh : registry.registeredEntry subject schema schemaType = none
  compatible : verifyLatest json registry subject schema schemaType = .ok ()

theorem registerSchema_cases (json : SerdeJson) (reg : SchemaRegistry)
    (subj schema : String) (ty : Option SchemaType)
    (refs : List SchemaReference) :
    let st := ty.getD .avro
    let answer := reg.registerSchema json subj schema ty refs
    (reg.Adds json subj schema st ∧
      answer = ((reg.addVersion subj schema st refs).1,
        .ok (reg.addVersion subj schema st refs).2)) ∨
    (¬reg.Adds json subj schema st ∧ answer.1 = reg ∧
      ∀ id, answer.2 = .ok id → ∃ entry ∈ reg.versions subj,
        entry.id = id ∧ entry.schemaType = st ∧ trimmed entry.schema = trimmed schema) := by
  dsimp only [registerSchema]
  generalize ty.getD .avro = st
  cases hvalid : validateSchemaSyntax json schema st with
  | error e =>
    refine Or.inr ⟨fun h => ?_, rfl, fun id hid => ?_⟩
    · cases hvalid.symm.trans h.valid
    · cases hid
  | ok _ =>
    cases hfresh : reg.registeredEntry subj schema st with
    | some entry =>
      refine Or.inr ⟨fun h => ?_, rfl, fun id hid => ?_⟩
      · exact Option.some_ne_none _ (hfresh.symm.trans h.fresh)
      · have hfind : (reg.versions subj).find? (fun e => e.schemaType = st ∧
            trimmed e.schema = trimmed schema) = some entry := hfresh
        have hm := List.find?_some hfind
        exact ⟨entry, List.mem_of_find?_eq_some hfind, Except.ok.inj hid, of_decide_eq_true hm⟩
    | none =>
      cases hcompatible : verifyLatest json reg subj schema st with
      | error e =>
        refine Or.inr ⟨fun h => ?_, rfl, fun id hid => ?_⟩
        · cases hcompatible.symm.trans h.compatible
        · cases hid
      | ok _ => exact Or.inl ⟨⟨hvalid, hfresh, hcompatible⟩, rfl⟩

end SchemaRegistry

inductive RegistryAction where
  | registerSchema (subject schema : String) (schemaType : Option SchemaType)
      (references : List SchemaReference)
  | deleteVersion (subject version : String)
  | deleteSubject (subject : String)
  | setConfig (subject : Option String) (level : CompatibilityLevel)

structure Registration where
  schemaType : SchemaType
  text : String
  id : ℤ

structure RegistryHistory where
  registry : SchemaRegistry
  answers : List Registration
  registered : List SchemaEntry

namespace RegistryHistory

def new : RegistryHistory := ⟨.new, [], []⟩

def registerSchema (json : SerdeJson) (history : RegistryHistory) (subject schema : String)
    (schemaType : Option SchemaType) (references : List SchemaReference) : RegistryHistory :=
  let answer := history.registry.registerSchema json subject schema schemaType references
  { registry := answer.1
    answers := match answer.2 with
      | .ok id => ⟨schemaType.getD .avro, trimmed schema, id⟩ :: history.answers
      | .error _ => history.answers
    registered := (answer.1.versions subject).drop (history.registry.versions subject).length ++
      history.registered }

def step (json : SerdeJson) (history : RegistryHistory) : RegistryAction → RegistryHistory
  | .registerSchema subject schema schemaType references =>
      history.registerSchema json subject schema schemaType references
  | .deleteVersion subject version =>
      { history with registry := (history.registry.deleteVersion subject version).1 }
  | .deleteSubject subject =>
      { history with registry := (history.registry.deleteSubject subject).1 }
  | .setConfig subject level =>
      { history with registry := history.registry.setConfig subject level }

def exec (json : SerdeJson) (history : RegistryHistory) (action : RegistryAction) :
    Option RegistryHistory :=
  some (history.step json action)

end RegistryHistory

end OxideMq.Broker
