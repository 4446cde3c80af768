import OxideMq.Broker.SchemaIds

/-! What the checks of the registry guarantee. -/

namespace OxideMq.Broker

open Lib List

def CompatibilityLevel.isTransitive : CompatibilityLevel → Bool
  | .backwardTransitive | .forwardTransitive | .fullTransitive => true
  | _ => false

namespace SchemaRegistry

variable {registry : SchemaRegistry} {subject schema : String} {st : SchemaType}

def level (registry : SchemaRegistry) (subject : String) : CompatibilityLevel :=
  ((registry.subjects.lookup subject).bind (·.config)).getD registry.globalConfig

def checkSchemaRegistered (registry : SchemaRegistry) (subject schema : String)
    (schemaType : Option SchemaType) : Option SchemaEntry :=
  let st := schemaType.getD .avro
  (registry.subjects.lookup subject).bind fun record =>
    record.versions.find? fun e => e.schemaType = st ∧ trimmed e.schema = trimmed schema

def existingVersion (record : SubjectRecord) (subject version : String) :
    Except SchemaRegistryError SchemaEntry :=
  if isLatest version then
    match record.versions.getLast? with
    | some entry => .ok entry
    | none => .error (.subjectNotFound subject)
  else
    match (parseI32 version.toList).bind fun ver => record.versions.find? (·.version = ver) with
    | some entry => .ok entry
    | none => .error (.versionNotFound version)

def checkCompatibility (json : SerdeJson) (registry : SchemaRegistry)
    (subject version candidate : String) (candidateType : Option SchemaType) :
    Except SchemaRegistryError Bool := do
  let st := candidateType.getD .avro
  validateSchemaSyntax json candidate st
  match registry.subjects.lookup subject with
  | none => throw (.subjectNotFound subject)
  | some record =>
      let existing ← existingVersion record subject version
      match verifyCompatibility json (record.config.getD registry.globalConfig) existing candidate
          st with
      | .ok () => return true
      | .error (.incompatibleSchema _) => return false
      | .error e => throw e

theorem checkSchemaRegistered_eq (reg : SchemaRegistry) (subj schema : String)
    (ty : Option SchemaType) :
    reg.checkSchemaRegistered subj schema ty = reg.registeredEntry subj schema (ty.getD .avro) := by
  rw [checkSchemaRegistered, registeredEntry, versions]
  cases reg.subjects.lookup subj with
  | none => rfl
  | some record => rfl

def NamesAgree (json : SerdeJson) (existing candidate : String) : Prop :=
  ∀ prev ∈ (json.fromStr existing).toOption.bind json.topName,
    ∀ next ∈ (json.fromStr candidate).toOption.bind json.topName, prev = next

def Suits (json : SerdeJson) (existing : SchemaEntry) (candidate : String) (st : SchemaType) :
    Prop :=
  existing.schemaType = st ∧ (st ≠ .protobuf → NamesAgree json existing.schema candidate)

theorem fromStr_of_valid {json : SerdeJson} (h : validateSchemaSyntax json schema st = .ok ())
    (hst : st ≠ .protobuf) : ∃ value, json.fromStr schema = .ok value := by
  unfold validateSchemaSyntax at h
  split at h
  · cases h
  · cases hparse : json.fromStr schema with
    | ok value => exact ⟨value, rfl⟩
    | error e =>
      rw [hparse] at h
      cases st with
      | avro => cases h
      | json => cases h
      | protobuf => exact absurd rfl hst

theorem compareNames_spec (json : SerdeJson) (prev next : Option json.Value) :
    ((∀ p ∈ prev, ∀ n ∈ next, p = n) ∧ compareNames json prev next = .ok ()) ∨
      (¬∀ p ∈ prev, ∀ n ∈ next, p = n) ∧
        ∃ msg, compareNames json prev next = .error (.incompatibleSchema msg) := by
  cases prev with
  | none => exact Or.inl ⟨nofun, rfl⟩
  | some p =>
    cases next with
    | none => exact Or.inl ⟨fun _ _ => nofun, rfl⟩
    | some n =>
      by_cases hsame : p = n
      · exact Or.inl ⟨by simpa using hsame, by simp [compareNames, hsame]⟩
      · exact Or.inr ⟨by simpa using hsame, _, by simp only [compareNames]; rw [if_pos hsame]⟩

theorem verifyCompatibility_spec {json : SerdeJson}
    (h : validateSchemaSyntax json schema st = .ok ()) (level : CompatibilityLevel)
    (existing : SchemaEntry) :
    ((level = .none ∨ Suits json existing schema st) ∧
      verifyCompatibility json level existing schema st = .ok ()) ∨
    ¬(level = .none ∨ Suits json existing schema st) ∧
      ∃ msg, verifyCompatibility json level existing schema st =
        .error (.incompatibleSchema msg) := by
  rw [verifyCompatibility]
  by_cases hlevel : level = .none
  · exact Or.inl ⟨Or.inl hlevel, if_pos hlevel⟩
  rw [if_neg hlevel]
  simp only [hlevel, false_or]
  by_cases htype : existing.schemaType = st
  · rw [if_neg (not_not.mpr htype)]
    by_cases hst : st = .protobuf
    · subst hst
      exact Or.inl ⟨⟨htype, fun h => absurd rfl h⟩, rfl⟩
    · obtain ⟨value, hval⟩ := fromStr_of_valid h hst
      have hjson : st = .avro ∨ st = .json := by
        cases st with
        | avro => exact Or.inl rfl
        | json => exact Or.inr rfl
        | protobuf => exact absurd rfl hst
      have hsuits : Suits json existing schema st ↔
          ∀ p ∈ (json.fromStr existing.schema).toOption.bind json.topName,
            ∀ n ∈ json.topName value, p = n := by
        simp [Suits, NamesAgree, htype, hst, hval, Except.toOption]
      rw [if_pos hjson, hval, hsuits]
      exact compareNames_spec json _ _
  · exact Or.inr ⟨fun h => htype h.1, _, if_pos htype⟩

theorem checkCompatibility_latest {json : SerdeJson} {ty : Option SchemaType}
    {latest : SchemaEntry} (h : validateSchemaSyntax json schema (ty.getD .avro) = .ok ())
    (hlatest : (registry.versions subject).getLast? = some latest) :
    registry.checkCompatibility json subject "latest" schema ty = .ok true ↔
      verifyCompatibility json (registry.level subject) latest schema (ty.getD .avro) = .ok () := by
  rw [versions] at hlatest
  cases hl : registry.subjects.lookup subject with
  | none =>
    rw [hl] at hlatest
    cases hlatest
  | some record =>
    rw [hl] at hlatest
    have hexisting : existingVersion record subject "latest" = .ok latest := by
      rw [existingVersion, if_pos (by decide)]
      rw [Option.map_some, Option.getD_some] at hlatest
      rw [hlatest]
    have hlevel : registry.level subject = record.config.getD registry.globalConfig := by
      rw [level, hl, Option.bind_some]
    rw [checkCompatibility, h, hl, hlevel]
    dsimp only [bind, Except.bind]
    rw [hexisting]
    dsimp only
    rcases verifyCompatibility_spec h (record.config.getD registry.globalConfig) latest with
      ⟨-, heq⟩ | ⟨-, message, heq⟩
    · rw [heq]
      exact iff_of_true rfl rfl
    · rw [heq]
      exact iff_of_false (by rintro ⟨⟩) (by rintro ⟨⟩)

theorem registerSchema_predicted (json : SerdeJson) (registry : SchemaRegistry) :
    (∀ subject schema schemaType references, registry.versions subject ≠ [] →
      validateSchemaSyntax json schema (schemaType.getD .avro) = .ok () →
      let answer := (registry.registerSchema json subject schema schemaType references).2
      let predicted := (registry.checkSchemaRegistered subject schema schemaType).isSome ∨
        registry.checkCompatibility json subject "latest" schema schemaType = .ok true
      ((∃ id, answer = .ok id) ↔ predicted) ∧
        (¬predicted → ∃ message, answer = .error (.incompatibleSchema message))) ∧
    ∀ subject schema schemaType references e,
      (registry.registerSchema json subject schema schemaType references).2 = .error e →
        (registry.registerSchema json subject schema schemaType references).1 = registry := by
  constructor
  · intro subject schema schemaType references hsome hvalid answer predicted
    obtain ⟨latest, hlatest⟩ := Option.isSome_iff_exists.mp (List.getLast?_isSome.mpr hsome)
    have hverify : verifyLatest json registry subject schema (schemaType.getD .avro) =
        verifyCompatibility json (registry.level subject) latest schema
          (schemaType.getD .avro) := by
      rw [verifyLatest, hlatest]
      rfl
    simp only [answer, predicted, registerSchema, hvalid, hverify, checkSchemaRegistered_eq,
      checkCompatibility_latest hvalid hlatest]
    cases registry.registeredEntry subject schema (schemaType.getD .avro) with
    | some entry => exact ⟨iff_of_true ⟨_, rfl⟩ (Or.inl rfl), fun h => absurd (Or.inl rfl) h⟩
    | none =>
      rcases verifyCompatibility_spec hvalid (registry.level subject) latest with
        ⟨-, heq⟩ | ⟨-, message, heq⟩
      · rw [heq]
        exact ⟨iff_of_true ⟨_, rfl⟩ (Or.inr rfl), fun h => absurd (Or.inr rfl) h⟩
      · rw [heq]
        refine ⟨iff_of_false nofun ?_, fun _ => ⟨message, rfl⟩⟩
        rintro (h | h) <;> cases h
  · intro subject schema schemaType references e herr
    rcases registerSchema_cases json registry subject schema schemaType references with
      ⟨-, heq⟩ | ⟨-, heq, -⟩
    · rw [heq] at herr
      cases herr
    · exact heq

theorem transitively_compatible_iff (json : SerdeJson) (registry : SchemaRegistry)
    (subject schema : String) (st : SchemaType) :
    (registry.Adds json subject schema st → (registry.level subject).isTransitive →
      ∀ e ∈ registry.versions subject,
        verifyCompatibility json (registry.level subject) e schema st = .ok ()) ↔
    (registry.Adds json subject schema st → (registry.level subject).isTransitive →
      ∀ e ∈ (registry.versions subject).dropLast, Suits json e schema st) := by
  refine imp_congr_right fun hadds => imp_congr_right fun htransitive => ?_
  have hlevel : registry.level subject ≠ .none := by
    intro h
    rw [h] at htransitive
    cases htransitive
  have hiff : ∀ e, verifyCompatibility json (registry.level subject) e schema st = .ok () ↔
      Suits json e schema st := by
    intro e
    rcases verifyCompatibility_spec hadds.valid (registry.level subject) e with
      ⟨hsuits, heq⟩ | ⟨hsuits, message, heq⟩
    · exact iff_of_true heq (hsuits.resolve_left hlevel)
    · rw [heq]
      exact iff_of_false nofun fun h => hsuits (Or.inr h)
  simp only [hiff]
  cases hlatest : (registry.versions subject).getLast? with
  | none =>
    rw [List.getLast?_eq_none_iff] at hlatest
    rw [hlatest]
    exact Iff.rfl
  | some latest =>
    have hchecked : Suits json latest schema st := by
      have hcompatible := hadds.compatible
      rw [verifyLatest, hlatest] at hcompatible
      exact (hiff latest).mp hcompatible
    rw [← List.dropLast_append_getLast? latest hlatest, List.dropLast_concat]
    simp [or_imp, forall_and, hchecked]

def initialJson : SerdeJson :=
  ⟨String, inferInstance, .ok, fun text => some (String.ofList (text.toList.take 1)), id⟩

def raisedLevel : SchemaRegistry :=
  ([.setConfig none .none, .registerSchema "s" "a1" none [], .registerSchema "s" "b1" none [],
    .setConfig none .fullTransitive].foldl (RegistryHistory.step initialJson) .new).registry

theorem transitive_level_checks_latest :
    (raisedLevel.level "s").isTransitive = true ∧ raisedLevel.Adds initialJson "s" "b2" .avro ∧
    ∃ e ∈ raisedLevel.versions "s", ∃ message,
      verifyCompatibility initialJson (raisedLevel.level "s") e "b2" .avro =
        .error (.incompatibleSchema message) :=
  ⟨by decide +kernel, ⟨by decide +kernel, by decide +kernel, by decide +kernel⟩, _,
    List.mem_cons_self, _, rfl⟩

end SchemaRegistry

/-- The arguments of `register_schema`. -/
structure RegisterCall where
  subject : String
  schema : String
  schemaType : Option SchemaType
  references : List SchemaReference

namespace RegisterCall

variable {json : SerdeJson} {calls : List RegisterCall} {id : ℤ}
  {references : List SchemaReference}

def on (json : SerdeJson) (registry : SchemaRegistry) (c : RegisterCall) :
    SchemaRegistry × Except SchemaRegistryError ℤ :=
  registry.registerSchema json c.subject c.schema c.schemaType c.references

def registerAll (json : SerdeJson) (calls : List RegisterCall) : SchemaRegistry :=
  calls.foldl (fun registry c => (c.on json registry).1) .new

def Answered (json : SerdeJson) (calls : List RegisterCall) (id : ℤ)
    (references : List SchemaReference) : Prop :=
  ∃ earlier c later, calls = earlier ++ c :: later ∧
    (c.on json (registerAll json earlier)).2 = .ok id ∧ c.references = references

theorem Answered.mono {front : List RegisterCall} (h : Answered json front id references)
    (hfront : front <+: calls) : Answered json calls id references := by
  obtain ⟨earlier, c, later, rfl, hid, href⟩ := h
  obtain ⟨rest, rfl⟩ := hfront
  exact ⟨earlier, c, later ++ rest, by rw [append_assoc, cons_append], hid, href⟩

def sameTextTwice : List RegisterCall :=
  [⟨"s", "message A", some .protobuf, []⟩, ⟨"t", "message A", some .protobuf, [⟨"r", "u", 1⟩]⟩]

end RegisterCall

end OxideMq.Broker
