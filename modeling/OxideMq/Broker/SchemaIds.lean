import OxideMq.Broker.SchemaVersions

/-! Ids of schemas. -/

namespace OxideMq.Broker

open Lib List

namespace Sasl

theorem trim_eq (text : List Char) :
    trim text = (text.dropWhile isWhitespace).rdropWhile isWhitespace := rfl

theorem dropWhile_trim (text : List Char) : (trim text).dropWhile isWhitespace = trim text := by
  have hfront : (text.dropWhile isWhitespace).dropWhile isWhitespace =
      text.dropWhile isWhitespace := dropWhile_idempotent isWhitespace text
  rw [trim_eq]
  obtain ⟨tail, htail⟩ := rdropWhile_prefix isWhitespace (text.dropWhile isWhitespace)
  cases hkept : (text.dropWhile isWhitespace).rdropWhile isWhitespace with
  | nil => rfl
  | cons c kept =>
    rw [hkept] at htail
    rw [← htail, cons_append, dropWhile_eq_self_iff] at hfront
    exact dropWhile_eq_self_iff.mpr fun _ => hfront (Nat.succ_pos _)

theorem trim_trim (text : List Char) : trim (trim text) = trim text := by
  rw [trim_eq (trim text), dropWhile_trim, trim_eq, rdropWhile_idempotent]

end Sasl

theorem trimmed_trimmed (text : String) : trimmed (trimmed text) = trimmed text := by
  rw [trimmed, trimmed, String.toList_ofList, Sasl.trim_trim]

def SchemaEntry.key (e : SchemaEntry) : SchemaType × String := (e.schemaType, e.schema)

def Registration.key (a : Registration) : SchemaType × String := (a.schemaType, a.text)

namespace SchemaRegistry

variable {registry : SchemaRegistry} {subject schema : String} {schemaType : SchemaType}
  {references : List SchemaReference}

def Room (registry : SchemaRegistry) : Prop :=
  (registry.schemaFingerprints.keys.length : ℤ) < 2 ^ 31 - 1

structure IdsAgree (registry : SchemaRegistry) : Prop where
  numbered : Numbered registry.nextGlobalId registry.schemaFingerprints
  stored : ∀ subject, ∀ e ∈ registry.versions subject,
    registry.schemaFingerprints.lookup e.key = some e.id ∧ trimmed e.schema = e.schema
  resolves : ∀ k id, registry.schemaFingerprints.lookup k = some id →
    ∃ e, registry.getSchemaById id = some e ∧ e.key = k

theorem idsAgree_new : new.IdsAgree :=
  ⟨numbered_empty, fun _ _ he => absurd he not_mem_nil, nofun⟩

theorem schemaFingerprints_addVersion (reg : SchemaRegistry) (subj schema : String)
    (ty : SchemaType) (refs : List SchemaReference) :
    (reg.addVersion subj schema ty refs).1.schemaFingerprints =
      (intern 32 reg.nextGlobalId reg.schemaFingerprints (ty, trimmed schema)).2.2 := by
  rw [addVersion]

theorem room_of_addVersion (h : (registry.addVersion subject schema schemaType references).1.Room) :
    registry.Room := by
  rw [Room, schemaFingerprints_addVersion] at h
  have hle := length_keys_le_intern 32 registry.nextGlobalId registry.schemaFingerprints
    (schemaType, trimmed schema)
  rw [Room]
  omega

theorem lookup_addVersion (reg : SchemaRegistry) (subj schema : String)
    (ty : SchemaType) (refs : List SchemaReference) :
    (reg.addVersion subj schema ty refs).1.schemaFingerprints.lookup (ty, trimmed schema) =
      some (reg.addVersion subj schema ty refs).2 := by
  rw [schemaFingerprints_addVersion, lookup_intern, if_pos rfl, addVersion]

theorem getSchemaById_addVersion (reg : SchemaRegistry) (subj schema : String)
    (ty : SchemaType) (refs : List SchemaReference) (id : ℤ) :
    (reg.addVersion subj schema ty refs).1.getSchemaById id =
      if id = (reg.addVersion subj schema ty refs).2 then
        some (reg.newEntry subj schema ty refs)
      else reg.getSchemaById id := by
  rw [getSchemaById, addVersion]
  exact HashMap.lookup_insert_ite _ _ _ _

theorem key_newEntry (reg : SchemaRegistry) (subj schema : String)
    (ty : SchemaType) (refs : List SchemaReference) :
    (reg.newEntry subj schema ty refs).key = (ty, trimmed schema) := by
  rw [SchemaEntry.key, newEntry]

theorem IdsAgree.addVersion (h : registry.IdsAgree)
    (hroom : (registry.addVersion subject schema schemaType references).1.Room) :
    (registry.addVersion subject schema schemaType references).1.IdsAgree := by
  have hnum : Numbered
      (registry.addVersion subject schema schemaType references).1.nextGlobalId
      (registry.addVersion subject schema schemaType references).1.schemaFingerprints := by
    rw [Room, schemaFingerprints_addVersion] at hroom
    have hintern := h.numbered.intern (by norm_num) (schemaType, trimmed schema) hroom
    rw [schemaFingerprints_addVersion]
    exact hintern
  refine ⟨hnum, fun subj' e he => ?_, fun k id hk => ?_⟩
  · have hold : ∀ e ∈ registry.versions subj',
        (registry.addVersion subject schema schemaType references).1.schemaFingerprints.lookup
          e.key = some e.id ∧ trimmed e.schema = e.schema := by
      intro e he
      obtain ⟨hid, htext⟩ := h.stored subj' e he
      rw [schemaFingerprints_addVersion]
      exact ⟨lookup_intern_of_some 32 hid _, htext⟩
    rw [versions_addVersion] at he
    split at he
    · next hsubject =>
      subst hsubject
      rcases mem_append.mp he with he | he
      · exact hold e he
      · rw [mem_singleton.mp he, key_newEntry, lookup_addVersion]
        exact ⟨rfl, trimmed_trimmed schema⟩
    · exact hold e he
  · rw [getSchemaById_addVersion]
    split
    · next hid =>
      -- the id of the new entry is that of no other schema
      subst hid
      refine ⟨_, rfl, ?_⟩
      rw [key_newEntry]
      exact hnum.injective _ k _ (lookup_addVersion _ _ _ _ _) hk
    · next hid =>
      rw [schemaFingerprints_addVersion, lookup_intern] at hk
      split at hk
      · refine absurd (Option.some.inj hk).symm ?_
        rw [SchemaRegistry.addVersion] at hid
        exact hid
      · exact h.resolves k id hk

structure OnlyRemoves (registry registry' : SchemaRegistry) : Prop where
  next : registry'.nextGlobalId = registry.nextGlobalId
  fingerprints : registry'.schemaFingerprints = registry.schemaFingerprints
  schemas : registry'.globalSchemas = registry.globalSchemas
  versions : ∀ subject, (registry'.versions subject).Sublist (registry.versions subject)

theorem onlyRemoves_deleteVersion (reg : SchemaRegistry) (subj v : String) :
    reg.OnlyRemoves (reg.deleteVersion subj v).1 := by
  have htables : ∀ res, res = reg.deleteVersion subj v →
      res.1.nextGlobalId = reg.nextGlobalId ∧
      res.1.schemaFingerprints = reg.schemaFingerprints ∧
      res.1.globalSchemas = reg.globalSchemas := by
    rintro res rfl
    rw [deleteVersion]
    cases reg.findSubject subj with
    | error e => exact ⟨rfl, rfl, rfl⟩
    | ok found =>
      dsimp only
      cases targetVersion found v with
      | error e => exact ⟨rfl, rfl, rfl⟩
      | ok target =>
        dsimp only
        split
        · exact ⟨rfl, rfl, rfl⟩
        · exact ⟨rfl, rfl, rfl⟩
  obtain ⟨hnext, hfingerprints, hschemas⟩ := htables _ rfl
  exact ⟨hnext, hfingerprints, hschemas, sublist_deleteVersion reg subj v⟩

theorem onlyRemoves_deleteSubject (reg : SchemaRegistry) (subj : String) :
    reg.OnlyRemoves (reg.deleteSubject subj).1 := by
  refine ⟨?_, ?_, ?_, sublist_deleteSubject reg subj⟩
  all_goals
    rw [deleteSubject]
    cases reg.findSubject subj with
    | error e => rfl
    | ok found => rfl

theorem onlyRemoves_setConfig (reg : SchemaRegistry) (subj : Option String)
    (level : CompatibilityLevel) : reg.OnlyRemoves (reg.setConfig subj level) := by
  refine ⟨?_, ?_, ?_, fun subj' => by rw [versions_setConfig]⟩
  all_goals
    cases subj with
    | none => rfl
    | some subj => rfl

theorem IdsAgree.removes {reg' : SchemaRegistry} (h : registry.IdsAgree)
    (hrem : registry.OnlyRemoves reg') : reg'.IdsAgree := by
  refine ⟨?_, fun subject e he => ?_, fun k id hk => ?_⟩
  · rw [hrem.next, hrem.fingerprints]
    exact h.numbered
  · rw [hrem.fingerprints]
    exact h.stored subject e ((hrem.versions subject).subset he)
  · rw [hrem.fingerprints] at hk
    rw [getSchemaById, hrem.schemas]
    exact h.resolves k id hk

end SchemaRegistry

namespace RegistryHistory

open SchemaRegistry

variable {json : SerdeJson} {history : RegistryHistory}

structure AnswersAgree (history : RegistryHistory) : Prop where
  asked : ∀ k ∈ history.registry.schemaFingerprints, ∃ a ∈ history.answers, a.key = k
  agree : history.registry.Room → history.registry.IdsAgree
  answered : history.registry.Room → ∀ a ∈ history.answers,
    history.registry.schemaFingerprints.lookup a.key = some a.id

theorem answersAgree_new : new.AnswersAgree :=
  ⟨fun _ hk => absurd hk (AList.notMem_empty _), fun _ => idsAgree_new, fun _ => nofun⟩

theorem AnswersAgree.added (h : history.AnswersAgree) {subj schema : String}
    {ty : SchemaType} {refs : List SchemaReference}
    {registered : List SchemaEntry} :
    AnswersAgree ⟨(history.registry.addVersion subj schema ty refs).1, ⟨ty, trimmed schema,
        (history.registry.addVersion subj schema ty refs).2⟩ :: history.answers,
      registered⟩ := by
  refine ⟨fun k hk => ?_, fun hroom => (h.agree (room_of_addVersion hroom)).addVersion hroom,
    fun hroom a ha => ?_⟩
  · obtain ⟨id, hid⟩ := HashMap.mem_iff.mp hk
    rw [schemaFingerprints_addVersion, lookup_intern] at hid
    split at hid
    · next hkey => exact ⟨_, mem_cons_self, hkey.symm⟩
    · obtain ⟨a, ha, hkey⟩ := h.asked k (HashMap.mem_iff.mpr ⟨id, hid⟩)
      exact ⟨a, mem_cons_of_mem _ ha, hkey⟩
  · rcases mem_cons.mp ha with rfl | ha
    · exact lookup_addVersion _ _ _ _ _
    · show ((history.registry.addVersion subj schema ty refs).1
        |>.schemaFingerprints).lookup a.key = some a.id
      rw [schemaFingerprints_addVersion]
      exact lookup_intern_of_some 32 (h.answered (room_of_addVersion hroom) a ha) _

theorem AnswersAgree.found (h : history.AnswersAgree) {subj schema : String}
    {registered : List SchemaEntry} {e : SchemaEntry}
    (he : e ∈ history.registry.versions subj) (htext : trimmed e.schema = trimmed schema) :
    AnswersAgree ⟨history.registry, ⟨e.schemaType, trimmed schema, e.id⟩ :: history.answers,
      registered⟩ := by
  refine ⟨fun k hk => ?_, h.agree, fun hroom a ha => ?_⟩
  · obtain ⟨a, ha, hkey⟩ := h.asked k hk
    exact ⟨a, mem_cons_of_mem _ ha, hkey⟩
  · rcases mem_cons.mp ha with rfl | ha
    · obtain ⟨hid, hnormal⟩ := (h.agree hroom).stored subj e he
      rw [Registration.key, ← htext, hnormal]
      exact hid
    · exact h.answered hroom a ha

theorem AnswersAgree.removes (h : history.AnswersAgree) {reg' : SchemaRegistry}
    (hrem : history.registry.OnlyRemoves reg') :
    AnswersAgree { history with registry := reg' } := by
  have hroom : reg'.Room → history.registry.Room := by
    intro hroom
    rwa [Room, hrem.fingerprints] at hroom
  refine ⟨fun k hk => ?_, fun h' => (h.agree (hroom h')).removes hrem, fun h' a ha => ?_⟩
  · exact h.asked k (hrem.fingerprints ▸ hk)
  · show reg'.schemaFingerprints.lookup a.key = some a.id
    rw [hrem.fingerprints]
    exact h.answered (hroom h') a ha

theorem AnswersAgree.step (h : history.AnswersAgree) (act : RegistryAction) :
    (history.step json act).AnswersAgree := by
  cases act with
  | registerSchema subject schema schemaType references =>
    have hcases := registerSchema_cases json history.registry subject schema schemaType references
    show (history.registerSchema json subject schema schemaType references).AnswersAgree
    rw [registerSchema]
    rcases hcases with ⟨-, hans⟩ | ⟨-, hsame, hfound⟩
    · rw [hans]
      exact h.added
    · cases hres : (history.registry.registerSchema json subject schema schemaType
        references).2 with
      | error e =>
        rw [hsame]
        exact ⟨h.asked, h.agree, h.answered⟩
      | ok id =>
        obtain ⟨e, he, rfl, htype, htext⟩ := hfound id hres
        rw [hsame, ← htype]
        exact h.found he htext
  | deleteVersion subject v => exact h.removes (onlyRemoves_deleteVersion _ subject v)
  | deleteSubject subject => exact h.removes (onlyRemoves_deleteSubject _ subject)
  | setConfig subject level => exact h.removes (onlyRemoves_setConfig _ subject level)

theorem run_answersAgree {acts : List RegistryAction}
    (hrun : run (exec json) new acts = some history) : history.AnswersAgree := by
  refine run_invariant (fun history act history' h _ hexec => ?_) answersAgree_new
    (along_of_forall (P := fun _ => True) fun _ _ => trivial) hrun
  cases hexec
  exact h.step act

theorem AnswersAgree.room (h : history.AnswersAgree)
    (hdist : (history.answers.map (·.key)).dedup.length < 2 ^ 31 - 1) :
    history.registry.Room := by
  have hsubset : history.registry.schemaFingerprints.keys ⊆
      (history.answers.map (·.key)).dedup := by
    intro k hk
    obtain ⟨a, ha, rfl⟩ := h.asked k (AList.mem_keys.mpr hk)
    exact mem_dedup.mpr (mem_map_of_mem ha)
  have hle := (history.registry.schemaFingerprints.keys_nodup.subperm hsubset).length_le
  rw [Room]
  omega

theorem ids_name_schemas (json : SerdeJson) (actions : List RegistryAction)
    (history : RegistryHistory) (hrun : run (exec json) new actions = some history)
    (hdistinct : (history.answers.map fun a => (a.schemaType, a.text)).dedup.length < 2 ^ 31 - 1) :
    (∀ a ∈ history.answers, ∀ b ∈ history.answers,
      a.id = b.id ↔ a.schemaType = b.schemaType ∧ a.text = b.text) ∧
    (∀ a ∈ history.answers, ∃ e, history.registry.getSchemaById a.id = some e ∧
      e.schemaType = a.schemaType ∧ e.schema = a.text) ∧
    ∀ subject, ∀ stored ∈ history.registry.versions subject,
      ∃ e, history.registry.getSchemaById stored.id = some e ∧
        e.schemaType = stored.schemaType ∧ e.schema = trimmed stored.schema := by
  have h := run_answersAgree hrun
  have hroom := h.room hdistinct
  have hids := h.agree hroom
  refine ⟨fun a ha b hb => ?_, fun a ha => ?_, fun subject stored hstored => ?_⟩
  · have hida := h.answered hroom a ha
    have hidb := h.answered hroom b hb
    rw [← Prod.mk.injEq]
    constructor
    · intro hsame
      exact hids.numbered.injective _ _ b.id (hsame ▸ hida) hidb
    · intro hkey
      rw [Registration.key, hkey] at hida
      exact Option.some.inj (hida.symm.trans hidb)
  · obtain ⟨e, he, hkey⟩ := hids.resolves _ a.id (h.answered hroom a ha)
    exact ⟨e, he, Prod.mk.inj hkey⟩
  · obtain ⟨hid, hnormal⟩ := hids.stored subject stored hstored
    obtain ⟨e, he, hkey⟩ := hids.resolves _ stored.id hid
    rw [hnormal]
    exact ⟨e, he, Prod.mk.inj hkey⟩

def sameTextTwice : List RegistryAction :=
  [.registerSchema "s" "message A" (some .protobuf) [], .deleteSubject "s",
    .registerSchema "t" "message B" (some .protobuf) [],
    .registerSchema "u" " message A " (some .protobuf) []]

theorem ids_name_schemas_twice : ∃ history, run (exec plainJson) new sameTextTwice = some history ∧
      history.answers.map (·.id) = [1, 2, 1] ∧
      ∀ a ∈ history.answers, ∃ e, history.registry.getSchemaById a.id = some e ∧
        e.schemaType = a.schemaType ∧ e.schema = a.text := by
  have hstate : (run (exec plainJson) new sameTextTwice).map (fun history =>
      (history.answers.map (·.id),
        (history.answers.map fun a => (a.schemaType, a.text)).dedup.length)) =
      some ([1, 2, 1], 2) := by decide +kernel
  obtain ⟨history, hrun, hvalues⟩ := Option.map_eq_some_iff.mp hstate
  obtain ⟨hids, hcnt⟩ := Prod.mk.inj hvalues
  have hdist : (history.answers.map fun a => (a.schemaType, a.text)).dedup.length <
      2 ^ 31 - 1 := by
    rw [hcnt]
    norm_num
  exact ⟨history, hrun, hids, (ids_name_schemas plainJson sameTextTwice history hrun hdist).2.1⟩

end RegistryHistory

end OxideMq.Broker
