import OxideMq.Broker.SchemaRegistry

/-! The versions of a subject. -/

namespace OxideMq.Broker

open Lib List

namespace SchemaRegistry

inductive VersionsStep (registry registry' : SchemaRegistry) (json : SerdeJson) :
    RegistryAction → Prop
  | added (subject schema : String) (schemaType : Option SchemaType)
      (references : List SchemaReference)
      (hadds : registry.Adds json subject schema (schemaType.getD .avro))
      (hversions : ∀ subject', registry'.versions subject' = if subject' = subject then
        registry.versions subject ++
          [registry.newEntry subject schema (schemaType.getD .avro) references]
        else registry.versions subject') :
      VersionsStep registry registry' json
        (.registerSchema subject schema schemaType references)
  | found (subject schema : String) (schemaType : Option SchemaType)
      (references : List SchemaReference)
      (hadds : ¬registry.Adds json subject schema (schemaType.getD .avro))
      (hversions : ∀ subject', registry'.versions subject' = registry.versions subject') :
      VersionsStep registry registry' json
        (.registerSchema subject schema schemaType references)
  | removed (action : RegistryAction)
      (hregister : ∀ subject schema schemaType references,
        action ≠ .registerSchema subject schema schemaType references)
      (hversions : ∀ subject', (registry'.versions subject').Sublist (registry.versions subject')) :
      VersionsStep registry registry' json action

theorem sublist_setVersions {reg : SchemaRegistry} {subj : String}
    {found kept : List SchemaEntry} (h : reg.findSubject subj = .ok found)
    (hkept : kept.Sublist found) (subj' : String) :
    ((reg.setVersions subj kept).versions subj').Sublist (reg.versions subj') := by
  rw [versions_setVersions h]
  split
  · next hsubject =>
    subst hsubject
    rw [← (findSubject_eq_ok h).1]
    exact hkept
  · exact List.Sublist.refl _

theorem sublist_deleteVersion (reg : SchemaRegistry) (subj v subj' : String) :
    ((reg.deleteVersion subj v).1.versions subj').Sublist (reg.versions subj') := by
  rw [deleteVersion]
  cases hfound : reg.findSubject subj with
  | error e => exact List.Sublist.refl _
  | ok found =>
    dsimp only
    cases targetVersion found v with
    | error e => exact List.Sublist.refl _
    | ok target =>
      dsimp only
      split
      · exact sublist_setVersions hfound eraseP_sublist subj'
      · exact List.Sublist.refl _

theorem sublist_deleteSubject (reg : SchemaRegistry) (subj subj' : String) :
    ((reg.deleteSubject subj).1.versions subj').Sublist (reg.versions subj') := by
  rw [deleteSubject]
  cases hfound : reg.findSubject subj with
  | error e => exact List.Sublist.refl _
  | ok found => exact sublist_setVersions hfound (nil_sublist _) subj'

def Gapless (registry : SchemaRegistry) (subject : String) : Prop :=
  (∀ e ∈ registry.versions subject, e.version ≤ (registry.versions subject).length) ∧
    (registry.versions subject).length + 1 < 2 ^ 31

instance (registry : SchemaRegistry) (subject : String) : Decidable (registry.Gapless subject) :=
  inferInstanceAs (Decidable (_ ∧ _))

end SchemaRegistry

namespace RegistryHistory

open SchemaRegistry

variable {json : SerdeJson} {history history' : RegistryHistory} {action : RegistryAction}
variable {subject : String} {schemaType : Option SchemaType} {references : List SchemaReference}

theorem registry_step_register (json : SerdeJson) (history : RegistryHistory)
    (subj schema : String) (ty : Option SchemaType)
    (refs : List SchemaReference) :
    (history.step json (.registerSchema subj schema ty refs)).registry =
      (history.registry.registerSchema json subj schema ty refs).1 := by
  rw [step, registerSchema]

theorem registered_step_register (json : SerdeJson) (history : RegistryHistory)
    (subj schema : String) (ty : Option SchemaType)
    (refs : List SchemaReference) :
    (history.step json (.registerSchema subj schema ty refs)).registered =
      ((history.step json (.registerSchema subj schema ty refs)).registry.versions
        subj).drop (history.registry.versions subj).length ++ history.registered := by
  rw [step, registerSchema]

theorem versionsStep (json : SerdeJson) (history : RegistryHistory) (action : RegistryAction) :
    VersionsStep history.registry (history.step json action).registry json action := by
  cases action with
  | registerSchema subject schema schemaType references =>
    rcases registerSchema_cases json history.registry subject schema schemaType references with
      ⟨hadds, hanswer⟩ | ⟨hadds, hsame, -⟩
    · refine .added subject schema schemaType references hadds fun subject' => ?_
      rw [registry_step_register, hanswer]
      exact versions_addVersion _ _ _ _ _ _
    · refine .found subject schema schemaType references hadds fun subject' => ?_
      rw [registry_step_register, hsame]
  | deleteVersion subject version =>
    exact .removed _ nofun (sublist_deleteVersion _ subject version)
  | deleteSubject subject => exact .removed _ nofun (sublist_deleteSubject _ subject)
  | setConfig subject level =>
    refine .removed _ nofun fun subject' => ?_
    show ((history.registry.setConfig subject level).versions subject').Sublist _
    rw [versions_setConfig]

def VersionsIdentify (history : RegistryHistory) : Prop :=
  ∀ subject,
    ((history.registry.versions subject).map (·.version)).Pairwise (· < ·) ∧
    ∀ numbers, history.registry.listVersions subject = .ok numbers → ∀ v ∈ numbers, ∃ entry,
      history.registry.getSchemaBySubjectVersion subject (String.ofList (renderI32 v)) =
        .ok entry ∧
      history.registered.find? (fun e => e.subject = subject ∧ e.version = v) = some entry

def NoGapBelow (json : SerdeJson) (history : RegistryHistory) : RegistryAction → Prop
  | .registerSchema subject schema schemaType _ =>
      history.registry.Adds json subject schema (schemaType.getD .avro) →
        history.registry.Gapless subject
  | _ => True

def Numbers (history : RegistryHistory) : Prop :=
  ∀ subject, ∀ e ∈ history.registry.versions subject,
    e.subject = subject ∧ 1 ≤ e.version ∧ FitsSigned 32 e.version

def Ordered (history : RegistryHistory) : Prop :=
  ∀ subject, (history.registry.versions subject).Pairwise (·.version < ·.version) ∧
    ∀ e ∈ history.registry.versions subject,
      history.registered.find? (fun e' => e'.subject = subject ∧ e'.version = e.version) = some e

theorem toLower_of_isDigit {c : Char} (hdigit : c.isDigit = true) : c.toLower = c := by
  have hle : c.val ≤ 57 := by
    rw [Char.isDigit, Bool.and_eq_true] at hdigit
    exact of_decide_eq_true hdigit.2
  rw [Char.toLower, dif_neg]
  intro hhi
  exact absurd (UInt32.le_trans hhi.1 hle) (by decide)

theorem isLatest_renderI32 {v : ℤ} (hv : 0 ≤ v) : isLatest (String.ofList (renderI32 v)) = false := by
  have hdigits : renderI32 v = Nat.toDigits 10 v.natAbs := if_neg (not_lt.mpr hv)
  obtain ⟨c, cs, hcons, -, -⟩ := toDigits_eq_cons v.natAbs
  have hdigit : c.isDigit = true :=
    isDigit_of_mem_toDigits (by rw [hcons]; exact mem_cons_self)
  have hlo : c.toLower ≠ 'l' := by
    rw [toLower_of_isDigit hdigit]
    rintro rfl
    exact absurd hdigit (by decide)
  rw [isLatest, String.toList_ofList, hdigits, hcons, map_cons]
  refine decide_eq_false fun heq => hlo (cons.inj heq).1

theorem find?_version {versions : List SchemaEntry}
    (hord : versions.Pairwise (·.version < ·.version)) {e : SchemaEntry} (he : e ∈ versions) :
    versions.find? (·.version = e.version) = some e := by
  induction versions with
  | nil => exact absurd he not_mem_nil
  | cons first versions ih =>
    obtain ⟨hfirst, hrest⟩ := pairwise_cons.mp hord
    rcases mem_cons.mp he with rfl | he
    · exact find?_cons_of_pos (decide_eq_true rfl)
    · have hne : first.version ≠ e.version := (hfirst e he).ne
      rw [find?_cons_of_neg (by simpa using hne)]
      exact ih hrest he

theorem getSchema_of_mem (hnums : history.Numbers)
    (hord : (history.registry.versions subject).Pairwise (·.version < ·.version))
    {e : SchemaEntry} (he : e ∈ history.registry.versions subject) :
    history.registry.getSchemaBySubjectVersion subject (String.ofList (renderI32 e.version)) =
      .ok e := by
  obtain ⟨-, hpos, hfits⟩ := hnums subject e he
  have hfound : history.registry.findSubject subject = .ok (history.registry.versions subject) := by
    rw [findSubject, if_neg]
    rw [List.isEmpty_iff]
    exact ne_nil_of_mem he
  rw [getSchemaBySubjectVersion, hfound]
  dsimp only
  rw [isLatest_renderI32 (by omega), if_neg Bool.false_ne_true, String.toList_ofList,
    parseI32_renderI32 hfits, Option.bind_some, find?_version hord he]

theorem versionsIdentify_iff (hnums : history.Numbers) :
    history.VersionsIdentify ↔ history.Ordered := by
  refine forall_congr' fun subject => ?_
  rw [pairwise_map]
  refine and_congr_right fun hord => ⟨fun hidentify e he => ?_, fun hlast => ?_⟩
  · have hlisted : history.registry.listVersions subject =
        .ok ((history.registry.versions subject).map (·.version)) := by
      rw [listVersions, findSubject, if_neg]
      rw [List.isEmpty_iff]
      exact ne_nil_of_mem he
    obtain ⟨entry, hentry, hreg⟩ := hidentify _ hlisted e.version (mem_map_of_mem he)
    rw [getSchema_of_mem hnums hord he] at hentry
    cases hentry
    exact hreg
  · intro numbers hlisted v hv
    rw [listVersions] at hlisted
    cases hfound : history.registry.findSubject subject with
    | error e =>
      rw [hfound] at hlisted
      cases hlisted
    | ok found =>
      rw [hfound] at hlisted
      rw [← Except.ok.inj hlisted, (findSubject_eq_ok hfound).1] at hv
      obtain ⟨e, he, rfl⟩ := mem_map.mp hv
      exact ⟨e, getSchema_of_mem hnums hord he, hlast e he⟩

theorem nextVersion_of_room {reg : SchemaRegistry}
    (h : (reg.versions subject).length + 1 < 2 ^ 31) :
    reg.nextVersion subject = (reg.versions subject).length + 1 := by
  have hlen : FitsSigned 32 ((reg.versions subject).length : ℤ) := ⟨by omega, by omega⟩
  rw [nextVersion, wrapSigned_of_fits (by norm_num) hlen,
    wrapSigned_of_fits (by norm_num) ⟨by omega, by omega⟩]

theorem length_le_of_ordered {versions : List SchemaEntry}
    (hord : versions.Pairwise (·.version < ·.version)) (hpos : ∀ e ∈ versions, 1 ≤ e.version)
    {bound : ℤ} (hbd : ∀ e ∈ versions, e.version ≤ bound) (hnonneg : 0 ≤ bound) :
    (versions.length : ℤ) ≤ bound := by
  induction versions using reverseRecOn generalizing bound with
  | nil => exact hnonneg
  | append_singleton versions last ih =>
    obtain ⟨hinit, -, hlast⟩ := pairwise_append.mp hord
    have hinitPositive : ∀ e ∈ versions, 1 ≤ e.version := fun e he =>
      hpos e (mem_append_left _ he)
    have hlastPositive := hpos last (mem_append_right _ mem_cons_self)
    have hbef : ∀ e ∈ versions, e.version ≤ last.version - 1 := by
      intro e he
      have hlt := hlast e he last mem_cons_self
      omega
    have hlen := ih hinit hinitPositive hbef (by omega)
    have hle := hbd last (mem_append_right _ mem_cons_self)
    rw [length_append, length_singleton, Nat.cast_add, Nat.cast_one]
    omega

theorem nextVersion_above_iff (hnums : history.Numbers)
    (hord : (history.registry.versions subject).Pairwise (·.version < ·.version)) :
    (∀ e ∈ history.registry.versions subject,
      e.version < history.registry.nextVersion subject) ↔ history.registry.Gapless subject := by
  have hpos : ∀ e ∈ history.registry.versions subject, 1 ≤ e.version :=
    fun e he => (hnums subject e he).2.1
  have hmax : ∀ e ∈ history.registry.versions subject, e.version ≤ 2 ^ 31 - 1 := by
    intro e he
    have hfits := (hnums subject e he).2.2.2
    norm_num at hfits ⊢
    omega
  have hlen := length_le_of_ordered hord hpos hmax (by norm_num)
  constructor
  · intro habove
    have hroom : (history.registry.versions subject).length + 1 < 2 ^ 31 := by
      by_contra hfull
      have hcnt : (history.registry.versions subject).length = 2 ^ 31 - 1 := by omega
      obtain ⟨e, he⟩ := exists_mem_of_length_pos (l := history.registry.versions subject) (by omega)
      have hnext : history.registry.nextVersion subject = -2 ^ 31 := by
        rw [nextVersion, hcnt]
        decide
      have hlt := habove e he
      have hone := hpos e he
      rw [hnext] at hlt
      norm_num at hlt
      omega
    refine ⟨fun e he => ?_, hroom⟩
    have hlt := habove e he
    rw [nextVersion_of_room hroom] at hlt
    omega
  · rintro ⟨hcnt, hroom⟩ e he
    rw [nextVersion_of_room hroom]
    have hle := hcnt e he
    omega

theorem registered_of_not_register (h : ∀ subject schema schemaType references,
      action ≠ .registerSchema subject schema schemaType references) :
    (history.step json action).registered = history.registered := by
  cases action with
  | registerSchema subject schema schemaType references => exact absurd rfl (h _ _ _ _)
  | deleteVersion => rfl
  | deleteSubject => rfl
  | setConfig => rfl

theorem registered_register {schema : String} {added : List SchemaEntry}
    (h : (history.step json (.registerSchema subject schema schemaType references)).registry.versions
      subject = history.registry.versions subject ++ added) :
    (history.step json (.registerSchema subject schema schemaType references)).registered =
      added ++ history.registered := by
  rw [registered_step_register, h, drop_left]

theorem numbers_step (hnums : history.Numbers) (action : RegistryAction)
    (hord : ∀ subject, ((history.step json action).registry.versions subject).Pairwise
      (·.version < ·.version)) : (history.step json action).Numbers := by
  intro subject' e he
  cases versionsStep json history action with
  | added subject schema schemaType references hadds hvers =>
    rw [hvers] at he
    split at he
    · next hsubject =>
      subst hsubject
      rcases mem_append.mp he with he | he
      · exact hnums subject' e he
      · obtain rfl := mem_singleton.mp he
        rw [newEntry_subject, newEntry_version]
        refine ⟨rfl, ?_, history.registry.nextVersion_fits subject'⟩
        -- the first number is 1 and the others are above the ones before
        cases hstored : history.registry.versions subject' with
        | nil =>
          rw [nextVersion, hstored]
          decide
        | cons first rest =>
          have hmem : first ∈ history.registry.versions subject' := by
            rw [hstored]
            exact mem_cons_self
          have hpw := hord subject'
          rw [hvers, if_pos rfl, pairwise_append] at hpw
          have hlt := hpw.2.2 first hmem _ mem_cons_self
          have hpos := (hnums subject' first hmem).2.1
          rw [newEntry_version] at hlt
          omega
    · exact hnums subject' e he
  | found subject schema schemaType references hadds hvers =>
    rw [hvers] at he
    exact hnums subject' e he
  | removed _ hregister hvers => exact hnums subject' e ((hvers subject').subset he)

theorem ordered_added_iff (hord : history.Ordered) {schema : String}
    (hvers : ∀ subj', (history.step json
        (.registerSchema subject schema schemaType references)).registry.versions subj' =
      if subj' = subject then history.registry.versions subject ++
        [history.registry.newEntry subject schema (schemaType.getD .avro) references]
      else history.registry.versions subj') :
    (history.step json (.registerSchema subject schema schemaType references)).Ordered ↔
      ∀ e ∈ history.registry.versions subject,
        e.version < history.registry.nextVersion subject := by
  have hreg := registered_register ((hvers subject).trans (if_pos rfl))
  constructor
  · intro hord' e he
    have hpw := (hord' subject).1
    rw [hvers, if_pos rfl, pairwise_append] at hpw
    have hlt := hpw.2.2 e he _ mem_cons_self
    rwa [newEntry_version] at hlt
  · intro habove subj'
    rw [hvers, hreg]
    obtain ⟨hpw, hlast⟩ := hord subj'
    split
    · next hsubject =>
      subst hsubject
      refine ⟨pairwise_append.mpr ⟨hpw, pairwise_singleton _ _, ?_⟩, ?_⟩
      · intro e he e' he'
        rw [mem_singleton.mp he', newEntry_version]
        exact habove e he
      · intro e he
        rcases mem_append.mp he with he | he
        · have hne : history.registry.nextVersion subj' ≠ e.version := (habove e he).ne'
          rw [singleton_append, find?_cons_of_neg]
          · exact hlast e he
          · simp [hne]
        · obtain rfl := mem_singleton.mp he
          rw [singleton_append, find?_cons_of_pos]
          simp
    · next hother =>
      refine ⟨hpw, fun e he => ?_⟩
      rw [singleton_append, find?_cons_of_neg]
      · exact hlast e he
      · simp [Ne.symm hother]

theorem ordered_step_iff (json : SerdeJson) (hnums : history.Numbers) (hord : history.Ordered)
    (action : RegistryAction) :
    (history.step json action).Ordered ↔ history.NoGapBelow json action := by
  cases versionsStep json history action with
  | added subject schema schemaType references hadds hvers =>
    rw [ordered_added_iff hord hvers, nextVersion_above_iff hnums (hord subject).1]
    exact ⟨fun h _ => h, fun h => h hadds⟩
  | found subject schema schemaType references hadds hvers =>
    refine iff_of_true (fun subject' => ?_) fun h => absurd h hadds
    have hreg := registered_register ((hvers subject).trans (append_nil _).symm)
    rw [hvers, hreg, nil_append]
    exact hord subject'
  | removed _ hregister hvers =>
    refine iff_of_true (fun subject' => ?_) ?_
    · rw [registered_of_not_register hregister]
      obtain ⟨hpw, hlast⟩ := hord subject'
      exact ⟨hpw.sublist (hvers subject'), fun e he => hlast e ((hvers subject').subset he)⟩
    · cases action with
      | registerSchema => exact absurd rfl (hregister _ _ _ _)
      | deleteVersion => trivial
      | deleteSubject => trivial
      | setConfig => trivial

theorem versions_identify_iff (json : SerdeJson) (actions : List RegistryAction)
    (final : RegistryHistory) (hrun : run (exec json) new actions = some final) :
    (∀ front, front <+: actions → ∀ history, run (exec json) new front = some history →
      history.VersionsIdentify) ↔ Along (exec json) (NoGapBelow json) new actions := by
  have hsort : ∀ {history : RegistryHistory}, history.VersionsIdentify → ∀ subject,
      (history.registry.versions subject).Pairwise (·.version < ·.version) :=
    fun hidentify subject => List.pairwise_map.mp (hidentify subject).1
  have hnums : ∀ history action history', Numbers history →
      exec json history action = some history' → VersionsIdentify history' →
      Numbers history' := by
    rintro history action _ h ⟨⟩ hidentify
    exact numbers_step h action (hsort hidentify)
  have hnone : new.Numbers := fun _ _ he => absurd he List.not_mem_nil
  refine reached_iff_along hnums ?_ hnone ?_ hrun
  · rintro history action _ h hidentify ⟨⟩
    have hstep := ordered_step_iff json h ((versionsIdentify_iff h).mp hidentify) action
    constructor
    · intro hidentify'
      have h' := numbers_step h action (hsort hidentify')
      exact hstep.mp ((versionsIdentify_iff h').mp hidentify')
    · intro hcond
      have hord' := hstep.mpr hcond
      have h' := numbers_step h action fun subject => (hord' subject).1
      exact (versionsIdentify_iff h').mpr hord'
  · exact (versionsIdentify_iff hnone).mpr fun _ =>
      ⟨List.Pairwise.nil, fun _ he => absurd he List.not_mem_nil⟩

def plainJson : SerdeJson := ⟨String, inferInstance, .ok, fun _ => none, id⟩

def registerAndDelete (version : String) : List RegistryAction :=
  [.registerSchema "s" "message A" (some .protobuf) [],
    .registerSchema "s" "message B" (some .protobuf) [], .deleteVersion "s" version,
    .registerSchema "s" "message C" (some .protobuf) []]

theorem version_number_repeated :
    ∃ history, run (exec plainJson) new (registerAndDelete "1") = some history ∧
      history.registry.listVersions "s" = .ok [2, 2] ∧
      (history.registry.getSchemaBySubjectVersion "s" "2").map (·.schema) = .ok "message B" ∧
      (history.registered.head?.map (·.schema)) = some "message C" ∧
      ¬history.VersionsIdentify := by
  have hstate : (run (exec plainJson) new (registerAndDelete "1")).map (fun history =>
      (history.registry.listVersions "s",
        (history.registry.getSchemaBySubjectVersion "s" "2").map (·.schema),
        history.registered.head?.map (·.schema),
        (history.registry.versions "s").map (·.version))) =
      some (.ok [2, 2], .ok "message B", some "message C", [2, 2]) := by decide +kernel
  obtain ⟨history, hrun, hvalues⟩ := Option.map_eq_some_iff.mp hstate
  obtain ⟨hlisted, hrest⟩ := Prod.mk.inj hvalues
  obtain ⟨hget, hrest⟩ := Prod.mk.inj hrest
  obtain ⟨hlast, hnums⟩ := Prod.mk.inj hrest
  refine ⟨history, hrun, hlisted, hget, hlast, fun hidentify => ?_⟩
  have hord := (hidentify "s").1
  rw [hnums] at hord
  exact absurd hord (by decide)

theorem versions_identify_latest :
    ∃ history, run (exec plainJson) new (registerAndDelete "latest") = some history ∧
      history.registry.listVersions "s" = .ok [1, 2] ∧ history.VersionsIdentify := by
  have hstate : (run (exec plainJson) new (registerAndDelete "latest")).map (fun history =>
      history.registry.listVersions "s") = some (.ok [1, 2]) := by decide +kernel
  obtain ⟨history, hrun, hlisted⟩ := Option.map_eq_some_iff.mp hstate
  have halong : Along (exec plainJson) (fun history _ => history.registry.Gapless "s") new
      (registerAndDelete "latest") := by decide +kernel
  have hcond : Along (exec plainJson) (NoGapBelow plainJson) new (registerAndDelete "latest") := by
    refine (halong.and (along_of_forall (P := fun action => ∀ subject schema schemaType references,
      action = .registerSchema subject schema schemaType references → subject = "s") ?_)).imp ?_
    · rintro action haction subject schema schemaType references rfl
      simp only [registerAndDelete, List.mem_cons, RegistryAction.registerSchema.injEq, reduceCtorEq,
        List.not_mem_nil, or_false, false_or] at haction
      rcases haction with h | h | h
      · exact h.1
      · exact h.1
      · exact h.1
    · rintro history action ⟨hgapless, hsubject⟩
      cases action with
      | registerSchema subject schema schemaType references =>
        rw [hsubject subject schema schemaType references rfl]
        exact fun _ => hgapless
      | deleteVersion => trivial
      | deleteSubject => trivial
      | setConfig => trivial
  exact ⟨history, hrun, hlisted, (versions_identify_iff plainJson _ history hrun).mpr hcond _
    (List.prefix_refl _) history hrun⟩

end RegistryHistory

end OxideMq.Broker
