import OxideMq.Broker.Acl

/-! What the bindings decide and what the filters select. -/

namespace OxideMq.Broker

open Lib OxideMq.Protocol

def AclBinding.applies (b : AclBinding) (principal host : String)
    (t : AclResourceType) (n : String) (op : AclOperation) : Bool :=
  b.covers t n && b.concerns (normalizePrincipal principal) host op

inductive AclCall where
  | create (creations : List AclCreation)
  | delete (filters : List AclFilter)

namespace AclAuthorizer

variable {acl acl' : AclAuthorizer} {b : AclBinding}
variable (principal host : String) (t : AclResourceType) (n : String)
  (op : AclOperation)

def exec (acl : AclAuthorizer) : AclCall → AclAuthorizer
  | .create creations => (acl.createAcls creations).1
  | .delete filters => (acl.deleteAcls filters).1

def after (acl : AclAuthorizer) (calls : List AclCall) : AclAuthorizer := calls.foldl exec acl

def IsSuperUser (acl : AclAuthorizer) : Prop :=
  normalizePrincipal principal ∈ acl.superUsers ∨ principal ∈ acl.superUsers

def Permits (acl : AclAuthorizer) : Prop :=
  acl.IsSuperUser principal ∨
    ((∀ b ∈ acl.bindings, b.covers t n = false) ∧
      acl.allowEveryoneIfNoAclFound = true) ∨
    (∃ b ∈ acl.bindings, b.applies principal host t n op = true ∧
      b.permissionType = .allow) ∧
    ∀ b ∈ acl.bindings, b.applies principal host t n op = true →
      b.permissionType ≠ .deny

theorem matchedAllows_iff (applies : AclBinding → Bool) (allows : Bool) (binds : List AclBinding) :
    matchedAllows applies allows binds = true ↔
      (allows = true ∨ ∃ b ∈ binds, applies b = true ∧ b.permissionType = .allow) ∧
        ∀ b ∈ binds, applies b = true → b.permissionType ≠ .deny := by
  induction binds generalizing allows with
  | nil => simp [matchedAllows]
  | cons b binds ih =>
    rw [matchedAllows]
    cases happ : applies b with
    | false => simp [happ, ih]
    | true =>
      by_cases hdeny : b.permissionType = .deny
      · simp [happ, hdeny]
      · simp [happ, hdeny, ih, or_assoc]

theorem authorize_iff (hen : acl.enabled = true) : acl.authorize principal host t n op = true ↔
      acl.Permits principal host t n op := by
  rw [authorize, Permits, IsSuperUser]
  by_cases hsuper : normalizePrincipal principal ∈ acl.superUsers ∨ principal ∈ acl.superUsers
  · simp [hen, hsuper]
  · by_cases hnone : ∀ b ∈ acl.bindings, b.covers t n = false
    · have hfree : ¬∃ b ∈ acl.bindings, b.applies principal host t n op = true ∧
            b.permissionType = .allow := by
        rintro ⟨b, hb, happlies, -⟩
        simp [AclBinding.applies, hnone b hb] at happlies
      simp [hen, hsuper, eq_true hnone, hfree]
    · simp [hen, hsuper, hnone, matchedAllows_iff, AclBinding.applies]

theorem authorize_congr (hen : acl'.enabled = acl.enabled)
    (hsuper : acl'.IsSuperUser principal ↔ acl.IsSuperUser principal)
    (hdefault : acl'.allowEveryoneIfNoAclFound = acl.allowEveryoneIfNoAclFound)
    (hbindings : ∀ b, b ∈ acl'.bindings ↔ b ∈ acl.bindings) :
    acl'.authorize principal host t n op = acl.authorize principal host t n op := by
  cases hacl : acl.enabled with
  | false => simp [authorize, hen, hacl]
  | true =>
    rw [Bool.eq_iff_iff, authorize_iff _ _ _ _ _ hacl, authorize_iff _ _ _ _ _ (hen.trans hacl)]
    simp only [Permits, hsuper, hdefault, hbindings]

theorem mem_createAcl (bindings : List AclBinding) (c : AclCreation) :
    b ∈ (createAcl bindings c).1 ↔ b ∈ bindings ∨ b ∈ (createAcl [] c).1 := by
  unfold createAcl
  dsimp only
  split
  · simp
  · generalize AclBinding.mk _ _ _ _ _ _ _ = binding
    by_cases hmem : binding ∈ bindings
    · have hold : b = binding → b ∈ bindings := by
        rintro rfl
        exact hmem
      simpa [hmem] using hold
    · simp [hmem]

theorem createAcls_spec (acl : AclAuthorizer) (creations : List AclCreation) :
    ∃ binds, (acl.createAcls creations).1 = { acl with bindings := binds } ∧
      ∀ b, b ∈ binds ↔ b ∈ acl.bindings ∨ ∃ c ∈ creations, b ∈ (createAcl [] c).1 := by
  induction creations generalizing acl with
  | nil => exact ⟨acl.bindings, rfl, by simp⟩
  | cons c creations ih =>
    obtain ⟨binds, heq, hmem⟩ := ih { acl with bindings := (createAcl acl.bindings c).1 }
    refine ⟨binds, heq, fun b => ?_⟩
    rw [hmem, mem_createAcl]
    simp [or_assoc]

theorem after_create_spec (acl : AclAuthorizer) (calls : List (List AclCreation)) :
    ∃ binds, acl.after (calls.map .create) = { acl with bindings := binds } ∧
      ∀ b, b ∈ binds ↔ b ∈ acl.bindings ∨ ∃ c ∈ calls.flatten, b ∈ (createAcl [] c).1 := by
  induction calls generalizing acl with
  | nil => exact ⟨acl.bindings, rfl, by simp⟩
  | cons creations calls ih =>
    obtain ⟨created, hcr, hmem⟩ := createAcls_spec acl creations
    obtain ⟨binds, heq, hmem'⟩ := ih { acl with bindings := created }
    refine ⟨binds, ?_, fun b => ?_⟩
    · rw [← heq, ← hcr]
      rfl
    · rw [hmem', hmem, List.flatten_cons]
      simp [or_assoc, or_and_right, exists_or]

theorem authorize_created_iff (superUsers : List String) (allowEveryone : Bool)
    (calls : List (List AclCreation)) :
    let acl := (new true superUsers allowEveryone).after (calls.map .create)
    acl.superUsers = superUsers.map normalizePrincipal ∧
    acl.allowEveryoneIfNoAclFound = allowEveryone ∧
    (∀ b, b ∈ acl.bindings ↔ ∃ c ∈ calls.flatten, b ∈ (createAcl [] c).1) ∧
    (∀ principal host t n op, acl.authorize principal host t n op = true ↔
        acl.Permits principal host t n op) ∧
    ∀ calls' : List (List AclCreation), calls'.flatten.Perm calls.flatten →
      ∀ principal host t n op,
        ((new true superUsers allowEveryone).after (calls'.map .create)).authorize principal host
          t n op =
        acl.authorize principal host t n op := by
  obtain ⟨bindings, heq, hmem⟩ := after_create_spec (new true superUsers allowEveryone) calls
  refine heq ▸ ⟨rfl, rfl, fun b => by simpa [new] using hmem b,
    fun principal host t n op => authorize_iff _ _ _ _ _ rfl, ?_⟩
  intro calls' hperm principal host t n op
  obtain ⟨binds', heq', hmem'⟩ := after_create_spec (new true superUsers allowEveryone) calls'
  rw [heq']
  refine authorize_congr _ _ _ _ _ rfl Iff.rfl rfl fun b => ?_
  rw [hmem', hmem]
  simp only [hperm.mem_iff]

def listed (resources : List DescribeAclsResource) : List DeleteAclsMatchingAcl :=
  resources.flatMap fun r => r.acls.map fun d =>
    ⟨.none, none, r.resourceType, r.resourceName, r.resourcePatternType, d.principal, d.host,
      d.operation, d.permissionType⟩

def FilterMeans (patternFilter : ℤ) (n : String) (b : AclBinding) : Prop :=
  match patternFilter with
  | 2 => b.covers b.resourceType n = true
  | 3 => b.patternType = .literal ∧ b.resourceName = n
  | 4 => b.patternType = .prefixed ∧ b.resourceName = n
  | _ => True

def Misread (patternFilter : ℤ) (n : String) (b : AclBinding) : Prop :=
  match patternFilter with
  | 2 =>
      if b.patternType = .prefixed then b.resourceName = "*" ∧ startsWith n "*" = false
      else startsWith n b.resourceName = true ∧ b.resourceName ≠ n ∧ b.resourceName ≠ "*"
  | 3 => b.patternType ≠ .literal ∧ b.resourceName = n
  | 4 => startsWith n b.resourceName = true ∧ (b.patternType ≠ .prefixed ∨ b.resourceName ≠ n)
  | _ => False

theorem selects_some (filter : AclFilter) (n : String) :
    selects { filter with resourceNameFilter := some n } b = true ↔
      selects { filter with resourceNameFilter := none } b = true ∧
        (if filter.resourcePatternTypeFilter = 1 ∨ filter.resourcePatternTypeFilter = 2 then
          b.resourceName = n ∨ startsWith n b.resourceName = true ∨ b.resourceName = "*"
        else if filter.resourcePatternTypeFilter = 4 then startsWith n b.resourceName = true
        else b.resourceName = n) := by
  simp only [selects]
  split_ifs <;> simp only [Bool.and_eq_true, Bool.or_eq_true, beq_iff_eq] <;> tauto

theorem delete_removes_meant_iff (acl : AclAuthorizer) (filter : AclFilter) (n : String) :
    (∀ b ∈ acl.bindings,
      b ∉ (acl.deleteAcls [{ filter with resourceNameFilter := some n }]).1.bindings →
        FilterMeans filter.resourcePatternTypeFilter n b) ↔
      ∀ b ∈ acl.bindings, selects { filter with resourceNameFilter := none } b = true →
        ¬Misread filter.resourcePatternTypeFilter n b := by
  refine forall₂_congr fun b hb => ?_
  have hremoved : b ∉ (acl.deleteAcls [{ filter with resourceNameFilter := some n }]).1.bindings ↔
      selects { filter with resourceNameFilter := some n } b = true := by
    simp [deleteAcls, hb]
  rw [hremoved, selects_some, and_imp]
  refine imp_congr_right fun _ => ?_
  generalize filter.resourcePatternTypeFilter = patternFilter
  have hself : b.resourceName = n → startsWith n b.resourceName = true := by
    rintro rfl
    simp [startsWith]
  unfold FilterMeans Misread
  split
  · rename_i hkind
    rcases hkind with rfl | rfl
    · simp
    · rw [AclBinding.covers]
      cases b.patternType <;> simp <;> grind
  · split
    · rename_i hkind
      subst hkind
      simp only [not_and, not_or, not_not, ne_eq]
    · by_cases hkind : patternFilter = 3
      · subst hkind
        show (b.resourceName = n → b.patternType = .literal ∧ b.resourceName = n) ↔
          ¬(b.patternType ≠ .literal ∧ b.resourceName = n)
        tauto
      · split <;> simp_all

def allButFoo : AclAuthorizer :=
  (new true [] false).after
    [.create [⟨2, "fo", 4, "alice", "*", 3, 3⟩, ⟨2, "foo", 3, "alice", "*", 3, 2⟩]]

theorem filters_remove_other_patterns :
    (allButFoo.deleteAcls [⟨2, some "foobar", 2, none, none, 1, 2⟩]).1.bindings =
      [⟨.topic, "fo", .prefixed, "User:alice", "*", .read, .allow⟩] ∧
    AclBinding.covers ⟨.topic, "foo", .literal, "User:alice", "*", .read, .deny⟩ .topic "foobar" =
      false ∧
    allButFoo.authorize "alice" "*" .topic "foo" .read = false ∧
    (allButFoo.deleteAcls [⟨2, some "foobar", 2, none, none, 1, 2⟩]).1.authorize "alice" "*" .topic
      "foo" .read = true ∧
    (allButFoo.deleteAcls [⟨2, some "fo", 3, none, none, 1, 1⟩]).1.bindings =
      [⟨.topic, "foo", .literal, "User:alice", "*", .read, .deny⟩] := by
  decide +kernel

end AclAuthorizer

end OxideMq.Broker
