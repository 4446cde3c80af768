import OxideMq.Broker.AclDecisions
import OxideMq.Broker.Sasl

/-! The privileges of one user and the bindings of another. -/

namespace OxideMq.Broker

open Lib OxideMq.Protocol List

theorem colon_mem_normalizePrincipal (prin : String) : ':' ∈ (normalizePrincipal prin).toList := by
  rw [normalizePrincipal]
  split
  · rename_i hcolon
    exact contains_iff_mem.mp hcolon
  · simp

theorem normalizePrincipal_of_mem {principal : String} (h : ':' ∈ principal.toList) :
    normalizePrincipal principal = principal := by
  rw [normalizePrincipal, if_pos (contains_iff_mem.mpr h)]

theorem normalizePrincipal_eq_of_eq {u v : String} (h : normalizePrincipal v = u) :
    normalizePrincipal v = normalizePrincipal u := by
  subst h
  exact (normalizePrincipal_of_mem (colon_mem_normalizePrincipal v)).symm

theorem normalizePrincipal_ne_star (prin : String) : normalizePrincipal prin ≠ "*" := by
  intro h
  have hcolon := colon_mem_normalizePrincipal prin
  rw [h] at hcolon
  exact absurd hcolon (by decide)

namespace AclAuthorizer

variable {acl : AclAuthorizer} {b : AclBinding} {u v : String}
variable {t : AclResourceType} {n : String} {op : AclOperation}

def DeniedTo (acl : AclAuthorizer) (principal : String) (t : AclResourceType)
    (n : String) (op : AclOperation) : Prop :=
  ∃ b ∈ acl.bindings, b.applies principal "*" t n op = true ∧
    b.permissionType = .deny

def Covered (acl : AclAuthorizer) (t : AclResourceType) (n : String) : Prop :=
  ∃ b ∈ acl.bindings, b.covers t n = true

theorem createAcls_frame (acl : AclAuthorizer) (creations : List AclCreation) :
    ∃ binds, ∀ supers, ({ acl with superUsers := supers }.createAcls creations).1 =
      { acl with superUsers := supers, bindings := binds } := by
  induction creations generalizing acl with
  | nil => exact ⟨acl.bindings, fun _ => rfl⟩
  | cons c creations ih => exact ih { acl with bindings := (createAcl acl.bindings c).1 }

theorem deleteAcls_frame (acl : AclAuthorizer) (filters : List AclFilter) :
    ∃ binds, ∀ supers, ({ acl with superUsers := supers }.deleteAcls filters).1 =
      { acl with superUsers := supers, bindings := binds } := by
  induction filters generalizing acl with
  | nil => exact ⟨acl.bindings, fun _ => rfl⟩
  | cons filter filters ih =>
    exact ih { acl with bindings := acl.bindings.filter fun b => !selects filter b }

theorem after_frame (acl : AclAuthorizer) (calls : List AclCall) :
    ∃ binds, ∀ supers, { acl with superUsers := supers }.after calls =
      { acl with superUsers := supers, bindings := binds } := by
  induction calls generalizing acl with
  | nil => exact ⟨acl.bindings, fun _ => rfl⟩
  | cons call calls ih =>
    obtain ⟨binds, hexec⟩ : ∃ binds, ∀ supers, { acl with superUsers := supers }.exec call =
          { acl with superUsers := supers, bindings := binds } := by
      cases call with
      | create creations => exact createAcls_frame acl creations
      | delete filters => exact deleteAcls_frame acl filters
    obtain ⟨binds', hafter⟩ := ih { acl with bindings := binds }
    refine ⟨binds', fun supers => ?_⟩
    rw [after, foldl_cons, hexec]
    exact hafter supers

theorem exec_create_one (acl : AclAuthorizer) (c : AclCreation) :
    ∃ binds, acl.exec (.create [c]) = { acl with bindings := binds } ∧
      ∀ b, b ∈ binds ↔ b ∈ acl.bindings ∨ b ∈ (createAcl [] c).1 := by
  simpa only [exec, mem_singleton, exists_eq_left] using createAcls_spec acl [c]

theorem mem_createAcl_nil {c : AclCreation} (h : b ∈ (createAcl [] c).1) :
    b.principal = normalizePrincipal c.principal ∧ b.resourceType ≠ .unknown := by
  unfold createAcl at h
  dsimp only at h
  split at h
  · cases h
  · rename_i hknown
    obtain rfl := mem_singleton.mp h
    exact ⟨rfl, fun hunknown => hknown (Or.inl hunknown)⟩

theorem known_of_covers {c : AclCreation} (hmem : b ∈ (createAcl [] c).1)
    (hcovers : b.covers t n = true) : t ≠ .unknown := by
  have htype : b.resourceType = t :=
    beq_iff_eq.mp (Bool.and_eq_true_iff.mp hcovers).1
  exact htype ▸ (mem_createAcl_nil hmem).2

def bindingFor (v : String) (t : AclResourceType) (n : String)
    (perm : AclPermissionType) : AclBinding :=
  ⟨t, n, .literal, normalizePrincipal v, "*", .all, perm⟩

def creationFor (v : String) (t : AclResourceType) (n : String)
    (perm : AclPermissionType) : AclCreation :=
  ⟨t.toI8, n, 3, v, "*", 2, perm.toI8⟩

theorem createAcl_creationFor (perm : AclPermissionType)
    (hknown : t ≠ .unknown) (hpermission : perm ≠ .unknown) :
    (createAcl [] (creationFor v t n perm)).1 = [bindingFor v t n perm] := by
  cases t <;> cases perm <;> first | contradiction | rfl

def Names (v u : String) : Prop :=
  normalizePrincipal v = normalizePrincipal u ∨ normalizePrincipal v = "User:*"

theorem names_of_applies {c : AclCreation} (hmem : b ∈ (createAcl [] c).1)
    (happ : b.applies u "*" t n op = true) :
    Names c.principal u := by
  simp only [AclBinding.applies, AclBinding.concerns, Bool.and_eq_true, Bool.or_eq_true,
    beq_iff_eq, (mem_createAcl_nil hmem).1, normalizePrincipal_ne_star, or_false] at happ
  exact happ.2.1.1

theorem bindingFor_applies {perm : AclPermissionType} (h : Names v u) :
    (bindingFor v t n perm).applies u "*" t n op = true := by
  rcases h with h | h <;> simp [AclBinding.applies, AclBinding.covers, AclBinding.concerns,
    bindingFor, h]

section

variable (henabled : acl.enabled = true)
include henabled

theorem authorize_bindings_iff (binds : List AclBinding) :
    { acl with bindings := binds }.authorize u "*" t n op = true ↔
      { acl with bindings := binds }.Permits u "*" t n op :=
  authorize_iff _ _ _ _ _ henabled

theorem refused_of_denial (hsuper : ¬acl.IsSuperUser u) (hknown : t ≠ .unknown)
    (h : Names v u ∨ ¬acl.Covered t n) :
    (acl.exec (.create [creationFor v t n .deny])).authorize u "*" t n op = false := by
  obtain ⟨binds, heq, hmem⟩ := exec_create_one acl (creationFor v t n .deny)
  rw [createAcl_creationFor .deny hknown nofun] at hmem
  have hnew := (hmem _).mpr (Or.inr mem_cons_self)
  rw [heq, ← Bool.not_eq_true, authorize_bindings_iff henabled]
  rintro (hperm | ⟨hfree, -⟩ | ⟨⟨b, hb, happlies, hallow⟩, hdenied⟩)
  · exact hsuper hperm
  · have := hfree _ hnew
    simp [bindingFor, AclBinding.covers] at this
  · rcases h with hn | hfirst
    · exact hdenied _ hnew (bindingFor_applies hn) rfl
    · rcases (hmem b).mp hb with hold | hb
      · exact hfirst ⟨b, hold, (Bool.and_eq_true_iff.mp happlies).1⟩
      · obtain rfl := mem_singleton.mp hb
        cases hallow

theorem granted_of_allowance (hn : Names v u) (hknown : t ≠ .unknown)
    (hdenied : ¬acl.DeniedTo u t n op) :
    (acl.exec (.create [creationFor v t n .allow])).authorize u "*" t n op = true := by
  obtain ⟨binds, heq, hmem⟩ :=
    exec_create_one acl (creationFor v t n .allow)
  rw [createAcl_creationFor .allow hknown nofun] at hmem
  rw [heq, authorize_bindings_iff henabled]
  refine Or.inr (Or.inr ⟨⟨_, (hmem _).mpr (Or.inr mem_cons_self),
    bindingFor_applies hn, rfl⟩, fun b hb happ hdeny => ?_⟩)
  rcases (hmem b).mp hb with hold | hb
  · exact hdenied ⟨b, hold, happ, hdeny⟩
  · obtain rfl := mem_singleton.mp hb
    cases hdeny

theorem authorize_create_one (c : AclCreation) (hcovered : acl.allowEveryoneIfNoAclFound = true →
      ∀ t ≠ .unknown, ∀ n, acl.Covered t n)
    (hn : Names c.principal u → ∀ t ≠ .unknown, ∀ n op, acl.DeniedTo u t n op) :
    (acl.exec (.create [c])).authorize u "*" t n op = acl.authorize u "*" t n op := by
  obtain ⟨binds, heq, hmem⟩ := exec_create_one acl c
  rw [heq, Bool.eq_iff_iff, authorize_bindings_iff henabled, authorize_iff _ _ _ _ _ henabled]
  refine or_congr Iff.rfl (or_congr (and_congr_left fun hdefault => ?_) ?_)
  · constructor
    · exact fun hfree b hb => hfree b ((hmem b).mpr (Or.inl hb))
    · intro hfree b hb
      rcases (hmem b).mp hb with hold | hnew
      · exact hfree b hold
      · by_contra hcovers
        obtain ⟨b', hb', hcovers'⟩ := hcovered hdefault t
          (known_of_covers hnew (Bool.not_eq_false _ ▸ hcovers)) n
        rw [hfree b' hb'] at hcovers'
        cases hcovers'
  · by_cases hnew : ∃ b ∈ (createAcl [] c).1, b.applies u "*" t n op = true
    · -- the user is named, and refused before and after
      obtain ⟨b, hb, happ⟩ := hnew
      obtain ⟨b', hb', happ', hdeny⟩ := hn (names_of_applies hb happ) t
        (known_of_covers hb (Bool.and_eq_true_iff.mp happ).1) n op
      exact iff_of_false (fun h => h.2 b' ((hmem b').mpr (Or.inl hb')) happ' hdeny)
        fun h => h.2 b' hb' happ' hdeny
    · have hsame : ∀ b, b.applies u "*" t n op = true →
          (b ∈ binds ↔ b ∈ acl.bindings) := fun b happ =>
        (hmem b).trans (or_iff_left fun hb => hnew ⟨b, hb, happ⟩)
      refine and_congr (exists_congr fun b => ?_) (forall_congr' fun b => ?_)
      · exact and_congr_left fun h => hsame b h.1
      · exact ⟨fun h hb happ => h ((hsame b happ).mpr hb) happ,
          fun h hb happ => h ((hsame b happ).mp hb) happ⟩

end

theorem authorize_superUser (hn : normalizePrincipal u ≠ normalizePrincipal v)
    (supers : List String) :
    { acl with superUsers := normalizePrincipal v :: supers }.authorize u "*" t n op =
    { acl with superUsers := supers }.authorize u "*" t n op := by
  refine authorize_congr _ _ _ _ _ rfl ?_ rfl fun _ => Iff.rfl
  have hself : u ≠ normalizePrincipal v := fun h => hn (normalizePrincipal_eq_of_eq h.symm).symm
  simp [IsSuperUser, hn, hself]

theorem authorize_of_trusted (h : acl.enabled = false ∨ acl.IsSuperUser u) :
    acl.authorize u "*" t n op = true := by
  rcases h with h | h
  · simp [authorize, h]
  · cases hacl : acl.enabled with
    | false => simp [authorize, hacl]
    | true => exact (authorize_iff _ _ _ _ _ hacl).mpr (Or.inl h)

def Isolated (acl : AclAuthorizer) (u v : String) : Prop :=
  (∀ t n op,
    { acl with superUsers := normalizePrincipal v :: acl.superUsers }.authorize u "*" t
      n op = acl.authorize u "*" t n op) ∧
  ∀ c : AclCreation, c.principal = v → ∀ t n op,
    (acl.exec (.create [c])).authorize u "*" t n op =
      acl.authorize u "*" t n op

theorem isolated_of_trusted (h : acl.enabled = false ∨ acl.IsSuperUser u) (v : String) :
    acl.Isolated u v := by
  refine ⟨fun t n op => ?_, fun c _ t n op => ?_⟩
  · rw [authorize_of_trusted h]
    exact authorize_of_trusted (h.imp_right (Or.imp (mem_cons_of_mem _) (mem_cons_of_mem _)))
  · obtain ⟨binds, heq, -⟩ := exec_create_one acl c
    rw [authorize_of_trusted h, heq]
    exact authorize_of_trusted h

theorem isolated_iff : acl.Isolated u v ↔ acl.enabled = false ∨ acl.IsSuperUser u ∨
      normalizePrincipal u ≠ normalizePrincipal v ∧
      (acl.allowEveryoneIfNoAclFound = true → ∀ t ≠ .unknown, ∀ n, acl.Covered t n) ∧
      (normalizePrincipal v = "User:*" → ∀ t ≠ .unknown, ∀ n op, acl.DeniedTo u t n op) := by
  by_cases htrusted : acl.enabled = false ∨ acl.IsSuperUser u
  · exact iff_of_true (isolated_of_trusted htrusted v) (or_assoc.mp (Or.inl htrusted))
  rw [← or_assoc, or_iff_right htrusted]
  obtain ⟨henabled, hsuper⟩ := not_or.mp htrusted
  rw [Bool.not_eq_false] at henabled
  constructor
  · rintro ⟨hpromote, hcreate⟩
    have hdeny : ∀ t ≠ .unknown, ∀ n op, Names v u ∨ ¬acl.Covered t n →
          acl.authorize u "*" t n op = false := by
      intro t hknown n op h
      rw [← hcreate (creationFor v t n .deny) rfl]
      exact refused_of_denial henabled hsuper hknown h
    refine ⟨fun hsame => ?_, fun hdefault t hknown n => ?_, fun hstar t hknown n op => ?_⟩
    · have hall := hpromote .topic "t" .read
      rw [hdeny .topic nofun "t" .read (Or.inl (Or.inl hsame.symm)),
        authorize_of_trusted (Or.inr (Or.inl (mem_cons.mpr (Or.inl hsame))))] at hall
      cases hall
    · by_contra hfree
      have hall : acl.authorize u "*" t n .read = true :=
        (authorize_iff _ _ _ _ _ henabled).mpr (Or.inr (Or.inl ⟨fun b hb => by
          by_contra hcovers
          exact hfree ⟨b, hb, Bool.not_eq_false _ ▸ hcovers⟩, hdefault⟩))
      rw [hdeny t hknown n .read (Or.inr hfree)] at hall
      cases hall
    · by_contra hfree
      have hall := hcreate (creationFor v t n .allow) rfl t n op
      rw [granted_of_allowance henabled (Or.inr hstar) hknown hfree,
        hdeny t hknown n op (Or.inl (Or.inr hstar))] at hall
      cases hall
  · rintro ⟨hn, hcovered, hstar⟩
    refine ⟨fun t n op => authorize_superUser hn acl.superUsers,
      fun c hc t n op =>
        authorize_create_one henabled c hcovered fun h => ?_⟩
    rw [hc] at h
    exact hstar (h.resolve_left fun hsame => hn hsame.symm)

theorem users_isolated_iff (enabled : Bool) (superUsers : List String) (allowEveryone : Bool)
    (calls : List AclCall) (u v : String) :
    let acl := (new enabled superUsers allowEveryone).after calls
    let principal := (Sasl.ConnectionAuthState.authenticated u).principal.getD "ANONYMOUS"
    ((∀ t n op, ((new enabled (v :: superUsers) allowEveryone).after calls).authorize principal "*"
          t n op =
        acl.authorize principal "*" t n op) ∧
     ∀ c : AclCreation, c.principal = v → ∀ t n op,
      (acl.exec (.create [c])).authorize principal "*" t n op =
        acl.authorize principal "*" t n op) ↔
    enabled = false ∨ acl.IsSuperUser u ∨
      normalizePrincipal u ≠ normalizePrincipal v ∧
      (allowEveryone = true → ∀ t ≠ .unknown, ∀ n, acl.Covered t n) ∧
      (normalizePrincipal v = "User:*" → ∀ t ≠ .unknown, ∀ n op, acl.DeniedTo u t n op) := by
  obtain ⟨binds, hafter⟩ := after_frame (new enabled superUsers allowEveryone) calls
  have hacl : (new enabled superUsers allowEveryone).after calls = _ :=
    hafter (superUsers.map normalizePrincipal)
  have hacl' : (new enabled (v :: superUsers) allowEveryone).after calls = _ :=
    hafter (normalizePrincipal v :: superUsers.map normalizePrincipal)
  rw [hacl, hacl']
  exact @isolated_iff ⟨enabled, superUsers.map normalizePrincipal, allowEveryone, binds⟩ u v

def fourUsers : Sasl.SaslAuthenticator :=
  ⟨((((∅ : HashMap String String).insert "alice" "a").insert "bob" "b").insert "User:alice"
    "c").insert "*" "d", [.plain], true⟩

theorem other_users_change_decisions :
    fourUsers.authenticatePlain (textBytes "\x00alice\x00a") = .ok "alice" ∧
    fourUsers.getPassword "User:alice" = some "c" ∧ fourUsers.getPassword "*" = some "d" ∧
    fourUsers.getPassword "bob" = some "b" ∧
    (new true [] false).authorize "alice" "*" .topic "t" .write = false ∧
    (new true ["User:alice"] false).authorize "alice" "*" .topic "t" .write = true ∧
    ((new true [] false).exec (.create [creationFor "*" .topic "t" .allow])).authorize "alice" "*"
      .topic "t" .write = true ∧
    (new true [] true).authorize "alice" "*" .topic "t" .write = true ∧
    ((new true [] true).exec (.create [creationFor "bob" .topic "t" .allow])).authorize "alice" "*"
      .topic "t" .write = false := by
  decide +kernel

end AclAuthorizer

end OxideMq.Broker
