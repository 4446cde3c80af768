import OxideMq.Broker.GroupCoordinator
import OxideMq.Lib.Run

/-! Joins and rebalances of consumer groups. -/

namespace OxideMq.Broker

open Lib OxideMq.Protocol GroupCoordinator HashMap List Option AList

namespace ConsumerGroup

def join (memberId clientId protocolType : String) (group : ConsumerGroup) : ConsumerGroup :=
  { group with
    leaderId := if group.members.keys.isEmpty then some memberId else group.leaderId
    protocolType := if group.members.keys.isEmpty then protocolType else group.protocolType
    members := group.members.insert memberId ⟨memberId, clientId, "127.0.0.1", [], []⟩
    generationId := wrapSigned 32 (group.generationId + 1)
    state := .completingRebalance }

def setAssignment (assign : Bytes) (m : GroupMember) : GroupMember := { m with assignment := assign }

def assign (assignments : HashMap String Bytes) (group : ConsumerGroup) : ConsumerGroup :=
  if assignments.keys.isEmpty then group
  else { group with
    members := assignments.entries.foldl (fun members e => members.modify e.1 (setAssignment e.2))
      group.members
    state := .stable }

def assigned (group : ConsumerGroup) (memberId : String) : Bytes :=
  ((group.members.lookup memberId).map (·.assignment)).getD []

end ConsumerGroup

def formatEight (n : ℤ) : String :=
  let digits := toString n.natAbs
  if n < 0 then "-" ++ "".pushn '0' (7 - digits.length) ++ digits
  else "".pushn '0' (8 - digits.length) ++ digits

structure CountedCoordinator extends GroupCoordinator where
  nextMemberCounter : ℤ

namespace CountedCoordinator

def new : CountedCoordinator := ⟨GroupCoordinator.new, 1⟩

def actualMemberId (coordinator : CountedCoordinator) (memberId clientId : String) : String :=
  if memberId.isEmpty then clientId ++ "-" ++ formatEight coordinator.nextMemberCounter
  else memberId

def handleJoinGroup (coordinator : CountedCoordinator)
    (groupId memberId clientId protocolType : String) :
    CountedCoordinator × KafkaErrorCode × ℤ × String × String :=
  let actual := coordinator.actualMemberId memberId clientId
  let group := ((coordinator.groups.lookup groupId).getD (.new groupId)).join actual clientId
    protocolType
  let counter := if memberId.isEmpty then wrapSigned 32 (coordinator.nextMemberCounter + 1)
    else coordinator.nextMemberCounter
  (⟨⟨(coordinator.groups.entryOrInsert groupId (.new groupId)).modify groupId
      (·.join actual clientId protocolType)⟩, counter⟩,
    .none, group.generationId, actual, group.leaderId.getD "")

def handleSyncGroup (coordinator : CountedCoordinator) (groupId : String) (generationId : ℤ)
    (memberId : String) (assignments : HashMap String Bytes) :
    CountedCoordinator × KafkaErrorCode × Bytes :=
  match coordinator.groups.lookup groupId with
  | none => (coordinator, .invalidGroupId, [])
  | some group =>
      if group.generationId ≠ generationId then (coordinator, .illegalGeneration, [])
      else
        ({ coordinator with groups := coordinator.groups.modify groupId (·.assign assignments) },
          .none, (group.assign assignments).assigned memberId)

end CountedCoordinator

inductive GroupAction where
  | join (groupId memberId clientId protocolType : String)
  | sync (groupId : String) (generationId : ℤ) (memberId : String)
      (assignments : HashMap String Bytes)
  | leave (groupId memberId : String)
  | commit (groupId : String) (tp : TopicPartition) (offset : ℤ)
  | delete (groupIds : List String)
  | reset
  | rehash (groupId : String) (members : HashMap String GroupMember)

namespace CountedCoordinator

def rehash (coordinator : CountedCoordinator) (groupId : String)
    (members : HashMap String GroupMember) : Option CountedCoordinator :=
  match coordinator.groups.lookup groupId with
  | none => none
  | some group =>
      if group.members.entries.Perm members.entries then
        some { coordinator with groups := coordinator.groups.modify groupId fun group =>
          { group with members := members } }
      else none

def exec (coordinator : CountedCoordinator) : GroupAction → Option CountedCoordinator
  | .join groupId memberId clientId protocolType =>
      some (coordinator.handleJoinGroup groupId memberId clientId protocolType).1
  | .sync groupId generationId memberId assignments =>
      some (coordinator.handleSyncGroup groupId generationId memberId assignments).1
  | .leave groupId memberId =>
      some { coordinator with
        toGroupCoordinator := (coordinator.handleLeaveGroup groupId memberId).1 }
  | .commit groupId tp offset =>
      some { coordinator with
        toGroupCoordinator := coordinator.commitOffset groupId tp offset }
  | .delete groupIds =>
      some { coordinator with toGroupCoordinator := (coordinator.deleteGroups groupIds).1 }
  | .reset => some { coordinator with toGroupCoordinator := coordinator.reset }
  | .rehash groupId members => coordinator.rehash groupId members

end CountedCoordinator

namespace CountedCoordinator

variable {coordinator coordinator' : CountedCoordinator}

theorem lookup_join (coordinator : CountedCoordinator)
    (groupId memberId clientId protocolType groupId' : String) :
    (coordinator.handleJoinGroup groupId memberId clientId protocolType).1.groups.lookup groupId' =
      if groupId' = groupId then some (((coordinator.groups.lookup groupId).getD (.new groupId)).join
        (coordinator.actualMemberId memberId clientId) clientId protocolType)
      else coordinator.groups.lookup groupId' := by
  rw [handleJoinGroup, lookup_modify]
  by_cases hg : groupId' = groupId
  · rw [if_pos hg, if_pos hg, lookup_entryOrInsert, if_pos rfl, map_some]
  · rw [if_neg hg, if_neg hg, lookup_entryOrInsert, if_neg hg]

theorem lookup_sync (coordinator : CountedCoordinator) (groupId : String) (generationId : ℤ)
    (memberId : String) (assignments : HashMap String Bytes) (groupId' : String) :
    (coordinator.handleSyncGroup groupId generationId memberId assignments).1.groups.lookup
        groupId' =
      if groupId' = groupId then (coordinator.groups.lookup groupId).map fun group =>
        if group.generationId = generationId then group.assign assignments else group
      else coordinator.groups.lookup groupId' := by
  rw [handleSyncGroup]
  cases hl : coordinator.groups.lookup groupId with
  | none =>
    by_cases hg : groupId' = groupId
    · rw [if_pos hg, hg, hl, map_none]
    · rw [if_neg hg]
  | some group =>
    dsimp only
    by_cases hgen : group.generationId = generationId
    · rw [if_neg (not_not.mpr hgen)]
      show (coordinator.groups.modify groupId (·.assign assignments)).lookup groupId' = _
      rw [lookup_modify, hl, map_some, map_some, if_pos hgen]
    · rw [if_pos hgen]
      by_cases hg : groupId' = groupId
      · rw [if_pos hg, hg, hl, map_some, if_neg hgen]
      · rw [if_neg hg]

theorem lookup_leave (coordinator : CountedCoordinator) (groupId memberId groupId' : String) :
    (coordinator.handleLeaveGroup groupId memberId).1.groups.lookup groupId' =
      if groupId' = groupId then
        (coordinator.groups.lookup groupId).map (leave memberId)
      else coordinator.groups.lookup groupId' := by
  rw [handleLeaveGroup]
  cases hl : coordinator.groups.lookup groupId with
  | none =>
    by_cases hg : groupId' = groupId
    · rw [if_pos hg, hg, hl, map_none]
    · rw [if_neg hg]
  | some group =>
    show (coordinator.groups.modify groupId (leave memberId)).lookup groupId' = _
    rw [lookup_modify, hl]

theorem lookup_commit (coordinator : CountedCoordinator) (groupId : String) (tp : TopicPartition)
    (offset : ℤ) (groupId' : String) :
    (coordinator.commitOffset groupId tp offset).groups.lookup groupId' = if groupId' = groupId then
        let group := (coordinator.groups.lookup groupId).getD (.new groupId)
        some { group with offsets := group.offsets.insert tp offset }
      else coordinator.groups.lookup groupId' := by
  rw [commitOffset, lookup_modify]
  by_cases hg : groupId' = groupId
  · rw [if_pos hg, if_pos hg, lookup_entryOrInsert, if_pos rfl, map_some]
  · rw [if_neg hg, if_neg hg, lookup_entryOrInsert, if_neg hg]

theorem lookup_rehash {groupId : String} {members : HashMap String GroupMember}
    (h : coordinator.rehash groupId members = some coordinator') :
    ∃ group, coordinator.groups.lookup groupId = some group ∧
      group.members.entries.Perm members.entries ∧
      ∀ groupId', coordinator'.groups.lookup groupId' =
        if groupId' = groupId then some { group with members := members }
        else coordinator.groups.lookup groupId' := by
  rw [rehash] at h
  cases hl : coordinator.groups.lookup groupId with
  | none =>
    rw [hl] at h
    cases h
  | some group =>
    rw [hl] at h
    obtain ⟨hperm, hres⟩ := ite_none_right_eq_some.mp h
    refine ⟨group, rfl, hperm, fun groupId' => ?_⟩
    rw [← some.inj hres]
    show (coordinator.groups.modify groupId _).lookup groupId' = _
    rw [lookup_modify, hl, map_some]

end CountedCoordinator

namespace GroupCoordinator

def Kept (group : ConsumerGroup) : Prop :=
  (!group.members.keys.isEmpty && group.state ≠ .empty && group.state ≠ .dead) = true

theorem deleteGroups_of_kept {gid : String} {group : ConsumerGroup} (hkept : Kept group)
    {coord : GroupCoordinator} (h : coord.groups.lookup gid = some group)
    (groupIds : List String) :
    (coord.deleteGroups groupIds).1.groups.lookup gid = some group ∧
      ∀ code, (gid, code) ∈ (coord.deleteGroups groupIds).2 → code = .nonEmptyGroup := by
  rw [Kept] at hkept
  induction groupIds generalizing coord with
  | nil => exact ⟨h, nofun⟩
  | cons first groupIds ih =>
    rw [deleteGroups]
    by_cases hfirst : first = gid
    · subst hfirst
      rw [h]
      dsimp only
      rw [if_pos hkept]
      obtain ⟨hl, hcodes⟩ := ih h
      refine ⟨hl, fun code hcode => ?_⟩
      rcases mem_cons.mp hcode with heq | hcode
      · exact (Prod.mk.inj heq).2
      · exact hcodes code hcode
    · have hoths : ∀ coordinator' : GroupCoordinator, ∀ answer : KafkaErrorCode,
          coordinator'.groups.lookup gid = some group →
          (coordinator'.deleteGroups groupIds).1.groups.lookup gid = some group ∧
            ∀ code, (gid, code) ∈
              (first, answer) :: (coordinator'.deleteGroups groupIds).2 →
              code = .nonEmptyGroup := by
        intro coordinator' answer h'
        obtain ⟨hl, hcodes⟩ := ih h'
        refine ⟨hl, fun code hcode => ?_⟩
        rcases mem_cons.mp hcode with heq | hcode
        · exact absurd (Prod.mk.inj heq).1.symm hfirst
        · exact hcodes code hcode
      cases hl : coord.groups.lookup first with
      | none => exact hoths coord _ h
      | some other =>
        dsimp only
        split
        · exact hoths coord _ h
        · refine hoths _ _ ?_
          rw [lookup_erase_ite, if_neg (Ne.symm hfirst)]
          exact h

theorem deleteGroups_answers (coord : GroupCoordinator) (groupIds : List String) :
    (coord.deleteGroups groupIds).2.map Prod.fst = groupIds := by
  induction groupIds generalizing coord with
  | nil => rfl
  | cons first groupIds ih => exact congrArg (first :: ·) (ih _)

theorem lookup_deleteGroups (coord : GroupCoordinator) (groupIds : List String) (gid : String) :
    (coord.deleteGroups groupIds).1.groups.lookup gid = coord.groups.lookup gid ∨
      (coord.deleteGroups groupIds).1.groups.lookup gid = none := by
  induction groupIds generalizing coord with
  | nil => exact Or.inl rfl
  | cons first groupIds ih =>
    rw [deleteGroups]
    cases hl : coord.groups.lookup first with
    | none => exact ih coord
    | some other =>
      dsimp only
      split
      · exact ih coord
      · have herased := lookup_erase_ite coord.groups first gid
        rcases ih ⟨coord.groups.erase first⟩ with hsame | hnone
        · rw [hsame, herased]
          split
          · exact Or.inr rfl
          · exact Or.inl rfl
        · exact Or.inr hnone

end GroupCoordinator

namespace ConsumerGroup

def Led (group : ConsumerGroup) : Prop :=
  if group.members.keys = [] then group.leaderId = none
  else ∃ memberId ∈ group.members, group.leaderId = some memberId

structure WellFormed (group : ConsumerGroup) : Prop where
  led : group.Led
  active : group.members.keys ≠ [] → group.state ≠ .empty ∧ group.state ≠ .dead

variable {group : ConsumerGroup}

theorem WellFormed.kept (h : group.WellFormed) (hmems : group.members.keys ≠ []) :
    GroupCoordinator.Kept group := by
  simp [GroupCoordinator.Kept, h.active hmems, hmems]

theorem led_of_nil (hmems : group.members.keys = []) (hlead : group.leaderId = none) :
    group.Led := by
  rw [Led, if_pos hmems]
  exact hlead

theorem led_of_mem (mid : String) (hmem : mid ∈ group.members)
    (hlead : group.leaderId = some mid) : group.Led := by
  rw [Led, if_neg (ne_nil_of_mem (mem_keys.mp hmem))]
  exact ⟨mid, hmem, hlead⟩

theorem Led.leader (h : group.Led) (hmems : group.members.keys ≠ []) :
    ∃ memberId ∈ group.members, group.leaderId = some memberId := by
  rwa [Led, if_neg hmems] at h

theorem wellFormed_new (gid : String) : (ConsumerGroup.new gid).WellFormed :=
  ⟨led_of_nil rfl rfl, fun h => absurd rfl h⟩

theorem WellFormed.join (h : group.WellFormed) (memberId clientId protocolType : String) :
    (group.join memberId clientId protocolType).WellFormed := by
  refine ⟨?_, fun _ => ⟨nofun, nofun⟩⟩
  by_cases hmems : group.members.keys = []
  · refine led_of_mem memberId (mem_insert _ |>.mpr (Or.inl rfl)) ?_
    show (if group.members.keys.isEmpty then _ else _) = _
    rw [hmems]
    rfl
  · obtain ⟨leader, hlead, heq⟩ := h.led.leader hmems
    refine led_of_mem leader (mem_insert _ |>.mpr (Or.inr hlead)) ?_
    show (if group.members.keys.isEmpty then _ else _) = _
    rw [if_neg (by simpa using hmems)]
    exact heq

@[simp] theorem keys_assign (asgs : HashMap String Bytes) (group : ConsumerGroup) :
    (group.assign asgs).members.keys = group.members.keys := by
  rw [assign]
  split
  · rfl
  · exact keys_foldl_modify setAssignment _ _

theorem mem_assign {asgs : HashMap String Bytes} {mid : String} :
    mid ∈ (group.assign asgs).members ↔ mid ∈ group.members := by
  rw [AList.mem_keys, keys_assign, AList.mem_keys]

theorem leaderId_assign (asgs : HashMap String Bytes) (group : ConsumerGroup) :
    (group.assign asgs).leaderId = group.leaderId := by
  rw [assign]
  split
  · rfl
  · rfl

theorem WellFormed.assign (h : group.WellFormed) (asgs : HashMap String Bytes) :
    (group.assign asgs).WellFormed := by
  constructor
  · have hled := h.led
    simp only [Led, keys_assign, leaderId_assign, mem_assign]
    exact hled
  · intro hmems
    rw [keys_assign] at hmems
    rw [ConsumerGroup.assign]
    split
    · exact h.active hmems
    · exact ⟨nofun, nofun⟩

theorem WellFormed.leave (h : group.WellFormed) (memberId : String) :
    (GroupCoordinator.leave memberId group).WellFormed := by
  rw [GroupCoordinator.leave]
  split
  · next hempty =>
    have hnil : (group.members.erase memberId).keys = [] := isEmpty_iff.mp hempty
    exact ⟨led_of_nil hnil rfl, fun hmems => absurd hnil hmems⟩
  · next hsome =>
    have hnil : (group.members.erase memberId).keys ≠ [] := fun hnil => hsome (by rw [hnil]; rfl)
    have hmems : group.members.keys ≠ [] := by
      intro hnone
      apply hnil
      rw [keys_erase, hnone]
      rfl
    split
    · -- the leader leaves and the first of the others takes its place
      obtain ⟨first, others, hkeys⟩ := exists_cons_of_ne_nil hnil
      refine ⟨led_of_mem first ?_ ?_, fun _ => ⟨nofun, nofun⟩⟩
      · rw [AList.mem_keys]
        show first ∈ (group.members.erase memberId).keys
        rw [hkeys]
        exact mem_cons_self
      · show (group.members.erase memberId).keys.head? = some first
        rw [hkeys]
        rfl
    · next hother =>
      obtain ⟨leader, hlead, heq⟩ := h.led.leader hmems
      have hne : leader ≠ memberId := fun hsame => hother (hsame ▸ heq)
      exact ⟨led_of_mem leader (mem_erase.mpr ⟨hne, hlead⟩) heq, fun _ => h.active hmems⟩

theorem keys_nil_iff_of_perm {members members' : HashMap String GroupMember}
    (hperm : members.entries.Perm members'.entries) : members'.keys = [] ↔ members.keys = [] := by
  have hkeys : members.keys.Perm members'.keys := hperm.map Sigma.fst
  constructor
  · intro hnone
    exact perm_nil.mp (hnone ▸ hkeys)
  · intro hnone
    exact nil_perm.mp (hnone ▸ hkeys)

theorem WellFormed.rehash (h : group.WellFormed) {members : HashMap String GroupMember}
    (hperm : group.members.entries.Perm members.entries) :
    ({ group with members := members } : ConsumerGroup).WellFormed := by
  have hkeys : group.members.keys.Perm members.keys := hperm.map Sigma.fst
  have hnil := keys_nil_iff_of_perm hperm
  have hmem : ∀ mid, mid ∈ members ↔ mid ∈ group.members := by
    intro mid
    rw [AList.mem_keys, AList.mem_keys, hkeys.mem_iff]
  have hled := h.led
  rw [Led] at hled
  refine ⟨?_, fun hmems => h.active (hnil.not.mp hmems)⟩
  simp only [Led, hnil, hmem]
  exact hled

end ConsumerGroup

namespace CountedCoordinator

variable {coordinator : CountedCoordinator}

def WellFormed (coordinator : CountedCoordinator) : Prop :=
  ∀ groupId group, coordinator.groups.lookup groupId = some group → group.WellFormed

theorem WellFormed.getD (h : coordinator.WellFormed) (gid : String) :
    ((coordinator.groups.lookup gid).getD (.new gid)).WellFormed := by
  cases hl : coordinator.groups.lookup gid with
  | none => exact ConsumerGroup.wellFormed_new gid
  | some group => exact h gid group hl

theorem WellFormed.of_lookup {coord' : CountedCoordinator} (h : coordinator.WellFormed)
    {groupId : String} {changed : Option ConsumerGroup}
    (hl : ∀ gid', coord'.groups.lookup gid' =
      if gid' = groupId then changed else coordinator.groups.lookup gid')
    (hchanged : ∀ group ∈ changed, group.WellFormed) : coord'.WellFormed := by
  intro gid' group hg
  rw [hl] at hg
  split at hg
  · exact hchanged group hg
  · exact h gid' group hg

theorem exec_wellFormed (coordinator : CountedCoordinator) (action : GroupAction)
    (coordinator' : CountedCoordinator) (h : coordinator.WellFormed)
    (hexec : coordinator.exec action = some coordinator') : coordinator'.WellFormed := by
  cases action with
  | join groupId memberId clientId protocolType =>
    cases hexec
    refine h.of_lookup (lookup_join coordinator groupId memberId clientId protocolType) ?_
    rintro _ ⟨⟩
    exact (h.getD groupId).join _ _ _
  | sync groupId generationId memberId assignments =>
    cases hexec
    refine h.of_lookup (lookup_sync coordinator groupId generationId memberId assignments) ?_
    intro _ hg
    obtain ⟨group, hl, rfl⟩ := map_eq_some_iff.mp hg
    split
    · exact (h groupId group hl).assign assignments
    · exact h groupId group hl
  | leave groupId memberId =>
    cases hexec
    refine h.of_lookup (lookup_leave coordinator groupId memberId) ?_
    intro _ hg
    obtain ⟨group, hl, rfl⟩ := map_eq_some_iff.mp hg
    exact (h groupId group hl).leave memberId
  | commit groupId tp offset =>
    cases hexec
    refine h.of_lookup (lookup_commit coordinator groupId tp offset) ?_
    rintro _ ⟨⟩
    exact ⟨(h.getD groupId).led, (h.getD groupId).active⟩
  | delete groupIds =>
    cases hexec
    intro groupId group hg
    rcases coordinator.lookup_deleteGroups groupIds groupId with hsame | hnone
    · exact h groupId group (hsame ▸ hg)
    · exact absurd (hg.symm.trans hnone) (some_ne_none group)
  | reset =>
    cases hexec
    intro groupId group hg
    exact absurd hg.symm (some_ne_none group)
  | rehash groupId members =>
    obtain ⟨group, hg, hperm, hl⟩ := lookup_rehash hexec
    refine h.of_lookup hl ?_
    rintro _ ⟨⟩
    exact (h groupId group hg).rehash hperm

theorem run_wellFormed {acts : List GroupAction} (hrun : run exec new acts = some coordinator) :
    coordinator.WellFormed :=
  run_invariant (fun coordinator act coordinator' h _ hexec =>
      exec_wellFormed coordinator act coordinator' h hexec)
    (fun _ _ h => absurd h.symm (some_ne_none _))
    (along_of_forall (P := fun _ => True) fun _ _ => trivial) hrun

theorem groups_led_and_kept (actions : List GroupAction) (coordinator : CountedCoordinator)
    (hrun : run exec new actions = some coordinator) :
    (∀ groupId group, coordinator.groups.lookup groupId = some group → group.Led) ∧
    ∀ groupIds groupId group, coordinator.groups.lookup groupId = some group →
      group.members.keys ≠ [] →
      (coordinator.deleteGroups groupIds).1.groups.lookup groupId = some group ∧
      (coordinator.deleteGroups groupIds).2.map Prod.fst = groupIds ∧
      ∀ code, (groupId, code) ∈ (coordinator.deleteGroups groupIds).2 → code = .nonEmptyGroup := by
  have hform := run_wellFormed hrun
  refine ⟨fun groupId group hl => (hform groupId group hl).led, ?_⟩
  intro groupIds groupId group hl hmems
  have hkept : GroupCoordinator.Kept group := (hform groupId group hl).kept hmems
  obtain ⟨hsame, hcodes⟩ := deleteGroups_of_kept hkept hl groupIds
  exact ⟨hsame, deleteGroups_answers _ groupIds, hcodes⟩

def reelection : List GroupAction :=
  [.join "g" "a" "c" "consumer", .join "g" "b" "c" "consumer", .leave "g" "a"]

theorem groups_led_and_kept_reelection :
    ∃ coordinator group, run exec new reelection = some coordinator ∧
      coordinator.groups.lookup "g" = some group ∧ group.members.keys = ["b"] ∧ group.Led ∧
      ∀ code, ("g", code) ∈ (coordinator.deleteGroups ["g"]).2 → code = .nonEmptyGroup := by
  have hmems : (run exec new reelection).bind (fun coordinator =>
      (coordinator.groups.lookup "g").map (·.members.keys)) = some ["b"] := by decide +kernel
  obtain ⟨coordinator, hrun, hg⟩ := Option.bind_eq_some_iff.mp hmems
  obtain ⟨group, hl, hkeys⟩ := Option.map_eq_some_iff.mp hg
  obtain ⟨hled, hkept⟩ := groups_led_and_kept reelection coordinator hrun
  have hsome : group.members.keys ≠ [] := by
    rw [hkeys]
    exact List.cons_ne_nil _ _
  exact ⟨coordinator, group, hrun, hl, hkeys, hled "g" group hl,
    (hkept ["g"] "g" group hl hsome).2.2⟩

end CountedCoordinator

end OxideMq.Broker
