import OxideMq.Broker.Rebalance

/-! Generations of a consumer group. -/

namespace OxideMq.Broker

open Lib OxideMq.Protocol GroupCoordinator CountedCoordinator ConsumerGroup List HashMap AList

structure Issue where
  groupId : String
  generationId : ℤ
  members : List String

structure AcceptedSync where
  groupId : String
  generationId : ℤ
  assignments : HashMap String Bytes

structure GroupHistory where
  coordinator : CountedCoordinator
  issues : List Issue
  syncs : List AcceptedSync

def CountedCoordinator.memberIds (coordinator : CountedCoordinator) (groupId : String) :
    List String :=
  ((coordinator.groups.lookup groupId).map (·.members.keys)).getD []

namespace GroupHistory

def new : GroupHistory := ⟨.new, [], []⟩

def issued (coordinator : CountedCoordinator) : GroupAction → List Issue
  | .join groupId memberId clientId protocolType =>
      let answer := coordinator.handleJoinGroup groupId memberId clientId protocolType
      [⟨groupId, answer.2.2.1, answer.1.memberIds groupId⟩]
  | _ => []

def accepted (coordinator : CountedCoordinator) : GroupAction → List AcceptedSync
  | .sync groupId generationId memberId assignments =>
      let answer := coordinator.handleSyncGroup groupId generationId memberId assignments
      if answer.2.1 = .none then [⟨groupId, generationId, assignments⟩] else []
  | _ => []

def retains (coordinator : CountedCoordinator) (issues : List Issue) (s : AcceptedSync) : Bool :=
  (coordinator.groups.lookup s.groupId).isSome &&
    !issues.any fun i => i.groupId = s.groupId ∧ i.generationId = s.generationId

def exec (history : GroupHistory) (action : GroupAction) : Option GroupHistory :=
  (history.coordinator.exec action).map fun coordinator =>
    ⟨coordinator,
      (issued history.coordinator action ++ history.issues).filter fun i =>
        (coordinator.groups.lookup i.groupId).isSome,
      (accepted history.coordinator action ++ history.syncs).filter
        (retains coordinator (issued history.coordinator action))⟩

def membersAt (history : GroupHistory) (groupId : String) (generationId : ℤ) :
    Option (List String) :=
  (history.issues.find? fun i => i.groupId = groupId ∧ i.generationId = generationId).map
    (·.members)

def assignedBy (syncs : List AcceptedSync) (groupId : String) (generationId : ℤ)
    (memberId : String) : Option Bytes :=
  syncs.findSome? fun s =>
    if s.groupId = groupId ∧ s.generationId = generationId then s.assignments.lookup memberId
    else none

def ChangeEndsGeneration (history : GroupHistory) : Prop :=
  ∀ groupId generationId members, history.membersAt groupId generationId = some members →
    (∃ m, ¬(m ∈ members ↔ m ∈ history.coordinator.memberIds groupId)) →
    ∀ memberId, history.coordinator.handleHeartbeat groupId generationId memberId ≠ .none ∧
      ∀ assignments, (history.coordinator.handleSyncGroup groupId generationId memberId
        assignments).2.1 ≠ .none

def ReturnsLatest (history : GroupHistory) : Prop :=
  ∀ groupId generationId memberId assignments,
    let answer := history.coordinator.handleSyncGroup groupId generationId memberId assignments
    answer.2.1 = .none → answer.2.2 ≠ [] →
      assignedBy (⟨groupId, generationId, assignments⟩ :: history.syncs) groupId generationId
        memberId = some answer.2.2

end GroupHistory

def GroupAction.supplied (groupId : String) (generationId : ℤ) (memberId : String) :
    GroupAction → Option Bytes
  | .sync groupId' generationId' _ assignments =>
      if groupId' = groupId ∧ generationId' = generationId then assignments.lookup memberId
      else none
  | _ => none

namespace ConsumerGroup

variable {group : ConsumerGroup} {memberId : String}

theorem assigned_of_notMem (h : memberId ∉ group.members) : group.assigned memberId = [] := by
  rw [assigned, lookup_eq_none.mpr h]
  rfl

theorem mem_of_assigned (h : group.assigned memberId ≠ []) : memberId ∈ group.members := by
  by_contra hnone
  exact h (assigned_of_notMem hnone)

theorem assigned_assign {asgs : HashMap String Bytes} (h : memberId ∈ group.members) :
    (group.assign asgs).assigned memberId =
      (asgs.lookup memberId).getD (group.assigned memberId) := by
  obtain ⟨m, hm⟩ := mem_iff.mp h
  rw [assign]
  split
  · next hempty =>
    have hnone : asgs.lookup memberId = none := by
      rw [AList.lookup_eq_none, AList.mem_keys, isEmpty_iff.mp hempty]
      exact not_mem_nil
    rw [hnone]
    rfl
  · rw [assigned, lookup_modifyAll, hm]
    cases asgs.lookup memberId with
    | none =>
      rw [assigned, hm]
      rfl
    | some a => rfl

theorem members_leave (memberId : String) (group : ConsumerGroup) :
    (leave memberId group).members = group.members.erase memberId := by
  rw [leave]
  split
  · rfl
  · split
    · rfl
    · rfl

theorem generationId_leave (mid : String) (group : ConsumerGroup) :
    (leave mid group).generationId = group.generationId := by
  rw [leave]
  split
  · rfl
  · split
    · rfl
    · rfl

theorem generationId_assign (asgs : HashMap String Bytes) (group : ConsumerGroup) :
    (group.assign asgs).generationId = group.generationId := by
  rw [assign]
  split
  · rfl
  · rfl

end ConsumerGroup

namespace CountedCoordinator

inductive Outcome (coordinator : CountedCoordinator) (groupId : String) (group' : ConsumerGroup) :
    GroupAction → Prop
  | joined (memberId clientId protocolType : String)
      (h : group' = ((coordinator.groups.lookup groupId).getD (.new groupId)).join
        (coordinator.actualMemberId memberId clientId) clientId protocolType) :
      Outcome coordinator groupId group' (.join groupId memberId clientId protocolType)
  | kept (action : GroupAction) (group : ConsumerGroup)
      (hjoin : ∀ memberId clientId protocolType,
        action ≠ .join groupId memberId clientId protocolType)
      (hlookup : coordinator.groups.lookup groupId = some group)
      (hgeneration : group'.generationId = group.generationId)
      (hmembers : ∀ m, m ∈ group'.members ↔ m ∈ group.members ∧ action ≠ .leave groupId m)
      (hassigned : ∀ m ∈ group'.members, group'.assigned m =
        (action.supplied groupId group.generationId m).getD (group.assigned m)) :
      Outcome coordinator groupId group' action
  | created (action : GroupAction)
      (hjoin : ∀ memberId clientId protocolType,
        action ≠ .join groupId memberId clientId protocolType)
      (hlookup : coordinator.groups.lookup groupId = none) (hmembers : ∀ m, m ∉ group'.members) :
      Outcome coordinator groupId group' action

variable {coordinator coordinator' : CountedCoordinator} {action : GroupAction}
  {groupId : String} {group' : ConsumerGroup}

theorem Outcome.of_untouched (hjoin : ∀ memberId cid proto,
      action ≠ .join groupId memberId cid proto)
    (hleave : ∀ m, action ≠ .leave groupId m)
    (hsync : ∀ gen m, action.supplied groupId gen m = none)
    (h : coordinator.groups.lookup groupId = some group') :
    Outcome coordinator groupId group' action := by
  refine .kept action group' hjoin h rfl (fun m => ?_) (fun m _ => ?_)
  · exact (and_iff_left (hleave m)).symm
  · rw [hsync]
    rfl

theorem Outcome.of_sync {gid₀ : String} {gen : ℤ} {mid : String} {asgs : HashMap String Bytes}
    (h : (coordinator.handleSyncGroup gid₀ gen mid asgs).1.groups.lookup groupId = some group') :
    Outcome coordinator groupId group' (.sync gid₀ gen mid asgs) := by
  rw [lookup_sync] at h
  by_cases hg : groupId = gid₀
  · subst hg
    rw [if_pos rfl] at h
    obtain ⟨group, hl, rfl⟩ := Option.map_eq_some_iff.mp h
    by_cases hgen : group.generationId = gen
    · rw [if_pos hgen]
      refine .kept _ group nofun hl (group.generationId_assign asgs) (fun m => ?_) (fun m hm => ?_)
      · rw [mem_assign]
        exact (and_iff_left nofun).symm
      · rw [GroupAction.supplied, if_pos ⟨rfl, hgen.symm⟩]
        exact assigned_assign (mem_assign.mp hm)
    · rw [if_neg hgen]
      refine .kept _ group nofun hl rfl (fun m => (and_iff_left nofun).symm) (fun m _ => ?_)
      rw [GroupAction.supplied, if_neg fun hsame => hgen hsame.2.symm]
      rfl
  · rw [if_neg hg] at h
    refine .of_untouched nofun nofun (fun g m => ?_) h
    rw [GroupAction.supplied, if_neg fun hsame => hg hsame.1.symm]

theorem Outcome.of_leave {groupId₀ memberId : String}
    (h : (coordinator.handleLeaveGroup groupId₀ memberId).1.groups.lookup groupId = some group') :
    Outcome coordinator groupId group' (.leave groupId₀ memberId) := by
  rw [lookup_leave] at h
  by_cases hg : groupId = groupId₀
  · subst hg
    rw [if_pos rfl] at h
    obtain ⟨group, hl, rfl⟩ := Option.map_eq_some_iff.mp h
    have hmem : ∀ m, m ∈ (leave memberId group).members ↔ m ∈ group.members ∧ m ≠ memberId := by
      intro m
      rw [members_leave, mem_erase, and_comm]
    refine .kept _ group nofun hl (generationId_leave memberId group) (fun m => ?_) (fun m hm => ?_)
    · rw [hmem]
      refine and_congr_right fun _ => not_congr ⟨?_, ?_⟩
      · rintro rfl
        rfl
      · rintro ⟨⟩
        rfl
    · rw [assigned, members_leave, lookup_erase_ite, if_neg ((hmem m).mp hm).2]
      rfl
  · rw [if_neg hg] at h
    exact .of_untouched nofun (fun m heq => hg (GroupAction.leave.inj heq).1.symm)
      (fun _ _ => rfl) h

theorem outcome (hexec : coordinator.exec action = some coordinator')
    (h : coordinator'.groups.lookup groupId = some group') :
    Outcome coordinator groupId group' action := by
  cases action with
  | join gid₀ memberId cid proto =>
    cases hexec
    rw [lookup_join] at h
    by_cases hg : groupId = gid₀
    · subst hg
      rw [if_pos rfl] at h
      exact .joined memberId cid proto (Option.some.inj h).symm
    · rw [if_neg hg] at h
      exact .of_untouched
        (fun m c p heq => hg (GroupAction.join.inj heq).1.symm) nofun (fun _ _ => rfl) h
  | sync gid₀ gen memberId asgs =>
    cases hexec
    exact .of_sync h
  | leave gid₀ memberId =>
    cases hexec
    exact .of_leave h
  | commit gid₀ tp off =>
    cases hexec
    rw [lookup_commit] at h
    by_cases hg : groupId = gid₀
    · subst hg
      rw [if_pos rfl] at h
      cases h
      cases hl : coordinator.groups.lookup groupId with
      | none => exact .created _ nofun hl fun m => notMem_empty m
      | some group =>
        exact .kept _ group nofun hl rfl (fun m => (and_iff_left nofun).symm) (fun m _ => rfl)
    · rw [if_neg hg] at h
      exact .of_untouched nofun nofun (fun _ _ => rfl) h
  | delete groupIds =>
    cases hexec
    rcases coordinator.lookup_deleteGroups groupIds groupId with hsame | hnone
    · exact .of_untouched nofun nofun (fun _ _ => rfl) (hsame ▸ h)
    · exact absurd (h.symm.trans hnone) (Option.some_ne_none group')
  | reset =>
    cases hexec
    exact absurd h.symm (Option.some_ne_none group')
  | rehash gid₀ members =>
    obtain ⟨group, hg₀, hperm, hl⟩ := lookup_rehash hexec
    rw [hl] at h
    by_cases hg : groupId = gid₀
    · subst hg
      rw [if_pos rfl] at h
      cases h
      have hsame : ∀ m, members.lookup m = group.members.lookup m :=
        HashMap.Rehash.lookup hperm
      refine .kept _ group nofun hg₀ rfl (fun m => ?_) (fun m _ => ?_)
      · rw [mem_iff, mem_iff, hsame]
        exact (and_iff_left nofun).symm
      · rw [assigned, hsame]
        rfl
    · rw [if_neg hg] at h
      exact .of_untouched nofun nofun (fun _ _ => rfl) h

end CountedCoordinator

namespace GroupHistory

variable {history history' : GroupHistory} {action : GroupAction} {groupId : String}
  {group : ConsumerGroup}

theorem exec_eq_some : history.exec action = some history' ↔
    history.coordinator.exec action = some history'.coordinator ∧
    history'.issues = (issued history.coordinator action ++ history.issues).filter
      (fun i => (history'.coordinator.groups.lookup i.groupId).isSome) ∧
    history'.syncs = (accepted history.coordinator action ++ history.syncs).filter
      (retains history'.coordinator (issued history.coordinator action)) := by
  rw [exec, Option.map_eq_some_iff]
  constructor
  · rintro ⟨coordinator, hexec, rfl⟩
    exact ⟨hexec, rfl, rfl⟩
  · rintro ⟨hexec, hissues, hsyncs⟩
    refine ⟨history'.coordinator, hexec, ?_⟩
    rw [← hissues, ← hsyncs]

def lastIssue (history : GroupHistory) (groupId : String) : Option Issue :=
  history.issues.find? fun i => i.groupId = groupId

theorem lastIssue_exec (hexec : history.exec action = some history')
    (hl : history'.coordinator.groups.lookup groupId = some group) :
    history'.lastIssue groupId =
      (issued history.coordinator action ++ history.issues).find? fun i => i.groupId = groupId := by
  rw [lastIssue, (exec_eq_some.mp hexec).2.1]
  refine find?_filter_of_imp (fun i hi => ?_) _
  rw [of_decide_eq_true hi, hl]
  rfl

theorem lastIssue_join {mid cid proto : String}
    (hexec : history.exec (.join groupId mid cid proto) = some history')
    (hl : history'.coordinator.groups.lookup groupId = some group) :
    history'.lastIssue groupId = some ⟨groupId, group.generationId, group.members.keys⟩ := by
  have hstep := (exec_eq_some.mp hexec).1
  have hans : (history.coordinator.handleJoinGroup groupId mid cid proto).1 =
      history'.coordinator := Option.some.inj hstep
  have hg := lookup_join history.coordinator groupId mid cid proto groupId
  rw [hans, hl, if_pos rfl] at hg
  rw [lastIssue_exec hexec hl, issued, singleton_append, find?_cons]
  simp only [decide_true]
  rw [hans, memberIds, hl, Option.some.inj hg]
  rfl

theorem lastIssue_of_not_join (hexec : history.exec action = some history')
    (hl : history'.coordinator.groups.lookup groupId = some group)
    (hjoin : ∀ memberId cid proto, action ≠ .join groupId memberId cid proto) :
    history'.lastIssue groupId = history.lastIssue groupId := by
  rw [lastIssue_exec hexec hl]
  cases action with
  | join gid₀ memberId cid proto =>
    have hoth : ¬gid₀ = groupId := fun hsame => hjoin memberId cid proto (by rw [hsame])
    rw [issued, singleton_append, find?_cons_of_neg (by simpa using hoth)]
    rfl
  | sync => rfl
  | leave => rfl
  | commit => rfl
  | delete => rfl
  | reset => rfl
  | rehash => rfl

structure Consistent (history : GroupHistory) : Prop where
  known : ∀ i ∈ history.issues, (history.coordinator.groups.lookup i.groupId).isSome
  current : ∀ groupId group i, history.coordinator.groups.lookup groupId = some group →
    history.lastIssue groupId = some i → i.generationId = group.generationId
  joined : ∀ groupId group, history.coordinator.groups.lookup groupId = some group →
    ∀ m ∈ group.members, ∃ i, history.lastIssue groupId = some i

theorem consistent_new : new.Consistent :=
  ⟨nofun, nofun, nofun⟩

theorem Consistent.lastIssue_eq_none (h : history.Consistent)
    (hl : history.coordinator.groups.lookup groupId = none) :
    history.lastIssue groupId = none := by
  refine find?_eq_none.mpr fun i hi hsame => ?_
  have hsome := h.known i hi
  rw [of_decide_eq_true hsame, hl] at hsome
  cases hsome

theorem Consistent.exec (h : history.Consistent) (hexec : history.exec action = some history') :
    history'.Consistent := by
  obtain ⟨hstep, hissues, -⟩ := exec_eq_some.mp hexec
  refine ⟨fun i hi => ?_, fun groupId group' i hl hi => ?_, fun groupId group' hl m hm => ?_⟩
  · rw [hissues] at hi
    exact (mem_filter.mp hi).2
  · cases outcome hstep hl with
    | joined memberId clientId protocolType hg =>
      rw [lastIssue_join hexec hl] at hi
      rw [← Option.some.inj hi]
    | kept _ group hjoin hg hgen hmems hasg =>
      rw [lastIssue_of_not_join hexec hl hjoin] at hi
      rw [hgen]
      exact h.current groupId group i hg hi
    | created _ hjoin hg hmems =>
      rw [lastIssue_of_not_join hexec hl hjoin, h.lastIssue_eq_none hg] at hi
      exact absurd hi.symm (Option.some_ne_none i)
  · cases outcome hstep hl with
    | joined memberId clientId protocolType hg => exact ⟨_, lastIssue_join hexec hl⟩
    | kept _ group hjoin hg hgen hmems hasg =>
      rw [lastIssue_of_not_join hexec hl hjoin]
      exact h.joined groupId group hg m ((hmems m).mp hm).1
    | created _ hjoin hg hmems => exact absurd hm (hmems m)

def Settled (history : GroupHistory) : Prop :=
  ∀ groupId group i, history.coordinator.groups.lookup groupId = some group →
    history.lastIssue groupId = some i → ∀ m, m ∈ i.members ↔ m ∈ group.members

theorem membersAt_of_lastIssue {i : Issue} (h : history.lastIssue groupId = some i) :
    history.membersAt groupId i.generationId = some i.members := by
  obtain ⟨hi, before, after, hsplit, hbef⟩ := find?_eq_some_iff_append.mp h
  have hfind : history.issues.find? (fun j => j.groupId = groupId ∧
      j.generationId = i.generationId) = some i := by
    refine find?_eq_some_iff_append.mpr ⟨?_, before, after, hsplit, fun j hj => ?_⟩
    · simpa using hi
    · have hoth := hbef j hj
      simp only [Bool.not_eq_true', decide_eq_false_iff_not] at hoth ⊢
      exact fun hboth => hoth hboth.1
  rw [membersAt, hfind]
  rfl

theorem lastIssue_of_membersAt {gen : ℤ} {members : List String}
    (h : history.membersAt groupId gen = some members) :
    ∃ i, history.lastIssue groupId = some i := by
  obtain ⟨i, hi, -⟩ := Option.map_eq_some_iff.mp h
  have hmem := mem_of_find?_eq_some hi
  have hm := find?_some hi
  refine Option.isSome_iff_exists.mp (find?_isSome.mpr ⟨i, hmem, ?_⟩)
  exact decide_eq_true (of_decide_eq_true hm).1

theorem mem_memberIds {coord : CountedCoordinator}
    (h : coord.groups.lookup groupId = some group) (m : String) :
    m ∈ coord.memberIds groupId ↔ m ∈ group.members := by
  rw [memberIds, h]
  exact mem_keys.symm

theorem changeEndsGeneration_iff (h : history.Consistent) :
    history.ChangeEndsGeneration ↔ history.Settled := by
  constructor
  · intro hends groupId group i hl hi
    by_contra hdiffer
    obtain ⟨m, hm⟩ := not_forall.mp hdiffer
    rw [← mem_memberIds hl] at hm
    obtain ⟨-, hsync⟩ := hends groupId i.generationId i.members (membersAt_of_lastIssue hi)
      ⟨m, hm⟩ m
    refine hsync ∅ ?_
    rw [handleSyncGroup, hl]
    dsimp only
    rw [if_neg (not_not.mpr (h.current groupId group i hl hi).symm)]
  · rintro hsettled groupId generationId members hmems ⟨m, hdiffer⟩ memberId
    rw [handleHeartbeat]
    cases hl : history.coordinator.groups.lookup groupId with
    | none =>
      refine ⟨by rintro ⟨⟩, fun assignments => ?_⟩
      rw [handleSyncGroup, hl]
      rintro ⟨⟩
    | some group =>
      -- only the generation of the group would be accepted, and it has not changed
      have hgen : group.generationId ≠ generationId := by
        intro hsame
        obtain ⟨i, hi⟩ := lastIssue_of_membersAt hmems
        rw [← hsame, ← h.current groupId group i hl hi, membersAt_of_lastIssue hi] at hmems
        apply hdiffer
        rw [← Option.some.inj hmems, mem_memberIds hl]
        exact hsettled groupId group i hl hi m
      refine ⟨?_, fun assignments => ?_⟩
      · dsimp only
        rw [if_pos hgen]
        rintro ⟨⟩
      · rw [handleSyncGroup, hl]
        dsimp only
        rw [if_pos hgen]
        rintro ⟨⟩

def LeavesNoMember (history : GroupHistory) : GroupAction → Prop
  | .leave groupId memberId => memberId ∉ history.coordinator.memberIds groupId
  | _ => True

theorem LeavesNoMember.ne_leave (h : history.LeavesNoMember action)
    (hl : history.coordinator.groups.lookup groupId = some group) {m : String}
    (hm : m ∈ group.members) : action ≠ .leave groupId m := by
  rintro rfl
  exact h ((mem_memberIds hl m).mpr hm)

theorem settled_exec_iff (h : history.Consistent) (hsettled : history.Settled)
    (hexec : history.exec action = some history') :
    history'.Settled ↔ history.LeavesNoMember action := by
  have hstep := (exec_eq_some.mp hexec).1
  constructor
  · intro hsettled'
    cases action with
    | leave groupId memberId =>
      intro hmem
      cases hl : history.coordinator.groups.lookup groupId with
      | none =>
        rw [memberIds, hl] at hmem
        exact not_mem_nil hmem
      | some group =>
        have hl' : history'.coordinator.groups.lookup groupId = some (leave memberId group) := by
          rw [← Option.some.inj hstep]
          show (history.coordinator.handleLeaveGroup groupId memberId).1.groups.lookup _ = _
          rw [lookup_leave, if_pos rfl, hl, Option.map_some]
        rw [mem_memberIds hl] at hmem
        obtain ⟨i, hi⟩ := h.joined groupId group hl memberId hmem
        have hi' : history'.lastIssue groupId = some i := by
          rw [lastIssue_of_not_join hexec hl' nofun]
          exact hi
        have hgone := (hsettled' groupId _ i hl' hi' memberId).mp
          ((hsettled groupId group i hl hi memberId).mpr hmem)
        rw [members_leave, mem_erase] at hgone
        exact hgone.1 rfl
    | join => trivial
    | sync => trivial
    | commit => trivial
    | delete => trivial
    | reset => trivial
    | rehash => trivial
  · intro hleaves groupId group' i hl hi m
    cases outcome hstep hl with
    | joined memberId clientId protocolType hg =>
      rw [lastIssue_join hexec hl] at hi
      rw [← Option.some.inj hi]
      exact mem_keys.symm
    | kept _ group hjoin hg hgen hmems hasg =>
      rw [lastIssue_of_not_join hexec hl hjoin] at hi
      rw [hmems, hsettled groupId group i hg hi m]
      exact (and_iff_left_of_imp fun hm => hleaves.ne_leave hg hm).symm
    | created _ hjoin hg hmems =>
      rw [lastIssue_of_not_join hexec hl hjoin, h.lastIssue_eq_none hg] at hi
      exact absurd hi.symm (Option.some_ne_none i)

theorem change_ends_generation_iff (actions : List GroupAction) (final : GroupHistory)
    (hrun : run exec new actions = some final) :
    (∀ front, front <+: actions → ∀ history, run exec new front = some history →
      history.ChangeEndsGeneration) ↔ Along exec LeavesNoMember new actions := by
  have hconsistent : ∀ history action history', Consistent history →
      exec history action = some history' → ChangeEndsGeneration history' →
      Consistent history' :=
    fun _ _ _ h hexec _ => h.exec hexec
  refine reached_iff_along hconsistent ?_ consistent_new ?_ hrun
  · intro history action history' h hends hexec
    rw [changeEndsGeneration_iff (h.exec hexec)]
    exact settled_exec_iff h ((changeEndsGeneration_iff h).mp hends) hexec
  · exact (changeEndsGeneration_iff consistent_new).mpr nofun

def joinBoth : List GroupAction :=
  [.join "g" "a" "c" "consumer", .join "g" "b" "c" "consumer"]

theorem change_keeps_generation :
    ∃ history, run exec new (joinBoth ++ [.leave "g" "b"]) = some history ∧
      history.membersAt "g" 2 = some ["b", "a"] ∧
      history.coordinator.memberIds "g" = ["a"] ∧
      history.coordinator.handleHeartbeat "g" 2 "a" = .none ∧
      ¬history.ChangeEndsGeneration := by
  have hstate : (run exec new (joinBoth ++ [.leave "g" "b"])).map (fun history =>
      (history.membersAt "g" 2, history.coordinator.memberIds "g",
        history.coordinator.handleHeartbeat "g" 2 "a")) =
      some (some ["b", "a"], ["a"], .none) := by decide +kernel
  obtain ⟨history, hrun, hvalues⟩ := Option.map_eq_some_iff.mp hstate
  obtain ⟨hmems, hrest⟩ := Prod.mk.inj hvalues
  obtain ⟨hids, hheartbeat⟩ := Prod.mk.inj hrest
  refine ⟨history, hrun, hmems, hids, hheartbeat, fun hends => ?_⟩
  refine (hends "g" 2 _ hmems ⟨"b", ?_⟩ "a").1 hheartbeat
  rw [hids]
  decide

theorem change_ends_generation_join :
    ∃ history, run exec new (joinBoth ++ [.join "g" "d" "c" "consumer"]) = some history ∧
      history.ChangeEndsGeneration := by
  have hsome : (run exec new (joinBoth ++ [.join "g" "d" "c" "consumer"])).isSome := by
    decide +kernel
  obtain ⟨history, hrun⟩ := Option.isSome_iff_exists.mp hsome
  have halong : Along exec LeavesNoMember new (joinBoth ++ [.join "g" "d" "c" "consumer"]) :=
    ⟨trivial, fun _ _ => ⟨trivial, fun _ _ => ⟨trivial, fun _ _ => trivial⟩⟩⟩
  exact ⟨history, hrun, (change_ends_generation_iff _ history hrun).mpr halong _
    (List.prefix_refl _) history hrun⟩

def Stored (history : GroupHistory) : Prop :=
  ∀ groupId group m, history.coordinator.groups.lookup groupId = some group →
    group.assigned m ≠ [] →
    assignedBy history.syncs groupId group.generationId m = some (group.assigned m)

theorem assignedBy_cons (s : AcceptedSync) (syncs : List AcceptedSync) (gid : String)
    (gen : ℤ) (m : String) :
    assignedBy (s :: syncs) gid gen m =
      (if s.groupId = gid ∧ s.generationId = gen then s.assignments.lookup m
        else none).or (assignedBy syncs gid gen m) := by
  rw [assignedBy, findSome?_cons]
  split
  · next b hb => rw [hb, Option.some_or]
  · next hnone =>
    rw [hnone, Option.none_or]
    rfl

theorem accepted_sync (hg : history.coordinator.groups.lookup groupId = some group)
    (mid : String) (asgs : HashMap String Bytes) :
    accepted history.coordinator (.sync groupId group.generationId mid asgs) =
      [⟨groupId, group.generationId, asgs⟩] := by
  have hcode : (history.coordinator.handleSyncGroup groupId group.generationId mid
      asgs).2.1 = .none := by
    rw [handleSyncGroup, hg]
    dsimp only
    rw [if_neg (not_not.mpr rfl)]
  exact if_pos hcode

theorem returnsLatest_iff : history.ReturnsLatest ↔ history.Stored := by
  constructor
  · intro hret groupId group m hl hasg
    -- the member asks without bringing an assignment
    have hask := hret groupId group.generationId m ∅
    have hsame : group.assign ∅ = group := if_pos rfl
    rw [handleSyncGroup, hl] at hask
    dsimp only at hask
    rw [if_neg (not_not.mpr rfl), hsame, assignedBy_cons, if_pos ⟨rfl, rfl⟩] at hask
    exact hask rfl hasg
  · intro hstored groupId gen m asgs
    rw [handleSyncGroup]
    cases hl : history.coordinator.groups.lookup groupId with
    | none =>
      dsimp only
      rintro ⟨⟩
    | some group =>
      dsimp only
      by_cases hgen : group.generationId = gen
      · rw [if_neg (not_not.mpr hgen), assignedBy_cons, if_pos ⟨rfl, rfl⟩]
        intro _ hasg
        have hmem := mem_assign.mp (mem_of_assigned hasg)
        rw [assigned_assign hmem] at hasg ⊢
        cases hbrought : asgs.lookup m with
        | some a => rfl
        | none =>
          rw [hbrought] at hasg
          rw [← hgen]
          exact hstored groupId group m hl hasg
      · rw [if_pos hgen]
        rintro ⟨⟩

def JoinsUnassigned (history : GroupHistory) : GroupAction → Prop
  | .join groupId memberId clientId _ =>
      ∀ group, history.coordinator.groups.lookup groupId = some group →
        ∀ m, m ≠ history.coordinator.actualMemberId memberId clientId → group.assigned m = []
  | _ => True

theorem assigned_join (mid cid proto m : String) (group : ConsumerGroup) :
    (group.join mid cid proto).assigned m = if m = mid then [] else group.assigned m := by
  rw [assigned, join, lookup_insert_ite]
  split
  · rfl
  · rfl

theorem assignedBy_exec (hexec : history.exec action = some history') {group' : ConsumerGroup}
    (hl : history'.coordinator.groups.lookup groupId = some group')
    (hg : history.coordinator.groups.lookup groupId = some group)
    (hjoin : ∀ memberId cid proto, action ≠ .join groupId memberId cid proto) (m : String) :
    assignedBy history'.syncs groupId group.generationId m =
      (action.supplied groupId group.generationId m).or
        (assignedBy history.syncs groupId group.generationId m) := by
  have hnew : ∀ i ∈ issued history.coordinator action, i.groupId ≠ groupId := by
    cases action with
    | join gid₀ memberId cid proto =>
      rintro i hi rfl
      rw [issued, mem_singleton] at hi
      exact hjoin memberId cid proto (by rw [hi])
    | sync => exact nofun
    | leave => exact nofun
    | commit => exact nofun
    | delete => exact nofun
    | reset => exact nofun
    | rehash => exact nofun
  rw [assignedBy, (exec_eq_some.mp hexec).2.2, findSome?_filter_of_imp]
  · cases action with
    | sync gid₀ gen memberId asgs =>
      rw [GroupAction.supplied]
      by_cases hsame : gid₀ = groupId ∧ gen = group.generationId
      · rw [hsame.1, hsame.2, accepted_sync hg, singleton_append]
        exact assignedBy_cons _ _ _ _ _
      · rw [if_neg hsame, Option.none_or, accepted]
        split
        · rw [singleton_append]
          exact (assignedBy_cons _ _ _ _ _).trans (by rw [if_neg hsame, Option.none_or])
        · rfl
    | join => rfl
    | leave => rfl
    | commit => rfl
    | delete => rfl
    | reset => rfl
    | rehash => rfl
  · intro s hs
    split at hs
    · next hmatch =>
      rw [retains, hmatch.1, hl]
      simp only [Option.isSome_some, Bool.true_and, Bool.not_eq_true', any_eq_false,
        decide_eq_true_eq]
      exact fun i hi hboth => hnew i hi hboth.1
    · cases hs

theorem assignedBy_join {mid cid proto : String}
    (hexec : history.exec (.join groupId mid cid proto) = some history')
    (hl : history'.coordinator.groups.lookup groupId = some group) (m : String) :
    assignedBy history'.syncs groupId group.generationId m = none := by
  have hans : (history.coordinator.handleJoinGroup groupId mid cid proto).1 =
      history'.coordinator := Option.some.inj (exec_eq_some.mp hexec).1
  have hg := lookup_join history.coordinator groupId mid cid proto groupId
  rw [hans, hl, if_pos rfl] at hg
  refine findSome?_eq_none_iff.mpr fun s hs => if_neg fun hmatch => ?_
  rw [(exec_eq_some.mp hexec).2.2, mem_filter, retains, Bool.and_eq_true] at hs
  have hissued := hs.2.2
  rw [issued, hmatch.1, hmatch.2, Option.some.inj hg] at hissued
  simp [handleJoinGroup] at hissued

theorem stored_exec_iff (hstored : history.Stored) (hexec : history.exec action = some history') :
    history'.Stored ↔ history.JoinsUnassigned action := by
  have hstep := (exec_eq_some.mp hexec).1
  constructor
  · intro hstored'
    cases action with
    | join groupId memberId clientId protocolType =>
      intro group hg m hm
      by_contra hasg
      have hl : history'.coordinator.groups.lookup groupId = some (group.join
          (history.coordinator.actualMemberId memberId clientId) clientId protocolType) := by
        rw [← Option.some.inj hstep, lookup_join, if_pos rfl, hg]
        rfl
      have hkept := assigned_join (history.coordinator.actualMemberId memberId clientId) clientId
        protocolType m group
      rw [if_neg hm] at hkept
      -- the assignment is still there, but the generation has just been issued
      have hsome := hstored' groupId _ m hl (by rw [hkept]; exact hasg)
      rw [assignedBy_join hexec hl] at hsome
      exact Option.some_ne_none _ hsome.symm
    | sync => trivial
    | leave => trivial
    | commit => trivial
    | delete => trivial
    | reset => trivial
    | rehash => trivial
  · intro hjoins groupId group' m hl hasg
    cases outcome hstep hl with
    | joined memberId clientId protocolType hg' =>
      refine absurd ?_ hasg
      rw [hg', assigned_join]
      split
      · rfl
      · next hm =>
        cases hg : history.coordinator.groups.lookup groupId with
        | none => rfl
        | some group => exact hjoins group hg m hm
    | kept _ group hjoin hg hgen hmems hassignedEq =>
      have hval := hassignedEq m (mem_of_assigned hasg)
      rw [hgen, assignedBy_exec hexec hl hg hjoin, hval]
      rw [hval] at hasg
      cases hsupplied : action.supplied groupId group.generationId m with
      | some a => rfl
      | none =>
        rw [hsupplied] at hasg
        exact hstored groupId group m hg hasg
    | created _ hjoin hg hmems =>
      exact absurd (assigned_of_notMem (hmems m)) hasg

theorem assignments_of_generation_iff (actions : List GroupAction) (final : GroupHistory)
    (hrun : run exec new actions = some final) :
    (∀ front, front <+: actions → ∀ history, run exec new front = some history →
      history.ReturnsLatest) ↔ Along exec JoinsUnassigned new actions := by
  have htrivial : ∀ history action history', True → exec history action = some history' →
      ReturnsLatest history' → True :=
    fun _ _ _ _ _ _ => trivial
  refine reached_iff_along htrivial ?_ trivial ?_ hrun
  · intro history action history' _ hret hexec
    rw [returnsLatest_iff]
    exact stored_exec_iff (returnsLatest_iff.mp hret) hexec
  · exact returnsLatest_iff.mpr nofun

def assignThenJoin : List GroupAction :=
  [.join "g" "a" "c" "consumer", .sync "g" 1 "a" (AList.singleton "a" [1]),
    .join "g" "b" "c" "consumer"]

theorem assignment_outlives_generation : ∃ history, run exec new assignThenJoin = some history ∧
      (history.coordinator.handleSyncGroup "g" 2 "a" ∅).2 = (.none, [1]) ∧
      assignedBy history.syncs "g" 2 "a" = none ∧ ¬history.ReturnsLatest := by
  have hstate : (run exec new assignThenJoin).map (fun history =>
      ((history.coordinator.handleSyncGroup "g" 2 "a" ∅).2, assignedBy history.syncs "g" 2 "a")) =
      some ((.none, [1]), none) := by decide +kernel
  obtain ⟨history, hrun, hvalues⟩ := Option.map_eq_some_iff.mp hstate
  obtain ⟨hans, hsyncs⟩ := Prod.mk.inj hvalues
  refine ⟨history, hrun, hans, hsyncs, fun hret => ?_⟩
  have hask := hret "g" 2 "a" ∅
  dsimp only at hask
  rw [hans, assignedBy_cons, if_pos ⟨rfl, rfl⟩, hsyncs] at hask
  exact Option.some_ne_none _ (hask rfl (List.cons_ne_nil _ _)).symm

theorem assignments_of_generation_first : ∃ history, run exec new
        (joinBoth ++ [.sync "g" 2 "a" (AList.singleton "b" [7])]) = some history ∧
      history.ReturnsLatest := by
  have hsome : (run exec new
      (joinBoth ++ [.sync "g" 2 "a" (AList.singleton "b" [7])])).isSome := by decide +kernel
  obtain ⟨history, hrun⟩ := Option.isSome_iff_exists.mp hsome
  have halong : Along exec JoinsUnassigned new
      (joinBoth ++ [.sync "g" 2 "a" (AList.singleton "b" [7])]) := by
    refine Along.cons (fun group hg => absurd hg.symm (Option.some_ne_none _)) rfl ?_
    refine Along.cons ?_ rfl ⟨trivial, fun _ _ => trivial⟩
    intro group hg m hm
    cases hg
    show ((ConsumerGroup.new "g").join "a" "c" "consumer").assigned m = []
    rw [assigned_join]
    split
    · rfl
    · rfl
  exact ⟨history, hrun, (assignments_of_generation_iff _ history hrun).mpr halong _
    (List.prefix_refl _) history hrun⟩

end GroupHistory

end OxideMq.Broker
