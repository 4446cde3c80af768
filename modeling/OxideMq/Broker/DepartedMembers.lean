import OxideMq.Broker.Handler
import OxideMq.Broker.Rebalance
import OxideMq.Lib.Maintains

/-! Calls of those who have left. -/

namespace OxideMq.Broker

open Lib OxideMq.Protocol GroupCoordinator HashMap

def ConsumerGroup.StateAgrees (group : ConsumerGroup) : Prop :=
  group.state = .empty ↔ group.members.keys = []

namespace CountedCoordinator

open ConsumerGroup

variable {coordinator coordinator' : CountedCoordinator} {group : ConsumerGroup}

def StatesAgree (coordinator : CountedCoordinator) : Prop :=
  ∀ groupId group, coordinator.groups.lookup groupId = some group → group.StateAgrees

def SyncsMembers (coordinator : CountedCoordinator) : GroupAction → Prop
  | .sync groupId generationId _ assignments =>
      ∀ group, coordinator.groups.lookup groupId = some group →
        group.generationId = generationId → assignments.keys ≠ [] → group.members.keys ≠ []
  | _ => True

theorem stateAgrees_join (group : ConsumerGroup) (mid cid proto : String) :
    (group.join mid cid proto).StateAgrees := by
  have hmem : mid ∈ (group.join mid cid proto).members :=
    (AList.mem_insert _).mpr (Or.inl rfl)
  exact iff_of_false nofun (List.ne_nil_of_mem (AList.mem_keys.mp hmem))

theorem stateAgrees_assign_iff (h : group.StateAgrees) (asgs : HashMap String Bytes) :
    (group.assign asgs).StateAgrees ↔ (asgs.keys ≠ [] → group.members.keys ≠ []) := by
  rw [StateAgrees, keys_assign, assign]
  split
  · next hnone => exact iff_of_true h fun hsome => absurd (List.isEmpty_iff.mp hnone) hsome
  · next hsome =>
    have hsome : asgs.keys ≠ [] := fun hnone => hsome (List.isEmpty_iff.mpr hnone)
    simp [hsome]

theorem stateAgrees_leave (h : group.StateAgrees) (mid : String) :
    (leave mid group).StateAgrees := by
  rw [leave]
  split
  · next hnone => exact iff_of_true rfl (List.isEmpty_iff.mp hnone)
  · next hsome =>
    have hsome : (group.members.erase mid).keys ≠ [] :=
      fun hnone => hsome (List.isEmpty_iff.mpr hnone)
    split
    · exact iff_of_false (by rintro ⟨⟩) hsome
    · refine iff_of_false (fun hemp => hsome ?_) hsome
      rw [AList.keys_erase, h.mp hemp]
      rfl

theorem StatesAgree.getD (h : coordinator.StatesAgree) (gid : String) :
    ((coordinator.groups.lookup gid).getD (.new gid)).StateAgrees := by
  cases hl : coordinator.groups.lookup gid with
  | none => exact iff_of_true rfl rfl
  | some group => exact h gid group hl

theorem statesAgree_iff_of_lookup (h : coordinator.StatesAgree) {gid : String}
    {changed : Option ConsumerGroup} (hl : ∀ gid', coordinator'.groups.lookup gid' =
      if gid' = gid then changed else coordinator.groups.lookup gid') :
    coordinator'.StatesAgree ↔ ∀ group, changed = some group → group.StateAgrees := by
  constructor
  · intro h' group hg
    exact h' gid group (by rw [hl, if_pos rfl, hg])
  · intro hchanged gid' group hg
    rw [hl] at hg
    split at hg
    · exact hchanged group hg
    · exact h gid' group hg

theorem statesAgree_exec_iff (h : coordinator.StatesAgree) {action : GroupAction}
    (hexec : coordinator.exec action = some coordinator') :
    coordinator'.StatesAgree ↔ coordinator.SyncsMembers action := by
  cases action with
  | join groupId memberId clientId protocolType =>
    cases hexec
    rw [statesAgree_iff_of_lookup h (lookup_join coordinator groupId memberId clientId protocolType)]
    refine iff_of_true (fun group hg => ?_) trivial
    cases hg
    exact stateAgrees_join _ _ _ _
  | sync groupId generationId memberId assignments =>
    cases hexec
    rw [statesAgree_iff_of_lookup h
      (lookup_sync coordinator groupId generationId memberId assignments)]
    rw [SyncsMembers]
    cases hl : coordinator.groups.lookup groupId with
    | none => exact iff_of_true nofun nofun
    | some group =>
      have hassign := stateAgrees_assign_iff (h groupId group hl) assignments
      by_cases hgen : group.generationId = generationId
      · simp [hgen, hassign]
      · simp [hgen, h groupId group hl]
  | leave groupId memberId =>
    cases hexec
    rw [statesAgree_iff_of_lookup h (lookup_leave coordinator groupId memberId)]
    refine iff_of_true (fun group hg => ?_) trivial
    obtain ⟨old, hold, rfl⟩ := Option.map_eq_some_iff.mp hg
    exact stateAgrees_leave (h groupId old hold) memberId
  | commit groupId tp offset =>
    cases hexec
    rw [statesAgree_iff_of_lookup h (lookup_commit coordinator groupId tp offset)]
    refine iff_of_true (fun group hg => ?_) trivial
    cases hg
    exact h.getD groupId
  | delete groupIds =>
    cases hexec
    refine iff_of_true (fun groupId group hg => ?_) trivial
    rcases lookup_deleteGroups coordinator.toGroupCoordinator groupIds groupId with hsame | hnone
    · exact h groupId group (hsame.symm.trans hg)
    · cases hnone.symm.trans hg
  | reset =>
    cases hexec
    exact iff_of_true nofun trivial
  | rehash groupId members =>
    obtain ⟨old, hold, hperm, hl⟩ := lookup_rehash hexec
    rw [statesAgree_iff_of_lookup h hl]
    refine iff_of_true (fun group hg => ?_) trivial
    cases hg
    exact (h groupId old hold).trans (keys_nil_iff_of_perm hperm).symm

theorem states_agree_iff {actions : List GroupAction} (hrun : run exec new actions = some coordinator) :
    (∀ front, front <+: actions → ∀ coordinator, run exec new front = some coordinator →
      coordinator.StatesAgree) ↔ Along exec SyncsMembers new actions := by
  have hnew : new.StatesAgree := nofun
  exact reached_iff_along (fun _ _ _ (_ : True) _ _ => trivial)
    (fun _ _ _ _ h hexec => statesAgree_exec_iff h hexec) trivial hnew hrun

def leaderLeaves : List GroupAction :=
  [.join "g" "a" "client" "consumer", .sync "g" 1 "a" ((∅ : HashMap String Bytes).insert "a" [0]),
    .leave "g" "a"]

theorem leaderLeaves_states_agree : (run exec new leaderLeaves).isSome ∧
    ∀ front, front <+: leaderLeaves → ∀ coordinator, run exec new front = some coordinator →
      coordinator.StatesAgree := by
  refine ⟨rfl, (states_agree_iff (rfl : run exec new leaderLeaves = some _)).mpr ?_⟩
  refine .cons trivial rfl (.cons (fun group hg _ _ => ?_) rfl (.cons trivial rfl trivial))
  cases hg
  exact List.cons_ne_nil _ _

theorem departed_sync_makes_stable : ∃ coordinator group, run exec new (leaderLeaves ++
        [.sync "g" 1 "a" ((∅ : HashMap String Bytes).insert "a" [1])]) = some coordinator ∧
      coordinator.groups.lookup "g" = some group ∧ group.members.keys = [] ∧
      group.state = .stable :=
  ⟨_, _, rfl, rfl, rfl, rfl⟩

end CountedCoordinator

namespace Handler

variable {W : Type} (engine : BrokerEngine W) (principal : String) (request : OffsetCommitRequest)

def committed (isAuthorized : Bool) (groupId : String) (engine : BrokerEngine W)
    (t : OffsetCommitTopic) : BrokerEngine W :=
  t.partitions.foldl (fun engine p => if isAuthorized then
    { engine with
      coordinator := engine.coordinator.commitOffset groupId ⟨t.topic, p.partition⟩
        p.committedOffset }
    else engine) engine

theorem run_offsetCommit :
    let isAuthorized := engine.authorizer.permits principal .group request.groupId .read
    let code : KafkaErrorCode := if isAuthorized then .none else .groupAuthorizationFailed
    (offsetCommit principal request).run engine =
      some (⟨0, request.topics.map fun t => ⟨t.topic, t.partitions.map fun p => ⟨p.partition, code⟩⟩⟩,
        request.topics.foldl (committed isAuthorized request.groupId) engine) := by
  intro isAuthorized code
  have hpart : ∀ (topic : String) (p : OffsetCommitPartition) (engine : BrokerEngine W),
      (offsetCommitPartition isAuthorized request.groupId topic p).run engine =
        some (⟨p.partition, code⟩, if isAuthorized then
          { engine with
            coordinator := engine.coordinator.commitOffset request.groupId ⟨topic, p.partition⟩
              p.committedOffset }
          else engine) := by
    intro topic p engine
    simp only [offsetCommitPartition, code]
    cases isAuthorized with
    | false => rfl
    | true => rfl
  have ht : ∀ (t : OffsetCommitTopic) (engine : BrokerEngine W),
      (do return OffsetCommitTopicResponse.mk t.topic (← t.partitions.mapM
        (offsetCommitPartition isAuthorized request.groupId t.topic)) : Handler W _).run engine =
        some (⟨t.topic, t.partitions.map fun p => ⟨p.partition, code⟩⟩,
          committed isAuthorized request.groupId engine t) := by
    intro t engine
    rw [StateT.run_bind, run_mapM_of_returns (hpart t.topic)]
    rfl
  have hask : (permits principal .group request.groupId .read : Handler W Bool).run engine =
      some (isAuthorized, engine) := rfl
  rw [offsetCommit, StateT.run_bind, hask, Option.bind_eq_bind, Option.bind_some, StateT.run_bind,
    run_mapM_of_returns ht]
  rfl

def Evicted : Prop :=
  (∃ group, engine.coordinator.groups.lookup request.groupId = some group ∧
    group.members.keys ≠ []) ∧
  engine.coordinator.handleHeartbeat request.groupId request.generationId request.memberId ≠ .none

def CommitRefused : Prop :=
  ∃ response engine', (offsetCommit principal request).run engine = some (response, engine') ∧
    (∀ groupId tp, engine'.coordinator.fetchOffset groupId tp =
      engine.coordinator.fetchOffset groupId tp) ∧
    response.topics.map (fun t => (t.topic, t.partitions.map (·.partition))) =
      request.topics.map (fun t => (t.topic, t.partitions.map (·.partition))) ∧
    ∀ t ∈ response.topics, ∀ p ∈ t.partitions, p.errorCode ≠ .none

theorem evicted_commit_refused_iff :
    (Evicted engine request → CommitRefused engine principal request) ↔ (Evicted engine request →
        engine.authorizer.permits principal .group request.groupId .read = false ∨
          ∀ t ∈ request.topics, t.partitions = []) := by
  refine imp_congr_right fun _ => ?_
  rw [CommitRefused]
  simp only [run_offsetCommit, Option.some.injEq, Prod.mk.injEq]
  constructor
  · rintro ⟨_, _, ⟨rfl, rfl⟩, -, -, herrors⟩
    by_contra hnot
    obtain ⟨hperm, hsome⟩ := not_or.mp hnot
    rw [Bool.not_eq_false] at hperm
    refine hsome fun t ht => List.eq_nil_iff_forall_not_mem.mpr fun p hp => ?_
    refine herrors _ (List.mem_map_of_mem ht) _ (List.mem_map_of_mem hp) ?_
    rw [if_pos hperm]
  · intro h
    refine ⟨_, _, ⟨rfl, rfl⟩, ?_, by simp [Function.comp_def], ?_⟩
    · intro groupId tp
      have hsame : request.topics.foldl (committed (engine.authorizer.permits principal .group
          request.groupId .read) request.groupId) engine = engine := by
        refine List.foldlRecOn (motive := (· = engine)) request.topics _ rfl fun _ heq t ht => ?_
        rw [heq, committed]
        rcases h with h | h
        · rw [h]
          exact List.foldl_fixed _
        · rw [h t ht]
          rfl
      rw [hsame]
    · simp only [List.forall_mem_map]
      intro t ht p hp
      rcases h with h | h
      · rw [h]
        exact nofun
      · rw [h t ht] at hp
        cases hp

def twoMembers : BrokerEngine Unit :=
  ⟨ClusterState.new ⟨(), ∅, .new 64, .new 64⟩, ⟨0, "localhost", 9092, "c"⟩,
    ((CountedCoordinator.new.handleJoinGroup "g" "a" "client" "consumer").1.handleJoinGroup "g" "b"
      "client" "consumer").1.toGroupCoordinator, .new, .new false [] true⟩

def staleCommit : OffsetCommitRequest := ⟨"g", 1, "a", [⟨"t", [⟨0, 5, none⟩]⟩]⟩

theorem evicted_commit_accepted : Evicted twoMembers staleCommit ∧
    twoMembers.coordinator.fetchOffset "g" ⟨"t", 0⟩ = none ∧
    ((offsetCommit "User:a" staleCommit).run twoMembers).map (fun outcome =>
      (outcome.1.topics.map fun t => t.partitions.map (·.errorCode),
        outcome.2.coordinator.fetchOffset "g" ⟨"t", 0⟩)) = some ([[.none]], some 5) := by
  refine ⟨⟨⟨_, rfl, List.cons_ne_nil _ _⟩, by decide +kernel⟩, by decide +kernel, by decide +kernel⟩

end Handler

end OxideMq.Broker
