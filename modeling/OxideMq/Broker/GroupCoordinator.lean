import OxideMq.Protocol.ErrorCode
import OxideMq.Protocol.Requests
import OxideMq.Broker.Partition

/-! The coordinator of consumer groups: who is a member of a group, which state its rebalance is
in, and up to where it has consumed each partition. -/

namespace OxideMq.Broker

open Lib OxideMq.Protocol

inductive GroupState where
  | empty
  | preparingRebalance
  | completingRebalance
  | stable
  | dead
  deriving DecidableEq, Repr

/-- The name of a state, as `Debug` renders it. -/
def GroupState.debug : GroupState → String
  | .empty => "Empty"
  | .preparingRebalance => "PreparingRebalance"
  | .completingRebalance => "CompletingRebalance"
  | .stable => "Stable"
  | .dead => "Dead"

structure GroupMember where
  memberId : String
  clientId : String
  clientHost : String
  protocolMetadata : Bytes
  assignment : Bytes
  deriving DecidableEq, Repr

structure ConsumerGroup where
  groupId : String
  state : GroupState
  generationId : ℤ
  leaderId : Option String
  protocolType : String
  protocolName : Option String
  members : HashMap String GroupMember
  offsets : HashMap TopicPartition ℤ

def ConsumerGroup.new (groupId : String) : ConsumerGroup :=
  ⟨groupId, .empty, 0, none, "", none, ∅, ∅⟩

structure DescribedGroupMember where
  memberId : String
  clientId : String
  clientHost : String
  memberMetadata : Bytes
  memberAssignment : Bytes
  deriving DecidableEq, Repr

structure DescribedGroup where
  errorCode : KafkaErrorCode
  groupId : String
  groupState : String
  protocolType : String
  protocolData : String
  members : List DescribedGroupMember
  deriving DecidableEq, Repr

structure GroupCoordinator where
  groups : HashMap String ConsumerGroup

namespace GroupCoordinator

def new : GroupCoordinator := ⟨∅⟩

def handleHeartbeat (coordinator : GroupCoordinator) (groupId : String) (generationId : ℤ)
    (memberId : String) : KafkaErrorCode :=
  match coordinator.groups.lookup groupId with
  | none => .invalidGroupId
  | some group =>
      if group.generationId ≠ generationId then .illegalGeneration
      else if (group.members.lookup memberId).isNone then .unknownMemberId
      else .none

def leave (memberId : String) (group : ConsumerGroup) : ConsumerGroup :=
  let members := group.members.erase memberId
  if members.keys.isEmpty then
    { group with members := members, state := .empty, leaderId := none }
  else if group.leaderId = some memberId then
    { group with members := members, leaderId := members.keys.head?, state := .preparingRebalance }
  else { group with members := members }

def handleLeaveGroup (coordinator : GroupCoordinator) (groupId memberId : String) :
    GroupCoordinator × KafkaErrorCode :=
  match coordinator.groups.lookup groupId with
  | none => (coordinator, .invalidGroupId)
  | some _ => (⟨coordinator.groups.modify groupId (leave memberId)⟩, .none)

def commitOffset (coordinator : GroupCoordinator) (groupId : String) (tp : TopicPartition)
    (offset : ℤ) : GroupCoordinator :=
  ⟨(coordinator.groups.entryOrInsert groupId (ConsumerGroup.new groupId)).modify groupId
    fun group => { group with offsets := group.offsets.insert tp offset }⟩

def commitAll (coordinator : GroupCoordinator) (request : OffsetCommitRequest) :
    GroupCoordinator :=
  request.topics.foldl (fun coordinator t =>
    t.partitions.foldl (fun coordinator p =>
      coordinator.commitOffset request.groupId ⟨t.topic, p.partition⟩ p.committedOffset)
      coordinator) coordinator

def fetchOffset (coordinator : GroupCoordinator) (groupId : String) (tp : TopicPartition) :
    Option ℤ :=
  (coordinator.groups.lookup groupId).bind fun group => group.offsets.lookup tp

def reset (_ : GroupCoordinator) : GroupCoordinator := ⟨∅⟩

def listGroups (coordinator : GroupCoordinator) : List (String × String) :=
  coordinator.groups.entries.map fun e => (e.1, e.2.protocolType)

def describeGroups (coordinator : GroupCoordinator) (groupIds : List String) :
    List DescribedGroup :=
  groupIds.map fun groupId =>
    match coordinator.groups.lookup groupId with
    | some group =>
        ⟨.none, groupId, group.state.debug, group.protocolType, group.protocolName.getD "",
          group.members.values.map fun m =>
            ⟨m.memberId, m.clientId, m.clientHost, m.protocolMetadata, m.assignment⟩⟩
    | none => ⟨.none, groupId, "Dead", "", "", []⟩

def deleteGroups (coordinator : GroupCoordinator) :
    List String → GroupCoordinator × List (String × KafkaErrorCode)
  | [] => (coordinator, [])
  | groupId :: groupIds =>
      let (coordinator', result) := match coordinator.groups.lookup groupId with
        | none => (coordinator, .groupIdNotFound)
        | some group =>
            if !group.members.keys.isEmpty && group.state ≠ .empty && group.state ≠ .dead then
              (coordinator, .nonEmptyGroup)
            else (⟨coordinator.groups.erase groupId⟩, KafkaErrorCode.none)
      let (coordinator'', results) := deleteGroups coordinator' groupIds
      (coordinator'', (groupId, result) :: results)

theorem fetchOffset_commitOffset (coord : GroupCoordinator) (gid : String)
    (tp : TopicPartition) (off : ℤ) (gid' : String) (tp' : TopicPartition) :
    (coord.commitOffset gid tp off).fetchOffset gid' tp' = if gid' = gid ∧ tp' = tp then some off
      else coord.fetchOffset gid' tp' := by
  rw [fetchOffset, commitOffset, HashMap.lookup_modify]
  by_cases hg : gid' = gid
  · subst hg
    have hl : (coord.groups.entryOrInsert gid'
        (ConsumerGroup.new gid')).lookup gid' =
          some ((coord.groups.lookup gid').getD (ConsumerGroup.new gid')) := by
      rw [HashMap.lookup_entryOrInsert, if_pos rfl]
    rw [if_pos rfl, hl, Option.map_some, Option.bind_some, HashMap.lookup_insert_ite]
    by_cases htp : tp' = tp
    · rw [if_pos htp, if_pos ⟨rfl, htp⟩]
    · rw [if_neg htp, if_neg fun h => htp h.2, fetchOffset]
      cases coord.groups.lookup gid' with
      | none => rfl
      | some group => rfl
  · rw [if_neg hg, if_neg fun h => hg h.1, HashMap.lookup_entryOrInsert, if_neg hg, fetchOffset]

@[simp] theorem fetchOffset_new (gid : String) (tp : TopicPartition) :
    new.fetchOffset gid tp = none := rfl

end GroupCoordinator

end OxideMq.Broker
