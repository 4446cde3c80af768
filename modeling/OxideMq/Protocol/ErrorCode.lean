import Mathlib

/-! Error codes of the wire protocol, as far as the broker uses them. -/

namespace OxideMq.Protocol

inductive KafkaErrorCode where
  | none
  | offsetOutOfRange
  | corruptMessage
  | unknownTopicOrPartition
  | invalidFetchSize
  | leaderNotAvailable
  | notLeaderOrFollower
  | requestTimedOut
  | brokerNotAvailable
  | replicaNotAvailable
  | messageTooLarge
  | staleControllerEpoch
  | offsetMetadataTooLarge
  | networkException
  | coordinatorLoadInProgress
  | coordinatorNotAvailable
  | notCoordinator
  | invalidTopicException
  | recordListTooLarge
  | notEnoughReplicas
  | notEnoughReplicasAfterAppend
  | invalidRequiredAcks
  | illegalGeneration
  | inconsistentGroupProtocol
  | invalidGroupId
  | unknownMemberId
  | invalidSessionTimeout
  | rebalanceInProgress
  | invalidCommitOffsetSize
  | topicAuthorizationFailed
  | groupAuthorizationFailed
  | clusterAuthorizationFailed
  | invalidTimestamp
  | unsupportedSaslMechanism
  | illegalSaslState
  | unsupportedVersion
  | topicAlreadyExists
  | invalidPartitions
  | invalidReplicationFactor
  | invalidConfig
  | invalidRequest
  | invalidProducerEpoch
  | invalidTxnState
  | invalidProducerIdMapping
  | concurrentTransactions
  | producerFenced
  | transactionalIdAuthorizationFailed
  | saslAuthenticationFailed
  | nonEmptyGroup
  | groupIdNotFound
  | invalidRecord
  | unknownServer
  deriving DecidableEq, Repr

def KafkaErrorCode.code : KafkaErrorCode → ℤ
  | .none => 0
  | .offsetOutOfRange => 1
  | .corruptMessage => 2
  | .unknownTopicOrPartition => 3
  | .invalidFetchSize => 4
  | .leaderNotAvailable => 5
  | .notLeaderOrFollower => 6
  | .requestTimedOut => 7
  | .brokerNotAvailable => 8
  | .replicaNotAvailable => 9
  | .messageTooLarge => 10
  | .staleControllerEpoch => 11
  | .offsetMetadataTooLarge => 12
  | .networkException => 13
  | .coordinatorLoadInProgress => 14
  | .coordinatorNotAvailable => 15
  | .notCoordinator => 16
  | .invalidTopicException => 17
  | .recordListTooLarge => 18
  | .notEnoughReplicas => 19
  | .notEnoughReplicasAfterAppend => 20
  | .invalidRequiredAcks => 21
  | .illegalGeneration => 22
  | .inconsistentGroupProtocol => 23
  | .invalidGroupId => 24
  | .unknownMemberId => 25
  | .invalidSessionTimeout => 26
  | .rebalanceInProgress => 27
  | .invalidCommitOffsetSize => 28
  | .topicAuthorizationFailed => 29
  | .groupAuthorizationFailed => 30
  | .clusterAuthorizationFailed => 31
  | .invalidTimestamp => 32
  | .unsupportedSaslMechanism => 33
  | .illegalSaslState => 34
  | .unsupportedVersion => 35
  | .topicAlreadyExists => 36
  | .invalidPartitions => 37
  | .invalidReplicationFactor => 38
  | .invalidConfig => 40
  | .invalidRequest => 42
  | .invalidProducerEpoch => 47
  | .invalidTxnState => 48
  | .invalidProducerIdMapping => 49
  | .concurrentTransactions => 51
  | .producerFenced => 52
  | .transactionalIdAuthorizationFailed => 53
  | .saslAuthenticationFailed => 58
  | .nonEmptyGroup => 68
  | .groupIdNotFound => 69
  | .invalidRecord => 87
  | .unknownServer => -1

def KafkaErrorCode.fromI16 : ℤ → KafkaErrorCode
  | 0 => .none
  | 1 => .offsetOutOfRange
  | 2 => .corruptMessage
  | 3 => .unknownTopicOrPartition
  | 4 => .invalidFetchSize
  | 5 => .leaderNotAvailable
  | 6 => .notLeaderOrFollower
  | 7 => .requestTimedOut
  | 8 => .brokerNotAvailable
  | 9 => .replicaNotAvailable
  | 10 => .messageTooLarge
  | 11 => .staleControllerEpoch
  | 12 => .offsetMetadataTooLarge
  | 13 => .networkException
  | 14 => .coordinatorLoadInProgress
  | 15 => .coordinatorNotAvailable
  | 16 => .notCoordinator
  | 17 => .invalidTopicException
  | 18 => .recordListTooLarge
  | 19 => .notEnoughReplicas
  | 20 => .notEnoughReplicasAfterAppend
  | 21 => .invalidRequiredAcks
  | 22 => .illegalGeneration
  | 23 => .inconsistentGroupProtocol
  | 24 => .invalidGroupId
  | 25 => .unknownMemberId
  | 26 => .invalidSessionTimeout
  | 27 => .rebalanceInProgress
  | 28 => .invalidCommitOffsetSize
  | 29 => .topicAuthorizationFailed
  | 30 => .groupAuthorizationFailed
  | 31 => .clusterAuthorizationFailed
  | 32 => .invalidTimestamp
  | 33 => .unsupportedSaslMechanism
  | 34 => .illegalSaslState
  | 35 => .unsupportedVersion
  | 36 => .topicAlreadyExists
  | 37 => .invalidPartitions
  | 38 => .invalidReplicationFactor
  | 40 => .invalidConfig
  | 42 => .invalidRequest
  | 47 => .invalidProducerEpoch
  | 48 => .invalidTxnState
  | 49 => .invalidProducerIdMapping
  | 51 => .concurrentTransactions
  | 52 => .producerFenced
  | 53 => .transactionalIdAuthorizationFailed
  | 58 => .saslAuthenticationFailed
  | 68 => .nonEmptyGroup
  | 69 => .groupIdNotFound
  | 87 => .invalidRecord
  | _ => .unknownServer

theorem KafkaErrorCode.fromI16_code (c : KafkaErrorCode) : fromI16 c.code = c := by
  cases c with
  | _ => rfl

end OxideMq.Protocol
