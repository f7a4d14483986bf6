import Keldra.Foundation.OrdMap

/-!
# Consensus data model

The records, commands and results of the replicated decision state machine.

Fixed-width unsigned integers are natural numbers; the places where the code
checks or saturates an addition state the width explicitly.  A 32-byte digest
is a `BitVec 256`, and the all-zero digest is the reserved invalid value.
-/

namespace Keldra.Consensus

open Foundation

def atomicReplayRetentionMillis : Nat := 24 * 60 * 60 * 1000
def maxCommittedInvocations : Nat := 4096
def maxCommittedInvocationBytes : Nat := 16 * 1024 * 1024
def systemBootstrapVersion : Nat := 1
def clusterControlCommandVersion : Nat := 1
def maxPeerAddressBytes : Nat := 255
def fixedVoterTarget : Nat := 3
def maxRaftNodeId : Nat := 1023

/-- Largest value of a 64-bit unsigned integer. -/
def u64Max : Nat := 2 ^ 64 - 1

/-- Addition that fails above the 64-bit range. -/
def checkedAdd64 (a b : Nat) : Option Nat :=
  if a + b ≤ u64Max then some (a + b) else none

/-- Subtraction that fails below zero. -/
def checkedSub64 (a b : Nat) : Option Nat :=
  if b ≤ a then some (a - b) else none

/-- Stable identity of one Raft voter or learner. -/
abbrev NodeId := Nat

structure CommittedLeaderId where
  term : Nat
  nodeId : Nat
deriving DecidableEq, Repr

/-- Identity of one committed Raft log entry. -/
structure LogId where
  leaderId : CommittedLeaderId
  index : Nat
deriving DecidableEq, Repr

structure ClusterId where
  bytes : BitVec 128
deriving DecidableEq, Repr

structure PeerAddress where
  value : String
deriving DecidableEq, Repr

/-- Inclusive protocol or storage-format capability range. -/
structure CapabilityRange where
  min : Nat
  max : Nat
deriving DecidableEq, Repr

structure PeerSpkiSha256 where
  bytes : BitVec 256
deriving DecidableEq, Repr

structure JoinCapabilityHash where
  bytes : BitVec 256
deriving DecidableEq, Repr

structure JwtSigningKeyFingerprint where
  bytes : BitVec 256
deriving DecidableEq, Repr

structure ErasureCodeProfile where
  dataShards : Nat
  parityShards : Nat
  stripeUnit : Nat
deriving DecidableEq, Repr

inductive NodeState where
  | joining
  | active
deriving DecidableEq, Repr

/-- Bounded cluster-control record for one admitted node. -/
structure NodeDescriptor where
  nodeId : NodeId
  peerAddress : PeerAddress
  storageWeightMillionths : Nat
  state : NodeState
  currentPeerSpkiSha256 : PeerSpkiSha256
  overlapPeerSpkiSha256 : Option PeerSpkiSha256
  joinCapabilityHash : Option JoinCapabilityHash
  supportedProtocol : CapabilityRange
  supportedStorageFormat : CapabilityRange
deriving DecidableEq, Repr

inductive MembershipTransitionKind where
  | add
  | remove
  | reweight
deriving DecidableEq, Repr

/-- The one cluster membership operation that may be in flight. -/
structure MembershipTransition where
  kind : MembershipTransitionKind
  nodeId : NodeId
  startedLogIndex : Nat
  targetWeightMillionths : Option Nat
deriving DecidableEq, Repr

/-- Fixed 1024-bit evidence that a stable node ID has ever been admitted. -/
structure UsedNodeIds where
  words : Vector (BitVec 64) 16
deriving DecidableEq, Repr

namespace UsedNodeIds

def default : UsedNodeIds := ⟨Vector.replicate 16 0⟩

def contains (used : UsedNodeIds) (nodeId : NodeId) : Bool :=
  match used.words[nodeId / 64]? with
  | none => false
  | some word => word &&& (1#64 <<< (nodeId % 64)) != 0

def insert (used : UsedNodeIds) (nodeId : NodeId) : UsedNodeIds :=
  ⟨used.words.setIfInBounds (nodeId / 64)
    (used.words.getD (nodeId / 64) 0 ||| (1#64 <<< (nodeId % 64)))⟩

end UsedNodeIds

/-- Bounded cluster-control state retained by every Raft snapshot. -/
structure ClusterControlState where
  nodes : OrdMap NodeId NodeDescriptor
  usedNodeIds : UsedNodeIds
  transition : Option MembershipTransition
  jwtSigningKeyFingerprint : Option JwtSigningKeyFingerprint
  erasureCodeProfile : Option ErasureCodeProfile
  activePlacementLogId : Option LogId
  activeProtocolVersion : Nat
  activeStorageFormat : Nat
deriving DecidableEq

namespace ClusterControlState

def default : ClusterControlState where
  nodes := OrdMap.empty
  usedNodeIds := UsedNodeIds.default
  transition := none
  jwtSigningKeyFingerprint := none
  erasureCodeProfile := none
  activePlacementLogId := none
  activeProtocolVersion := 1
  activeStorageFormat := 1

def activeNodeCount (cluster : ClusterControlState) : Nat :=
  (cluster.nodes.values.filter (fun descriptor => descriptor.state = .active)).length

def voterTarget (cluster : ClusterControlState) : Nat :=
  min cluster.activeNodeCount fixedVoterTarget

end ClusterControlState

structure ProgramPathHash where
  bytes : BitVec 256
deriving DecidableEq, Repr

structure ProgramHash where
  bytes : BitVec 256
deriving DecidableEq, Repr

/-- Content-addressed location of one immutable prepared bundle. -/
structure BundleRef where
  hash : BitVec 256
  length : Nat
deriving DecidableEq, Repr

structure DurabilityClass where
  bytes : BitVec 256
deriving DecidableEq, Repr

structure DurabilityEvidenceHash where
  bytes : BitVec 256
deriving DecidableEq, Repr

/-- Caller-chosen stable identity of one logical invocation. -/
structure InvocationId where
  bytes : BitVec 256
deriving DecidableEq, Repr

structure InvocationFingerprint where
  bytes : BitVec 256
deriving DecidableEq, Repr

/-- Sealed authority under which an atomic bundle was produced. -/
inductive AtomicBundleAuthority where
  | storedProgram (programPathHash : ProgramPathHash) (programHash : ProgramHash)
  | builtInObjectTransaction (kind : Nat) (contractVersion : Nat)
deriving DecidableEq, Repr

structure ParticipantManifestHash where
  bytes : BitVec 256
deriving DecidableEq, Repr

/-- The one cluster-wide executor and its Raft-derived fence. -/
structure ExecutorNomination where
  executor : NodeId
  nominationLogIndex : Nat
deriving DecidableEq, Repr

inductive SystemBootstrapState where
  | missing
  | complete (version : Nat) (committedLogIndex : Nat)
deriving DecidableEq, Repr

/-- A request to begin reservation of one prepared atomic batch. -/
structure BeginBatch where
  executor : NodeId
  nominationLogIndex : Nat
  authority : AtomicBundleAuthority
  invocationId : InvocationId
  inputFingerprint : InvocationFingerprint
  bundleRef : BundleRef
  durabilityClass : DurabilityClass
  durabilityEvidenceHash : DurabilityEvidenceHash
  participantManifestHash : ParticipantManifestHash
  proposalAtUnixMillis : Nat
  replayExpiresAtUnixMillis : Nat
deriving DecidableEq, Repr

/-- The one durable preparing transaction. -/
structure PreparedBatch where
  beginCursor : Nat
  request : BeginBatch
deriving DecidableEq, Repr

structure CommitPreparedBatch where
  executor : NodeId
  nominationLogIndex : Nat
  beginCursor : Nat
  invocationId : InvocationId
  participantManifestHash : ParticipantManifestHash
deriving DecidableEq, Repr

structure AbortPreparedBatch where
  executor : NodeId
  nominationLogIndex : Nat
  beginCursor : Nat
  invocationId : InvocationId
  participantManifestHash : ParticipantManifestHash
deriving DecidableEq, Repr

/-- One retained, globally ordered batch decision. -/
structure CommittedBatch where
  commitCursor : Nat
  executor : NodeId
  nominationLogIndex : Nat
  beginCursor : Nat
  authority : AtomicBundleAuthority
  bundleRef : BundleRef
  durabilityClass : DurabilityClass
  durabilityEvidenceHash : DurabilityEvidenceHash
  participantManifestHash : ParticipantManifestHash
deriving DecidableEq, Repr

/-- One committed invocation retained for replay. -/
structure CommittedInvocation where
  invocationId : InvocationId
  inputFingerprint : InvocationFingerprint
  proposalAtUnixMillis : Nat
  replayExpiresAtUnixMillis : Nat
  committedBatch : CommittedBatch
deriving DecidableEq, Repr

structure CommitResult where
  invocation : CommittedInvocation
  replayed : Bool
deriving DecidableEq, Repr

inductive BeginResult where
  | prepared (batch : PreparedBatch) (replayed : Bool)
  | alreadyCommitted (result : CommitResult)
deriving DecidableEq, Repr

/-- Commands accepted by the replicated state machine. -/
inductive Command where
  | nominateExecutor (executor : NodeId)
  | finalizedThrough (executor : NodeId) (nominationLogIndex : Nat) (throughCommitCursor : Nat)
  | initializeCluster (clusterId : ClusterId)
  | completeSystemBootstrap (executor : NodeId) (nominationLogIndex : Nat) (bootstrapVersion : Nat)
  | beginAddNode (formatVersion : Nat) (descriptor : NodeDescriptor)
  | beginRemoveNode (formatVersion : Nat) (nodeId : NodeId)
  | beginReweightNode (formatVersion : Nat) (nodeId : NodeId) (storageWeightMillionths : Nat)
  | completeMembershipTransition (formatVersion : Nat) (startedLogIndex : Nat)
  | stagePeerSpkiOverlap (formatVersion : Nat) (nodeId : NodeId) (expectedCurrent : PeerSpkiSha256)
      (overlap : PeerSpkiSha256)
  | promotePeerSpkiOverlap (formatVersion : Nat) (nodeId : NodeId)
      (expectedCurrent : PeerSpkiSha256)
      (expectedOverlap : PeerSpkiSha256)
  | clearPeerSpkiOverlap (formatVersion : Nat) (nodeId : NodeId) (expectedCurrent : PeerSpkiSha256)
      (expectedOverlap : PeerSpkiSha256)
  | bindJwtSigningKeyFingerprint (formatVersion : Nat) (fingerprint : JwtSigningKeyFingerprint)
  | bindErasureCodeProfile (formatVersion : Nat) (profile : ErasureCodeProfile)
  | refreshJoiningNodePreparation (formatVersion : Nat) (nodeId : NodeId) (startedLogIndex : Nat)
      (expectedPeerSpkiSha256 : PeerSpkiSha256)
      (expectedJoinCapabilityHash : JoinCapabilityHash)
      (replacementPeerSpkiSha256 : PeerSpkiSha256)
      (replacementJoinCapabilityHash : JoinCapabilityHash)
  | beginBatch (batch : BeginBatch)
  | commitPreparedBatch (batch : CommitPreparedBatch)
  | abortPreparedBatch (batch : AbortPreparedBatch)
deriving DecidableEq, Repr

inductive ApplyResult where
  | executorNominated (nomination : ExecutorNomination)
  | batchBegun (result : BeginResult)
  | batchCommitted (result : CommitResult)
  | batchAborted (beginCursor : Nat)
  | finalizationAdvanced (throughCommitCursor : Nat)
  | clusterInitialized (clusterId : ClusterId)
  | systemBootstrapCompleted (state : SystemBootstrapState)
  | membershipTransitionBegun (transition : MembershipTransition)
  | membershipTransitionAdvanced (transition : MembershipTransition)
  | membershipTransitionFinished (startedLogIndex : Nat)
  | peerSpkiChanged (descriptor : NodeDescriptor)
  | jwtSigningKeyFingerprintBound (fingerprint : JwtSigningKeyFingerprint)
  | erasureCodeProfileBound (profile : ErasureCodeProfile)
  | joiningNodePreparationRefreshed (descriptor : NodeDescriptor)
deriving DecidableEq, Repr

/-- Reasons for which a committed command is rejected. -/
inductive ApplyError where
  | invalidCommitEntryLimit
  | invalidCommitByteLimit
  | invalidNodeId
  | executorNotCurrentMember (executor : NodeId)
  | executorNotActiveMember (executor : NodeId)
  | executorNotNominated
  | notCurrentExecutor (current requested : NodeId)
  | nominationFenceMismatch (expected requested : Nat)
  | invalidBundleAuthority
  | invalidInvocationId
  | invalidInvocationFingerprint
  | invalidBundleRef
  | invalidDurabilityClass
  | invalidDurabilityEvidenceHash
  | invalidParticipantManifestHash
  | invalidProposalTime
  | invalidReplayExpiry
  | idempotencyConflict (invocationId : InvocationId)
  | batchPreparationInProgress (beginCursor : Nat)
  | noPreparedBatch
  | preparedBatchIdentityMismatch
  | commitCursorDidNotAdvance (current : Option Nat) (requested : Nat)
  | commitCursorNotAfterFinalization (finalizedThrough : Option Nat) (requested : Nat)
  | commitTailFull (entries bytes requiredBytes maxEntries maxBytes : Nat)
  | committedInvocationWindowFull (entries bytes requiredBytes : Nat)
  | commitTailByteCountExhausted
  | committedInvocationByteCountExhausted
  | committedInvocationAccountingCorrupt
  | committedInvocationEncodingFailed
  | noCommittedBatchToFinalize
  | finalizedThroughRegressed (current requested : Nat)
  | finalizedBeyondLastCommit (lastCommitCursor requested : Nat)
  | invalidClusterId
  | clusterIdentityConflict (current requested : ClusterId)
  | clusterNotInitialized
  | unsupportedSystemBootstrapVersion (requested : Nat)
  | systemBootstrapVersionConflict (current requested : Nat)
  | unsupportedClusterControlVersion (requested : Nat)
  | invalidPeerAddress
  | invalidStorageWeight
  | invalidCapabilityRange (min max : Nat)
  | activeNodeLacksCapability
  | invalidPeerSpki
  | invalidJoinCapabilityHash
  | addedNodeMustBeJoining
  | joiningNodeRequiresCapability
  | joiningNodeCannotRotatePeerPin
  | activeNodeRetainsJoinCapability
  | nodeIdAlreadyUsed (nodeId : NodeId)
  | nodeNotAdmitted (nodeId : NodeId)
  | nodeNotActive (nodeId : NodeId)
  | cannotRemoveLastActiveNode
  | storageWeightUnchanged
  | membershipTransitionInProgress (startedLogIndex : Nat)
  | noMembershipTransition
  | membershipTransitionFenceMismatch (expected requested : Nat)
  | membershipTransitionStateMismatch
  | nodeMembershipTransitionInProgress (nodeId : NodeId)
  | transitionNodeNotCurrentMember (nodeId : NodeId)
  | raftMemberDescriptorMissing (nodeId : NodeId)
  | raftMemberAddressMismatch (nodeId : NodeId)
  | removingNodeIsStillMember (nodeId : NodeId)
  | voterTargetMismatch (expected actual : Nat)
  | voterNotActive (nodeId : NodeId)
  | peerAddressAlreadyUsed
  | peerSpkiAlreadyUsed
  | joinCapabilityAlreadyUsed
  | peerPinsMustDiffer
  | peerCurrentPinMismatch (nodeId : NodeId)
  | peerOverlapAlreadySet (nodeId : NodeId)
  | peerPinPairMismatch (nodeId : NodeId)
  | joiningPreparationPairMismatch (nodeId : NodeId)
  | joiningPreparationUnchanged (nodeId : NodeId)
  | joiningNodeAlreadyRaftMember (nodeId : NodeId)
  | invalidJwtSigningKeyFingerprint
  | jwtSigningKeyFingerprintConflict (current requested : JwtSigningKeyFingerprint)
  | invalidErasureCodeProfile
  | erasureCodeProfileConflict (current requested : ErasureCodeProfile)
deriving DecidableEq, Repr

/--
Pure deterministic state of the compact consensus log.

Committed invocations are keyed by their original Raft log index.  The
configured bounds apply to the unfinalized recovery tail; the fixed bounds
apply to the independently retained replay window.
-/
structure StateMachine where
  maxCommitEntries : Nat
  maxCommitBytes : Nat
  clusterId : Option ClusterId
  systemBootstrap : SystemBootstrapState
  clusterControl : ClusterControlState
  executor : Option ExecutorNomination
  preparingBatch : Option PreparedBatch
  committedInvocations : OrdMap Nat CommittedInvocation
  committedInvocationBytes : Nat
  lastCommitCursor : Option Nat
  finalizedThrough : Option Nat
deriving DecidableEq

end Keldra.Consensus
