import Keldra.Foundation.InPlace
import Keldra.Foundation.Text
import Keldra.Consensus.Types

/-!
# Cluster admission and membership transitions

The commands that edit node descriptors and the one bounded membership
transition.  A command reads and writes the state in place, in the order of the
code: what it has written before a check fails stays written.
-/

namespace Keldra.Consensus

open Foundation ApplyError

/-- A command that edits the state and fails or answers. -/
abbrev Edit := ExceptT ApplyError (StateM StateMachine) ApplyResult

def rangeContains (range : CapabilityRange) (version : Nat) : Bool :=
  decide (range.min ≤ version) && decide (version ≤ range.max)

def validateNodeId (nodeId : NodeId) : Except ApplyError Unit :=
  rejectIf (¬ (1 ≤ nodeId ∧ nodeId ≤ maxRaftNodeId)) .invalidNodeId

/-- A range starts above zero and its bounds are in order. -/
def validateCapabilityRange (range : CapabilityRange) : Except ApplyError Unit :=
  rejectIf (range.min = 0 ∨ range.min > range.max) (.invalidCapabilityRange range.min range.max)

def validatePin (pin : PeerSpkiSha256) : Except ApplyError Unit :=
  rejectIf (pin.bytes = 0) .invalidPeerSpki

def validateJoinCapability (capability : JoinCapabilityHash) : Except ApplyError Unit :=
  rejectIf (capability.bytes = 0) .invalidJoinCapabilityHash

def validatePeerAddress (address : PeerAddress) : Except ApplyError Unit :=
  rejectIf (address.value = "" ∨ address.value.utf8ByteSize > maxPeerAddressBytes ∨
    address.value.toList.any (fun c => isControl c || isWhitespace c) = true)
    .invalidPeerAddress

/-- The pin checks of a descriptor in a rotation. -/
def validateOverlapPin (descriptor : NodeDescriptor) : Except ApplyError Unit :=
  match descriptor.overlapPeerSpkiSha256 with
  | none => .ok ()
  | some overlap => do
    validatePin overlap
    rejectIf (overlap = descriptor.currentPeerSpkiSha256) .peerPinsMustDiffer

/-- The fields a JOINING node must have and an ACTIVE node must not keep. -/
def validateStateFields (descriptor : NodeDescriptor) : Except ApplyError Unit :=
  match descriptor.state with
  | .joining => do
    let capability ← okOr descriptor.joinCapabilityHash .joiningNodeRequiresCapability
    validateJoinCapability capability
    rejectIf (descriptor.overlapPeerSpkiSha256.isSome = true) .joiningNodeCannotRotatePeerPin
  | .active =>
    rejectIf (descriptor.joinCapabilityHash.isSome = true) .activeNodeRetainsJoinCapability

/-- A descriptor that may be stored. -/
def validateDescriptor (descriptor : NodeDescriptor) : Except ApplyError Unit := do
  validateNodeId descriptor.nodeId
  validatePeerAddress descriptor.peerAddress
  rejectIf (descriptor.storageWeightMillionths = 0) .invalidStorageWeight
  validatePin descriptor.currentPeerSpkiSha256
  validateOverlapPin descriptor
  validateCapabilityRange descriptor.supportedProtocol
  validateCapabilityRange descriptor.supportedStorageFormat
  validateStateFields descriptor

/-- The first admitted descriptor that shares an identity decides the error. -/
def ensureDescriptorUniqueAmong (candidate : NodeDescriptor) :
    List NodeDescriptor → Except ApplyError Unit
  | [] => .ok ()
  | descriptor :: rest => do
    rejectIf (descriptor.peerAddress = candidate.peerAddress) .peerAddressAlreadyUsed
    rejectIf (descriptor.currentPeerSpkiSha256 = candidate.currentPeerSpkiSha256 ∨
      descriptor.overlapPeerSpkiSha256 = some candidate.currentPeerSpkiSha256)
      .peerSpkiAlreadyUsed
    rejectIf (candidate.joinCapabilityHash.isSome = true ∧
      candidate.joinCapabilityHash = descriptor.joinCapabilityHash)
      .joinCapabilityAlreadyUsed
    ensureDescriptorUniqueAmong candidate rest

section

variable (nodes : OrdMap NodeId NodeDescriptor)

/-- A new descriptor shares no address, pin or join capability with another node. -/
def ensureDescriptorUnique (candidate : NodeDescriptor) : Except ApplyError Unit :=
  ensureDescriptorUniqueAmong candidate nodes.values

/-- A pin belongs to one node. -/
def ensurePinUnique (nodeId : NodeId) (pin : PeerSpkiSha256) : Except ApplyError Unit :=
  rejectIf (∃ e ∈ nodes.entries, e.1 ≠ nodeId ∧ (e.2.currentPeerSpkiSha256 = pin ∨
    e.2.overlapPeerSpkiSha256 = some pin))
    .peerSpkiAlreadyUsed

/-- A join capability belongs to one node. -/
def ensureJoinCapabilityUnique (nodeId : NodeId)
    (capability : JoinCapabilityHash) : Except ApplyError Unit :=
  rejectIf (∃ e ∈ nodes.entries, e.1 ≠ nodeId ∧ e.2.joinCapabilityHash = some capability)
    .joinCapabilityAlreadyUsed

end

namespace StateMachine

section

variable (s : StateMachine)

/-- Commands on nodes have the known format and an initialized cluster. -/
def requireClusterControl (formatVersion : Nat) : Except ApplyError Unit := do
  rejectIf (formatVersion ≠ clusterControlCommandVersion)
    (.unsupportedClusterControlVersion formatVersion)
  rejectIf (s.clusterId = none) .clusterNotInitialized

/-- A node under a transition is left alone. -/
def requireNodeNotTransitioning (nodeId : NodeId) : Except ApplyError Unit :=
  rejectIf (s.clusterControl.transition.any (fun t => t.nodeId = nodeId) = true)
    (.nodeMembershipTransitionInProgress nodeId)

/-- The descriptor of an admitted ACTIVE node. -/
def activeDescriptor (nodeId : NodeId) : Except ApplyError NodeDescriptor := do
  validateNodeId nodeId
  let descriptor ← okOr (s.clusterControl.nodes.get? nodeId) (.nodeNotAdmitted nodeId)
  rejectIf (descriptor.state ≠ .active) (.nodeNotActive nodeId)
  return descriptor

/-- Store the edited descriptor of an admitted node. -/
def putDescriptor (nodeId : NodeId) (descriptor : NodeDescriptor) : StateMachine :=
  { s with
    clusterControl :=
      { s.clusterControl with nodes := s.clusterControl.nodes.insert nodeId descriptor } }

/-- Replace the transition in progress. -/
def setTransition (transition : Option MembershipTransition) : StateMachine :=
  { s with clusterControl := { s.clusterControl with transition := transition } }

/-- Admit a node as JOINING. -/
def beginAddNode (formatVersion : Nat) (descriptor : NodeDescriptor)
    (committedLogIndex : Nat) : Edit := do
  let s ← get
  s.requireClusterControl formatVersion
  validateDescriptor descriptor
  rejectIf (descriptor.state ≠ .joining) addedNodeMustBeJoining
  match s.clusterControl.transition with
  | some existing =>
    -- a retry of the same admission returns the recorded transition
    rejectIf (¬ (existing.kind = .add ∧ existing.nodeId = descriptor.nodeId ∧
      existing.targetWeightMillionths = some descriptor.storageWeightMillionths ∧
      s.clusterControl.nodes.get? descriptor.nodeId = some descriptor))
      (membershipTransitionInProgress existing.startedLogIndex)
    return .membershipTransitionBegun existing
  | none =>
    rejectIf (s.clusterControl.usedNodeIds.contains descriptor.nodeId = true)
      (nodeIdAlreadyUsed descriptor.nodeId)
    ensureDescriptorUnique s.clusterControl.nodes descriptor
    let transition : MembershipTransition :=
      { kind := .add
        nodeId := descriptor.nodeId
        startedLogIndex := committedLogIndex
        targetWeightMillionths := some descriptor.storageWeightMillionths }
    modify fun s => { s with
      clusterControl :=
        { s.clusterControl with
          usedNodeIds := s.clusterControl.usedNodeIds.insert descriptor.nodeId
          nodes := s.clusterControl.nodes.insert descriptor.nodeId descriptor
          transition := some transition } }
    return .membershipTransitionBegun transition

/-- Start the removal of an ACTIVE node. -/
def beginRemoveNode (formatVersion : Nat) (nodeId : NodeId) (committedLogIndex : Nat) : Edit := do
  let s ← get
  s.requireClusterControl formatVersion
  validateNodeId nodeId
  match s.clusterControl.transition with
  | some existing =>
    rejectIf (¬ (existing.kind = .remove ∧ existing.nodeId = nodeId))
      (membershipTransitionInProgress existing.startedLogIndex)
    return .membershipTransitionBegun existing
  | none =>
    let descriptor ← okOr (s.clusterControl.nodes.get? nodeId) (nodeNotAdmitted nodeId)
    rejectIf (descriptor.state ≠ .active) (nodeNotActive nodeId)
    rejectIf (s.clusterControl.activeNodeCount = 1) cannotRemoveLastActiveNode
    let transition : MembershipTransition :=
      { kind := .remove
        nodeId := nodeId
        startedLogIndex := committedLogIndex
        targetWeightMillionths := none }
    modify (·.setTransition (some transition))
    return .membershipTransitionBegun transition

/-- Start a change of the weight of an ACTIVE node. -/
def beginReweightNode (formatVersion : Nat) (nodeId : NodeId) (storageWeightMillionths : Nat)
    (committedLogIndex : Nat) : Edit := do
  let s ← get
  s.requireClusterControl formatVersion
  validateNodeId nodeId
  rejectIf (storageWeightMillionths = 0) invalidStorageWeight
  match s.clusterControl.transition with
  | some existing =>
    rejectIf (¬ (existing.kind = .reweight ∧ existing.nodeId = nodeId ∧
      existing.targetWeightMillionths = some storageWeightMillionths))
      (membershipTransitionInProgress existing.startedLogIndex)
    return .membershipTransitionBegun existing
  | none =>
    let descriptor ← okOr (s.clusterControl.nodes.get? nodeId) (nodeNotAdmitted nodeId)
    rejectIf (descriptor.state ≠ .active) (nodeNotActive nodeId)
    rejectIf (descriptor.storageWeightMillionths = storageWeightMillionths) storageWeightUnchanged
    let transition : MembershipTransition :=
      { kind := .reweight
        nodeId := nodeId
        startedLogIndex := committedLogIndex
        targetWeightMillionths := some storageWeightMillionths }
    modify (·.setTransition (some transition))
    return .membershipTransitionBegun transition

/-- The log id of this entry becomes the identity of the placement. -/
def setActivePlacement (committedLogId : LogId) : StateMachine :=
  { s with
    clusterControl :=
      { s.clusterControl with activePlacementLogId := some committedLogId } }

/-- Forget the descriptor of a node. -/
def removeDescriptor (nodeId : NodeId) : StateMachine :=
  { s with
    clusterControl :=
      { s.clusterControl with nodes := s.clusterControl.nodes.erase nodeId } }

/-- Finish the transition in progress, as its kind demands. -/
def completeMembershipTransition (formatVersion : Nat) (startedLogIndex : Nat)
    (committedLogId : LogId) : Edit := do
  let s ← get
  s.requireClusterControl formatVersion
  let transition ← okOr s.clusterControl.transition noMembershipTransition
  rejectIf (transition.startedLogIndex ≠ startedLogIndex) (membershipTransitionFenceMismatch
    transition.startedLogIndex startedLogIndex)
  match transition.kind with
  | .add =>
    let descriptor ← okOr (s.clusterControl.nodes.get? transition.nodeId)
      membershipTransitionStateMismatch
    rejectIf (transition.targetWeightMillionths ≠ some descriptor.storageWeightMillionths)
      membershipTransitionStateMismatch
    match descriptor.state with
    | .joining =>
      rejectIf (rangeContains descriptor.supportedProtocol
        s.clusterControl.activeProtocolVersion = false ∨
          rangeContains descriptor.supportedStorageFormat
            s.clusterControl.activeStorageFormat = false)
        activeNodeLacksCapability
      -- activation: the transition stays until the voters are changed
      modify (·.putDescriptor transition.nodeId
        { descriptor with state := .active, joinCapabilityHash := none })
      modify (·.setActivePlacement committedLogId)
      return .membershipTransitionAdvanced transition
    | .active =>
      modify (·.setTransition none)
      return .membershipTransitionFinished startedLogIndex
  | .remove =>
    let descriptor ← okOr (s.clusterControl.nodes.get? transition.nodeId)
      membershipTransitionStateMismatch
    rejectIf (descriptor.state ≠ .active ∨ transition.targetWeightMillionths.isSome = true)
      membershipTransitionStateMismatch
    modify (·.removeDescriptor transition.nodeId)
    modify (·.setActivePlacement committedLogId)
    modify (·.setTransition none)
    return .membershipTransitionFinished startedLogIndex
  | .reweight =>
    let targetWeight ← okOr transition.targetWeightMillionths membershipTransitionStateMismatch
    let descriptor ← okOr (s.clusterControl.nodes.get? transition.nodeId)
      membershipTransitionStateMismatch
    rejectIf (descriptor.state ≠ .active) membershipTransitionStateMismatch
    modify (·.putDescriptor transition.nodeId
      { descriptor with storageWeightMillionths := targetWeight })
    modify (·.setActivePlacement committedLogId)
    modify (·.setTransition none)
    return .membershipTransitionFinished startedLogIndex

/-- Replace the capability and the pin of a JOINING node. -/
def refreshJoiningNodePreparation (formatVersion : Nat) (nodeId : NodeId) (startedLogIndex : Nat)
    (expectedPeerSpkiSha256 : PeerSpkiSha256) (expectedJoinCapabilityHash : JoinCapabilityHash)
    (replacementPeerSpkiSha256 : PeerSpkiSha256)
    (replacementJoinCapabilityHash : JoinCapabilityHash) : Edit := do
  let s ← get
  s.requireClusterControl formatVersion
  validateNodeId nodeId
  validatePin expectedPeerSpkiSha256
  validatePin replacementPeerSpkiSha256
  validateJoinCapability expectedJoinCapabilityHash
  validateJoinCapability replacementJoinCapabilityHash
  let transition ← okOr s.clusterControl.transition noMembershipTransition
  rejectIf (transition.startedLogIndex ≠ startedLogIndex) (membershipTransitionFenceMismatch
    transition.startedLogIndex startedLogIndex)
  rejectIf (transition.kind ≠ .add ∨ transition.nodeId ≠ nodeId) membershipTransitionStateMismatch
  let descriptor ← okOr (s.clusterControl.nodes.get? nodeId) (nodeNotAdmitted nodeId)
  rejectIf (descriptor.state ≠ .joining ∨ descriptor.overlapPeerSpkiSha256.isSome = true)
    membershipTransitionStateMismatch
  if descriptor.currentPeerSpkiSha256 = replacementPeerSpkiSha256 ∧
    descriptor.joinCapabilityHash = some replacementJoinCapabilityHash then
    return .joiningNodePreparationRefreshed descriptor
  else
    rejectIf (expectedPeerSpkiSha256 = replacementPeerSpkiSha256 ∨
      expectedJoinCapabilityHash = replacementJoinCapabilityHash)
      (joiningPreparationUnchanged nodeId)
    rejectIf (descriptor.currentPeerSpkiSha256 ≠ expectedPeerSpkiSha256 ∨
      descriptor.joinCapabilityHash ≠ some expectedJoinCapabilityHash)
      (joiningPreparationPairMismatch nodeId)
    ensurePinUnique s.clusterControl.nodes nodeId replacementPeerSpkiSha256
    ensureJoinCapabilityUnique s.clusterControl.nodes nodeId replacementJoinCapabilityHash
    let refreshed :=
      { descriptor with
        currentPeerSpkiSha256 := replacementPeerSpkiSha256
        joinCapabilityHash := some replacementJoinCapabilityHash }
    modify (·.putDescriptor nodeId refreshed)
    return .joiningNodePreparationRefreshed refreshed

/-- Accept a second pin beside the current one. -/
def stagePeerSpkiOverlap (formatVersion : Nat) (nodeId : NodeId) (expectedCurrent : PeerSpkiSha256)
    (overlap : PeerSpkiSha256) : Edit := do
  let s ← get
  s.requireClusterControl formatVersion
  validatePin expectedCurrent
  validatePin overlap
  rejectIf (expectedCurrent = overlap) peerPinsMustDiffer
  s.requireNodeNotTransitioning nodeId
  ensurePinUnique s.clusterControl.nodes nodeId overlap
  let descriptor ← s.activeDescriptor nodeId
  rejectIf (descriptor.currentPeerSpkiSha256 ≠ expectedCurrent) (peerCurrentPinMismatch nodeId)
  match descriptor.overlapPeerSpkiSha256 with
  | none =>
    let staged := { descriptor with overlapPeerSpkiSha256 := some overlap }
    modify (·.putDescriptor nodeId staged)
    return .peerSpkiChanged staged
  | some current =>
    rejectIf (current ≠ overlap) (peerOverlapAlreadySet nodeId)
    return .peerSpkiChanged descriptor

/-- The second pin becomes the current one. -/
def promotePeerSpkiOverlap (formatVersion : Nat) (nodeId : NodeId)
    (expectedCurrent : PeerSpkiSha256) (expectedOverlap : PeerSpkiSha256) : Edit := do
  let s ← get
  s.requireClusterControl formatVersion
  validatePin expectedCurrent
  validatePin expectedOverlap
  s.requireNodeNotTransitioning nodeId
  let descriptor ← s.activeDescriptor nodeId
  if descriptor.currentPeerSpkiSha256 = expectedOverlap ∧
    descriptor.overlapPeerSpkiSha256 = some expectedCurrent then
    return .peerSpkiChanged descriptor
  else
    rejectIf (descriptor.currentPeerSpkiSha256 ≠ expectedCurrent ∨
      descriptor.overlapPeerSpkiSha256 ≠ some expectedOverlap)
      (peerPinPairMismatch nodeId)
    let promoted :=
      { descriptor with
        currentPeerSpkiSha256 := expectedOverlap
        overlapPeerSpkiSha256 := some expectedCurrent }
    modify (·.putDescriptor nodeId promoted)
    return .peerSpkiChanged promoted

/-- Give the second pin up. -/
def clearPeerSpkiOverlap (formatVersion : Nat) (nodeId : NodeId) (expectedCurrent : PeerSpkiSha256)
    (expectedOverlap : PeerSpkiSha256) : Edit := do
  let s ← get
  s.requireClusterControl formatVersion
  validatePin expectedCurrent
  validatePin expectedOverlap
  s.requireNodeNotTransitioning nodeId
  let descriptor ← s.activeDescriptor nodeId
  rejectIf (descriptor.currentPeerSpkiSha256 ≠ expectedCurrent) (peerCurrentPinMismatch nodeId)
  match descriptor.overlapPeerSpkiSha256 with
  | some overlap =>
    rejectIf (overlap ≠ expectedOverlap) (peerPinPairMismatch nodeId)
    let cleared := { descriptor with overlapPeerSpkiSha256 := none }
    modify (·.putDescriptor nodeId cleared)
    return .peerSpkiChanged cleared
  | none => return .peerSpkiChanged descriptor

/-- Bind the signing key; a repetition must name the same one. -/
def bindJwtSigningKeyFingerprint (formatVersion : Nat) (fingerprint : JwtSigningKeyFingerprint) :
    Edit := do
  let s ← get
  s.requireClusterControl formatVersion
  rejectIf (fingerprint.bytes = 0) invalidJwtSigningKeyFingerprint
  match s.clusterControl.jwtSigningKeyFingerprint with
  | none =>
    modify fun s => { s with
      clusterControl := { s.clusterControl with jwtSigningKeyFingerprint := some fingerprint } }
    return .jwtSigningKeyFingerprintBound fingerprint
  | some current =>
    rejectIf (current ≠ fingerprint) (jwtSigningKeyFingerprintConflict current fingerprint)
    return .jwtSigningKeyFingerprintBound fingerprint

/-- Bind the erasure profile; a repetition must name the same one. -/
def bindErasureCodeProfile (formatVersion : Nat) (profile : ErasureCodeProfile) : Edit := do
  let s ← get
  s.requireClusterControl formatVersion
  -- the shard counts are 16-bit and their sum is checked
  rejectIf (profile.dataShards + profile.parityShards ≥ 2 ^ 16) invalidErasureCodeProfile
  rejectIf (profile.dataShards = 0 ∨ profile.parityShards = 0 ∨ profile.stripeUnit = 0 ∨
    profile.dataShards + profile.parityShards > 256)
    invalidErasureCodeProfile
  match s.clusterControl.erasureCodeProfile with
  | none =>
    modify fun s => { s with
      clusterControl := { s.clusterControl with erasureCodeProfile := some profile } }
    return .erasureCodeProfileBound profile
  | some current =>
    rejectIf (current ≠ profile) (erasureCodeProfileConflict current profile)
    return .erasureCodeProfileBound profile

end

end StateMachine

end Keldra.Consensus
