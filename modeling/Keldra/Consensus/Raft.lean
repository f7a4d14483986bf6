import Keldra.Consensus.OpenRaft

/-!
# The Raft adapter of the decision state machine

The machine state pairs the decisions with the applied log position and the
committed membership.  A command is checked against the membership before it
reaches the state machine, and a restored machine is cross-checked as a whole.
-/

namespace Keldra.Consensus

open Foundation

structure StorageConfig where
  maxCommitEntries : Nat
  maxCommitBytes : Nat
deriving DecidableEq, Repr

inductive DecisionApplyResult where
  | applied (result : ApplyResult)
  | rejected (error : ApplyError)
  | noop
deriving DecidableEq

inductive DecisionRaftError where
  | configuration (text : String)
  | storage (text : String)
  | rejected (error : ApplyError)
  | unavailable
deriving DecidableEq

structure MachineState where
  decisions : StateMachine
  lastAppliedLogId : Option LogId
  membership : StoredMembership
  snapshotGeneration : Nat
deriving DecidableEq

/-- The two ways a voter set can disagree with the admitted nodes. -/
inductive VoterFault where
  | targetMismatch (expected actual : Nat)
  | notActive (nodeId : NodeId)
deriving DecidableEq, Repr

def VoterFault.toApplyError : VoterFault → ApplyError
  | .targetMismatch expected actual => .voterTargetMismatch expected actual
  | .notActive nodeId => .voterNotActive nodeId

def VoterFault.text : VoterFault → String
  | .targetMismatch expected actual =>
    s!"Raft voter target requires {expected} voters, not {actual}"
  | .notActive nodeId => s!"Raft voter NodeId({nodeId}) is not ACTIVE"

def isActiveNode (cluster : ClusterControlState) (nodeId : NodeId) : Bool :=
  (cluster.nodes.get? nodeId).any (fun d => d.state = .active)

def validateVoters (membership : Membership) (decisions : StateMachine)
    (expected : Nat) : Except VoterFault Unit := do
  let voters := membership.voterIds
  rejectIf (voters.size ≠ expected) (.targetMismatch expected voters.size)
  match voters.keys.find?
    (fun voter => !isActiveNode decisions.clusterControl voter) with
  | some voter => .error (.notActive voter)
  | none => .ok ()

def validateFixedVoters
    (membership : Membership) (decisions : StateMachine) : Except VoterFault Unit :=
  validateVoters membership decisions decisions.clusterControl.voterTarget

/-- Voters left when the node under REMOVE is gone. -/
def removalVoterTarget (cluster : ClusterControlState) : Nat :=
  min (cluster.activeNodeCount - 1) fixedVoterTarget

def liftVoters (check : Except VoterFault Unit) : Except ApplyError Unit :=
  check.mapError VoterFault.toApplyError

/-- The executor a command names. -/
def commandExecutor : Command → Option NodeId
  | .nominateExecutor executor => some executor
  | .beginBatch batch => some batch.executor
  | .commitPreparedBatch batch => some batch.executor
  | .abortPreparedBatch batch => some batch.executor
  | .finalizedThrough executor _ _ => some executor
  | .completeSystemBootstrap executor _ _ => some executor
  | _ => none

/-- The first member that an admission would leave without a matching descriptor. -/
def admissionConflict (decisions : StateMachine) (descriptor : NodeDescriptor) :
    List (NodeId × String) → Except ApplyError Unit
  | [] => .ok ()
  | (nodeId, address) :: rest => do
    if nodeId = descriptor.nodeId then
      rejectIf (address ≠ descriptor.peerAddress.value) (.raftMemberAddressMismatch nodeId)
    else
      rejectIf (decisions.clusterControl.nodes.contains nodeId = false)
        (.raftMemberDescriptorMissing nodeId)
    admissionConflict decisions descriptor rest

def validateCompletion (membership : Membership) (decisions : StateMachine)
    (startedLogIndex : Nat) : Except ApplyError Unit := do
  let cluster := decisions.clusterControl
  let transition ← okOr cluster.transition .noMembershipTransition
  rejectIf (transition.startedLogIndex ≠ startedLogIndex) (.membershipTransitionFenceMismatch
    transition.startedLogIndex startedLogIndex)
  match transition.kind with
  | .add =>
    rejectIf (membership.getNode transition.nodeId = none)
      (.transitionNodeNotCurrentMember transition.nodeId)
    let descriptor ← okOr (cluster.nodes.get? transition.nodeId) .membershipTransitionStateMismatch
    if descriptor.state = .active then
      liftVoters (validateFixedVoters membership decisions)
    else
      .ok ()
  | .reweight =>
    rejectIf (membership.getNode transition.nodeId = none)
      (.transitionNodeNotCurrentMember transition.nodeId)
    liftVoters (validateFixedVoters membership decisions)
  | .remove =>
    rejectIf (membership.getNode transition.nodeId ≠ none)
      (.removingNodeIsStillMember transition.nodeId)
    liftVoters (validateVoters membership decisions (removalVoterTarget cluster))

/-- Checks of a command against the committed membership. -/
def validateMembershipCommand (stored : StoredMembership) (decisions : StateMachine)
    (command : Command) : Except ApplyError Unit := do
  let membership := stored.membership
  let cluster := decisions.clusterControl
  match command with
  | .beginAddNode _ descriptor => admissionConflict decisions descriptor membership.nodes.entries
  | _ => .ok ()
  match commandExecutor command with
  | some executor =>
    rejectIf (membership.getNode executor = none) (.executorNotCurrentMember executor)
    rejectIf (cluster.nodes.isEmpty = false ∧ isActiveNode cluster executor = false)
      (.executorNotActiveMember executor)
  | none => .ok ()
  match command with
  | .completeMembershipTransition _ startedLogIndex =>
    validateCompletion membership decisions startedLogIndex
  | .refreshJoiningNodePreparation _ nodeId _ _ _ _ _ =>
    rejectIf (membership.getNode nodeId ≠ none) (.joiningNodeAlreadyRaftMember nodeId)
  | _ => .ok ()

namespace MachineState

def new (config : StorageConfig) : Except ApplyError MachineState := do
  let decisions ← StateMachine.new config.maxCommitEntries config.maxCommitBytes
  return ⟨decisions, none, StoredMembership.default, 0⟩

def validateConfig
    (state : MachineState) (config : StorageConfig) : Except DecisionRaftError Unit :=
  rejectIf (state.decisions.maxCommitEntries ≠ config.maxCommitEntries ∨
    state.decisions.maxCommitBytes ≠ config.maxCommitBytes)
    (.storage "snapshot state-machine configuration does not match this node")

section

variable (cluster : ClusterControlState)

/-- Every Raft member has a descriptor with its address. -/
def validateMembers (cluster : ClusterControlState) : List (NodeId × String) → Except String Unit
  | [] => .ok ()
  | (nodeId, address) :: rest => do
    let descriptor ← okOr (cluster.nodes.get? nodeId)
      s!"Raft member {nodeId} has no admitted node descriptor"
    rejectIf (descriptor.peerAddress.value ≠ address)
      s!"Raft member {nodeId} address does not match its admitted descriptor"
    validateMembers cluster rest

/-- The kind of the transition in progress for a node. -/
def transitionKind (nodeId : NodeId) : Option MembershipTransitionKind :=
  (cluster.transition.filter (fun t => t.nodeId = nodeId)).map (·.kind)

/-- Whether the node of a transition may be missing from the membership. -/
def membershipOptional (nodeId : NodeId) (descriptor : NodeDescriptor) : Bool :=
  match transitionKind cluster nodeId, descriptor.state with
  | some .add, .joining => true
  | some .remove, .active => true
  | _, _ => false

/-- Every admitted descriptor agrees with the membership and the transition. -/
def validateDescriptors (cluster : ClusterControlState) (membership : Membership) :
    List (NodeId × NodeDescriptor) → Except String Unit
  | [] => .ok ()
  | (nodeId, descriptor) :: rest => do
    rejectIf (descriptor.nodeId ≠ nodeId)
      s!"admitted node {descriptor.nodeId} is stored under descriptor key {nodeId}"
    rejectIf (cluster.usedNodeIds.contains nodeId = false)
      s!"admitted node {nodeId} is absent from the never-reuse bitmap"
    rejectIf
      (membership.getNode nodeId = none ∧ membershipOptional cluster nodeId descriptor = false)
      s!"admitted node {nodeId} is not present in OpenRaft membership"
    rejectIf (descriptor.state = .joining ∧ transitionKind cluster nodeId ≠ some .add)
      s!"JOINING node {nodeId} is not the current ADD transition"
    validateDescriptors cluster membership rest

/-- The voters are fixed except while an activation or a removal is settling. -/
def validateTransitionVoters (membership : Membership)
    (decisions : StateMachine) : Except String Unit :=
  let fixedVoters := (validateFixedVoters membership decisions).mapError VoterFault.text
  match cluster.transition with
  | none => fixedVoters
  | some transition =>
    match transition.kind with
    | .reweight => fixedVoters
    | .add =>
      if (cluster.nodes.get? transition.nodeId).any
        (fun d => d.state = .joining) then
        fixedVoters
      else
        .ok ()
    | .remove => .ok ()

end

def validateClusterMembership (state : MachineState) : Except String Unit :=
  let cluster := state.decisions.clusterControl
  let membership := state.membership.membership
  if cluster.nodes.isEmpty then
    rejectIf (cluster.transition.isSome = true)
      "membership transition has no admitted node descriptor"
  else do
    validateMembers cluster membership.nodes.entries
    validateDescriptors cluster membership cluster.nodes.entries
    match cluster.transition with
    | some transition =>
      rejectIf (cluster.nodes.contains transition.nodeId = false)
        s!"membership transition references missing node {transition.nodeId}"
    | none => .ok ()
    validateTransitionVoters cluster membership state.decisions

/-- The log index the next applied entry must have. -/
def expectedIndex (state : MachineState) : Nat :=
  match state.lastAppliedLogId with
  | none => 0
  | some logId => min (logId.index + 1) u64Max

/-- The effect of an entry at the expected index. -/
def advance (state : MachineState) (entry : RaftEntry) : MachineState × DecisionApplyResult :=
  match entry.payload with
  | .blank => ({ state with lastAppliedLogId := some entry.logId }, .noop)
  | .membership membership =>
    ({ state with
      membership := ⟨some entry.logId, membership⟩
      lastAppliedLogId := some entry.logId },
      .noop)
  | .normal command =>
    match validateMembershipCommand state.membership state.decisions
      command with
    | .error error => ({ state with lastAppliedLogId := some entry.logId }, .rejected error)
    | .ok () =>
      match state.decisions.apply entry.logId command with
      | (next, .ok result) =>
        ({ state with decisions := next, lastAppliedLogId := some entry.logId }, .applied result)
      | (next, .error error) =>
        ({ state with decisions := next, lastAppliedLogId := some entry.logId }, .rejected error)

def applyEntry (state : MachineState) (entry : RaftEntry) :
    Except String (MachineState × DecisionApplyResult) := do
  rejectIf (entry.logId.index ≠ state.expectedIndex) "applied-state journal is not consecutive"
  return state.advance entry

end MachineState

end Keldra.Consensus
