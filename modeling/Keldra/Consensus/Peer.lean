import Keldra.Consensus.Raft

/-!
# Membership proposals

The three calls that propose a membership entry, and the genesis
initialization.  Each checks the applied decisions and then asks the Raft library
for a change; the result is what it asks for.
-/

namespace Keldra.Consensus

open Foundation

def invalidNodeId (nodeId : NodeId) : DecisionRaftError :=
  .configuration s!"peer node id {nodeId} is outside the supported range 1..={maxRaftNodeId}"

def inNodeRange (nodeId : NodeId) : Bool :=
  decide (1 ≤ nodeId) && decide (nodeId ≤ maxRaftNodeId)

def validatePeerNode (nodeId : NodeId) (address : String) : Except DecisionRaftError Unit := do
  rejectIf (inNodeRange nodeId = false) (invalidNodeId nodeId)
  rejectIf (address = "") (.configuration s!"peer node {nodeId} has an empty address")

def validateGenesisMembers (members : OrdMap NodeId String) : Except DecisionRaftError Unit := do
  rejectIf (members.isEmpty = true) (.configuration "genesis membership must not be empty")
  members.entries.forM (fun e => validatePeerNode e.1 e.2)

/-- The membership entry of a pristine group. -/
def genesisMembership (members : OrdMap NodeId String) : Membership where
  configs := [OrdSet.ofKeys members.keys]
  nodes := members

def initializeGenesis (localNode : NodeId) (members : OrdMap NodeId String) :
    Except DecisionRaftError Membership := do
  validateGenesisMembers members
  rejectIf (members.contains localNode = false) (.configuration
    s!"genesis membership does not contain local node {localNode}")
  return genesisMembership members

/-- The one-member genesis of a node started alone. -/
def ensureOneNode (localNode : NodeId) : Membership :=
  genesisMembership (OrdMap.empty.insert localNode s!"keldra-local://{localNode}")

def checkLearnerAddition (cluster : ClusterControlState) (nodeId : NodeId)
    (address : String) : Except DecisionRaftError Unit :=
  if cluster.nodes.isEmpty then
    .ok ()
  else do
    let transition ← okOr cluster.transition
      (.configuration "a learner can be added only during an ADD transition")
    rejectIf (transition.kind ≠ .add ∨ transition.nodeId ≠ nodeId)
      (.configuration s!"node {nodeId} is not the current ADD transition")
    let descriptor ← okOr (cluster.nodes.get? nodeId) .unavailable
    rejectIf (descriptor.state ≠ .joining) (.configuration s!"node {nodeId} is no longer JOINING")
    rejectIf (descriptor.peerAddress.value ≠ address) (.configuration
      s!"node {nodeId} address does not match its admitted descriptor")

def addLearner (state : MachineState) (nodeId : NodeId)
    (address : String) : Except DecisionRaftError ChangeMembers := do
  validatePeerNode nodeId address
  checkLearnerAddition state.decisions.clusterControl nodeId address
  return .addNode nodeId address

/-- How many voters the current transition asks for. -/
def expectedVoters (cluster : ClusterControlState) : Except DecisionRaftError Nat := do
  let transition ← okOr cluster.transition
    (.configuration "Raft voters change only during ADD activation or REMOVE")
  match transition.kind with
  | .add =>
    let descriptor ← okOr (cluster.nodes.get? transition.nodeId) .unavailable
    rejectIf (descriptor.state ≠ .active)
      (.configuration "a JOINING node cannot participate in a voter change")
    return cluster.voterTarget
  | .remove => return removalVoterTarget cluster
  | .reweight => .error (.configuration "REWEIGHT does not change Raft voters")

def checkVoter
    (cluster : ClusterControlState) (voter : NodeId) : Except DecisionRaftError Unit := do
  let descriptor ← okOr (cluster.nodes.get? voter)
    (.configuration s!"voter {voter} has no admitted node descriptor")
  rejectIf (descriptor.state ≠ .active) (.configuration s!"voter {voter} is not ACTIVE")
  rejectIf (cluster.transition.any (fun t => t.kind = .remove ∧ t.nodeId = voter) = true)
    (.configuration s!"voter {voter} is being removed")

def checkVoterChange
    (cluster : ClusterControlState) (voters : OrdSet NodeId) : Except DecisionRaftError Unit :=
  if cluster.nodes.isEmpty then
    .ok ()
  else do
    let expected ← expectedVoters cluster
    rejectIf (voters.size ≠ expected) (.configuration
      s!"cluster requires exactly {expected} voters, not {voters.size}")
    voters.keys.forM (checkVoter cluster)

def changeMembership
    (state : MachineState) (voters : OrdSet NodeId) (retainRemovedAsLearners : Bool) :
    Except DecisionRaftError ChangeMembers := do
  rejectIf (voters.isEmpty = true) (.configuration "Raft voter membership must not be empty")
  match voters.keys.find? (fun nodeId => !inNodeRange nodeId) with
  | some nodeId => .error (invalidNodeId nodeId)
  | none => .ok ()
  checkVoterChange state.decisions.clusterControl voters
  return .replaceAllVoters voters retainRemovedAsLearners

/-- Remove one non-voter after its descriptor has entered REMOVE handoff. -/
def removeLearner
    (state : MachineState) (nodeId : NodeId) : Except DecisionRaftError ChangeMembers := do
  rejectIf (inNodeRange nodeId = false) (invalidNodeId nodeId)
  let transition ← okOr state.decisions.clusterControl.transition (.configuration
    "a learner can be removed only during its REMOVE transition")
  rejectIf (transition.kind ≠ .remove ∨ transition.nodeId ≠ nodeId)
    (.configuration s!"node {nodeId} is not the current REMOVE transition")
  return .removeNode nodeId

end Keldra.Consensus
