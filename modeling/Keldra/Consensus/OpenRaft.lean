import Keldra.Consensus.StateMachine

/-!
# Membership and log entries of the Raft library

The part of the Raft library the adapter relies on: a membership is a list of
voter configurations (two of them while a change is in progress) and the map
of every member to its address.  How the library computes the next membership is
not modelled; `RaftLibrary` is any way to do it with the stated laws.
-/

namespace Keldra.Consensus

open Foundation

structure Membership where
  configs : List (OrdSet NodeId)
  nodes : OrdMap NodeId String
deriving DecidableEq

namespace Membership

def default : Membership where
  configs := []
  nodes := OrdMap.empty

section

variable (membership : Membership)

def getNode (nodeId : NodeId) : Option String :=
  membership.nodes.get? nodeId

/-- Every node that votes in some configuration. -/
def voterIds : OrdSet NodeId :=
  OrdSet.ofKeys (membership.configs.flatMap OrdMap.keys)

/-- No empty configuration, and every voter is a member. -/
def WellFormed : Prop :=
  (∀ config ∈ membership.configs, config.isEmpty = false) ∧
    ∀ v, membership.voterIds.contains v = true → membership.nodes.contains v = true

/-- The last configuration is the whole set of voters. -/
def Uniform : Prop :=
  membership.configs.getLast? = some membership.voterIds

end

end Membership

/-- The membership changes the adapter asks the library for, and the one with which the
library ends a voter change. -/
inductive ChangeMembers where
  | addNode (nodeId : NodeId) (address : String)
  | removeNode (nodeId : NodeId)
  | replaceAllVoters (voters : OrdSet NodeId) (retain : Bool)
  | leaveJoint (retain : Bool)
deriving DecidableEq

/-- The library's membership entries: what it makes of the current membership and a change,
unless it refuses. -/
structure RaftLibrary where
  change : Membership → ChangeMembers → Option Membership
  /-- Entries are well formed. -/
  wellFormed {m next : Membership} {request : ChangeMembers} (h : change m request = some next) :
    next.WellFormed
  /-- A learner is added to the members, and the voters stay. -/
  addNode {m next : Membership} {n : NodeId} {address : String}
    (h : change m (.addNode n address) = some next) :
    next.configs = m.configs ∧ (∀ k a, m.getNode k = some a → next.getNode k = some a) ∧
      ∀ k a, next.getNode k = some a → m.getNode k = some a ∨ k = n ∧ a = address
  /-- A member is removed, and the voters stay. -/
  removeNode {m next : Membership} {n : NodeId} (h : change m (.removeNode n) = some next) :
    next.configs = m.configs ∧ ∀ k, next.getNode k = if k = n then none else m.getNode k
  /-- The new voters are the last configuration, and no member is new. -/
  replaceAllVoters {m next : Membership} {voters : OrdSet NodeId} {retain : Bool}
    (h : change m (.replaceAllVoters voters retain) = some next) :
    next.configs.getLast? = some voters ∧ ∀ k a, next.getNode k = some a → m.getNode k = some a
  /-- The last configuration stays alone, and no member is new. -/
  leaveJoint {m next : Membership} {last : OrdSet NodeId} {retain : Bool}
    (hlast : m.configs.getLast? = some last) (h : change m (.leaveJoint retain) = some next) :
    next.configs = [last] ∧ ∀ k a, next.getNode k = some a → m.getNode k = some a
  /-- Nobody is dropped when the last configuration has all voters. -/
  leaveUniform {m next : Membership} {retain : Bool} (huniform : m.Uniform)
    (h : change m (.leaveJoint retain) = some next) (k : NodeId) (a : String)
    (hmember : m.getNode k = some a) : next.getNode k = some a

/-- The membership with the log identity that introduced it. -/
structure StoredMembership where
  logId : Option LogId
  membership : Membership
deriving DecidableEq

def StoredMembership.default : StoredMembership := ⟨none, Membership.default⟩

inductive EntryPayload where
  | blank
  | normal (command : Command)
  | membership (membership : Membership)
deriving DecidableEq

structure RaftEntry where
  logId : LogId
  payload : EntryPayload
deriving DecidableEq

end Keldra.Consensus
