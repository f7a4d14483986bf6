import Keldra.Foundation.LeaderLease
import Keldra.Consensus.ServingLease

/-!
# The serving-lease protocol

A cluster with one monotone clock.  Elections, commits of placements and their
application happen in any order; nodes ask for leases, and every call makes its
way through the leader's handler in separate steps, so that any delay, loss,
election or restart can fall between two of them.

Of the consensus library three facts are assumed, each as a guard of the step
that relies on it: a term has one leader, a quorum round that started at some
time is confirmed only if no leader of a later term was elected before, and a
leader confirmed in a term has applied what was committed in earlier terms.
-/

namespace Keldra.Consensus

open Foundation

/-- Steps of the clock and of consensus. -/
inductive ConsensusAction where
  | tick (duration : Nat)
  | elect (node : NodeId) (term : Nat)
  | commit (logId : LogId) (term : Nat)
  | applyNext (node : NodeId)

/-- A committed placement, the term it was committed in and when. -/
structure PlacementCommit where
  logId : LogId
  term : Nat
  time : Nat

/-- The clock and what consensus has decided so far. -/
structure Timeline where
  now : Nat
  elected : List (Election NodeId)
  committed : List PlacementCommit
  /-- When each node applied the first, second, … placement. -/
  appliedAt : NodeId → List Nat

namespace Timeline

/-- The placement the applied state of a node has. -/
def activePlacement (τ : Timeline) (node : NodeId) : Option LogId :=
  match (τ.appliedAt node).length with
  | 0 => none
  | count + 1 => (τ.committed[count]?).map (·.logId)

/-- What a completed quorum round establishes. -/
def Confirms (τ : Timeline) (leader : NodeId) (term startedAt : Nat) : Prop :=
  (∃ e ∈ τ.elected, e.term = term ∧ e.node = leader) ∧
    (∀ e ∈ τ.elected, e.time < startedAt → e.term ≤ term) ∧
    ∀ c ∈ τ.committed.drop (τ.appliedAt leader).length, term ≤ c.term

instance (τ : Timeline) (leader : NodeId) (term startedAt : Nat) :
    Decidable (τ.Confirms leader term startedAt) :=
  inferInstanceAs (Decidable (_ ∧ _ ∧ _))

def step (τ : Timeline) : ConsensusAction → Option Timeline
  | .tick duration => some { τ with now := τ.now + duration }
  | .elect node term =>
    if ∀ e ∈ τ.elected, e.term ≠ term then
      some { τ with elected := ⟨term, node, τ.now⟩ :: τ.elected }
    else
      none
  | .commit logId term =>
    if (∃ e ∈ τ.elected, e.term = term) ∧ ∀ c ∈ τ.committed, c.logId ≠ logId then
      some { τ with committed := τ.committed ++ [⟨logId, term, τ.now⟩] }
    else
      none
  | .applyNext node =>
    if (τ.appliedAt node).length < τ.committed.length then
      some
        { τ with
          appliedAt := fun k =>
            if k = node then τ.appliedAt node ++ [τ.now] else τ.appliedAt k }
    else
      none

end Timeline

/-- How far the leader's handler of one call has come. -/
inductive GrantStage where
  | sent
  | confirming (startedAt : Nat)
  | proved (proof : LeaderQuorumProof)
  | targeted (proof : LeaderQuorumProof) (target : ServingLeaseRequest)
  | formed (grant : ServingLeaseGrant)
  | timed (grant : ServingLeaseGrant) (readAt : Nat)
  | answered (grant : ServingLeaseGrant)

def GrantStage.isAnswered : GrantStage → Bool
  | .answered _ => true
  | _ => false

structure LeaseCall where
  requester : NodeId
  pending : PendingServingLeaseRequest
  leader : NodeId
  stage : GrantStage

/-- The volatile state of one node process. -/
structure LeaseNode where
  lease : Option ServingLeaseState
  leaderTerm : Option Nat
  proof : Option LeaderQuorumProof
  cutover : ServingLeaseCutover

def LeaseNode.restarted : LeaseNode := ⟨none, none, none, ServingLeaseCutover.default⟩

structure LeaseWorld where
  timeline : Timeline
  clusterId : ClusterId
  nodes : NodeId → LeaseNode
  calls : List LeaseCall

/-- Steps of one node process that concern no running call. -/
inductive ProcessAction where
  | lead (term : Nat)
  | stepDown
  | serve (placement : LogId)
  | setActivePlacement (placement : LogId)
  | beginRequest (leader : NodeId)
  | restart

/-- Steps of one call, in the order the handler takes them. -/
inductive CallAction where
  | reuseProof
  | startRound
  | finishRound
  | readState
  | formGrant
  | readClock
  | checkCutover
  | acceptGrant
  | drop

inductive LeaseAction where
  | consensus (action : ConsensusAction)
  | process (node : NodeId) (action : ProcessAction)
  | call (index : Nat) (action : CallAction)

namespace LeaseWorld

def start (clusterId : ClusterId) : LeaseWorld where
  timeline := ⟨0, [], [], fun _ => []⟩
  clusterId := clusterId
  nodes := fun _ => LeaseNode.restarted
  calls := []

section

variable (w : LeaseWorld)

def setNode (n : NodeId) (node : LeaseNode) : LeaseWorld :=
  { w with nodes := fun k => if k = n then node else w.nodes k }

def setStage (i : Nat) (call : LeaseCall) (stage : GrantStage) : LeaseWorld :=
  { w with calls := w.calls.set i { call with stage := stage } }

def removeCall (i : Nat) : LeaseWorld :=
  { w with calls := w.calls.eraseIdx i }

def stepProcess (n : NodeId) : ProcessAction → Option LeaseWorld
  | .lead term =>
    if ∃ e ∈ w.timeline.elected, e.term = term ∧ e.node = n then
      some (w.setNode n { w.nodes n with leaderTerm := some term })
    else
      none
  | .stepDown => some (w.setNode n { w.nodes n with leaderTerm := none })
  | .serve placement =>
    some (w.setNode n
      { w.nodes n with lease := some (ServingLeaseState.new w.clusterId placement) })
  | .setActivePlacement placement =>
    some (w.setNode n
      { w.nodes n with lease := (w.nodes n).lease.map (·.setActivePlacement placement) })
  | .beginRequest leader =>
    (w.nodes n).lease.map (fun state =>
        { w with calls := w.calls ++ [⟨n, state.beginRequest w.timeline.now, leader, .sent⟩] })
  | .restart =>
    -- the process loses its state and its handlers; replies are on their way
    let restarted := w.setNode n LeaseNode.restarted
    some
      { restarted with
        calls := w.calls.filter
          (fun call => call.requester ≠ n ∧ (call.leader ≠ n ∨ call.stage.isAnswered = true)) }

def stepCall (i : Nat) (call : LeaseCall) : CallAction → Option LeaseWorld
  | .reuseProof =>
    let leader := w.nodes call.leader
    match call.stage, reusableProof leader.proof leader.leaderTerm w.timeline.now with
    | .sent, some proof => some (w.setStage i call (.proved proof))
    | _, _ => none
  | .startRound =>
    let leader := w.nodes call.leader
    match call.stage, reusableProof leader.proof leader.leaderTerm w.timeline.now with
    | .sent, none =>
      some ((w.setNode call.leader { leader with proof := none }).setStage i
        call (.confirming w.timeline.now))
    | _, _ => none
  | .finishRound =>
    let leader := w.nodes call.leader
    match call.stage, leader.leaderTerm with
    | .confirming startedAt, some term =>
      let proof : LeaderQuorumProof := ⟨term, startedAt⟩
      if w.timeline.Confirms call.leader term startedAt ∧ proof.isFresh w.timeline.now = true then
        some ((w.setNode call.leader { leader with proof := some proof }).setStage i call
          (.proved proof))
      else
        none
    | _, _ => none
  | .readState =>
    match call.stage, checkServingRequest (some w.clusterId)
      (w.timeline.activePlacement call.leader)
      call.pending.request with
    | .proved proof, .ok target => some (w.setStage i call (.targeted proof target))
    | _, _ => none
  | .formGrant =>
    match call.stage with
    | .targeted proof target =>
      match grantFromProof w.timeline.now proof target with
      | .ok grant => some (w.setStage i call (.formed grant))
      | .error _ => none
    | _ => none
  | .readClock =>
    match call.stage with
    | .formed grant => some (w.setStage i call (.timed grant w.timeline.now))
    | _ => none
  | .checkCutover =>
    match call.stage with
    | .timed grant readAt =>
      let leader := w.nodes call.leader
      let checked := w.setNode call.leader
        { leader with cutover := (leader.cutover.permits grant.identity readAt).1 }
      match (leader.cutover.permits grant.identity readAt).2 with
      | .ok true => some (checked.setStage i call (.answered grant))
      | _ => some (checked.removeCall i)
    | _ => none
  | .acceptGrant =>
    match call.stage, (w.nodes call.requester).lease with
    | .answered grant, some state =>
      let accepted := (state.acceptGrant w.timeline.now call.pending grant).1
      some ((w.setNode call.requester
        { w.nodes call.requester with lease := some accepted }).removeCall i)
    | _, _ => none
  | .drop => some (w.removeCall i)

def step : LeaseAction → Option LeaseWorld
  | .consensus action => (w.timeline.step action).map (fun τ => { w with timeline := τ })
  | .process n action => w.stepProcess n action
  | .call i action => (w.calls[i]?).bind (fun call => w.stepCall i call action)

def run (w : LeaseWorld) : List LeaseAction → Option LeaseWorld
  | [] => some w
  | action :: rest => (w.step action).bind (fun next => next.run rest)

/-- The lease a node can serve under at this instant. -/
def validLease (n : NodeId) : Option ServingLease :=
  (w.nodes n).lease.bind (·.validLease w.timeline.now)

end

end LeaseWorld

end Keldra.Consensus
