import Keldra.Consensus.Types

/-!
# Serving leases

Transient node-wide leases for one exact committed placement: the recipient's
lease state, the leader's quorum proof and the cutover guard of the issuer.
Instants and durations are nanoseconds on the boot clock, and every function
takes the reading of the clock it makes as an argument.
-/

namespace Keldra.Consensus

open Foundation

def nanosPerSecond : Nat := 1000000000
def nanosPerMilli : Nat := 1000000

/-- Fixed maximum authority granted by one leader response. -/
def servingLeaseMaxLifetime : Nat := 2 * nanosPerSecond

/-- Membership cutover delay, including one second beyond lease expiry. -/
def servingLeaseCutoverWait : Nat := 3 * nanosPerSecond

/-- How long one successful quorum proof may be reused. -/
def leaderQuorumProofMaxAge : Nat := 500 * nanosPerMilli

/-- The largest duration: 64-bit seconds and just below one more second. -/
def durationMax : Nat := u64Max * nanosPerSecond + (nanosPerSecond - 1)

/-- Addition that fails beyond the range of durations. -/
def checkedAddDuration (instant duration : Nat) : Option Nat :=
  if duration ≤ durationMax - instant then some (instant + duration) else none

structure ServingLeaseRequest where
  clusterId : ClusterId
  activePlacementLogId : LogId
deriving DecidableEq

structure ServingLeaseGrant where
  clusterId : ClusterId
  raftTerm : Nat
  activePlacementLogId : LogId
  maximumLocalLifetime : Nat
deriving DecidableEq

/-- A request with the recipient's pre-send timestamp. -/
structure PendingServingLeaseRequest where
  request : ServingLeaseRequest
  requestedAt : Nat
deriving DecidableEq

structure ServingLease where
  clusterId : ClusterId
  raftTerm : Nat
  activePlacementLogId : LogId
  expiresAt : Nat
deriving DecidableEq

structure ServingLeaseState where
  clusterId : ClusterId
  activePlacementLogId : LogId
  highestRaftTerm : Nat
  current : Option ServingLease
deriving DecidableEq

structure ServingLeaseIssuerIdentity where
  clusterId : ClusterId
  raftTerm : Nat
  activePlacementLogId : LogId
deriving DecidableEq

/-- The one identity the issuer observes, and when it may be granted. -/
structure ServingLeaseCutover where
  observed : Option (ServingLeaseIssuerIdentity × Nat)
deriving DecidableEq

def ServingLeaseCutover.default : ServingLeaseCutover := ⟨none⟩

structure LeaderQuorumProof where
  raftTerm : Nat
  confirmedAt : Nat
deriving DecidableEq

inductive ServingLeaseError where
  | clusterNotInitialized
  | activePlacementUnavailable
  | clusterMismatch (expected received : ClusterId)
  | activePlacementMismatch (expected received : LogId)
  | grantLifetimeTooLong (granted : Nat)
  | raftTermRegressed (highest received : Nat)
  | leaderQuorumProofStale
  | grantArrivedAfterExpiry
  | requestSuperseded
  | cutoverInProgress
  | clockRangeExceeded
deriving DecidableEq

def validateRequest (received expected : ServingLeaseRequest) : Except ServingLeaseError Unit := do
  rejectIf (received.clusterId ≠ expected.clusterId)
    (.clusterMismatch expected.clusterId received.clusterId)
  rejectIf (received.activePlacementLogId ≠ expected.activePlacementLogId)
    (.activePlacementMismatch expected.activePlacementLogId received.activePlacementLogId)

def validateIdentity
    (expected : ServingLeaseRequest) (grant : ServingLeaseGrant) : Except ServingLeaseError Unit :=
  validateRequest ⟨grant.clusterId, grant.activePlacementLogId⟩ expected

namespace ServingLeaseState

def new (clusterId : ClusterId) (activePlacementLogId : LogId) : ServingLeaseState where
  clusterId := clusterId
  activePlacementLogId := activePlacementLogId
  highestRaftTerm := activePlacementLogId.leaderId.term
  current := none

section

variable (state : ServingLeaseState)

def beginRequest (now : Nat) : PendingServingLeaseRequest :=
  ⟨⟨state.clusterId, state.activePlacementLogId⟩, now⟩

/-- Old authority ends as soon as another placement is applied. -/
def setActivePlacement (activePlacementLogId : LogId) : ServingLeaseState :=
  if state.activePlacementLogId ≠ activePlacementLogId then
    { state with
      activePlacementLogId := activePlacementLogId
      highestRaftTerm := max state.highestRaftTerm activePlacementLogId.leaderId.term
      current := none }
  else
    state

/-- Everything that is checked before the recipient's state changes. -/
def checkGrant (pending : PendingServingLeaseRequest)
    (grant : ServingLeaseGrant) : Except ServingLeaseError Unit := do
  let expectedRequest : ServingLeaseRequest := ⟨state.clusterId, state.activePlacementLogId⟩
  rejectIf (pending.request ≠ expectedRequest) .requestSuperseded
  validateIdentity expectedRequest grant
  rejectIf (grant.maximumLocalLifetime > servingLeaseMaxLifetime)
    (.grantLifetimeTooLong grant.maximumLocalLifetime)
  rejectIf (grant.raftTerm < state.highestRaftTerm)
    (.raftTermRegressed state.highestRaftTerm grant.raftTerm)

/-- A grant of a later term ends the authority of the earlier one. -/
def raiseTerm (term : Nat) : ServingLeaseState :=
  if state.highestRaftTerm ≠ term then
    { state with highestRaftTerm := term, current := none }
  else
    state

/-- The later of the current lease and the candidate. -/
def installLease (candidate : ServingLease) : ServingLeaseState × ServingLease :=
  let accepted :=
    match state.current with
    | some current => if current.expiresAt ≥ candidate.expiresAt then current else candidate
    | none => candidate
  ({ state with current := some accepted }, accepted)

/-- The state changes also where the grant turns out to have expired. -/
def acceptGrant (now : Nat) (pending : PendingServingLeaseRequest) (grant : ServingLeaseGrant) :
    ServingLeaseState × Except ServingLeaseError ServingLease :=
  match state.checkGrant pending grant with
  | .error error => (state, .error error)
  | .ok () =>
    let raised := state.raiseTerm grant.raftTerm
    match checkedAddDuration pending.requestedAt
      grant.maximumLocalLifetime with
    | none => (raised, .error .grantArrivedAfterExpiry)
    | some expiresAt =>
      if now ≥ expiresAt then
        (raised, .error .grantArrivedAfterExpiry)
      else
        let (installed, accepted) := raised.installLease
          { clusterId := grant.clusterId
            raftTerm := grant.raftTerm
            activePlacementLogId := grant.activePlacementLogId
            expiresAt := expiresAt }
        (installed, .ok accepted)

/-- Current authority, only while the exact local placement matches. -/
def validLease (now : Nat) : Option ServingLease :=
  state.current.filter (fun lease =>
      lease.clusterId = state.clusterId ∧ lease.activePlacementLogId = state.activePlacementLogId ∧
        now < lease.expiresAt)

end

end ServingLeaseState

/-- At most half a second old, counted from the start of the round. -/
def LeaderQuorumProof.isFresh (proof : LeaderQuorumProof) (now : Nat) : Bool :=
  decide (proof.confirmedAt ≤ now) && decide (now - proof.confirmedAt ≤ leaderQuorumProofMaxAge)

/-- A cached proof is used while it is fresh and its term is still led here. -/
def reusableProof (cached : Option LeaderQuorumProof) (localLeaderTerm : Option Nat)
    (now : Nat) : Option LeaderQuorumProof :=
  cached.filter (fun proof => proof.isFresh now ∧ localLeaderTerm = some proof.raftTerm)

/-- The request must name what the leader's applied state has. -/
def checkServingRequest (clusterId : Option ClusterId) (activePlacementLogId : Option LogId)
    (request : ServingLeaseRequest) :
    Except ServingLeaseError ServingLeaseRequest := do
  let clusterId ← okOr clusterId .clusterNotInitialized
  let activePlacementLogId ← okOr activePlacementLogId .activePlacementUnavailable
  validateRequest request ⟨clusterId, activePlacementLogId⟩
  return ⟨clusterId, activePlacementLogId⟩

def grantFromProof (now : Nat) (proof : LeaderQuorumProof) (target : ServingLeaseRequest) :
    Except ServingLeaseError ServingLeaseGrant := do
  rejectIf (proof.isFresh now = false) .leaderQuorumProofStale
  return {
    clusterId := target.clusterId
    raftTerm := proof.raftTerm
    activePlacementLogId := target.activePlacementLogId
    maximumLocalLifetime := servingLeaseMaxLifetime }

def ServingLeaseGrant.identity (grant : ServingLeaseGrant) : ServingLeaseIssuerIdentity :=
  ⟨grant.clusterId, grant.raftTerm, grant.activePlacementLogId⟩

section

variable (cutover : ServingLeaseCutover) (identity : ServingLeaseIssuerIdentity) (now : Nat)

/-- The identity is observed from now on, and its wait starts. -/
def ServingLeaseCutover.startWait : ServingLeaseCutover × Except ServingLeaseError Bool :=
  match checkedAddDuration now servingLeaseCutoverWait with
  | none => (cutover, .error .clockRangeExceeded)
  | some readyAt => (⟨some (identity, readyAt)⟩, .ok false)

/-- Whether the cutover wait of an identity has passed. -/
def ServingLeaseCutover.permits : ServingLeaseCutover × Except ServingLeaseError Bool :=
  match cutover.observed with
  | some (observed, readyAt) =>
    if observed = identity then
      (cutover, .ok (decide (readyAt ≤ now)))
    else
      cutover.startWait identity now
  | none => cutover.startWait identity now

end

end Keldra.Consensus
