import Keldra.Consensus.ClusterSteps

/-!
# What one applied entry can do

`DecisionStep` lists the effects of the batch, nomination and finalization
commands, and `Step` joins them with the cluster-control effects into one
relation.  `apply_step` is the inversion lemma of the whole transition
function: every invariant below is a case analysis over `Step`.
-/

namespace Keldra.Consensus

open Foundation StateMachine

variable {s t : StateMachine} {id : LogId} {command : Command}
  {outcome : Except ApplyError ApplyResult}

/-- A batch that passes its own checks and the executor fence of a state. -/
structure Fenced (s : StateMachine) (batch : BeginBatch) : Prop where
  valid : validateBeginBatch batch = .ok ()
  executor : s.requireExecutor batch.executor batch.nominationLogIndex = .ok ()

/-- A retained entry that a proposal at the given time may prune. -/
def Expired
    (s : StateMachine) (proposalAt : Nat) (cursor : Nat) (entry : CommittedInvocation) : Prop :=
  entry.replayExpiresAtUnixMillis ≤ proposalAt ∧ ∃ finalized,
    s.finalizedThrough = some finalized ∧ cursor ≤ finalized

/--
A state from which some entries that expired at a proposal time were removed,
and nothing else was changed but the byte count.
-/
structure Pruned (s : StateMachine) (proposalAt : Nat) (p : StateMachine) : Prop where
  frame : p =
      { s with
        committedInvocations := p.committedInvocations
        committedInvocationBytes := p.committedInvocationBytes }
  sub : ∀ cursor entry, p.committedInvocations.get? cursor = some entry →
      s.committedInvocations.get? cursor = some entry
  kept : ∀ cursor entry, s.committedInvocations.get? cursor = some entry →
      ¬ Expired s proposalAt cursor entry →
      p.committedInvocations.get? cursor = some entry

/-- The state after committing the prepared batch. -/
def StateMachine.recordDecision
    (s : StateMachine) (prepared : PreparedBatch) (index bytes : Nat) : StateMachine :=
  { s with
    committedInvocations := s.committedInvocations.insert index (prepared.decision index)
    committedInvocationBytes := s.committedInvocationBytes + bytes
    lastCommitCursor := some index
    preparingBatch := none }

/-- The state after a new executor nomination. -/
def StateMachine.nominate (s : StateMachine) (nomination : ExecutorNomination) : StateMachine :=
  { s with
    preparingBatch := s.preparingBatch.map (·.transfer nomination)
    executor := some nomination }

/-- The effects of the batch, nomination and finalization commands. -/
inductive DecisionStep (s : StateMachine) (index : Nat) :
    Command → StateMachine → Except ApplyError ApplyResult → Prop
  | nominated (nomination : ExecutorNomination)
      (hindex : nomination.nominationLogIndex = index) :
      DecisionStep s index (.nominateExecutor nomination.executor) (s.nominate nomination)
        (.ok (.executorNominated nomination))
  | pruningFailed (batch : BeginBatch) (p : StateMachine) (error : ApplyError)
      (hfenced : Fenced s batch)
      (hprune : s.pruneCommittedInvocations
          (s.expiredFinalizedCursors batch.proposalAtUnixMillis) = (p, .error error)) :
      DecisionStep s index (.beginBatch batch) p (.error error)
  | begun (batch : BeginBatch) (p t : StateMachine) (outcome : Except ApplyError ApplyResult)
      (hfenced : Fenced s batch)
      (hprune : s.pruneCommittedInvocations
          (s.expiredFinalizedCursors batch.proposalAtUnixMillis) = (p, .ok ()))
      (hsettle : (t, outcome) = perform (replayOrPrepare index batch) p) :
      DecisionStep s index (.beginBatch batch) t outcome
  | committed (request : CommitPreparedBatch) (prepared : PreparedBatch) (bytes : Nat)
      (hfence : s.requireExecutor request.executor request.nominationLogIndex = .ok ())
      (hprepared : s.preparingBatch = some prepared)
      (hidentity :
        prepared.beginCursor = request.beginCursor ∧ prepared.request.executor = request.executor ∧
          prepared.request.nominationLogIndex = request.nominationLogIndex ∧
          prepared.request.invocationId = request.invocationId ∧
          prepared.request.participantManifestHash = request.participantManifestHash)
      (hlast : ∀ last, s.lastCommitCursor = some last → last < index)
      (hbytes : committedInvocationEntryBytes index (prepared.decision index) = .ok bytes) :
      DecisionStep s index (.commitPreparedBatch request) (s.recordDecision prepared index bytes)
        (.ok (.batchCommitted ⟨prepared.decision index, false⟩))
  | aborted (request : AbortPreparedBatch) (prepared : PreparedBatch)
      (hfence : s.requireExecutor request.executor request.nominationLogIndex = .ok ())
      (hprepared : s.preparingBatch = some prepared)
      (hidentity :
        prepared.beginCursor = request.beginCursor ∧ prepared.request.executor = request.executor ∧
          prepared.request.nominationLogIndex = request.nominationLogIndex ∧
          prepared.request.invocationId = request.invocationId ∧
          prepared.request.participantManifestHash = request.participantManifestHash) :
      DecisionStep s index (.abortPreparedBatch request) { s with preparingBatch := none }
        (.ok (.batchAborted request.beginCursor))
  | finalizationKept (executor : NodeId)
      (nominationLogIndex through : Nat) :
      DecisionStep s index (.finalizedThrough executor nominationLogIndex through) s
        (.ok (.finalizationAdvanced through))
  | finalized (executor : NodeId) (nominationLogIndex through last : Nat)
      (hlast : s.lastCommitCursor = some last)
      (hthrough : through ≤ last)
      (hforward : ∀ current, s.finalizedThrough = some current → current < through) :
      DecisionStep s index (.finalizedThrough executor nominationLogIndex through)
        { s with finalizedThrough := some through }
        (.ok (.finalizationAdvanced through))
  | bootstrapped (executor : NodeId) (nominationLogIndex version : Nat)
      (state : SystemBootstrapState) :
      DecisionStep s index (.completeSystemBootstrap executor nominationLogIndex version)
        { s with systemBootstrap := state }
        (.ok (.systemBootstrapCompleted state))

/-- Everything one applied command can do. -/
inductive Step (s : StateMachine) (id : LogId) (command : Command) :
    StateMachine → Except ApplyError ApplyResult → Prop
  | rejected
    (error : ApplyError) :
    Step s id command s (.error error)
  | cluster {t : StateMachine} {result : ApplyResult}
      (h : ClusterStep s id command t result) :
      Step s id command t (.ok result)
  | decision {t : StateMachine} {outcome : Except ApplyError ApplyResult}
      (h : DecisionStep s id.index command t outcome) :
      Step s id command t outcome

variable {executor : NodeId} {nominationLogIndex : Nat}

theorem requireExecutor_eq_ok :
    s.requireExecutor executor nominationLogIndex = .ok () ↔ validateNode executor = .ok () ∧
    s.executor = some ⟨executor, nominationLogIndex⟩ := by
  simp only [requireExecutor, ok_rules, not_not]
  constructor
  · rintro ⟨hvalid, _, hcurrent, rfl, rfl⟩
    exact ⟨hvalid, hcurrent⟩
  rintro ⟨hvalid, hcurrent⟩
  exact ⟨hvalid, _, hcurrent, rfl, rfl⟩

theorem checkedAdd64_eq_some {a b c : Nat}
    (h : checkedAdd64 a b = some c) : c = a + b := by
  unfold checkedAdd64 at h
  split at h
  · exact (Option.some.inj h).symm
  · cases h

theorem perform_step {edit : Edit} (hkeeps : KeepsRefused s edit)
    (hedit : ∀ {next result}, perform edit s = (next, .ok result) →
      Step s id command next (.ok result))
    (h : perform edit s = (t, outcome)) : Step s id command t outcome := by
  cases outcome with
  | error error =>
    rw [hkeeps t error h]
    exact .rejected error
  | ok => exact hedit h

namespace StateMachine

variable {result : ApplyResult} {index : Nat}

theorem nominateExecutor_step (h : perform (nominateExecutor executor index) s = (t, .ok result)) :
    DecisionStep s index (.nominateExecutor executor) t (.ok result) := by
  simp only [nominateExecutor, edit_rules, ok_rules] at h
  obtain ⟨_, rfl, rfl⟩ := h
  exact .nominated ⟨executor, index⟩ rfl

theorem completeSystemBootstrap_step {version : Nat}
    (h : perform (completeSystemBootstrap executor nominationLogIndex version index) s =
      (t, .ok result)) :
    DecisionStep s index (.completeSystemBootstrap executor nominationLogIndex version) t
    (.ok result) := by
  simp only [completeSystemBootstrap, edit_rules, ok_rules] at h
  obtain ⟨_, _, _, h⟩ := h
  cases hstate : s.systemBootstrap with
  | missing =>
    simp only [hstate, edit_rules] at h
    obtain ⟨rfl, rfl⟩ := h
    exact .bootstrapped executor nominationLogIndex version _
  | complete current at_ =>
    simp only [hstate, edit_rules, ok_rules] at h
    obtain ⟨_, rfl, rfl⟩ := h
    have hsame : { s with systemBootstrap := .complete current at_ } = s := by rw [← hstate]
    rw [← hsame]
    exact .bootstrapped executor nominationLogIndex version _

theorem commitPreparedBatch_step {request : CommitPreparedBatch}
    (h : perform (commitPreparedBatch index request) s = (t, .ok result)) :
    DecisionStep s index (.commitPreparedBatch request) t (.ok result) := by
  simp only [commitPreparedBatch, validatePreparedIdentity, edit_rules, ok_rules, not_or,
    not_not] at h
  obtain ⟨hfence, prepared, hprepared, hidentity, hlast, _, bytes, hbytes,
    _, hnext, _, _, _, _, _, _, rfl, rfl⟩ := h
  obtain rfl := checkedAdd64_eq_some hnext
  refine .committed request prepared bytes hfence hprepared hidentity ?_ hbytes
  intro _ hsome
  simpa [hsome] using hlast

theorem abortPreparedBatch_step {request : AbortPreparedBatch}
    (h : perform (abortPreparedBatch request) s = (t, .ok result)) :
    DecisionStep s index (.abortPreparedBatch request) t (.ok result) := by
  simp only [abortPreparedBatch, validatePreparedIdentity, edit_rules, ok_rules, not_or,
    not_not] at h
  obtain ⟨hfence, prepared, hprepared, hidentity, rfl, rfl⟩ := h
  exact .aborted request prepared hfence hprepared hidentity

theorem advanceFinalization_step {through : Nat}
    (h :
    perform (advanceFinalization executor nominationLogIndex through) s = (t, .ok result)) :
    DecisionStep s index (.finalizedThrough executor nominationLogIndex through) t
    (.ok result) := by
  have hpast : perform (advanceFinalizationPast through) s = (t, .ok result) →
      (∀ current, s.finalizedThrough = some current → current < through) →
        DecisionStep s index (.finalizedThrough executor nominationLogIndex through) t
          (.ok result) := by
    intro h hforward
    simp only [advanceFinalizationPast, edit_rules, ok_rules, not_lt] at h
    obtain ⟨last, hlast, hthrough, rfl, rfl⟩ := h
    exact .finalized executor nominationLogIndex through last hlast hthrough hforward
  simp only [advanceFinalization, edit_rules, ok_rules] at h
  obtain ⟨_, h⟩ := h
  cases hcurrent : s.finalizedThrough with
  | none =>
    simp only [hcurrent] at h
    exact hpast h (by simp [hcurrent])
  | some =>
    simp only [hcurrent, edit_rules, ok_rules, not_lt] at h
    obtain ⟨_, h⟩ := h
    split at h
    · obtain ⟨rfl, rfl⟩ := h
      exact .finalizationKept executor nominationLogIndex through
    refine hpast h ?_
    intro _ hsome
    rw [hcurrent, Option.some.injEq] at hsome
    omega

theorem beginBatch_step {batch : BeginBatch}
    (h : s.beginBatch id.index batch = (t, outcome)) :
    Step s id (.beginBatch batch) t outcome := by
  unfold beginBatch at h
  split at h
  · obtain ⟨rfl, rfl⟩ := Prod.mk.inj h
    exact .rejected _
  rename_i hguard
  simp only [ok_rules] at hguard
  have hfenced : Fenced s batch := ⟨hguard.1, hguard.2⟩
  split at h
  · rename_i p error hprune
    obtain ⟨rfl, rfl⟩ := Prod.mk.inj h
    exact .decision (.pruningFailed batch _ _ hfenced hprune)
  rename_i p hprune
  exact .decision (.begun batch p t outcome hfenced hprune h.symm)

end StateMachine

/-- Every applied command takes one of the listed steps. -/
theorem apply_step (h : s.apply id command = (t, outcome)) : Step s id command t outcome := by
  cases command
  case beginBatch => exact beginBatch_step h
  case' nominateExecutor => refine perform_step ?_ (fun h => .decision (nominateExecutor_step h)) h
  case' commitPreparedBatch =>
    refine perform_step ?_ (fun h => .decision (commitPreparedBatch_step h)) h
  case' abortPreparedBatch =>
    refine perform_step ?_ (fun h => .decision (abortPreparedBatch_step h)) h
  case' finalizedThrough =>
    refine perform_step ?_ (fun h => .decision (advanceFinalization_step h)) h
  case' completeSystemBootstrap =>
    refine perform_step ?_ (fun h => .decision (completeSystemBootstrap_step h)) h
  case' initializeCluster => refine perform_step ?_ (fun h => .cluster (initializeCluster_step h)) h
  case' beginAddNode => refine perform_step ?_ (fun h => .cluster (beginAddNode_step h)) h
  case' beginRemoveNode => refine perform_step ?_ (fun h => .cluster (beginRemoveNode_step h)) h
  case' beginReweightNode => refine perform_step ?_ (fun h => .cluster (beginReweightNode_step h)) h
  case' completeMembershipTransition =>
    refine perform_step ?_ (fun h => .cluster (completeMembershipTransition_step h)) h
  case' stagePeerSpkiOverlap =>
    refine perform_step ?_ (fun h => .cluster (stagePeerSpkiOverlap_step _ h)) h
  case' promotePeerSpkiOverlap =>
    refine perform_step ?_ (fun h => .cluster (promotePeerSpkiOverlap_step _ h)) h
  case' clearPeerSpkiOverlap =>
    refine perform_step ?_ (fun h => .cluster (clearPeerSpkiOverlap_step _ h)) h
  case' bindJwtSigningKeyFingerprint =>
    refine perform_step ?_ (fun h => .cluster (bindJwtSigningKeyFingerprint_step _ h)) h
  case' bindErasureCodeProfile =>
    refine perform_step ?_ (fun h => .cluster (bindErasureCodeProfile_step _ h)) h
  case' refreshJoiningNodePreparation =>
    refine perform_step ?_ (fun h => .cluster (refreshJoiningNodePreparation_step _ h)) h
  -- the checks of a command come before its first write
  all_goals repeat' first
    | with_reducible exact accepts_pure.keepsRefused
    | with_reducible exact accepts_pure
    | with_reducible refine KeepsRefused.read ?_
    | with_reducible refine KeepsRefused.check fun _ => ?_
    | with_reducible refine Accepts.write ?_
    | with_reducible refine Accepts.keepsRefused (Accepts.write ?_)
    | split
    | unfold nominateExecutor
    | refine KeepsRefused.read ?_

end Keldra.Consensus
