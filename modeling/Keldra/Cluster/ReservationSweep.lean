import Keldra.Store.Model
import Keldra.Consensus.ExactlyOnce

/-!
# The sweep of stale reservations

A node keeps durable reservations for the participants of atomic batches.  A
sweep reads which batches are in progress, later lists the stored reservations
and releases those of other batches, one at a time.  It holds no lock between
these moments: entries are applied and reservations are written in between.

A batch that is begun after the read is unknown to the sweep, which then takes
its reservations.  While no batch is begun the sweep takes only those of batches
that were aborted or finalized.
-/

namespace Keldra.Cluster

open Foundation Consensus Store Function

inductive ProgramReservationState where
  | prepared
  | committed (commitCursor : Nat)
deriving DecidableEq

def ProgramReservationState.cursor : ProgramReservationState → Option Nat
  | .prepared => none
  | .committed commitCursor => some commitCursor

/-- Where a reservation is stored: one for a path, one for a bucket's governance. -/
inductive ReservationKey where
  | object (identity : BucketIdentity) (path : String)
  | governance (identity : BucketIdentity)
deriving DecidableEq

structure ProgramReservation where
  key : ReservationKey
  beginCursor : Nat
  invocationId : InvocationId
  bundleHash : BitVec 256
  participantManifestHash : ParticipantManifestHash
  authority : AtomicBundleAuthority
  executorNodeId : NodeId
  nominationLogIndex : Nat
  placement : PlacementLogId
  /-- the sealed participant and its governance, which are only compared -/
  participant : Nat
  state : ProgramReservationState
deriving DecidableEq

abbrev Reservations := ReservationKey → Option ProgramReservation

namespace ProgramReservation

variable (reservation : ProgramReservation)

def matchesPrepared (batch : PreparedBatch) : Bool :=
  reservation.beginCursor = batch.beginCursor ∧
    reservation.invocationId = batch.request.invocationId ∧
    reservation.bundleHash = batch.request.bundleRef.hash ∧
    reservation.participantManifestHash = batch.request.participantManifestHash ∧
    reservation.authority = batch.request.authority ∧
    reservation.executorNodeId = batch.request.executor ∧
    reservation.nominationLogIndex = batch.request.nominationLogIndex

def matchesCommitted (invocation : CommittedInvocation) : Bool :=
  reservation.beginCursor = invocation.committedBatch.beginCursor ∧
    reservation.invocationId = invocation.invocationId ∧
    reservation.bundleHash = invocation.committedBatch.bundleRef.hash ∧
    reservation.participantManifestHash = invocation.committedBatch.participantManifestHash ∧
    reservation.authority = invocation.committedBatch.authority

/-- A prepared batch or an unfinalized decision that the reservation belongs to. -/
def hasAuthority (decisions : StateMachine) : Bool :=
  decisions.preparingBatch.any reservation.matchesPrepared ||
    decisions.unfinalizedInvocations.any reservation.matchesCommitted

def requireReservationFence (decisions : StateMachine) (placement : PlacementLogId) : Bool :=
  decisions.executor =
      some ⟨reservation.executorNodeId, reservation.nominationLogIndex⟩ ∧
    reservation.placement = placement ∧ reservation.state = .prepared

/-- Everything but the state is the same. -/
def requireExactReservationFence (existing expected : ProgramReservation) :
    Except MutationError Unit :=
  rejectIf ({ existing with state := expected.state } ≠ expected)
    (.atomicReservationConflict existing.beginCursor)

/-- The same reservation of the same executor, or of one nominated later. -/
def requireRefreshable (existing requested : ProgramReservation) : Except MutationError Unit :=
  rejectIf ({ existing with
      executorNodeId := requested.executorNodeId
      nominationLogIndex := requested.nominationLogIndex
      state := .prepared } ≠ requested ∨
    ¬ (existing.nominationLogIndex < requested.nominationLogIndex ∨
      existing.nominationLogIndex = requested.nominationLogIndex ∧
        existing.executorNodeId = requested.executorNodeId))
    (.atomicReservationConflict existing.beginCursor)

end ProgramReservation

section

variable (stored : Reservations) (expected : ProgramReservation)

/-- `admissible` is what the checks of the participant's own condition answer. -/
def reserveProgramParticipant (admissible : Except MutationError Unit) :
    Except MutationError Reservations :=
  match stored expected.key with
  | some existing => do
    existing.requireRefreshable expected
    return if existing.nominationLogIndex < expected.nominationLogIndex then
      update stored expected.key (some { existing with
        executorNodeId := expected.executorNodeId
        nominationLogIndex := expected.nominationLogIndex })
    else stored
  | none => do
    admissible
    return update stored expected.key (some expected)

def commitProgramParticipant (commitCursor : Nat) : Except MutationError Reservations := do
  let existing ← okOr (stored expected.key) (.atomicReservationConflict expected.beginCursor)
  existing.requireExactReservationFence expected
  match existing.state with
  | .prepared =>
    return update stored expected.key (some { existing with state := .committed commitCursor })
  | .committed current =>
    rejectIf (current ≠ commitCursor) (.atomicReservationConflict existing.beginCursor)
    return stored

def releaseProgramParticipant (finalized : Option Nat) : Except MutationError Reservations :=
  match stored expected.key with
  | none => .ok stored
  | some existing => do
    existing.requireExactReservationFence expected
    rejectIf (existing.state ≠ .prepared ∧ finalized.map .committed ≠ some existing.state)
      (.atomicReservationConflict existing.beginCursor)
    return update stored expected.key none

end

/-- A request of an executor for one participant. -/
inductive ReservationOperation where
  | reserve
  | commit (commitCursor : Nat)
  | release (finalized : Option Nat)
deriving DecidableEq

/-- The decision at a commit cursor. -/
def committedInvocation (decisions : StateMachine) (cursor : Nat) : Option CommittedInvocation :=
  decisions.committedInvocations.get? cursor

/-- The check of a request against the applied decisions; a commit and a finalized
release wait for the moment at which it passes. -/
def ReservationOperation.authorized (decisions : StateMachine) (reservation : ProgramReservation) :
    ReservationOperation → Bool
  | .reserve => reservation.hasAuthority decisions
  | .commit cursor => cursor ≠ 0 ∧ decisions.finalizedThrough.getD 0 < cursor ∧
    (committedInvocation decisions cursor).any reservation.matchesCommitted
  | .release none => !reservation.hasAuthority decisions
  | .release (some cursor) => cursor ≠ 0 ∧ cursor ≤ decisions.finalizedThrough.getD 0 ∧
    (committedInvocation decisions cursor).all reservation.matchesCommitted

/-- What a sweep has read, and the reservations that it has yet to visit. -/
structure Sweep where
  preparingBegin : Option Nat
  activeBegins : List Nat
  remaining : List ProgramReservation

/-- The batches whose reservations a sweep leaves alone. -/
abbrev Sweep.Knows (sweep : Sweep) (beginCursor : Nat) : Prop :=
  sweep.preparingBegin = some beginCursor ∨ beginCursor ∈ sweep.activeBegins

/-- A node: its applied decisions, its reservations, and what runs between locks. -/
structure ReservationNode where
  decisions : StateMachine
  reservations : Reservations
  admitted : List (ReservationOperation × ProgramReservation)
  sweep : Option Sweep

inductive ReservationAction where
  | apply (entry : LogEntry)
  /-- the node's own executor does not pass the checks of the peer service -/
  | accept (placement : PlacementLogId) (operation : ReservationOperation)
      (reservation : ProgramReservation) (isLocal : Bool)
  | perform (operation : ReservationOperation) (reservation : ProgramReservation)
      (admissible : Except MutationError Unit)
  | readDecisions
  | enumerate (keys : List ReservationKey)
  | visit

def preparingBegin (decisions : StateMachine) : Option Nat :=
  decisions.preparingBatch.map fun batch => batch.beginCursor

def activeBegins (decisions : StateMachine) : List Nat :=
  decisions.unfinalizedInvocations.map fun invocation => invocation.committedBatch.beginCursor

namespace ReservationNode

variable (node : ReservationNode)

/-- A store call that fails leaves the reservations as they were. -/
def performed (operation : ReservationOperation) (reservation : ProgramReservation)
    (admissible : Except MutationError Unit) : Except MutationError Reservations :=
  match operation with
  | .reserve => reserveProgramParticipant node.reservations reservation admissible
  | .commit cursor => commitProgramParticipant node.reservations reservation cursor
  | .release finalized => releaseProgramParticipant node.reservations reservation finalized

/-- One reservation of the sweep; a failed release ends it. -/
def visited (sweep : Sweep) : ReservationNode :=
  match sweep.remaining with
  | [] => { node with sweep := none }
  | reservation :: rest =>
    if sweep.Knows reservation.beginCursor then
      { node with sweep := some { sweep with remaining := rest } }
    else
      match releaseProgramParticipant node.reservations reservation reservation.state.cursor with
      | .error _ => { node with sweep := none }
      | .ok left =>
        { node with reservations := left, sweep := some { sweep with remaining := rest } }

/-- One moment of the node; what is not enabled changes nothing. -/
def step : ReservationAction → ReservationNode
  | .apply entry => { node with decisions := (applyEntry node.decisions entry).1 }
  | .accept placement operation reservation isLocal =>
    if isLocal ∨ reservation.requireReservationFence node.decisions placement ∧
        operation.authorized node.decisions reservation then
      { node with admitted := (operation, reservation) :: node.admitted }
    else node
  | .perform operation reservation admissible =>
    if (operation, reservation) ∈ node.admitted then
      { node with reservations :=
          (node.performed operation reservation admissible).toOption.getD node.reservations }
    else node
  | .readDecisions => { node with
      sweep := some ⟨preparingBegin node.decisions, activeBegins node.decisions, []⟩ }
  | .enumerate keys => { node with
      sweep := node.sweep.map fun sweep =>
        { sweep with remaining := keys.filterMap node.reservations } }
  | .visit => node.sweep.elim node node.visited

def run (actions : List ReservationAction) : ReservationNode :=
  actions.foldl step node

end ReservationNode

/-- A batch is prepared, or committed and not yet finalized. -/
def Live (decisions : StateMachine) (beginCursor : Nat) : Prop :=
  preparingBegin decisions = some beginCursor ∨ beginCursor ∈ activeBegins decisions

variable {node : ReservationNode} {sweep : Sweep}

/-- No batch is begun while a sweep is under way. -/
def Quiet (node : ReservationNode) : List ReservationAction → Prop
  | [] => True
  | action :: rest =>
    (∀ id batch, action = .apply (id, .beginBatch batch) → node.sweep = none) ∧
      Quiet (node.step action) rest

theorem mem_activeBegins {decisions : StateMachine} {beginCursor : Nat} :
    beginCursor ∈ activeBegins decisions ↔ ∃ cursor invocation,
    decisions.committedInvocations.get? cursor = some invocation ∧
      decisions.finalizedThrough.getD 0 < cursor ∧
        invocation.committedBatch.beginCursor = beginCursor := by
  simp only [activeBegins, StateMachine.unfinalizedInvocations, StateMachine.unfinalizedEntries,
    OrdMap.get?_eq_some_iff, List.mem_map, List.mem_filter, decide_eq_true_eq]
  constructor
  · rintro ⟨_, ⟨⟨cursor, invocation⟩, ⟨hmem, hafter⟩, rfl⟩, hbegin⟩
    exact ⟨cursor, invocation, hmem, hafter, hbegin⟩
  rintro ⟨cursor, invocation, hmem, hafter, hbegin⟩
  exact ⟨invocation, ⟨(cursor, invocation), ⟨hmem, hafter⟩, rfl⟩, hbegin⟩

/-- Only a begun batch becomes live. -/
theorem live_of_step {decisions next : StateMachine} {logId : LogId} {command : Command}
    {outcome : Except ApplyError ApplyResult} {beginCursor : Nat}
    (hstep : Step decisions logId command next outcome)
    (hcommand : ∀ batch, command ≠ .beginBatch batch) (hlive : Live next beginCursor) :
    Live decisions beginCursor := by
  cases hstep with
  | rejected => exact hlive
  | cluster h =>
    have hsame := h.sameDecisions
    rw [Live, preparingBegin, mem_activeBegins, hsame.preparingBatch, hsame.committedInvocations,
      hsame.finalizedThrough] at hlive
    rwa [Live, mem_activeBegins]
  | decision h =>
    rw [Live, mem_activeBegins] at hlive ⊢
    cases h with
    | nominated =>
      rw [preparingBegin, StateMachine.nominate, Option.map_map] at hlive
      exact hlive
    | pruningFailed batch | begun batch => exact absurd rfl (hcommand batch)
    | committed request prepared bytes _ hprepared =>
      -- the decision carries the begin cursor of the batch it commits
      rcases hlive with hnone | ⟨cursor, invocation, hget, hafter, hbegin⟩
      · cases hnone
      simp only [StateMachine.recordDecision, OrdMap.get?_insert] at hget hafter
      split at hget
      · cases hget
        exact .inl (by rw [preparingBegin, hprepared, ← hbegin]; rfl)
      exact .inr ⟨cursor, invocation, hget, hafter, hbegin⟩
    | aborted => exact hlive.imp_left fun hnone => absurd hnone (by simp [preparingBegin])
    | finalizationKept | bootstrapped => exact hlive
    | finalized _ _ _ _ _ _ hforward =>
      refine hlive.imp_right ?_
      rintro ⟨cursor, invocation, hget, hafter, hbegin⟩
      refine ⟨cursor, invocation, hget, ?_, hbegin⟩
      cases hcurrent : decisions.finalizedThrough with
      | none => exact (Nat.zero_le _).trans_lt hafter
      | some current => exact (hforward current hcurrent).trans hafter

/-- A sweep knows every batch that is live. -/
def Informed (node : ReservationNode) : Prop :=
  ∀ sweep ∈ node.sweep, ∀ beginCursor, Live node.decisions beginCursor → sweep.Knows beginCursor

/-- A visit leaves the reservations that the sweep knows, and what it has read. -/
theorem visited_eq (node : ReservationNode) (sweep : Sweep) : ∃ left next,
    node.visited sweep = { node with reservations := left, sweep := next } ∧
      (∀ later ∈ next, later.Knows = sweep.Knows) ∧
        ∀ key reservation, node.reservations key = some reservation →
          sweep.Knows reservation.beginCursor → left key = some reservation := by
  unfold ReservationNode.visited
  split
  · exact ⟨_, none, rfl, by simp, fun _ _ hstored _ => hstored⟩
  rename_i visited rest _
  split
  · exact ⟨_, _, rfl, by rintro _ ⟨⟩; rfl, fun _ _ hstored _ => hstored⟩
  rename_i hstale
  split
  · exact ⟨_, none, rfl, by simp, fun _ _ hstored _ => hstored⟩
  rename_i left hreleased
  refine ⟨left, _, rfl, by rintro _ ⟨⟩; rfl, ?_⟩
  intro key reservation hstored hknown
  unfold releaseProgramParticipant at hreleased
  cases hexisting : node.reservations visited.key with
  | none =>
    rw [hexisting] at hreleased
    cases hreleased
    exact hstored
  | some existing =>
    simp only [hexisting, ProgramReservation.requireExactReservationFence, ok_rules,
      not_not] at hreleased
    obtain ⟨hsame, _, rfl⟩ := hreleased
    refine (update_of_ne ?_ _ _).trans hstored
    -- the stored reservation has the begin cursor of the visited one
    rintro rfl
    cases hstored.symm.trans hexisting
    rw [← hsame] at hstale
    exact hstale hknown

theorem Informed.step {action : ReservationAction} (h : Informed node)
    (hquiet : ∀ id batch, action = .apply (id, .beginBatch batch) → node.sweep = none) :
    Informed (node.step action) := by
  intro sweep hsweep beginCursor hlive
  cases action with
  | apply entry =>
    refine h sweep hsweep beginCursor (live_of_step (apply_step rfl) ?_ hlive)
    intro batch hbatch
    have hidle := hquiet entry.1 batch (by rw [← hbatch])
    rw [ReservationNode.step, hidle] at hsweep
    cases hsweep
  | accept | perform =>
    simp only [ReservationNode.step] at hsweep hlive
    split_ifs at hsweep hlive <;> exact h sweep hsweep beginCursor hlive
  | readDecisions =>
    cases hsweep
    exact hlive
  | enumerate =>
    obtain ⟨_, hbefore, rfl⟩ := Option.map_eq_some_iff.mp hsweep
    exact h _ hbefore beginCursor hlive
  | visit =>
    cases hcurrent : node.sweep with
    | none =>
      rw [ReservationNode.step, hcurrent, Option.elim_none, hcurrent] at hsweep
      cases hsweep
    | some current =>
      obtain ⟨_, _, hvisited, hread, _⟩ := visited_eq node current
      rw [ReservationNode.step, hcurrent, Option.elim_some, hvisited] at hsweep hlive
      rw [hread sweep hsweep]
      exact h current hcurrent beginCursor hlive

theorem Informed.run {actions : List ReservationAction} (h : Informed node)
    (hquiet : Quiet node actions) :
    Informed (node.run actions) := by
  induction actions generalizing node with
  | nil => exact h
  | cons _ _ ih => exact ih (h.step hquiet.1) hquiet.2

/-- In every run in which no batch is begun during a sweep, the sweep leaves every
reservation whose batch is live when it is visited. -/
theorem sweep_keeps_live_reservations
    (node : ReservationNode)
    (actions : List ReservationAction)
    (key : ReservationKey)
    (reservation : ProgramReservation)
    (hidle : node.sweep = none)
    (hquiet : Quiet node actions)
    (hstored : (node.run actions).reservations key = some reservation)
    (hlive : Live (node.run actions).decisions reservation.beginCursor) :
    ((node.run actions).step .visit).reservations key = some reservation := by
  have hinformed : Informed (node.run actions) := by
    refine Informed.run ?_ hquiet
    intro _ hsweep
    rw [hidle] at hsweep
    cases hsweep
  cases hcurrent : (node.run actions).sweep with
  | none => rwa [ReservationNode.step, hcurrent]
  | some sweep =>
    obtain ⟨_, _, hvisited, _, hkept⟩ := visited_eq (node.run actions) sweep
    rw [ReservationNode.step, hcurrent, Option.elim_some, hvisited]
    exact hkept key reservation hstored (hinformed sweep hcurrent _ hlive)

/-- A node with an executor and no reservations. -/
def nominatedNode : ReservationNode :=
  ⟨applyAll (.initial 10 100000) [(sampleLogId 1, .nominateExecutor 1)], fun _ => none, [], none⟩

def sampleKey : ReservationKey := .object ⟨1, 1⟩ "a"

def sampleReservation : ProgramReservation :=
  ⟨sampleKey, 2, ⟨7⟩, 9, ⟨12⟩, .builtInObjectTransaction 1 1, 1, 1, ⟨1, 1⟩, 5, .prepared⟩

/-- A batch is begun, and a participant of it is reserved by a peer's request. -/
def beginAndReserve : List ReservationAction :=
  [.apply (sampleLogId 2, .beginBatch (sampleBatch 1)),
    .accept ⟨1, 1⟩ .reserve sampleReservation false, .perform .reserve sampleReservation (.ok ())]

theorem sweep_keeps_sampleReservation :
    ((nominatedNode.run (beginAndReserve ++ [.readDecisions, .enumerate [sampleKey]])).step
      .visit).reservations sampleKey = some sampleReservation := by
  refine sweep_keeps_live_reservations _ _ _ _ rfl ?_ (by decide +kernel) (.inl (by decide +kernel))
  refine ⟨fun _ _ _ => rfl, ?_⟩
  simp [Quiet]

/-- A sweep that has read the decisions before takes the reservation. -/
theorem sweep_takes_live_reservation :
    Live (nominatedNode.run (.readDecisions :: beginAndReserve ++
      [.enumerate [sampleKey]])).decisions sampleReservation.beginCursor ∧
    (nominatedNode.run (.readDecisions :: beginAndReserve ++
      [.enumerate [sampleKey]])).reservations sampleKey = some sampleReservation ∧
    ((nominatedNode.run (.readDecisions :: beginAndReserve ++ [.enumerate [sampleKey]])).step
      .visit).reservations sampleKey = none := by
  refine ⟨.inl ?_, ?_, ?_⟩ <;> decide +kernel

end Keldra.Cluster
