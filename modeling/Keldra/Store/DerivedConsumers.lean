import Mathlib.Data.List.Chain
import Keldra.Store.Journal

/-!
# Checkpoints of derived consumers

The index and the accounting consumer of every ACTIVE node read a source's
journal.  The source keeps, for the membership fence it last saw, one checkpoint
for each consumer kind and ACTIVE node.  A newer fence starts every checkpoint
at the retention floor; the least checkpoints bound what retention may prune.
-/

namespace Keldra.Store

open Foundation

inductive DerivedConsumerKind where
  | index
  | accounting
deriving DecidableEq, Repr

inductive DerivedConsumerError where
  | malformed (message : String)
  | sourceMismatch
  | fenceRegression
  | membershipMismatch
  | inactiveConsumer
  | checkpointRegression
  | checkpointExpired
  | checkpointFuture
  | storage (message : String)
deriving DecidableEq, Repr

def DerivedConsumerError.text : DerivedConsumerError → String
  | .malformed message => s!"derived-consumer record is malformed: {message}"
  | .sourceMismatch => "derived-consumer checkpoint names another source journal"
  | .fenceRegression => "derived-consumer membership fence would regress"
  | .membershipMismatch => "derived-consumer ACTIVE set disagrees at the same membership fence"
  | .inactiveConsumer => "derived-consumer checkpoint comes from a node outside the ACTIVE set"
  | .checkpointRegression => "derived-consumer checkpoint would regress"
  | .checkpointExpired => "derived-consumer checkpoint is below the retained source floor"
  | .checkpointFuture => "derived-consumer checkpoint is beyond the settled source tail"
  | .storage message => s!"derived-consumer storage failed: {message}"

structure DerivedConsumerCheckpoint where
  consumerKind : DerivedConsumerKind
  sourceId : SourceId
  consumerNodeId : Nat
  nextOffset : Nat
  observedFence : PlacementLogId
deriving DecidableEq, Repr

def DerivedConsumerCheckpoint.validate
    (checkpoint : DerivedConsumerCheckpoint) : Except DerivedConsumerError Unit :=
  rejectIf (checkpoint.sourceId.nodeId = 0 ∨ checkpoint.sourceId.sourceEpoch = 0 ∨
    checkpoint.consumerNodeId = 0 ∨
    checkpoint.observedFence.term = 0 ∨
    checkpoint.observedFence.index = 0 ∨
    checkpoint.nextOffset = 0)
    (.malformed "derived consumer checkpoint identity is invalid")

structure DerivedMembership where
  sourceId : SourceId
  fence : PlacementLogId
  activeNodes : List Nat
deriving DecidableEq, Repr

structure CheckpointKey where
  fence : PlacementLogId
  kind : DerivedConsumerKind
  node : Nat
deriving DecidableEq, Repr

structure CheckpointValue where
  sourceId : SourceId
  nextOffset : Nat
deriving DecidableEq, Repr

/-- The metadata rows of the derived consumers. -/
structure DerivedTables where
  membership : Option DerivedMembership
  checkpoints : CheckpointKey → Option CheckpointValue

def DerivedTables.initial : DerivedTables where
  membership := none
  checkpoints := fun _ => none

/-- Fences are ordered by term, then index. -/
def FenceBefore (a b : PlacementLogId) : Prop :=
  a.term < b.term ∨ a.term = b.term ∧ a.index < b.index

instance (a b : PlacementLogId) : Decidable (FenceBefore a b) :=
  inferInstanceAs (Decidable (_ ∨ _))

theorem FenceBefore.irrefl (fence : PlacementLogId) : ¬ FenceBefore fence fence := by
  unfold FenceBefore
  omega

theorem FenceBefore.trans {a b c : PlacementLogId} (hab : FenceBefore a b) (hbc : FenceBefore b c) :
    FenceBefore a c := by
  unfold FenceBefore at *
  omega

theorem fence_trichotomy (a b : PlacementLogId) : FenceBefore a b ∨ a = b ∨ FenceBefore b a := by
  rcases a with ⟨_, _⟩
  rcases b with ⟨_, _⟩
  simp only [FenceBefore, PlacementLogId.mk.injEq]
  omega

def maxDerivedConsumerNodes : Nat := 65535

def validateActiveNodes (nodes : List Nat) : Except DerivedConsumerError Unit := do
  rejectIf (nodes = [] ∨ maxDerivedConsumerNodes < nodes.length)
    (.malformed "derived ACTIVE node set is empty or too large")
  rejectIf (¬ nodes.Nodup ∨ 0 ∈ nodes ∨ ¬ nodes.IsChain (· < ·))
    (.malformed "derived ACTIVE node set must be non-zero, unique, and ordered")

def validateFence (fence : PlacementLogId) : Except DerivedConsumerError Unit :=
  rejectIf (fence.term = 0 ∨ fence.index = 0) (.malformed "derived membership fence is invalid")

/-- Drop the checkpoints of a membership. -/
def clearCheckpoints
    (membership : DerivedMembership) (checkpoints : CheckpointKey → Option CheckpointValue) :
    CheckpointKey → Option CheckpointValue :=
  fun key =>
    if key.fence = membership.fence ∧ key.node ∈ membership.activeNodes then
      none
    else
      checkpoints key

/-- Start every checkpoint of a membership at one offset. -/
def startCheckpoints (membership : DerivedMembership) (nextOffset : Nat)
    (checkpoints : CheckpointKey → Option CheckpointValue) :
    CheckpointKey → Option CheckpointValue :=
  fun key =>
    if key.fence = membership.fence ∧ key.node ∈ membership.activeNodes then
      some { sourceId := membership.sourceId, nextOffset }
    else
      checkpoints key

def installMembership
    (status : WatchJournalStatus) (checkpoints : CheckpointKey → Option CheckpointValue)
    (fence : PlacementLogId) (activeNodes : List Nat) :
    Except DerivedConsumerError (DerivedTables × Bool) := do
  let initialNext ← okOr (checkedAdd64 status.retentionFloor 1)
    (.malformed "source retention floor is exhausted")
  let membership : DerivedMembership := { sourceId := status.sourceId, fence, activeNodes }
  validateFence fence
  validateActiveNodes activeNodes
  rejectIf (status.sourceId.nodeId = 0 ∨ status.sourceId.sourceEpoch = 0)
    (.malformed "derived membership source is invalid")
  pure
    ({ membership := some membership
       checkpoints := startCheckpoints membership initialNext checkpoints }, true)

/-- Install the ACTIVE set of a fence unless it is installed; says whether the
membership changed. -/
def stageMembership (derived : DerivedTables) (status : WatchJournalStatus)
    (fence : PlacementLogId) (activeNodes : List Nat) :
    Except DerivedConsumerError (DerivedTables × Bool) :=
  match derived.membership with
  | none => installMembership status derived.checkpoints fence activeNodes
  | some existing => do
    rejectIf (existing.sourceId ≠ status.sourceId) .sourceMismatch
    rejectIf (FenceBefore fence existing.fence) .fenceRegression
    if existing.fence = fence then do
      rejectIf (existing.activeNodes ≠ activeNodes) .membershipMismatch
      pure (derived, false)
    else
      installMembership status (clearCheckpoints existing derived.checkpoints) fence activeNodes

def ensureDerivedConsumerMembership
    (config : StoreConfig) (journal : JournalTables) (derived : DerivedTables)
    (fence : PlacementLogId) (activeNodes : List Nat) :
    Except DerivedConsumerError DerivedTables := do
  validateFence fence
  validateActiveNodes activeNodes
  let status ← (localWatchStatus config journal).mapError .storage
  let (staged, _) ← stageMembership derived status fence activeNodes
  pure staged

/-- A stored checkpoint, as its key and value give it. -/
def readCheckpoint (derived : DerivedTables) (key : CheckpointKey) :
    Except DerivedConsumerError DerivedConsumerCheckpoint := do
  let value ← okOr (derived.checkpoints key) (.malformed "ACTIVE derived checkpoint is missing")
  let checkpoint : DerivedConsumerCheckpoint :=
    { consumerKind := key.kind
      sourceId := value.sourceId
      consumerNodeId := key.node
      nextOffset := value.nextOffset
      observedFence := key.fence }
  checkpoint.validate
  pure checkpoint

/-- The offset every ACTIVE node has passed for one kind of consumer. -/
def leastCheckpoint
    (derived : DerivedTables) (membership : DerivedMembership) (kind : DerivedConsumerKind) :
    Except DerivedConsumerError Nat :=
  membership.activeNodes.foldlM (fun least node => do
      let checkpoint ← readCheckpoint derived { fence := membership.fence, kind, node }
      rejectIf (checkpoint.sourceId ≠ membership.sourceId) .sourceMismatch
      let through ← okOr (checkedSub64 checkpoint.nextOffset 1)
        (.malformed "derived checkpoint offset is zero")
      pure (min least through))
    u64Max

structure DerivedConsumerStatus where
  sourceId : SourceId
  observedFence : PlacementLogId
  activeConsumerNodes : List Nat
  indexSafeThrough : Nat
  accountingSafeThrough : Nat
deriving DecidableEq, Repr

def derivedConsumerStatus
    (derived : DerivedTables) : Except DerivedConsumerError (Option DerivedConsumerStatus) :=
  match derived.membership with
  | none => pure none
  | some membership => do
    let indexSafeThrough ← leastCheckpoint derived membership .index
    let accountingSafeThrough ← leastCheckpoint derived membership .accounting
    pure (some
      { sourceId := membership.sourceId
        observedFence := membership.fence
        activeConsumerNodes := membership.activeNodes
        indexSafeThrough
        accountingSafeThrough })

/-- How far the derived consumers let retention go.  Without a membership there
are none, and settlement alone bounds it. -/
def derivedConsumerSafeThrough (derived : DerivedTables) (source : WatchJournalStatus) :
    Except DerivedConsumerError (Nat × Nat) := do
  match ← derivedConsumerStatus derived with
  | none => pure (source.settledThrough, source.settledThrough)
  | some status => do
    rejectIf (status.sourceId ≠ source.sourceId) .sourceMismatch
    rejectIf (source.settledThrough < status.indexSafeThrough ∨
      source.settledThrough < status.accountingSafeThrough)
      .checkpointFuture
    pure (status.indexSafeThrough, status.accountingSafeThrough)

/-- Advance one ACTIVE node's checkpoint; the batch before its retention pass. -/
def stageDerivedConsumerCheckpoint
    (config : StoreConfig) (journal : JournalTables) (derived : DerivedTables)
    (checkpoint : DerivedConsumerCheckpoint) (activeNodes : List Nat) :
    Except DerivedConsumerError DerivedTables := do
  checkpoint.validate
  validateActiveNodes activeNodes
  rejectIf (checkpoint.consumerNodeId ∉ activeNodes) .inactiveConsumer
  let source ← (localWatchStatus config journal).mapError .storage
  rejectIf (checkpoint.sourceId ≠ source.sourceId) .sourceMismatch
  let minimumNext ← okOr (checkedAdd64 source.retentionFloor 1)
    (.malformed "source retention floor is exhausted")
  let maximumNext ← okOr (checkedAdd64 source.settledThrough 1)
    (.malformed "source settled cursor is exhausted")
  rejectIf (checkpoint.nextOffset < minimumNext) .checkpointExpired
  rejectIf (maximumNext < checkpoint.nextOffset) .checkpointFuture
  let (staged, membershipChanged) ←
    stageMembership derived source checkpoint.observedFence activeNodes
  let key : CheckpointKey :=
    { fence := checkpoint.observedFence
      kind := checkpoint.consumerKind
      node := checkpoint.consumerNodeId }
  let existing ←
    if membershipChanged then
      pure { checkpoint with nextOffset := minimumNext }
    else
      readCheckpoint derived key
  rejectIf (existing.sourceId ≠ checkpoint.sourceId) .sourceMismatch
  rejectIf (checkpoint.nextOffset < existing.nextOffset) .checkpointRegression
  if existing.nextOffset < checkpoint.nextOffset then
    pure
      { staged with
        checkpoints := Function.update staged.checkpoints key
          (some { sourceId := checkpoint.sourceId, nextOffset := checkpoint.nextOffset }) }
  else
    pure staged

end Keldra.Store
