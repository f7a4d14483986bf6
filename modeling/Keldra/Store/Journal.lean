import Mathlib.Logic.Function.Basic
import Keldra.Store.Model

/-!
# The source journal

Appends, settlement and retention of a node's journal of local changes.  The
tables below are the journal's column families and metadata counters.  A staged
write batch is written here as the tables it leaves; it is dropped when any of
its checks fails.

* `stageLocalChanges` appends changes under one of three admission classes;
* `settleThrough` and `settlePositions` advance the settled cursor;
* `enforceRetention` prunes records every consumer is done with, retires the
  versions only those records kept, and appends their delayed releases.
-/

namespace Keldra.Store

open Foundation

structure WatchRetention where
  maxEntries : Nat
  maxBytes : Nat
deriving DecidableEq, Repr

/-- What a store is opened with. -/
structure StoreConfig where
  sourceId : SourceId
  watchRetention : WatchRetention
deriving DecidableEq, Repr

/-- The journal's column families and metadata. -/
structure JournalTables where
  tail : Nat
  settledThrough : Nat
  retentionFloor : Nat
  retainedEntries : Nat
  retainedBytes : Nat
  records : OrdMap Nat Bytes
  routes : Finset RouteKey
  referenceCursor : SourceId → Nat

/-- A journal as a first open writes it. -/
def JournalTables.initial : JournalTables where
  tail := 0
  settledThrough := 0
  retentionFloor := 0
  retainedEntries := 0
  retainedBytes := 0
  records := OrdMap.empty
  routes := ∅
  referenceCursor := fun _ => 0

structure WatchJournalStatus where
  sourceId : SourceId
  tail : Nat
  settledThrough : Nat
  retentionFloor : Nat
  retainedEntries : Nat
  retainedBytes : Nat
deriving DecidableEq, Repr

def localWatchStatus
    (config : StoreConfig) (journal : JournalTables) : Except String WatchJournalStatus := do
  rejectIf
    (journal.settledThrough < journal.retentionFloor ∨ journal.tail < journal.settledThrough ∨
      journal.retainedEntries ≠ journal.tail - journal.retentionFloor)
    "local invalidation retention metadata is inconsistent"
  pure
    { sourceId := config.sourceId
      tail := journal.tail
      settledThrough := journal.settledThrough
      retentionFloor := journal.retentionFloor
      retainedEntries := journal.retainedEntries
      retainedBytes := journal.retainedBytes }

/-- More is retained than the configured bounds. -/
def OverLimit (retention : WatchRetention) (entries bytes : Nat) : Prop :=
  retention.maxEntries < entries ∨ retention.maxBytes < bytes

instance (retention : WatchRetention) (entries bytes : Nat) :
    Decidable (OverLimit retention entries bytes) :=
  inferInstanceAs (Decidable (_ ∨ _))

section

inductive SourceJournalAdmission where
  | bounded
  | derivedProgress
  | physicalReplica
deriving DecidableEq, Repr

/-- Whether the batch of an append already applied its reference effects. -/
inductive LocalReferenceEffects where
  | appliedInline
  | noReferenceEffects
  | deferred
deriving DecidableEq, Repr

/-- A lifecycle record without any logical effect. -/
def PendingLocalChange.isPhysical : PendingLocalChange → Bool
  | .contentLifecycleChanged _ _ referenceDeltas accountingTransition =>
    referenceDeltas.isEmpty && accountingTransition.isNone
  | _ => false

def SourceJournalAdmission.suppressesPhysicalReplicaChanges
    (admission : SourceJournalAdmission) (changes : List PendingLocalChange)
    (effects : LocalReferenceEffects) : Except MutationError Bool :=
  if admission ≠ .physicalReplica then
    pure false
  else do
    rejectIf (¬ (effects = .noReferenceEffects ∧ changes.all PendingLocalChange.isPhysical))
      (.storage "physical replica installation cannot suppress a logical source change")
    pure true

variable {ε : Type}

/-- Write one change behind the tail.  `admitSize` checks its logical size. -/
def appendRecord (codec : LocalChangeCodec) (config : StoreConfig)
    (fail : String → ε) (admitSize : Nat → Except ε Unit)
    (journal : JournalTables) (pending : PendingLocalChange) : Except ε JournalTables := do
  let tail ← okOr (checkedAdd64 journal.tail 1) (fail "local invalidation offset is exhausted")
  let change := pending.atOffset tail
  let encoded ← (codec.encode change).mapError fail
  let logicalBytes := recordLogicalBytes change encoded
  admitSize logicalBytes
  let routes ← (stageJournalRoutes journal.routes config.sourceId.sourceEpoch change).mapError fail
  let retainedEntries ← okOr (checkedAdd64 journal.retainedEntries 1)
    (fail "local invalidation entry count is exhausted")
  let retainedBytes ← okOr (checkedAdd64 journal.retainedBytes logicalBytes)
    (fail "local invalidation byte count is exhausted")
  pure
    { journal with
      tail
      retainedEntries
      retainedBytes
      records := journal.records.insert tail encoded
      routes }

def SourceJournalAdmission.admitRecord
    (admission : SourceJournalAdmission) (retention : WatchRetention)
    (logicalBytes : Nat) : Except MutationError Unit :=
  rejectIf (admission = .bounded ∧ retention.maxBytes < logicalBytes)
    (.sourceJournalRecordTooLarge logicalBytes retention.maxBytes)

/-- Whether the append also moves the local reference cursor to the new tail. -/
def movesReferenceCursor (effects : LocalReferenceEffects) (changes : List PendingLocalChange)
    (cursor oldTail : Nat) : Except MutationError Bool :=
  match effects with
  | .appliedInline => do
      -- deferred publication may have moved the tail past ordered delivery
      rejectIf (cursor ≠ oldTail) .sourceJournalCapacity
      pure true
  | .noReferenceEffects => do
    rejectIf (changes.any PendingLocalChange.hasReferenceEffects) (.storage
      "source-journal append declared no reference effects but carried a reference delta")
    pure (cursor = oldTail)
  | .deferred => pure false

def SourceJournalAdmission.checkTransition
    (admission : SourceJournalAdmission) (retention : WatchRetention)
    (before after : JournalTables) : Except MutationError Unit :=
  if admission = .bounded then do
    let appendedEntries := after.retainedEntries - before.retainedEntries
    let appendedBytes := after.retainedBytes - before.retainedBytes
    rejectIf (OverLimit retention appendedEntries appendedBytes)
      (.sourceJournalTransitionTooLarge appendedEntries appendedBytes
        retention.maxEntries retention.maxBytes)
    rejectIf (OverLimit retention after.retainedEntries after.retainedBytes) .sourceJournalCapacity
  else
    pure ()

/--
Append changes to the journal.  `cursors` are the reference cursors as the batch
leaves them so far; the checks read the stored ones.
-/
def stageLocalChanges (codec : LocalChangeCodec) (config : StoreConfig)
    (journal : JournalTables) (cursors : SourceId → Nat)
    (changes : List PendingLocalChange) (effects : LocalReferenceEffects)
    (admission : SourceJournalAdmission) : Except MutationError JournalTables := do
  let suppressed ← admission.suppressesPhysicalReplicaChanges changes effects
  if suppressed ∨ changes = [] then
    pure { journal with referenceCursor := cursors }
  else do
    let status ← (localWatchStatus config journal).mapError .storage
    rejectIf (admission = .bounded ∧
      OverLimit config.watchRetention status.retainedEntries status.retainedBytes)
      .sourceJournalCapacity
    let cursor := journal.referenceCursor status.sourceId
    let oldTail := status.tail
    rejectIf (oldTail < cursor)
      (.storage s!"local reference cursor {cursor} is ahead of source-journal tail {oldTail}")
    let moves ← movesReferenceCursor effects changes cursor oldTail
    let appended ← changes.foldlM
      (appendRecord codec config .storage (admission.admitRecord config.watchRetention)) journal
    admission.checkTransition config.watchRetention journal appended
    pure
      { appended with
        settledThrough :=
          if effects ≠ .deferred ∧ status.settledThrough = oldTail then
            appended.tail
          else
            appended.settledThrough
        referenceCursor :=
          if moves then Function.update cursors status.sourceId appended.tail else cursors }

end

def settleThrough (config : StoreConfig) (journal : JournalTables) (offset : Nat) :
    Except MutationError JournalTables := do
  let status ← (localWatchStatus config journal).mapError .storage
  if offset < status.settledThrough then
    pure journal
  else do
    let tail := status.tail
    rejectIf (tail < offset)
      (.storage s!"source journal settled cursor {offset} is beyond tail {tail}")
    pure { journal with settledThrough := offset }

/-- The end of the contiguous proven positions after a settled cursor.  The
loop advances at most once for each proven position. -/
def settledPrefix (proven : List Nat) : Nat → Nat → Except MutationError Nat
  | 0, through => pure through
  | bound + 1, through => do
    let next ← okOr (checkedAdd64 through 1) (.storage "source journal settled cursor overflowed")
    if next ∈ proven then settledPrefix proven bound next else pure through

def settlePositions
    (config : StoreConfig) (journal : JournalTables) (source : SourceId) (offsets : List Nat) :
    Except MutationError JournalTables :=
  if offsets = [] then
    pure journal
  else do
    let status ← (localWatchStatus config journal).mapError .storage
    rejectIf (source ≠ status.sourceId)
      (.storage "source journal identity does not match local source")
    let tail := status.tail
    rejectIf (offsets.any fun offset => tail < offset)
      (.storage s!"source journal settled cursor is beyond tail {tail}")
    let through ← settledPrefix offsets (offsets.length + 1) status.settledThrough
    pure { journal with settledThrough := through }

/-- The state of a retention pass: the staged tables, the versions retired so
far and the releases to append. -/
structure RetentionPass where
  journal : JournalTables
  objects : ObjectTables
  retiredKeys : List VersionKey
  delayedReleases : List PendingLocalChange
  prunedRecords : Nat

/-- What retiring one version does to the pass. -/
structure Retirement where
  objects : ObjectTables
  retiredKeys : List VersionKey
  released : Option (VersionId × Option ReferenceDelta)

/--
Retire a version whose journal record is pruned.  The current head keeps its
version, now without a journal record; another version goes, with its payload
reference.
-/
def stageCheckpointedSourceVersionRetirement
    (stored : ObjectTables) (objects : ObjectTables) (retiredKeys : List VersionKey)
    (tenantId bucketId : Nat) (exactPath : String) (versionId : VersionId) :
    Except String Retirement :=
  let identity : BucketIdentity := { tenantId, bucketId }
  let versionKey := exactVersionKey identity exactPath versionId
  let unchanged : Retirement := { objects, retiredKeys, released := none }
  if versionKey ∈ retiredKeys then
    pure unchanged
  else
    let head := stored.heads.get? (identity.headKey exactPath)
    match stored.versions.get? versionKey with
    | none => pure unchanged
    | some descriptor =>
      if descriptor.retention ≠ .journalPending then
        pure unchanged
      else do
        let version := descriptor.version
        rejectIf (version.id ≠ versionId) "checkpoint-retained version key and descriptor disagree"
        if head.any (fun head => head.version = versionId) then
          pure
            { unchanged with
              objects :=
                { objects with
                  versions := objects.versions.insert versionKey
                    { retention := .journalReleased, version } } }
        else do
          let resultingHead ← okOr head "checkpoint-retained descriptor has no current head"
          pure
            { objects := { objects with versions := objects.versions.erase versionKey }
              retiredKeys := versionKey :: retiredKeys
              released := some (resultingHead.version,
                version.blob.map fun blob => { blob, change := -1 }) }

/-- The delayed release of a version retired with its journal record. -/
def delayedRelease
    (change : ObjectHeadChange) (referenceDelta : Option ReferenceDelta) : PendingLocalChange :=
  .contentLifecycleChanged (.retiredVersion
    (exactVersionKey { tenantId := change.tenantId, bucketId := change.bucketId }
      change.exactPath change.pathVersion))
    change.pathVersion
    referenceDelta.toList
    (some
      { tenantId := change.tenantId
        bucketId := change.bucketId
        exactPath := change.exactPath
        retainedBytesRemoved := (referenceDelta.map fun delta => delta.blob.length).getD 0 })

def stagePrunedChangeVersionRetirement
    (stored : ObjectTables) (objects : ObjectTables) (retiredKeys : List VersionKey)
    (change : LocalChange) :
    Except String (ObjectTables × List VersionKey × Option PendingLocalChange) :=
  match change with
  | .objectHead change => do
    let retirement ← stageCheckpointedSourceVersionRetirement stored objects retiredKeys
      change.tenantId change.bucketId change.exactPath change.pathVersion
    pure (retirement.objects, retirement.retiredKeys,
      retirement.released.map fun released => delayedRelease change released.2)
  | _ => pure (objects, retiredKeys, none)

section

variable (codec : LocalChangeCodec) (config : StoreConfig)

/-- Prune the oldest retained record. -/
def pruneRecord (stored : ObjectTables) (pass : RetentionPass) : Except String RetentionPass := do
  let journal := pass.journal
  let offset ← okOr (checkedAdd64 journal.retentionFloor 1)
    "local invalidation retention floor is exhausted"
  let encoded ← okOr (journal.records.get? offset)
    s!"retained local invalidation offset {offset} is missing"
  let change ← codec.decode encoded
  rejectIf (change.offset ≠ offset) "local change key does not match its stored offset"
  let routes ← stageJournalRouteRemoval journal.routes config.sourceId.sourceEpoch change
  let (objects, retiredKeys, release) ←
    stagePrunedChangeVersionRetirement stored pass.objects pass.retiredKeys change
  let retainedBytes ← okOr (checkedSub64 journal.retainedBytes (recordLogicalBytes change encoded))
    "local invalidation byte accounting is inconsistent"
  pure
    { journal :=
        { journal with
          retentionFloor := offset
          retainedEntries := journal.retainedEntries - 1
          retainedBytes
          records := journal.records.erase offset
          routes }
      objects
      retiredKeys
      delayedReleases := pass.delayedReleases ++ release.toList
      prunedRecords := pass.prunedRecords + 1 }

/-- Prune while a bound is exceeded, or once when headroom is forced.  The
loop runs at most once for each record up to the safe offset. -/
def pruneRecords (codec : LocalChangeCodec) (config : StoreConfig) (stored : ObjectTables)
    (forceHeadroom : Bool) (safeThrough : Nat) :
    Nat → RetentionPass → Except String RetentionPass
  | 0, pass => pure pass
  | bound + 1, pass =>
    if (OverLimit config.watchRetention pass.journal.retainedEntries
      pass.journal.retainedBytes ∨ (forceHeadroom ∧ pass.prunedRecords = 0)) ∧
        pass.journal.retentionFloor < safeThrough then do
      let next ← pruneRecord codec config stored pass
      pruneRecords codec config stored forceHeadroom safeThrough bound next
    else
      pure pass

/--
One retention pass.  `consumerSafe` are the offsets the derived consumers have
passed, or why they cannot be read.
-/
def enforceRetention (forceHeadroom : Bool)
    (referenceSafeThrough : Nat) (consumerSafe : WatchJournalStatus → Except String (Nat × Nat))
    (journal : JournalTables) (objects : ObjectTables) :
    Except String (JournalTables × ObjectTables) := do
  let status ← localWatchStatus config journal
  if ¬ forceHeadroom ∧
    ¬ OverLimit config.watchRetention status.retainedEntries status.retainedBytes then
    pure (journal, objects)
  else do
    let (indexSafeThrough, accountingSafeThrough) ← consumerSafe status
    let safeThrough := min (min (min referenceSafeThrough status.settledThrough)
      indexSafeThrough) accountingSafeThrough
    let pass ← pruneRecords codec config objects forceHeadroom safeThrough
      (safeThrough - status.retentionFloor)
      { journal, objects, retiredKeys := [], delayedReleases := [], prunedRecords := 0 }
    let appended ← pass.delayedReleases.foldlM
      (appendRecord codec config id (fun _ => pure ())) pass.journal
    pure (appended, pass.objects)

end

end Keldra.Store
