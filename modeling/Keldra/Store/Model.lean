import Mathlib.Data.Prod.Lex
import Mathlib.Data.String.Basic
import Mathlib.Data.Finset.Basic
import Keldra.Foundation.Bytes
import Keldra.Foundation.OrdMap

/-!
# Records of the node store

The typed rows of the store's column families and the records of its source
journal.  A node keeps one journal of its local changes.  Every change has the
next offset, and its stored record is what watches, derived consumers and the
delivery of content references read.

Counters and timestamps are unsigned 64-bit numbers; where the code checks
their range the model does too.
-/

namespace Keldra.Store

open Foundation

abbrev Digest := BitVec 256

abbrev VersionId := Nat

/-- Largest unsigned 64-bit number. -/
def u64Max : Nat := 2 ^ 64 - 1

def checkedAdd64 (a b : Nat) : Option Nat :=
  if a + b ≤ u64Max then some (a + b) else none

def checkedSub64 (a b : Nat) : Option Nat :=
  if b ≤ a then some (a - b) else none

def saturatingAdd64 (a b : Nat) : Nat :=
  min (a + b) u64Max

theorem checkedAdd64_eq_some {a b c : Nat} :
    checkedAdd64 a b = some c ↔ a + b ≤ u64Max ∧ c = a + b := by
  unfold checkedAdd64
  split
  · rename_i hfits
    simp [hfits, eq_comm]
  rename_i hfits
  simp [hfits]

theorem checkedSub64_eq_some {a b c : Nat} : checkedSub64 a b = some c ↔ b ≤ a ∧ c = a - b := by
  unfold checkedSub64
  split
  · rename_i hfits
    simp [hfits, eq_comm]
  rename_i hfits
  simp [hfits]

/-- Why a mutation is refused. -/
inductive MutationError where
  | preconditionFailed (current : Option VersionId)
  | immutable
  | immutablePolicyRequired
  | programConcurrencyViolation
  | atomicReservationConflict (beginCursor : Nat)
  | objectHasInboundAliases
  | idempotencyConflict
  | invalidCommandId
  | blobNotFound
  | durabilityUnavailable
  | receiptCapacity
  | receiptTooLarge (bytes maximum : Nat)
  | sourceJournalCapacity
  | sourceJournalRecordTooLarge (bytes maximum : Nat)
  | sourceJournalTransitionTooLarge (entries bytes maximumEntries maximumBytes : Nat)
  | invalidObjectMutation (message : String)
  | objectMutationLineageGap (current predecessor : Option VersionId)
  | objectMutationSibling (predecessor : Option VersionId)
  | objectMutationConflict
  | objectVersioningNotEnabled
  | currentTombstoneCannotBeDeleted
  | invalidPolicy (message : String)
  | storage (message : String)
deriving DecidableEq, Repr

/-- A sealed payload, named by its content. -/
structure BlobRef where
  hash : Digest
  length : Nat
deriving DecidableEq, Repr

/-- One logical content-reference effect of a journal record. -/
structure ReferenceDelta where
  blob : BlobRef
  change : Int
deriving DecidableEq, Repr

/-- One node's journal incarnation. -/
structure SourceId where
  nodeId : Nat
  sourceEpoch : Digest
deriving DecidableEq, Repr

structure PlacementLogId where
  term : Nat
  index : Nat
deriving DecidableEq, Repr

structure BucketIdentity where
  tenantId : Nat
  bucketId : Nat
deriving DecidableEq, Repr

/-- Key of an object head: tenant, bucket and exact path. -/
abbrev HeadKey := Nat ×ₗ Nat ×ₗ String

/-- Key of a version descriptor: the head's key and the version. -/
abbrev VersionKey := HeadKey ×ₗ VersionId

def BucketIdentity.headKey (identity : BucketIdentity) (path : String) : HeadKey :=
  toLex (identity.tenantId, toLex (identity.bucketId, path))

def exactVersionKey
    (identity : BucketIdentity) (exactPath : String) (version : VersionId) : VersionKey :=
  toLex (identity.headKey exactPath, version)

/-- One erasure-coded fragment of a payload. -/
structure ShardIdentity where
  fragmentFormatVersion : Nat
  blob : BlobRef
  ordinal : Nat
deriving DecidableEq, Repr

/-- A physical artifact a node can hold. -/
inductive DestinationReferenceArtifact where
  | completeBlob (reference : BlobRef)
  | shard (identity : ShardIdentity)
deriving DecidableEq, Repr

/-- What a lifecycle record is about: an artifact, or a retired version. -/
inductive LifecycleIdentity where
  | artifact (artifact : DestinationReferenceArtifact)
  | retiredVersion (key : VersionKey)
deriving DecidableEq

structure MutationStamp where
  format : Nat
  predecessorVersion : Option VersionId
  programCommitCursor : Option Nat
  mutationFingerprint : Digest
  activePlacementLogId : PlacementLogId
  servingFenceTerm : Nat
  sourceId : SourceId
  sourceJournalPosition : Nat
deriving DecidableEq, Repr

structure Head where
  version : VersionId
  deleted : Bool
  mutationStamp : Option MutationStamp
deriving DecidableEq, Repr

structure Version where
  id : VersionId
  blob : Option BlobRef
  contentType : Option String
  deleted : Bool
  committedAtUnixMillis : Nat
  protectedLinkDescriptor : Bool
deriving DecidableEq, Repr

/-- Who still needs a stored version: its own journal record, nobody but the
head, or the user. -/
inductive StoredVersionRetention where
  | journalPending
  | journalReleased
  | userRetained
deriving DecidableEq, Repr

structure StoredVersion where
  retention : StoredVersionRetention
  version : Version
deriving DecidableEq, Repr

/-- The head and version column families. -/
structure ObjectTables where
  heads : OrdMap HeadKey Head
  versions : OrdMap VersionKey StoredVersion

inductive ObjectHeadChangeKind where
  | put
  | delete
deriving DecidableEq, Repr

structure AccountingHeadTransition where
  previousLiveLength : Option Nat
  currentLiveLength : Option Nat
  logicalBytesRemoved : Nat
deriving DecidableEq, Repr

inductive DefinitionKind where
  | index
  | accounting
deriving DecidableEq, Repr

inductive DefinitionOperation where
  | upsert
  | delete
deriving DecidableEq, Repr

structure DefinitionTransition where
  kind : DefinitionKind
  tenantId : Nat
  bucketId : Nat
  definitionId : Nat
  path : String
  objectVersion : VersionId
  operation : DefinitionOperation
deriving DecidableEq, Repr

structure ObjectHeadChange where
  offset : Nat
  tenantId : Nat
  bucketId : Nat
  exactPath : String
  canonicalPath : Option String
  pathVersion : VersionId
  kind : ObjectHeadChangeKind
  programCommitCursor : Option Nat
  referenceDeltas : List ReferenceDelta
  accountingTransition : Option AccountingHeadTransition
  definitionTransition : Option DefinitionTransition
deriving DecidableEq, Repr

structure RetainedVersionDeletedChange where
  offset : Nat
  tenantId : Nat
  bucketId : Nat
  exactPath : String
  canonicalPath : Option String
  deletedVersion : VersionId
  resultingHeadVersion : Option VersionId
  referenceDeltas : List ReferenceDelta
  accountingTransition : Option AccountingHeadTransition
deriving DecidableEq, Repr

inductive AggregateKind where
  | zanzibarRealm
  | logicalRecord
deriving DecidableEq, Repr

structure AggregateChanged where
  offset : Nat
  aggregateKind : AggregateKind
  aggregateKey : Bytes
  revision : Nat
deriving DecidableEq

structure ContentAccountingTransition where
  tenantId : Nat
  bucketId : Nat
  exactPath : String
  retainedBytesRemoved : Nat
deriving DecidableEq, Repr

structure ContentLifecycleChanged where
  offset : Nat
  blobIdentity : LifecycleIdentity
  revision : Nat
  referenceDeltas : List ReferenceDelta
  accountingTransition : Option ContentAccountingTransition
deriving DecidableEq

structure AtomicBatchMutation where
  tenantId : Nat
  bucketId : Nat
  exactPath : String
  canonicalPath : Option String
  pathVersion : VersionId
  deleted : Bool
  sourceId : SourceId
  sourceJournalPosition : Nat
deriving DecidableEq, Repr

structure AtomicBatchPublished where
  offset : Nat
  cursor : Nat
  bundleHash : Digest
  mutations : List AtomicBatchMutation
deriving DecidableEq, Repr

/-- One record of the source journal. -/
inductive LocalChange where
  | objectHead (change : ObjectHeadChange)
  | retainedVersionDeleted (change : RetainedVersionDeletedChange)
  | aggregateChanged (change : AggregateChanged)
  | contentLifecycleChanged (change : ContentLifecycleChanged)
  | atomicBatchPublished (change : AtomicBatchPublished)
deriving DecidableEq

def LocalChange.offset : LocalChange → Nat
  | .objectHead change => change.offset
  | .retainedVersionDeleted change => change.offset
  | .aggregateChanged change => change.offset
  | .contentLifecycleChanged change => change.offset
  | .atomicBatchPublished change => change.offset

def LocalChange.referenceDeltas : LocalChange → List ReferenceDelta
  | .objectHead change => change.referenceDeltas
  | .retainedVersionDeleted change => change.referenceDeltas
  | .aggregateChanged _ => []
  | .contentLifecycleChanged change => change.referenceDeltas
  | .atomicBatchPublished _ => []

/-- A change before its append gives it an offset. -/
inductive PendingLocalChange where
  | objectHead (identity : BucketIdentity) (exactPath : String) (pathVersion : VersionId)
      (deleted : Bool) (programCommitCursor : Option Nat)
      (referenceDeltas : List ReferenceDelta)
      (accountingTransition : Option AccountingHeadTransition)
      (definitionTransition : Option DefinitionTransition)
  | aliasObjectHead (identity : BucketIdentity) (exactPath canonicalPath : String)
      (pathVersion : VersionId) (deleted : Bool) (programCommitCursor : Option Nat)
  | retainedVersionDeleted
    (identity : BucketIdentity) (exactPath : String) (canonicalPath : Option String)
    (deletedVersion : VersionId) (resultingHeadVersion : Option VersionId)
    (referenceDeltas : List ReferenceDelta)
    (accountingTransition : Option AccountingHeadTransition)
  | aggregateChanged (aggregateKind : AggregateKind) (aggregateKey : Bytes) (revision : Nat)
  | contentLifecycleChanged (blobIdentity : LifecycleIdentity) (revision : Nat)
      (referenceDeltas : List ReferenceDelta)
      (accountingTransition : Option ContentAccountingTransition)
  | atomicBatchPublished (cursor : Nat) (bundleHash : Digest) (mutations : List AtomicBatchMutation)
deriving DecidableEq

def headChangeKind (deleted : Bool) : ObjectHeadChangeKind :=
  if deleted then .delete else .put

def PendingLocalChange.atOffset (offset : Nat) : PendingLocalChange → LocalChange
  | .objectHead identity exactPath pathVersion deleted programCommitCursor
    referenceDeltas accountingTransition definitionTransition =>
    .objectHead
      { offset
        tenantId := identity.tenantId
        bucketId := identity.bucketId
        exactPath
        canonicalPath := none
        pathVersion
        kind := headChangeKind deleted
        programCommitCursor
        referenceDeltas
        accountingTransition
        definitionTransition }
  | .aliasObjectHead identity exactPath canonicalPath pathVersion deleted
    programCommitCursor =>
    .objectHead
      { offset
        tenantId := identity.tenantId
        bucketId := identity.bucketId
        exactPath
        canonicalPath := some canonicalPath
        pathVersion
        kind := headChangeKind deleted
        programCommitCursor
        referenceDeltas := []
        accountingTransition := none
        definitionTransition := none }
  | .retainedVersionDeleted identity exactPath (some canonicalPath) deletedVersion
    resultingHeadVersion _ _ =>
    -- an alias wake carries none of the canonical record's effects
    .retainedVersionDeleted
      { offset
        tenantId := identity.tenantId
        bucketId := identity.bucketId
        exactPath
        canonicalPath := some canonicalPath
        deletedVersion
        resultingHeadVersion
        referenceDeltas := []
        accountingTransition := none }
  | .retainedVersionDeleted identity exactPath none deletedVersion
    resultingHeadVersion referenceDeltas accountingTransition =>
    .retainedVersionDeleted
      { offset
        tenantId := identity.tenantId
        bucketId := identity.bucketId
        exactPath
        canonicalPath := none
        deletedVersion
        resultingHeadVersion
        referenceDeltas
        accountingTransition }
  | .aggregateChanged aggregateKind aggregateKey revision =>
    .aggregateChanged { offset, aggregateKind, aggregateKey, revision }
  | .contentLifecycleChanged blobIdentity revision referenceDeltas accountingTransition =>
    .contentLifecycleChanged
      { offset, blobIdentity, revision, referenceDeltas, accountingTransition }
  | .atomicBatchPublished cursor bundleHash mutations =>
    .atomicBatchPublished { offset, cursor, bundleHash, mutations }

def PendingLocalChange.hasReferenceEffects : PendingLocalChange → Bool
  | .objectHead _ _ _ _ _ referenceDeltas _ _ => !referenceDeltas.isEmpty
  | .retainedVersionDeleted _ _ _ _ _ referenceDeltas _ => !referenceDeltas.isEmpty
  | .contentLifecycleChanged _ _ referenceDeltas _ => !referenceDeltas.isEmpty
  | .aliasObjectHead .. => false
  | .aggregateChanged .. => false
  | .atomicBatchPublished .. => false

@[simp] theorem PendingLocalChange.offset_atOffset (pending : PendingLocalChange) (offset : Nat) :
    (pending.atOffset offset).offset = offset := by
  rcases pending with _ | _ | ⟨_, _, _ | _⟩ | _ | _ | _ <;> rfl

/-- The stored form of journal records.  Its byte layout is a parameter; what
was written reads back. -/
structure LocalChangeCodec where
  encode : LocalChange → Except String Bytes
  decode : Bytes → Except String LocalChange
  decode_of_encode : ∀ change bytes, encode change = .ok bytes → decode bytes = .ok change

section

variable {sourceEpoch : Digest} {change : LocalChange}

/-- Consumers of the journal that read only part of it. -/
inductive JournalRoute where
  | definition (kind : DefinitionKind)
  | bucket (tenantId bucketId : Nat)
deriving DecidableEq, Repr

/-- Key of the route column family; its values are empty. -/
structure RouteKey where
  route : JournalRoute
  sourceEpoch : Digest
  offset : Nat
deriving DecidableEq, Repr

/-- The routes of the mutations, with runs of one route joined. -/
def batchRoutes (previous : Option (Nat × Nat)) : List AtomicBatchMutation → List JournalRoute
  | [] => []
  | mutation :: rest =>
    let route := (mutation.tenantId, mutation.bucketId)
    if previous = some route then
      batchRoutes previous rest
    else
      .bucket mutation.tenantId mutation.bucketId :: batchRoutes (some route) rest

def AtomicBatchPublished.routes (change : AtomicBatchPublished) : List JournalRoute :=
  batchRoutes none change.mutations

def routesForChange : LocalChange → List JournalRoute
  | .objectHead change =>
    .bucket change.tenantId change.bucketId :: (change.definitionTransition.map fun transition =>
      JournalRoute.definition transition.kind).toList
  | .retainedVersionDeleted change => [.bucket change.tenantId change.bucketId]
  | .atomicBatchPublished change => change.routes
  | .contentLifecycleChanged change =>
    (change.accountingTransition.map fun transition =>
      JournalRoute.bucket transition.tenantId transition.bucketId).toList
  | .aggregateChanged _ => []

def routeKeyBytes : JournalRoute → Nat
  | .definition _ => 43
  | .bucket _ _ => 58

def journalRouteLogicalBytes (change : LocalChange) : Nat :=
  (routesForChange change).foldl (fun bytes route => saturatingAdd64 bytes (routeKeyBytes route)) 0

def invalidationRecordBytes (encodedValueBytes : Nat) : Nat :=
  saturatingAdd64 8 encodedValueBytes

/-- Bytes a record counts for: its key, its value and its route keys. -/
def recordLogicalBytes (change : LocalChange) (encoded : Bytes) : Nat :=
  saturatingAdd64 (invalidationRecordBytes encoded.length) (journalRouteLogicalBytes change)

def validateRoute (route : JournalRoute) : Except String Unit :=
  match route with
  | .bucket tenantId bucketId =>
    rejectIf (tenantId = 0 ∨ bucketId = 0) "routed journal bucket IDs must be non-zero"
  | .definition _ => pure ()

def routeKey
    (route : JournalRoute) (sourceEpoch : Digest) (offset : Nat) : Except String RouteKey := do
  validateRoute route
  rejectIf (sourceEpoch = 0 ∨ offset = 0) "routed journal source epoch and offset must be non-zero"
  pure { route, sourceEpoch, offset }

/-- The route keys of one record. -/
def routeKeys (sourceEpoch : Digest) (change : LocalChange) : List RouteKey :=
  (routesForChange change).map fun route => { route, sourceEpoch, offset := change.offset }

section

variable (routes : Finset RouteKey) (sourceEpoch : Digest) (change : LocalChange)

def stageJournalRoutes : Except String (Finset RouteKey) :=
  (routesForChange change).foldlM (fun staged route => do
      let key ← routeKey route sourceEpoch change.offset
      pure (insert key staged))
    routes

def stageJournalRouteRemoval : Except String (Finset RouteKey) :=
  (routesForChange change).foldlM (fun staged route => do
      let key ← routeKey route sourceEpoch change.offset
      pure (staged.erase key))
    routes

end

theorem routeKey_eq_ok {route : JournalRoute} {offset : Nat} {key : RouteKey}
    (h : routeKey route sourceEpoch offset = .ok key) :
    key = { route, sourceEpoch, offset } := by
  simp only [routeKey, ok_rules] at h
  exact h.2.2.symm

/-- Staging adds exactly the record's route keys. -/
theorem mem_stageJournalRoutes {staged : Finset RouteKey}
    (h : stageJournalRoutes routes sourceEpoch change = .ok staged) (key : RouteKey) :
    key ∈ staged ↔ key ∈ routes ∨ key ∈ routeKeys sourceEpoch change := by
  unfold stageJournalRoutes at h
  unfold routeKeys
  generalize routesForChange change = visited at h ⊢
  induction visited generalizing routes with
  | nil =>
    cases h
    simp
  | cons _ _ ih =>
    rw [List.foldlM_cons] at h
    simp only [ok_rules] at h
    obtain ⟨_, ⟨_, hkey, rfl⟩, h⟩ := h
    have hstaged := routeKey_eq_ok hkey
    rw [ih h, Finset.mem_insert, List.map_cons, List.mem_cons, hstaged]
    tauto

/-- Removal takes away exactly the record's route keys. -/
theorem mem_stageJournalRouteRemoval {staged : Finset RouteKey}
    (h : stageJournalRouteRemoval routes sourceEpoch change = .ok staged) (key : RouteKey) :
    key ∈ staged ↔ key ∈ routes ∧ key ∉ routeKeys sourceEpoch change := by
  unfold stageJournalRouteRemoval at h
  unfold routeKeys
  generalize routesForChange change = visited at h ⊢
  induction visited generalizing routes with
  | nil =>
    cases h
    simp
  | cons _ _ ih =>
    rw [List.foldlM_cons] at h
    simp only [ok_rules] at h
    obtain ⟨_, ⟨_, hkey, rfl⟩, h⟩ := h
    have hstaged := routeKey_eq_ok hkey
    rw [ih h, Finset.mem_erase, List.map_cons, List.mem_cons, hstaged]
    tauto

theorem offset_of_mem_routeKeys {key : RouteKey}
    (h : key ∈ routeKeys sourceEpoch change) :
    key.offset = change.offset := by
  obtain ⟨_, -, rfl⟩ := List.mem_map.mp h
  rfl

end

end Keldra.Store
