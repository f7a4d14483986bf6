import Keldra.Delivery.Model
import Keldra.Store.Mutations

/-!
# A node on its own

A store driven through its local operations: bulk writes, deletions of retained
versions, seals of payloads, retention, the delivery of the journal's reference
effects to the node itself, and garbage collection.  Each action is one holder of
the commit lock, so the actions of concurrent callers interleave freely; times
and clock readings are inputs, in no particular order.

On one node every payload is held complete, so the effects of a journal page are
effects on complete payloads.  A page that was read can be applied at any later
moment and any number of times.
-/

namespace Keldra.LocalNode

open Foundation Store

section

inductive DeleteRetainedVersionOutcome where
  | notFound
  | deletedNonCurrent
  | replacedCurrentWithTombstone (version : VersionId)
deriving DecidableEq, Repr

/-- A retained version that may be deleted, and its path's state. -/
structure RetainedTarget where
  head : Head
  target : Version
  aliases : List String

/-- The checks of a deletion; `none` means there is nothing to delete. -/
def findRetainedTarget (settings : BucketIdentity → Except MutationError BucketSettings)
    (store : LocalStore) (identity : BucketIdentity) (path : String) (version : VersionId) :
    Except MutationError (Option RetainedTarget) := do
  let settings ← settings identity
  rejectIf (settings.versioning ≠ .enabled) .objectVersioningNotEnabled
  rejectIf (settings.policy.isProgramOnly path ∧ ¬ isProgramDefinitionPath path)
    .programConcurrencyViolation
  rejectIf (settings.policy.isImmutable path ∨ isProgramDefinitionPath path) .immutable
  match store.source.objects.heads.get? (identity.headKey path) with
  | none => pure none
  | some head =>
    match store.source.objects.versions.get? (exactVersionKey identity path version) with
    | none => do
      rejectIf (head.version = version) (.storage "head references a missing retained version")
      pure none
    | some stored => do
      let target := stored.version
      rejectIf (target.id ≠ version ∨ target.deleted ≠ target.blob.isNone)
        (.storage "retained version descriptor is malformed")
      rejectIf target.protectedLinkDescriptor (.invalidObjectMutation
        "ordinary retained-version deletion names a protected link descriptor")
      let aliases := (store.aliases (identity.headKey path)).getD []
      rejectIf (head.version = version ∧ aliases ≠ []) .objectHasInboundAliases
      pure (some { head, target, aliases })

/-- The payload tables without the target's reference. -/
def releaseTarget
    (blobs : BlobTables) (target : Version) (now : Nat) : Except MutationError BlobTables := do
  match ← versionBlobReference target with
  | none => pure blobs
  | some reference => do
    let state ← prepareBlobReferenceRetirement [] blobs reference now
    pure (blobs.putReference (.completeBlob reference) state)

def targetDeltas (target : Version) : List ReferenceDelta :=
  (target.blob.map fun blob => ({ blob, change := -1 } : ReferenceDelta)).toList

/-- The journal records of a deletion: the version's, one for each alias, and
the head's when a tombstone takes its place. -/
def deletionChanges (identity : BucketIdentity) (path : String) (found : RetainedTarget)
    (tombstone : Option VersionId) : List PendingLocalChange :=
  let length := found.target.blob.map fun blob => blob.length
  .retainedVersionDeleted identity path none found.target.id tombstone (targetDeltas found.target)
    (if found.aliases = [] then
      some
        { previousLiveLength := tombstone.bind fun _ => length
          currentLiveLength := none
          logicalBytesRemoved := length.getD 0 }
    else
      none) ::
    (found.aliases.map fun exactPath =>
      .retainedVersionDeleted identity exactPath (some path) found.target.id tombstone [] none) ++
    (tombstone.map fun id =>
      PendingLocalChange.objectHead identity path id true none []
        (some { previousLiveLength := none, currentLiveLength := none, logicalBytesRemoved := 0 })
        none).toList

/-- The object tables after a deletion. -/
def deletedObjects
    (objects : ObjectTables) (identity : BucketIdentity) (path : String) (version : VersionId)
    (tombstone : Option Version) : ObjectTables :=
  let versions := objects.versions.erase (exactVersionKey identity path version)
  match tombstone with
  | none => { objects with versions }
  | some tombstone =>
    { heads := objects.heads.insert (identity.headKey path)
          { version := tombstone.id, deleted := true, mutationStamp := none }
      versions := versions.insert (exactVersionKey identity path tombstone.id)
        { retention := .userRetained, version := tombstone } }

def tombstoneVersion (id : VersionId) (now : Nat) : Version :=
  { id
    blob := none
    contentType := none
    deleted := true
    committedAtUnixMillis := now
    protectedLinkDescriptor := false }

variable (codec : LocalChangeCodec) (config : NodeConfig)

/-- Write a deletion with its journal records. -/
def persistDeletion
    (store : LocalStore) (identity : BucketIdentity) (path : String) (found : RetainedTarget)
    (blobs : BlobTables) (tombstone : Option Version) : Except MutationError LocalStore := do
  let id := tombstone.map fun version => version.id
  let source ← SourceStore.append codec config.store store.source
    (deletionChanges identity path found id) .appliedInline .bounded
    fun tables => (deletedObjects tables.1 identity path found.target.id tombstone, blobs)
  pure
    { store with
      source := source.settleInline config.store
      versionHighWatermark := id.or store.versionHighWatermark }

/-- Delete a version a user keeps.  The current one is replaced by a tombstone;
the clock has moved then even if the write fails. -/
def deleteRetainedVersion (settings : BucketIdentity → Except MutationError BucketSettings)
    (now reading : Nat) (identity : BucketIdentity) (path : String) (version : VersionId)
    (store : LocalStore) :
    LocalStore × Except MutationError DeleteRetainedVersionOutcome :=
  match findRetainedTarget settings store identity path version with
  | .error error => (store, .error error)
  | .ok none => (store, .ok .notFound)
  | .ok (some found) =>
    match releaseTarget store.source.blobs found.target now with
    | .error error => (store, .error error)
    | .ok blobs =>
      if found.head.version ≠ version then
        match persistDeletion codec config store identity path found blobs none with
        | .error error => (store, .error error)
        | .ok written => (written, .ok .deletedNonCurrent)
      else if found.target.deleted then
        (store, .error .currentTombstoneCannotBeDeleted)
      else
        match store.clock.nextAt reading with
        | .error message => (store, .error (.storage message))
        | .ok (id, clock) =>
          let ticked := { store with clock }
          match persistDeletion codec config ticked identity path found blobs
            (some (tombstoneVersion id now)) with
          | .error error => (ticked, .error error)
          | .ok written => (written, .ok (.replacedCurrentWithTombstone id))

end

section

/-- Seal one more payload of a batch. -/
def sealInlineNext (stored : BlobTables) (now : Nat)
    (progress : BlobTables × List BlobRef × PendingBlobReferences) (reference : BlobRef) :
    Except MutationError (BlobTables × List BlobRef × PendingBlobReferences) := do
  let (blobs, inlined, states) := progress
  let artifact := DestinationReferenceArtifact.completeBlob reference
  match ← prepareInlinePayloadValue stored inlined reference with
  | some reference => do
    let blobs ← stageInlineCompleteArtifact blobs reference
    let state ← prepareSealedArtifactReservation stored artifact now
    pure (blobs.putReference artifact state, reference :: inlined, states ++ [(artifact, state)])
  | none => do
    let state ← prepareSealedArtifactReservation stored artifact now
    pure (blobs.putReference artifact state, inlined, states ++ [(artifact, state)])

variable (codec : LocalChangeCodec) (config : NodeConfig)

/-- Seal small payloads, whose bytes join the batch. -/
def sealInline (references : List BlobRef) (now : Nat) (admission : SourceJournalAdmission)
    (store : LocalStore) : Except MutationError LocalStore := do
  let (blobs, _, states) ← references.foldlM (sealInlineNext store.source.blobs now)
    (store.source.blobs, [], [])
  let source ← SourceStore.append codec config.store store.source
    (states.map fun entry => lifecycleInvalidation entry.1 entry.2.updatedAt)
    .noReferenceEffects admission fun tables => (tables.1, blobs)
  pure { store with source }

def setUpload (blobs : BlobTables) (upload : Digest) (updatedAt : Option Nat) : BlobTables :=
  { blobs with uploads := Function.update blobs.uploads upload updatedAt }

/-- A chunk of a pending upload is stored. -/
def uploadChunk (upload : Digest) (now : Nat) (store : LocalStore) : LocalStore :=
  { store with
    source := { store.source with blobs := setUpload store.source.blobs upload (some now) } }

/-- The payload tables after an upload is sealed: its manifest becomes the
payload's, unless the payload has one already. -/
def promoteUpload (blobs : BlobTables) (upload : Digest) (reference : BlobRef) :
    Except MutationError BlobTables :=
  match blobs.manifests (.completeBlob reference) with
  | some existing => do
    rejectIf (existing.storageId = upload)
      (.storage "pending upload storage identity collides with a sealed artifact")
    pure (setUpload blobs upload none)
  | none =>
    pure (setUpload
      { blobs with
        manifests := Function.update blobs.manifests (.completeBlob reference)
          (some { layout := .chunked, storageId := upload }) }
      upload none)

/-- Seal a finished upload.  `observed` is the manifest its caller has verified;
when it is no longer the stored one the caller tries again. -/
def finishUpload
    (upload : Digest) (reference : BlobRef) (observed : Option ArtifactManifest) (now : Nat)
    (admission : SourceJournalAdmission) (store : LocalStore) :
    Except MutationError LocalStore := do
  let stored := store.source.blobs
  let artifact := DestinationReferenceArtifact.completeBlob reference
  rejectIf (stored.uploads upload = none)
    (.storage "pending upload disappeared before finalization")
  if stored.manifests artifact ≠ observed then
    pure store
  else do
    let lifecycle ← readBlobReferenceState stored artifact
    rejectIf (observed.isSome ∧ lifecycle = none)
      (.storage "sealed payload manifest has no lifecycle authority")
    rejectIf (observed = none ∧ lifecycle.isSome)
      (.storage "sealed payload lifecycle has no published manifest")
    let state ← prepareSealedArtifactReservation stored artifact now
    let promoted ← promoteUpload stored upload reference
    let source ← SourceStore.append codec config.store store.source
      [lifecycleInvalidation artifact state.updatedAt] .noReferenceEffects admission
      fun tables => (tables.1, promoted.putReference artifact state)
    pure { store with source }

/-- Collect a pending upload that has been idle since its due record. -/
def collectUpload (upload : Digest) (dueUpdatedAt : Nat) (store : LocalStore) : LocalStore :=
  if store.source.blobs.uploads upload = some dueUpdatedAt then
    { store with source := { store.source with blobs := setUpload store.source.blobs upload none } }
  else
    store

end

section

/-- The effects of journal records on the payloads of this node. -/
def localEffects (changes : List LocalChange) : List DestinationReferenceDelta :=
  changes.flatMap fun change =>
    change.referenceDeltas.map fun delta =>
      { artifact := .completeBlob delta.blob, change := delta.change }

variable (codec : LocalChangeCodec) (config : NodeConfig)

/-- Read a page of the journal behind the node's own cursor. -/
def readPage (limit : Nat) (store : LocalStore) : LocalStore :=
  let cursor := store.source.journal.referenceCursor config.store.sourceId
  match Delivery.scanLocalChanges codec config.store store.source.journal cursor limit with
  | .error _ => store
  | .ok changes =>
    match changes.getLast? with
    | none => store
    | some last =>
      { store with
        source := store.source.readDelivery config.store cursor last.offset (localEffects changes) }

/-- Apply a page that was read. -/
def applyPage (index : Nat) (admission : SourceJournalAdmission) (now : Nat) (store : LocalStore) :
    LocalStore :=
  match store.source.deliveries[index]? with
  | none => store
  | some request =>
    { store with source := store.source.applyDeltas codec config.store admission now request }

/-- Tell retention how far delivery has got. -/
def finishDelivery (offset : Nat) (store : LocalStore) : LocalStore :=
  if offset ≤ store.source.journal.referenceCursor config.store.sourceId then
    { store with source := store.source.step codec config.store (.advanceReferenceSafe offset) }
  else
    store

end

section

/-- Operations on the journal that neither append records of their own nor move
the delivered offset. -/
def isLocalMaintenance : JournalAction → Bool
  | .settleThrough _ => true
  | .settlePositions _ _ => true
  | .ensureMembership _ _ => true
  | .checkpoint _ _ => true
  | .pruneForCapacity => true
  | _ => false

inductive LocalAction where
  | bulkWrite (settings : BucketIdentity → Except MutationError BucketSettings)
      (intent : Option DefinitionMutationIntent) (backpressure : Bool)
      (admission : SourceJournalAdmission) (now : Nat)
      (prepared : List (Nat × PreparedOperation × Nat))
  | deleteRetainedVersion (settings : BucketIdentity → Except MutationError BucketSettings)
      (now reading : Nat) (identity : BucketIdentity) (path : String) (version : VersionId)
  | sealInline (references : List BlobRef) (now : Nat) (admission : SourceJournalAdmission)
  | uploadChunk (upload : Digest) (now : Nat)
  | finishUpload
    (upload : Digest) (reference : BlobRef) (observed : Option ArtifactManifest) (now : Nat)
    (admission : SourceJournalAdmission)
  | collect (artifact : DestinationReferenceArtifact) (dueUpdatedAt now : Nat)
  | collectUpload (upload : Digest) (dueUpdatedAt : Nat)
  | readPage (limit : Nat)
  | applyPage (index : Nat) (admission : SourceJournalAdmission) (now : Nat)
  | finishDelivery (offset : Nat)
  | pruneReceipts (now : Nat)
  | maintain (action : JournalAction)
  | reopen

variable (codec : LocalChangeCodec) (config : NodeConfig)

/-- A failed operation leaves the store. -/
def orUnchanged (store : LocalStore) (result : Except MutationError LocalStore) : LocalStore :=
  match result with
  | .ok next => next
  | .error _ => store

def collect
    (artifact : DestinationReferenceArtifact) (dueUpdatedAt now : Nat) (store : LocalStore) :
    LocalStore :=
  match store.source.collectDueArtifact codec config.store config.awaitingPublishTtl artifact
    dueUpdatedAt now with
  | .ok (source, _) => { store with source }
  | .error _ => store

/-- Receipts expire also without a write. -/
def pruneReceipts (now : Nat) (store : LocalStore) : LocalStore :=
  match stageExpiredMutationReceipts config.receiptCodec now store.receipts with
  | .ok (receipts, _) => { store with receipts }
  | .error _ => store

/-- The volatile state is rebuilt from the tables. -/
def reopen (store : LocalStore) : LocalStore :=
  { store with
    source := store.source.step codec config.store .reopen
    clock := VersionClock.withHighWatermark store.clock.nodeId store.versionHighWatermark }

def step (store : LocalStore) : LocalAction → LocalStore
  | .bulkWrite settings intent backpressure admission now prepared =>
    (store.bulkWrite codec config settings intent backpressure admission now prepared).1
  | .deleteRetainedVersion settings now reading identity path version =>
    (deleteRetainedVersion codec config settings now reading identity path version store).1
  | .sealInline references now admission =>
    orUnchanged store (sealInline codec config references now admission store)
  | .uploadChunk upload now => uploadChunk upload now store
  | .finishUpload upload reference observed now admission =>
    orUnchanged store (finishUpload codec config upload reference observed now admission store)
  | .collect artifact dueUpdatedAt now => collect codec config artifact dueUpdatedAt now store
  | .collectUpload upload dueUpdatedAt => collectUpload upload dueUpdatedAt store
  | .readPage limit => readPage codec config limit store
  | .applyPage index admission now => applyPage codec config index admission now store
  | .finishDelivery offset => finishDelivery codec config offset store
  | .pruneReceipts now => pruneReceipts config now store
  | .maintain action =>
    if isLocalMaintenance action then
      { store with source := store.source.step codec config.store action }
    else
      store
  | .reopen => reopen codec config store

def run (nodeId : Nat) (actions : List LocalAction) : LocalStore :=
  actions.foldl (step codec config) (LocalStore.initial nodeId)

theorem run_snoc (nodeId : Nat) (actions : List LocalAction) (action : LocalAction) :
    run codec config nodeId (actions ++ [action]) =
    step codec config (run codec config nodeId actions) action := by
  simp [run]

end

/-- Open the bytes of a payload: the manifest they are read from. -/
def openBlob
    (blobs : BlobTables) (reference : BlobRef) : Except MutationError ArtifactManifest := do
  let found ← readBlobReferenceState blobs (.completeBlob reference)
  rejectIf (¬ found.any fun state => state.refCount ≠ 0) .blobNotFound
  okOr (blobs.manifests (.completeBlob reference)) .blobNotFound

def validateSelectedHead
    (head : Head) (version : Version) : Except MutationError (Option BlobRef) := do
  rejectIf (version.id ≠ head.version)
    (.storage "selected version descriptor disagrees with its key")
  rejectIf (version.deleted ≠ head.deleted)
    (.storage "selected version descriptor disagrees with its head")
  versionBlobReference version

/-- Read the current object of a path: its version and where its bytes are. -/
def openObject (store : LocalStore) (identity : BucketIdentity) (path : String) :
    Except MutationError (Option (Version × Option ArtifactManifest)) :=
  match store.source.objects.heads.get? (identity.headKey path) with
  | none => pure none
  | some head => do
    let stored ← okOr
      (store.source.objects.versions.get? (exactVersionKey identity path head.version))
      (.storage "head references a missing version descriptor")
    match ← validateSelectedHead head stored.version with
    | none => pure (some (stored.version, none))
    | some reference => do
      let manifest ← openBlob store.source.blobs reference
      pure (some (stored.version, some manifest))

/-- A codec for finitely many records, each written as its place in a table. -/
def tableCodec (table : List LocalChange) : LocalChangeCodec where
  encode change :=
    if change ∈ table then
      .ok (List.replicate (table.idxOf change) 0)
    else
      .error "the record is not in the table"
  decode bytes :=
    match table[bytes.length]? with
    | some change => .ok change
    | none => .error "no record has this place"
  decode_of_encode := by
    intro change bytes hencode
    split at hencode
    · rename_i hmem
      cases hencode
      rw [List.length_replicate, List.getElem?_idxOf hmem]
    · cases hencode

/-- A node with an hour to publish what was sealed. -/
def sampleConfig : NodeConfig where
  store :=
    { sourceId := { nodeId := 1, sourceEpoch := 1 }
      watchRetention := { maxEntries := 16, maxBytes := 4096 } }
  receiptCodec := { receiptKey := fun _ _ => 0, encodedBytes := fun _ => 100 }
  receiptRetention := { retentionMillis := 60000, maxEntries := 4, maxBytes := 4096 }
  awaitingPublishTtl := 3600000

def sampleBucket : BucketIdentity := { tenantId := 1, bucketId := 1 }

/-- A bucket without any policy. -/
def sampleSettings (versioning : ObjectVersioning) (_ : BucketIdentity) :
    Except MutationError BucketSettings :=
  .ok { policy := { immutablePrefixes := [], programOnlyPrefixes := [] }, versioning }

def sampleOperation (path : String) (request : OperationRequest) : PreparedOperation :=
  { identity := sampleBucket, path, commandId := none, fingerprint := 0, request }

/-- A bulk of one operation, some milliseconds after the epoch. -/
def sampleWrite (versioning : ObjectVersioning) (millis : Nat) (operation : PreparedOperation) :
    LocalAction :=
  .bulkWrite (sampleSettings versioning) none false .bounded (customEpochMillis + millis)
    [(0, operation, customEpochMillis + millis)]

def sampleReport : BlobRef := { hash := 1, length := 3 }

def sampleRevision : BlobRef := { hash := 2, length := 4 }

/-- The record of a put of the report, which gets this version. -/
def reportPut (offset : Nat) (version : VersionId) : LocalChange :=
  PendingLocalChange.atOffset offset
    (.objectHead sampleBucket "a" version false none [{ blob := sampleReport, change := 1 }]
      (some { previousLiveLength := none, currentLiveLength := some 3, logicalBytesRemoved := 0 })
      none)

end Keldra.LocalNode
