import Keldra.Foundation.Text
import Keldra.Store.PayloadLifecycle
import Keldra.Store.Receipts
import Keldra.Store.VersionClock

/-!
# Object mutations

Puts, publishes, clones and deletes as a node applies them to its own tables.
Operations arrive prepared: their large payloads are sealed, their fingerprints
computed.  One holder of the commit lock evaluates a list of them one after the
other into a single write batch.

`BulkState` is the batch as the tables it would leave, together with the values
staged so far, which later operations of the list read before the stored ones.
An operation that fails late keeps what it has staged by then, as the batch does;
the phases below are split where that can happen.

The settings of a bucket are an input of the evaluation.
-/

namespace Keldra.Store

open Foundation

inductive Precondition where
  | any
  | absent
  | version (expected : VersionId)
deriving DecidableEq, Repr

inductive PutMode where
  | put
  | putIfAbsent
  | putIfVersion (version : VersionId)
  | putImmutable
deriving DecidableEq, Repr

def PutMode.precondition : PutMode → Precondition
  | .put => .any
  | .putIfAbsent => .absent
  | .putImmutable => .absent
  | .putIfVersion version => .version version

structure BucketPolicy where
  immutablePrefixes : List String
  programOnlyPrefixes : List String
deriving DecidableEq, Repr

structure BucketSettings where
  policy : BucketPolicy
  versioning : ObjectVersioning
deriving DecidableEq, Repr

def prefixMatches (scope path : String) : Bool :=
  path = scope ||
    (scope.toList.isPrefixOf path.toList && (path.toList.drop scope.toList.length).head? = some '/')

def BucketPolicy.isImmutable (policy : BucketPolicy) (path : String) : Bool :=
  policy.immutablePrefixes.any fun scope => prefixMatches scope path

def BucketPolicy.isProgramOnly (policy : BucketPolicy) (path : String) : Bool :=
  policy.programOnlyPrefixes.any fun scope => prefixMatches scope path

def programDefinitionPrefix : String := "_keldra/programs/"

/-- `_keldra/programs/<name>@<version>` with a non-empty name and version. -/
def isProgramDefinitionPath (path : String) : Bool :=
  let nameAndVersion := path.toList.drop programDefinitionPrefix.toList.length
  programDefinitionPrefix.toList.isPrefixOf path.toList && !nameAndVersion.contains '/' &&
    nameAndVersion.count '@' = 1 && nameAndVersion.head? ≠ some '@' &&
      nameAndVersion.getLast? ≠ some '@'

def maxObjectPathBytes : Nat := 4096

/-- The rules for the path of an object key. -/
def validateObjectPath (path : String) : Except String Unit := do
  rejectIf (path = "") "path must not be empty"
  rejectIf ('\x00' ∈ path.toList) "object key components must not contain NUL"
  rejectIf (maxObjectPathBytes < path.utf8ByteSize) "path is too long"
  rejectIf ((path.toList.splitOn '/').any (fun segment =>
      segment = [] || segment = ['.'] || segment = ['.', '.']) ∨
      path.toList.any isControl)
    "path must contain canonical non-empty relative segments"

/-- The payload of a put.  Small bytes join the batch; large ones are installed
before. -/
inductive PreparedPayload where
  | inline (reference : BlobRef)
  | installed (reference : BlobRef)
deriving DecidableEq, Repr

def PreparedPayload.reference : PreparedPayload → BlobRef
  | .inline reference => reference
  | .installed reference => reference

inductive OperationRequest where
  | put (payload : PreparedPayload) (contentType : Option String) (mode : PutMode)
  | publish (blob : BlobRef) (contentType : Option String) (mode : PutMode)
  | clone (source : String) (sourceVersion : VersionId) (blob : BlobRef)
      (contentType : Option String) (mode : PutMode)
  | delete (precondition : Precondition)
deriving DecidableEq, Repr

/-- An operation on one exact path of one bucket. -/
structure PreparedOperation where
  identity : BucketIdentity
  path : String
  commandId : Option String
  fingerprint : Digest
  request : OperationRequest
deriving DecidableEq, Repr

namespace PreparedOperation

section

variable (operation : PreparedOperation)

def payloadReference : Option BlobRef :=
  match operation.request with
  | .put payload _ _ => some payload.reference
  | .publish blob _ _ => some blob
  | .clone _ _ blob _ _ => some blob
  | .delete _ => none

def contentType : Option String :=
  match operation.request with
  | .put _ contentType _ => contentType
  | .publish _ contentType _ => contentType
  | .clone _ _ _ contentType _ => contentType
  | .delete _ => none

def putMode : Option PutMode :=
  match operation.request with
  | .put _ _ mode => some mode
  | .publish _ _ mode => some mode
  | .clone _ _ _ _ mode => some mode
  | .delete _ => none

def precondition : Precondition :=
  match operation.request with
  | .put _ _ mode => mode.precondition
  | .publish _ _ mode => mode.precondition
  | .clone _ _ _ _ mode => mode.precondition
  | .delete precondition => precondition

def isDelete : Bool :=
  match operation.request with
  | .delete _ => true
  | _ => false

def lockPaths : List String :=
  match operation.request with
  | .clone source _ _ _ _ => [source, operation.path]
  | _ => [operation.path]

def headKey : HeadKey :=
  operation.identity.headKey operation.path

end

end PreparedOperation

/-- What a trusted caller says about the definition an object holds. -/
structure DefinitionMutationIntent where
  kind : DefinitionKind
  definitionId : Nat
deriving DecidableEq, Repr

/-- The value of a typed definition locator; its key holds the rest. -/
structure LocatorValue where
  operation : DefinitionOperation
  definitionId : Nat
  objectVersion : VersionId
deriving DecidableEq, Repr

/-- What a node is opened with. -/
structure NodeConfig where
  store : StoreConfig
  receiptCodec : ReceiptCodec
  receiptRetention : MutationReceiptRetention
  awaitingPublishTtl : Nat

/-- A node's store as mutations see it.  The alias registries and the
reservations of atomic programs are written elsewhere. -/
structure LocalStore where
  source : SourceStore
  receipts : ReceiptTables
  locators : DefinitionKind → HeadKey → Option LocatorValue
  aliases : HeadKey → Option (List String)
  reservations : HeadKey → Option Nat
  versionHighWatermark : Option VersionId
  clock : VersionClock

def LocalStore.initial (nodeId : Nat) : LocalStore where
  source := SourceStore.initial
  receipts := ReceiptTables.initial
  locators := fun _ _ => none
  aliases := fun _ => none
  reservations := fun _ => none
  versionHighWatermark := none
  clock := VersionClock.withHighWatermark nodeId none

/-- What one evaluation reads besides the batch. -/
structure BulkContext where
  config : NodeConfig
  store : LocalStore
  settings : BucketIdentity → Except MutationError BucketSettings
  intent : Option DefinitionMutationIntent
  now : Nat
  prunedReceipts : List Nat

/-- A write batch, and the values staged in it. -/
structure BulkState where
  objects : ObjectTables
  blobs : BlobTables
  receipts : ReceiptTables
  locators : DefinitionKind → HeadKey → Option LocatorValue
  clock : VersionClock
  pendingHeads : HeadKey → Option Head
  pendingVersions : HeadKey → Option Version
  pendingReceipts : Nat → Option StoredReceipt
  pendingBlobReferences : PendingBlobReferences
  pendingInlinePayloads : List BlobRef

structure MutationReceipt where
  commandId : Option String
  fingerprint : Digest
  version : VersionId
  deleted : Bool
  replayed : Bool
  replayGuaranteeExpiresAtUnixMillis : Nat
deriving DecidableEq, Repr

/-- An evaluated operation.  `aliases` are those of a target with logical
aliases. -/
structure EvaluatedOperation where
  receipt : MutationReceipt
  referenceDeltas : List ReferenceDelta
  accountingTransition : Option AccountingHeadTransition
  definitionTransition : Option DefinitionTransition
  aliases : Option (List String)

/-- Prefix of the rendered error of a malformed definition record. -/
def malformedDefinition (reason : String) : MutationError :=
  .invalidObjectMutation s!"definition-state record is malformed: {reason}"

def DefinitionTransition.validate
    (transition : DefinitionTransition) : Except MutationError Unit := do
  rejectIf (transition.tenantId = 0 ∨ transition.bucketId = 0 ∨ transition.definitionId = 0)
    (malformedDefinition "definition stable IDs must be non-zero")
  (validateObjectPath transition.path).mapError malformedDefinition
  rejectIf (transition.objectVersion = 0)
    (malformedDefinition "definition object version must be non-zero")

/-- The transition an intent and an operation describe. -/
def definitionTransition (operation : PreparedOperation) (version : VersionId) (deleted : Bool)
    (intent : DefinitionMutationIntent) : DefinitionTransition :=
  { kind := intent.kind
    tenantId := operation.identity.tenantId
    bucketId := operation.identity.bucketId
    definitionId := intent.definitionId
    path := operation.path
    objectVersion := version
    operation := if deleted then .delete else .upsert }

section

variable (locators : DefinitionKind → HeadKey → Option LocatorValue)
  (transition : DefinitionTransition)

def putLocator : DefinitionKind → HeadKey → Option LocatorValue :=
  let key := BucketIdentity.headKey
    { tenantId := transition.tenantId, bucketId := transition.bucketId } transition.path
  Function.update locators transition.kind (Function.update (locators transition.kind) key (some
    { operation := transition.operation
      definitionId := transition.definitionId
      objectVersion := transition.objectVersion }))

/-- Write the locator of a definition, also of a deleted one. -/
def stageDefinitionTransition :
    Except MutationError (DefinitionKind → HeadKey → Option LocatorValue) := do
  transition.validate
  pure (putLocator locators transition)

end

def definitionReceiptMatchesIntent
    (stored : Option DefinitionTransition) (intent : Option DefinitionMutationIntent)
    (operation : PreparedOperation) : Bool :=
  match stored, intent with
  | none, none => true
  | some stored, some intent =>
    stored.kind = intent.kind && stored.definitionId = intent.definitionId &&
      stored.tenantId = operation.identity.tenantId &&
        stored.bucketId = operation.identity.bucketId && stored.path = operation.path
  | _, _ => false

section

def checkPrecondition
    (precondition : Precondition) (current : Option Head) : Except MutationError Unit :=
  let holds : Bool :=
    match precondition with
    | .any => true
    | .absent => current.all fun head => head.deleted
    | .version expected => current.any fun head => head.version = expected
  rejectIf (¬ holds) (.preconditionFailed (current.map fun head => head.version))

/-- The payload of a version; tombstones have none. -/
def versionBlobReference (version : Version) : Except MutationError (Option BlobRef) :=
  match version.blob, version.deleted with
  | some blob, false => pure (some blob)
  | none, true => pure none
  | _, _ => .error (.storage "version has an invalid payload shape")

/-- A version a user may name: one kept for users, or the current one. -/
def userRetainedVersion (objects : ObjectTables) (identity : BucketIdentity) (path : String)
    (version : VersionId) : Option Version :=
  match objects.versions.get? (exactVersionKey identity path version) with
  | none => none
  | some stored =>
    if stored.retention = .userRetained ∨ (objects.heads.get? (identity.headKey path)).any
      (fun head => head.version = version) then
      some stored.version
    else
      none

variable (context : BulkContext) (bulk : BulkState) (operation : PreparedOperation)

def receiptKeyOf (context : BulkContext) (operation : PreparedOperation) : Option Nat :=
  operation.commandId.map (context.config.receiptCodec.receiptKey operation.identity)

/-- The receipt a repetition is answered with. -/
def findReceipt : Except MutationError (Option StoredReceipt) :=
  match receiptKeyOf context operation with
  | none => pure none
  | some key =>
    let existing :=
      match bulk.pendingReceipts key with
      | some receipt => some receipt
      | none =>
        if key ∈ context.prunedReceipts then none else context.store.receipts.receipts.get? key
    match existing with
    | none => pure none
    | some existing => do
      rejectIf (existing.expiresAtUnixMillis ≤ context.now)
        (.storage "expired mutation receipt escaped pruning")
      rejectIf (existing.fingerprint ≠ operation.fingerprint) .idempotencyConflict
      rejectIf (¬ definitionReceiptMatchesIntent existing.definitionTransition context.intent
        operation)
        .idempotencyConflict
      pure (some existing)

def checkCloneSource : Except MutationError Unit :=
  match operation.request with
  | .clone source sourceVersion blob contentType _ =>
    let found := userRetainedVersion context.store.source.objects operation.identity source
      sourceVersion
    rejectIf (¬ found.any fun version =>
        !version.deleted && version.id = sourceVersion && version.blob = some blob &&
          version.contentType = contentType)
      (.invalidObjectMutation
        ("clone source exact version is no longer live or no longer matches its " ++
          "content identity"))
  | _ => pure ()

/-- The current state of an operation's path.  `stored` is the descriptor of the
current version when the batch has not written the path yet. -/
structure CurrentObject where
  head : Option Head
  stored : Option StoredVersion
  version : Option Version
  aliases : Option (List String)

/-- The current version and its stored descriptor. -/
def readCurrentVersion
    (head : Option Head) : Except MutationError (Option StoredVersion × Option Version) :=
  match head with
  | none => pure (none, none)
  | some head =>
    match bulk.pendingVersions operation.headKey with
    | some version => pure (none, some version)
    | none => do
      let stored ← okOr (context.store.source.objects.versions.get?
        (exactVersionKey operation.identity operation.path head.version))
        (.storage "head references a missing version")
      pure (some stored, some stored.version)

/-- The head and the current version descriptor name the same state. -/
def headAgrees (head : Option Head) (version : Option Version) : Bool :=
  match head, version with
  | some head, some version => version.id = head.version && version.deleted = head.deleted
  | _, _ => true

def readCurrent : Except MutationError CurrentObject := do
  let head := (bulk.pendingHeads operation.headKey).or
    (context.store.source.objects.heads.get? operation.headKey)
  let (stored, version) ← readCurrentVersion context bulk operation head
  rejectIf (¬ headAgrees head version) (.storage "head and current version descriptor disagree")
  rejectIf (version.any fun version => version.protectedLinkDescriptor) (.invalidObjectMutation
    "protected alias descriptors must be mutated through sealed link authority")
  let aliases := context.store.aliases operation.headKey
  rejectIf (aliases.isSome ∧ operation.isDelete) .objectHasInboundAliases
  rejectIf (aliases.isSome ∧ ¬ version.any fun version => !version.deleted)
    (.storage "alias registry exists without a live canonical target")
  pure { head, stored, version, aliases }

/-- The rules of the bucket's policy. -/
def checkPolicy (policy : BucketPolicy) : Except MutationError Unit := do
  let programDefinition := isProgramDefinitionPath operation.path
  rejectIf (policy.isProgramOnly operation.path ∧ ¬ programDefinition) .programConcurrencyViolation
  let immutablePath := policy.isImmutable operation.path || programDefinition
  rejectIf (operation.putMode = some .putImmutable ∧ ¬ immutablePath) .immutablePolicyRequired
  rejectIf (operation.putMode ≠ some .putImmutable ∧ immutablePath) .immutable

/-- How an operation goes on after its checks. -/
inductive Admission where
  | replay (receipt : StoredReceipt)
  | identical (head : Head)
  | proceed (current : CurrentObject) (versioning : ObjectVersioning)

/-- A repeated immutable put of the same content is answered like a replay. -/
def admitCurrent (current : CurrentObject) (versioning : ObjectVersioning) :
    Except MutationError Admission :=
  match operation.putMode, current.head with
  | some .putImmutable, some head => do
    let existing ← okOr current.version (.storage "head references a missing version")
    rejectIf head.deleted .immutable
    let blob ← versionBlobReference existing
    rejectIf (blob ≠ operation.payloadReference ∨ existing.contentType ≠ operation.contentType)
      .immutable
    pure (.identical head)
  | _, _ => do
    checkPrecondition operation.precondition current.head
    pure (.proceed current versioning)

def admitOperation : Except MutationError Admission := do
  match ← findReceipt context bulk operation with
  | some receipt => pure (.replay receipt)
  | none => do
    checkCloneSource context operation
    let current ← readCurrent context bulk operation
    let settings ← context.settings operation.identity
    checkPolicy operation settings.policy
    admitCurrent operation current settings.versioning

end

section

def versionRetention : ObjectVersioning → StoredVersionRetention
  | .unversioned => .journalPending
  | .enabled => .userRetained

def liveVersionLength (version : Version) : Option Nat :=
  if version.deleted then none else version.blob.map fun blob => blob.length

def headAccountingTransition
    (predecessor : Option Version) (current : Version) (retention : StoredVersionRetention) :
    AccountingHeadTransition :=
  let previousLiveLength := predecessor.bind liveVersionLength
  { previousLiveLength
    currentLiveLength := liveVersionLength current
    logicalBytesRemoved :=
      if retention = .journalPending then previousLiveLength.getD 0 else 0 }

/-- The predecessor a replacement retires at once: in an unversioned bucket, one
whose journal record is gone. -/
def releasedPredecessor
    (current : CurrentObject) (versioning : ObjectVersioning) : Option StoredVersion :=
  if versioning = .unversioned then
    current.stored.filter fun stored => stored.retention = .journalReleased
  else
    none

/-- The content-reference effects of a new payload and a released one. -/
def referenceEffects (newBlob released : Option BlobRef) : List ReferenceDelta :=
  if newBlob = released then
    []
  else
    (newBlob.map fun blob => ({ blob, change := 1 } : ReferenceDelta)).toList ++
      (released.map fun blob => ({ blob, change := -1 } : ReferenceDelta)).toList

/-- What an admitted operation will write. -/
structure MutationPlan where
  current : CurrentObject
  versioning : ObjectVersioning
  version : Version
  accountingTransition : AccountingHeadTransition
  definitionTransition : Option DefinitionTransition
  referenceDeltas : List ReferenceDelta
  inlinePayload : Option BlobRef
  publication : Option (BlobRef × BlobReferenceState)
  retired : Option BlobRef

/-- A lifecycle record, staged or stored. -/
def readPendingBlobReference
    (pending : PendingBlobReferences) (blobs : BlobTables) (reference : BlobRef) :
    Except MutationError (Option BlobReferenceState) :=
  match pending.get? (.completeBlob reference) with
  | some state => pure (some state)
  | none => readBlobReferenceState blobs (.completeBlob reference)

/-- The bytes a small put adds: none when they are staged or stored already. -/
def prepareInlinePayloadValue
    (stored : BlobTables) (pendingInlinePayloads : List BlobRef) (reference : BlobRef) :
    Except MutationError (Option BlobRef) :=
  if reference ∈ pendingInlinePayloads then
    pure none
  else
    match stored.manifests (.completeBlob reference) with
    | some manifest =>
      if manifest.layout = .inline then do
        let state ← readBlobReferenceState stored (.completeBlob reference)
        rejectIf (state = none)
          (.storage "complete payload bytes exist without lifecycle authority")
        pure none
      else
        pure (some reference)
    | none => pure (some reference)

/-- The next state of a published payload.  Materialized bytes need no earlier
record. -/
def prepareBlobPublication
    (pending : PendingBlobReferences) (stored : BlobTables) (materialized : Bool)
    (reference : BlobRef) (now : Nat) : Except MutationError BlobReferenceState := do
  match ← readPendingBlobReference pending stored reference with
  | some state => advanceBlobReferencePublication state now
  | none =>
    if materialized then
      pure { refCount := 1, awaitingPublish := false, createdAt := now, updatedAt := now }
    else
      .error .blobNotFound

/-- The next state of the payload of a retired version. -/
def prepareBlobReferenceRetirement
    (pending : PendingBlobReferences) (stored : BlobTables) (reference : BlobRef)
    (now : Nat) : Except MutationError BlobReferenceState := do
  let found ← readPendingBlobReference pending stored reference
  let state ← okOr found (.storage "retired version references missing blob lifecycle metadata")
  validateBlobReferenceState state
  rejectIf (state.awaitingPublish ∨ state.refCount = 0)
    (.storage "retired version has no published blob reference")
  pure { state with refCount := state.refCount - 1, updatedAt := max state.updatedAt now }

variable (context : BulkContext) (bulk : BulkState) (operation : PreparedOperation)

/-- A put of installed bytes finds them sealed. -/
def checkInstalledPayload : Except MutationError Unit :=
  match operation.request with
  | .put (.installed reference) _ _ => do
    let present ← containsBlob context.store.source.blobs reference
    rejectIf (¬ present) .blobNotFound
  | _ => pure ()

def planInlinePayload : Except MutationError (Option BlobRef) :=
  match operation.request with
  | .put (.inline reference) _ _ =>
    prepareInlinePayloadValue context.store.source.blobs bulk.pendingInlinePayloads reference
  | _ => pure none

/-- The publication of the new payload, unless it takes the place of the same
released one. -/
def planPublication (released : Option BlobRef) :
    Except MutationError (Option (BlobRef × BlobReferenceState)) :=
  match operation.payloadReference with
  | none => pure none
  | some reference =>
    if released = some reference then
      pure none
    else do
      let materialized :=
        match operation.request with
        | .put .. => true
        | _ => false
      let state ← prepareBlobPublication bulk.pendingBlobReferences
        context.store.source.blobs materialized reference context.now
      pure (some (reference, state))

def newVersion (id : VersionId) : Version :=
  { id
    blob := operation.payloadReference
    contentType := operation.contentType
    deleted := operation.isDelete
    committedAtUnixMillis := context.now
    protectedLinkDescriptor := false }

def checkTransition (transition : Option DefinitionTransition) : Except MutationError Unit :=
  match transition with
  | some transition => transition.validate
  | none => pure ()

def receiptExpiry : Except MutationError Nat :=
  if operation.commandId.isSome then
    okOr (checkedAdd64 context.now context.config.receiptRetention.retentionMillis)
      (.storage "mutation receipt expiry overflow")
  else
    pure 0

def planOperation (current : CurrentObject) (versioning : ObjectVersioning) (id : VersionId) :
    Except MutationError MutationPlan := do
  checkInstalledPayload context operation
  let version := newVersion context operation id
  let transition := context.intent.map (Store.definitionTransition operation id operation.isDelete)
  checkTransition transition
  let released := (releasedPredecessor current versioning).bind fun stored => stored.version.blob
  let _ ← receiptExpiry context operation
  let inlinePayload ← planInlinePayload context bulk operation
  let publication ← planPublication context bulk operation released
  pure
    { current
      versioning
      version
      accountingTransition :=
        headAccountingTransition current.version version (versionRetention versioning)
      definitionTransition := transition
      referenceDeltas := referenceEffects version.blob released
      inlinePayload
      publication
      retired := if released = version.blob then none else released }

end

section

variable (context : BulkContext) (operation : PreparedOperation)

/-- Stage the receipt of an operation that has a command. -/
def stageMutationReceipt
    (bulk : BulkState) (version : VersionId) (deleted : Bool) (mutation : Option ObjectMutation)
    (transition : Option DefinitionTransition) : Except MutationError (BulkState × Nat) :=
  match receiptKeyOf context operation with
  | none => pure (bulk, 0)
  | some key => do
    let expiresAt ← okOr (checkedAdd64 context.now context.config.receiptRetention.retentionMillis)
      (.storage "mutation receipt expiry overflow")
    let stored : StoredReceipt :=
      { fingerprint := operation.fingerprint
        version
        deleted
        expiresAtUnixMillis := expiresAt
        objectMutation := mutation
        definitionTransition := transition }
    let receipts ← stageStoredMutationReceipt context.config.receiptCodec
      context.config.receiptRetention bulk.receipts key stored
    pure
      ({ bulk with
        receipts
        pendingReceipts := Function.update bulk.pendingReceipts key (some stored) },
        expiresAt)

/-- The receipt of an operation that is not replicated. -/
def stageReceipt (bulk : BulkState) (version : VersionId) (deleted : Bool)
    (transition : Option DefinitionTransition) : Except MutationError (BulkState × Nat) :=
  stageMutationReceipt context operation bulk version deleted none transition

def payloadArtifactChunkBytes : Nat := 8 * 1024 * 1024

/-- Bytes stored inline are kept under an identity of their own. -/
def inlineManifest (reference : BlobRef) : ArtifactManifest :=
  { layout := .inline, storageId := reference.hash }

def stageInlineCompleteArtifact
    (blobs : BlobTables) (reference : BlobRef) : Except MutationError BlobTables := do
  rejectIf (payloadArtifactChunkBytes < reference.length)
    (.storage "inline payload artifact exceeds the chunk threshold")
  pure
    { blobs with
      manifests := Function.update blobs.manifests (.completeBlob reference)
        (some (inlineManifest reference)) }

def stageInlinePayload
    (bulk : BulkState) (reference : BlobRef) : Except MutationError BulkState := do
  let blobs ← stageInlineCompleteArtifact bulk.blobs reference
  pure { bulk with blobs, pendingInlinePayloads := reference :: bulk.pendingInlinePayloads }

def stageReference
    (bulk : BulkState) (reference : BlobRef) (state : BlobReferenceState) : BulkState :=
  { bulk with
    blobs := bulk.blobs.putReference (.completeBlob reference) state
    pendingBlobReferences := bulk.pendingBlobReferences.put (.completeBlob reference) state }

section

variable (plan : MutationPlan) (bulk : BulkState)

def stageInlineValue : Except MutationError BulkState :=
  match plan.inlinePayload with
  | some reference => stageInlinePayload bulk reference
  | none => pure bulk

def stagePublication : BulkState :=
  match plan.publication with
  | some (reference, state) => stageReference bulk reference state
  | none => bulk

/-- The payload and its publication. -/
def stagePayload : Except MutationError BulkState := do
  let inlined ← stageInlineValue plan bulk
  pure (stagePublication plan inlined)

/-- The reference of a predecessor retired at once. -/
def stageRetirement : Except MutationError BulkState :=
  match plan.retired with
  | none => pure bulk
  | some reference => do
    let state ← prepareBlobReferenceRetirement bulk.pendingBlobReferences
      context.store.source.blobs reference context.now
    pure (stageReference bulk reference state)

end

/-- What a replacement does to the descriptor of its predecessor. -/
def stagePredecessor
    (versioning : ObjectVersioning) (key : VersionKey) (stored : Option StoredVersion)
    (versions : OrdMap VersionKey StoredVersion) : OrdMap VersionKey StoredVersion :=
  match stored with
  | none => versions
  | some stored =>
    match stored.retention, versioning with
    | .userRetained, _ => versions
    | _, .enabled => versions.insert key { retention := .userRetained, version := stored.version }
    | .journalReleased, .unversioned => versions.erase key
    | .journalPending, .unversioned => versions

/-- The new version, the head and the definition's locator. -/
def stageObject (plan : MutationPlan) (bulk : BulkState) : BulkState :=
  let head : Head :=
    { version := plan.version.id, deleted := plan.version.deleted, mutationStamp := none }
  let key := operation.headKey
  let versions :=
    match plan.current.version with
    | some previous =>
      stagePredecessor plan.versioning
        (exactVersionKey operation.identity operation.path previous.id) plan.current.stored
        bulk.objects.versions
    | none => bulk.objects.versions
  { bulk with
    objects :=
      { heads := bulk.objects.heads.insert key head
        versions :=
          versions.insert (exactVersionKey operation.identity operation.path plan.version.id)
            { retention := versionRetention plan.versioning, version := plan.version } }
    locators :=
      match plan.definitionTransition with
      | some transition => putLocator bulk.locators transition
      | none => bulk.locators
    pendingHeads := Function.update bulk.pendingHeads key (some head)
    pendingVersions := Function.update bulk.pendingVersions key (some plan.version) }

def replayedReceipt (stored : StoredReceipt) : EvaluatedOperation :=
  { receipt :=
      { commandId := operation.commandId
        fingerprint := stored.fingerprint
        version := stored.version
        deleted := stored.deleted
        replayed := true
        replayGuaranteeExpiresAtUnixMillis := stored.expiresAtUnixMillis }
    referenceDeltas := []
    accountingTransition := none
    definitionTransition := stored.definitionTransition
    aliases := none }

/-- Answer a repeated immutable put.  Its receipt stays staged when the locator
is refused. -/
def stageIdentical
    (bulk : BulkState) (head : Head) : BulkState × Except MutationError EvaluatedOperation :=
  let transition := context.intent.map (Store.definitionTransition operation head.version false)
  match stageReceipt context operation bulk head.version false transition with
  | .error error => (bulk, .error error)
  | .ok (bulk, expiresAt) =>
    let evaluated : EvaluatedOperation :=
      { receipt :=
          { commandId := operation.commandId
            fingerprint := operation.fingerprint
            version := head.version
            deleted := false
            replayed := true
            replayGuaranteeExpiresAtUnixMillis := expiresAt }
        referenceDeltas := []
        accountingTransition := none
        definitionTransition := transition
        aliases := none }
    match transition with
    | none => (bulk, .ok evaluated)
    | some transition =>
      match stageDefinitionTransition bulk.locators transition with
      | .error error => (bulk, .error error)
      | .ok locators => ({ bulk with locators }, .ok evaluated)

/-- Stage a plan: the receipt, the payload, the predecessor's reference, and the
object itself. -/
def stagePlan (bulk : BulkState) (plan : MutationPlan) :
    BulkState × Except MutationError EvaluatedOperation :=
  match stageReceipt context operation bulk plan.version.id plan.version.deleted
    plan.definitionTransition with
  | .error error => (bulk, .error error)
  | .ok (receipted, expiresAt) =>
    match stagePayload plan receipted with
    | .error error => (receipted, .error error)
    | .ok paid =>
      match stageRetirement context plan paid with
      | .error error => (paid, .error error)
      | .ok retired =>
        (stageObject operation plan retired, .ok
          { receipt :=
              { commandId := operation.commandId
                fingerprint := operation.fingerprint
                version := plan.version.id
                deleted := plan.version.deleted
                replayed := false
                replayGuaranteeExpiresAtUnixMillis := expiresAt }
            referenceDeltas := plan.referenceDeltas
            accountingTransition := some plan.accountingTransition
            definitionTransition := plan.definitionTransition
            aliases := plan.current.aliases })

/-- Evaluate one operation into the batch.  `reading` is the system clock when
the operation takes its version. -/
def evaluateOperation (reading : Nat) (bulk : BulkState) :
    BulkState × Except MutationError EvaluatedOperation :=
  match admitOperation context bulk operation with
  | .error error => (bulk, .error error)
  | .ok (.replay stored) => (bulk, .ok (replayedReceipt operation stored))
  | .ok (.identical head) => stageIdentical context operation bulk head
  | .ok (.proceed current versioning) =>
    match bulk.clock.nextAt reading with
    | .error message => (bulk, .error (.storage message))
    | .ok (id, clock) =>
      let ticked := { bulk with clock }
      match planOperation context ticked operation current versioning id with
      | .error error => (ticked, .error error)
      | .ok plan => stagePlan context operation ticked plan

end

/-- The journal records of an evaluated operation: one for the path, one for
each alias of it. -/
def EvaluatedOperation.pendingHeadChanges
    (evaluated : EvaluatedOperation) (operation : PreparedOperation) :
    List PendingLocalChange :=
  .objectHead operation.identity operation.path evaluated.receipt.version
    evaluated.receipt.deleted none evaluated.referenceDeltas
    (if evaluated.aliases.isSome then none else evaluated.accountingTransition)
    evaluated.definitionTransition ::
    (evaluated.aliases.getD []).map fun exactPath =>
      .aliasObjectHead operation.identity exactPath operation.path evaluated.receipt.version
        evaluated.receipt.deleted none

def requireUnreserved
    (store : LocalStore) (operation : PreparedOperation) : Except MutationError Unit :=
  operation.lockPaths.forM fun path =>
    match store.reservations (operation.identity.headKey path) with
    | some beginCursor => .error (.atomicReservationConflict beginCursor)
    | none => pure ()

/-- The evaluation of a list of operations. -/
structure BulkProgress where
  bulk : BulkState
  results : List (Nat × Except MutationError MutationReceipt)
  changes : List PendingLocalChange
  highWatermark : Option VersionId
  receiptCapacityAt : Option Nat

/-- Evaluate one operation of the list.  With backpressure a full receipt table
ends the evaluation. -/
def evaluateNext (context : BulkContext) (backpressure : Bool) (progress : BulkProgress)
    (entry : Nat × PreparedOperation × Nat) : BulkProgress :=
  let (index, operation, reading) := entry
  if progress.receiptCapacityAt.isSome then
    progress
  else
    match requireUnreserved context.store operation with
    | .error error => { progress with results := progress.results ++ [(index, .error error)] }
    | .ok _ =>
      let (bulk, outcome) := evaluateOperation context operation reading progress.bulk
      let results := progress.results ++ [(index, outcome.map fun evaluated => evaluated.receipt)]
      match outcome with
      | .error error =>
        { progress with
          bulk
          results
          receiptCapacityAt :=
            if backpressure ∧ error = .receiptCapacity then some index else none }
      | .ok evaluated =>
        if evaluated.receipt.replayed then
          { progress with bulk, results }
        else
          { progress with
            bulk
            results
            changes := progress.changes ++ evaluated.pendingHeadChanges operation
            highWatermark := some
              (progress.highWatermark.elim evaluated.receipt.version fun current =>
                max current evaluated.receipt.version) }

def isMutationCapacity : MutationError → Bool
  | .receiptCapacity => true
  | .sourceJournalCapacity => true
  | _ => false

/-- After a failed write nothing of the batch holds. -/
def failUnresolvedPrepared
    (results : List (Nat × Except MutationError MutationReceipt)) (indices : List Nat)
    (error : MutationError) : List (Nat × Except MutationError MutationReceipt) :=
  indices.map fun index =>
    match results.lookup index with
    | some (.error previous) =>
      (index, .error (if isMutationCapacity previous then error else previous))
    | _ => (index, .error error)

def LocalStore.beginBulk (store : LocalStore) (receipts : ReceiptTables) : BulkState :=
  { objects := store.source.objects
    blobs := store.source.blobs
    receipts
    locators := store.locators
    clock := store.clock
    pendingHeads := fun _ => none
    pendingVersions := fun _ => none
    pendingReceipts := fun _ => none
    pendingBlobReferences := []
    pendingInlinePayloads := [] }

/-- Write the batch with the journal records of its operations.  The clock has
moved in any case. -/
def LocalStore.persistBulk
    (codec : LocalChangeCodec) (config : NodeConfig) (admission : SourceJournalAdmission)
    (store : LocalStore) (progress : BulkProgress) : Except MutationError LocalStore := do
  let source ← SourceStore.append codec config.store store.source progress.changes
    .appliedInline admission fun _ => (progress.bulk.objects, progress.bulk.blobs)
  pure
    { store with
      source :=
        if progress.changes = [] then source else source.settleInline config.store
      receipts := progress.bulk.receipts
      locators := progress.bulk.locators
      versionHighWatermark := progress.highWatermark.or store.versionHighWatermark
      clock := progress.bulk.clock }

/-- One holder of the commit lock of a bulk write: the store it leaves and the
outcome of every evaluated operation. -/
def LocalStore.bulkWrite (codec : LocalChangeCodec) (config : NodeConfig)
    (settings : BucketIdentity → Except MutationError BucketSettings)
    (intent : Option DefinitionMutationIntent) (backpressure : Bool)
    (admission : SourceJournalAdmission) (now : Nat)
    (prepared : List (Nat × PreparedOperation × Nat)) (store : LocalStore) :
    LocalStore × List (Nat × Except MutationError MutationReceipt) :=
  match stageExpiredMutationReceipts config.receiptCodec now store.receipts with
  | .error error => (store, prepared.map fun entry => (entry.1, .error error))
  | .ok (receipts, prunedReceipts) =>
    let context : BulkContext := { config, store, settings, intent, now, prunedReceipts }
    let progress := prepared.foldl (evaluateNext context backpressure)
      { bulk := store.beginBulk receipts
        results := []
        changes := []
        highWatermark := none
        receiptCapacityAt := none }
    match store.persistBulk codec config admission progress with
    | .ok written => (written, progress.results)
    | .error error =>
      ({ store with clock := progress.bulk.clock },
        failUnresolvedPrepared progress.results (prepared.map Prod.fst) error)

end Keldra.Store
