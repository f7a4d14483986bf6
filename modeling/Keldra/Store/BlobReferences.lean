import Mathlib.Data.List.Sort
import Keldra.Store.Journal

/-!
# Lifecycle of payload artifacts

A node counts the references to every payload artifact it holds.  A sealed
upload holds one reservation, flagged as awaiting publication, which the first
positive effect turns into its reference.  An artifact without references, or
whose reservation has expired, is garbage.

`applyReferenceDeltas` applies the effects of one contiguous range of a source's
journal and moves the cursor of that source, in one batch.
-/

namespace Keldra.Store

open Foundation

/-- The lifecycle record of an artifact.  Of its flag byte only the
awaiting-publication bit is defined; the other bits are refused on reading. -/
structure BlobReferenceState where
  refCount : Nat
  awaitingPublish : Bool
  createdAt : Nat
  updatedAt : Nat
deriving DecidableEq, Repr

def validateBlobReferenceState (state : BlobReferenceState) : Except MutationError Unit := do
  rejectIf (state.updatedAt < state.createdAt)
    (.storage "blob reference metadata timestamps are inconsistent")
  rejectIf (state.awaitingPublish ∧ state.refCount ≠ 1)
    (.storage "awaiting-publish blob must have exactly one reservation")

inductive ArtifactLayout where
  | inline
  | chunked
deriving DecidableEq, Repr

/-- Where the bytes of a sealed artifact are.  Its kind, length and integrity
are those of its identity. -/
structure ArtifactManifest where
  layout : ArtifactLayout
  storageId : Digest
deriving DecidableEq, Repr

/-- The lifecycle, manifest and installation column families, and the pending
uploads with the time of their last chunk. -/
structure BlobTables where
  references : DestinationReferenceArtifact → Option BlobReferenceState
  manifests : DestinationReferenceArtifact → Option ArtifactManifest
  installs : DestinationReferenceArtifact → Option ArtifactManifest
  uploads : Digest → Option Nat

def BlobTables.initial : BlobTables where
  references := fun _ => none
  manifests := fun _ => none
  installs := fun _ => none
  uploads := fun _ => none

section

variable (blobs : BlobTables)

def BlobTables.putReference (artifact : DestinationReferenceArtifact)
    (state : BlobReferenceState) : BlobTables :=
  { blobs with references := Function.update blobs.references artifact (some state) }

/-- A stored state; malformed ones are refused on reading. -/
def readBlobReferenceState (artifact : DestinationReferenceArtifact) :
    Except MutationError (Option BlobReferenceState) :=
  match blobs.references artifact with
  | none => pure none
  | some state => do
    validateBlobReferenceState state
    pure (some state)

def containsBlob (reference : BlobRef) : Except MutationError Bool := do
  match ← readBlobReferenceState blobs (.completeBlob reference) with
  | none => pure false
  | some state => pure (state.refCount ≠ 0 && (blobs.manifests (.completeBlob reference)).isSome)

def containsShardArtifact (identity : ShardIdentity) : Bool :=
  (blobs.manifests (.shard identity)).isSome

/-- The state after sealing: a reservation for new or unreferenced bytes, a
fresh timestamp for referenced ones. -/
def prepareSealedArtifactReservation (artifact : DestinationReferenceArtifact) (now : Nat) :
    Except MutationError BlobReferenceState := do
  match ← readBlobReferenceState blobs artifact with
  | none => pure { refCount := 1, awaitingPublish := true, createdAt := now, updatedAt := now }
  | some current =>
    if current.refCount = 0 then
      pure
        { current with
          refCount := 1
          awaitingPublish := true
          updatedAt := max current.updatedAt now }
    else do
      rejectIf (current.awaitingPublish ∧ current.refCount ≠ 1)
        (.storage "awaiting-publish blob must have exactly one reservation")
      pure { current with updatedAt := max current.updatedAt now }

end

def advanceBlobReferencePublication
    (state : BlobReferenceState) (now : Nat) : Except MutationError BlobReferenceState := do
  validateBlobReferenceState state
  if state.refCount = 0 then
    pure
      { state with refCount := 1, awaitingPublish := false, updatedAt := max state.updatedAt now }
  else if state.awaitingPublish then
    pure { state with awaitingPublish := false, updatedAt := max state.updatedAt now }
  else do
    let refCount ← okOr (checkedAdd64 state.refCount 1)
      (.storage "blob reference count is exhausted")
    pure { state with refCount, updatedAt := max state.updatedAt now }

def blobReferenceNeedsDue (state : BlobReferenceState) : Bool :=
  state.refCount = 0 || state.awaitingPublish

def blobReferenceIsGarbage (state : BlobReferenceState) (now awaitingPublishTtl : Nat) : Bool :=
  blobReferenceNeedsDue state && awaitingPublishTtl ≤ now - state.updatedAt

structure DestinationReferenceDelta where
  artifact : DestinationReferenceArtifact
  change : Int
deriving DecidableEq, Repr

/-- One contiguous range of a source's journal and its effects on this node. -/
structure ReferenceDeltaBatch where
  source : SourceId
  after : Nat
  through : Nat
  deltas : List DestinationReferenceDelta
deriving DecidableEq, Repr

structure ReferenceDeltaApplied where
  through : Nat
  replayed : Bool
deriving DecidableEq, Repr

inductive ReferenceDeltaError where
  | invalidRange
  | zeroChange
  | invalidArtifact
  | gap (expected received : Nat)
  | partialOverlap (cursor after through : Nat)
  | overflow
  | underflow
  | artifactNotFound
  | mutation (error : MutationError)
deriving DecidableEq, Repr

def fragmentFormatVersion : Nat := 1

/-- Only fragments of the current format have a lifecycle record. -/
def checkArtifact (artifact : DestinationReferenceArtifact) : Except ReferenceDeltaError Unit :=
  match artifact with
  | .completeBlob _ => pure ()
  | .shard identity =>
    rejectIf (identity.fragmentFormatVersion ≠ fragmentFormatVersion) .invalidArtifact

/-- A positive effect first consumes a reservation; a negative one never meets
any. -/
def applyReferenceChange (state : BlobReferenceState) (change : Int) (now : Nat) :
    Except ReferenceDeltaError BlobReferenceState := do
  (validateBlobReferenceState state).mapError .mutation
  if 0 < change then do
    let increment := change.toNat
    let added := if state.awaitingPublish then increment - 1 else increment
    let refCount ← okOr (checkedAdd64 state.refCount added) .overflow
    pure { state with refCount, awaitingPublish := false, updatedAt := max state.updatedAt now }
  else do
    rejectIf state.awaitingPublish .underflow
    let refCount ← okOr (checkedSub64 state.refCount change.natAbs) .underflow
    pure { state with refCount, updatedAt := max state.updatedAt now }

/-- Storage key of an artifact's lifecycle record. -/
def artifactLifecycleKey : DestinationReferenceArtifact → Bytes
  | .completeBlob reference => bigEndian 32 reference.hash.toNat ++ bigEndian 8 reference.length
  | .shard identity =>
    bigEndian 2 identity.fragmentFormatVersion ++ bigEndian 32 identity.blob.hash.toNat ++
      bigEndian 8 identity.blob.length ++ bigEndian 2 identity.ordinal

/-- Storage keys in byte order. -/
def keyNotAfter : Bytes → Bytes → Bool
  | [], _ => true
  | _ :: _, [] => false
  | a :: rest, b :: rest' => a < b || (a = b && keyNotAfter rest rest')

/-- The states a batch touches, the newest value for each artifact. -/
abbrev PendingBlobReferences := List (DestinationReferenceArtifact × BlobReferenceState)

section

variable (pending : PendingBlobReferences) (artifact : DestinationReferenceArtifact)

def PendingBlobReferences.get? : Option BlobReferenceState :=
  (pending.find? fun entry => entry.1 = artifact).map Prod.snd

def PendingBlobReferences.put
    (pending : PendingBlobReferences) (artifact : DestinationReferenceArtifact)
    (state : BlobReferenceState) : PendingBlobReferences :=
  match pending with
  | [] => [(artifact, state)]
  | entry :: rest =>
    if entry.1 = artifact then
      (artifact, state) :: rest
    else
      entry :: PendingBlobReferences.put rest artifact state

end

/-- The bytes of a positive effect must be on the node. -/
def artifactExists (blobs : BlobTables) (artifact : DestinationReferenceArtifact) :
    Except ReferenceDeltaError Bool :=
  match artifact with
  | .completeBlob reference => (containsBlob blobs reference).mapError .mutation
  | .shard identity => pure (containsShardArtifact blobs identity)

/-- Apply one effect to the touched states.  Each artifact is looked for once,
before its first positive effect. -/
def applyDelta (blobs : BlobTables) (now : Nat)
    (progress : PendingBlobReferences × List DestinationReferenceArtifact)
    (delta : DestinationReferenceDelta) :
    Except ReferenceDeltaError (PendingBlobReferences × List DestinationReferenceArtifact) := do
  let (states, verified) := progress
  let stored ← (readBlobReferenceState blobs delta.artifact).mapError .mutation
  let state ← okOr ((states.get? delta.artifact).or stored) .artifactNotFound
  if 0 < delta.change ∧ delta.artifact ∉ verified then do
    let present ← artifactExists blobs delta.artifact
    rejectIf (¬ present) .artifactNotFound
    let next ← applyReferenceChange state delta.change now
    pure (states.put delta.artifact next, delta.artifact :: verified)
  else do
    let next ← applyReferenceChange state delta.change now
    pure (states.put delta.artifact next, verified)

/-- The touched states in the order of their storage keys. -/
def PendingBlobReferences.inKeyOrder (states : PendingBlobReferences) : PendingBlobReferences :=
  states.insertionSort fun a b => keyNotAfter (artifactLifecycleKey a.1) (artifactLifecycleKey b.1)

def stageBlobReferenceUpdates (blobs : BlobTables) (states : PendingBlobReferences) : BlobTables :=
  states.foldl (fun staged entry => staged.putReference entry.1 entry.2) blobs

/-- The invalidation of a destination's lifecycle record.  It carries no
effects: those are the source's. -/
def lifecycleInvalidation
    (artifact : DestinationReferenceArtifact) (revision : Nat) : PendingLocalChange :=
  .contentLifecycleChanged (.artifact artifact) revision [] none

/-- Apply the effects of one range of a source's journal exactly once. -/
def applyReferenceDeltas (codec : LocalChangeCodec) (config : StoreConfig)
    (admission : SourceJournalAdmission) (now : Nat)
    (journal : JournalTables) (blobs : BlobTables) (request : ReferenceDeltaBatch) :
    Except ReferenceDeltaError (JournalTables × BlobTables × ReferenceDeltaApplied) := do
  rejectIf (request.through < request.after) .invalidRange
  rejectIf (request.deltas.any fun delta => delta.change = 0) .zeroChange
  request.deltas.forM fun delta => checkArtifact delta.artifact
  let cursor := journal.referenceCursor request.source
  if request.through ≤ cursor then
    pure (journal, blobs, { through := cursor, replayed := true })
  else do
    rejectIf (request.after < cursor) (.partialOverlap cursor request.after request.through)
    rejectIf (cursor < request.after) (.gap cursor request.after)
    let (states, _) ← request.deltas.foldlM (applyDelta blobs now) ([], [])
    let changes := states.inKeyOrder.map fun entry =>
      lifecycleInvalidation entry.1 entry.2.updatedAt
    let staged ← (stageLocalChanges codec config journal
      (Function.update journal.referenceCursor request.source request.through)
      changes .noReferenceEffects admission).mapError .mutation
    pure (staged, stageBlobReferenceUpdates blobs states,
      { through := request.through, replayed := false })

/-- An accepted request is a replay without any effect, or it starts at the
source's cursor and applies every effect. -/
theorem applyReferenceDeltas_eq_ok {codec : LocalChangeCodec} {config : StoreConfig}
    {admission : SourceJournalAdmission} {now : Nat} {journal : JournalTables}
    {request : ReferenceDeltaBatch} {staged : JournalTables} {blobs' : BlobTables}
    {applied : ReferenceDeltaApplied}
    (h : applyReferenceDeltas codec config admission now journal blobs request =
    .ok (staged, blobs', applied)) :
    (request.through ≤ journal.referenceCursor request.source ∧ staged = journal ∧ blobs' = blobs) ∨
    (journal.referenceCursor request.source = request.after ∧ request.after < request.through ∧
    ∃ states verified,
    request.deltas.foldlM (applyDelta blobs now) ([], []) = .ok (states, verified) ∧
    blobs' = stageBlobReferenceUpdates blobs states ∧ stageLocalChanges codec config journal
    (Function.update journal.referenceCursor request.source request.through)
    (states.inKeyOrder.map fun entry => lifecycleInvalidation entry.1 entry.2.updatedAt)
    .noReferenceEffects admission = .ok staged) := by
  simp only [applyReferenceDeltas, ok_rules] at h
  obtain ⟨-, -, -, h⟩ := h
  split at h
  · rename_i hreplay
    rw [pure_eq_ok, Prod.mk.injEq, Prod.mk.injEq] at h
    exact Or.inl ⟨hreplay, h.1.symm, h.2.1.symm⟩
  simp only [ok_rules, mapError_eq_ok, Prod.exists] at h
  obtain ⟨_, _, states, verified, hstates, _, hstaged, rfl, rfl, -⟩ := h
  refine Or.inr ⟨?_, ?_, states, verified, hstates, rfl, hstaged⟩
  · omega
  · omega

end Keldra.Store
