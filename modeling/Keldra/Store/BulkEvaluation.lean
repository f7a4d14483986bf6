import Keldra.Store.Mutations
import Keldra.Store.VersionRetention

/-!
# What a bulk evaluation keeps

The state of a write batch while its operations are evaluated.  The tables it
would leave agree with the staged values, every payload with a lifecycle record
is sealed, every head has its descriptor, and the references of every payload are
the descriptors that name it plus a surplus the batch does not touch: the effects
of retention that are still to be delivered.

* `evaluateOperation_cases`: one operation, failed or not, keeps all this, and what
  it does to the object tables.
-/

namespace Keldra.Store

open Foundation OrdMap Function BlobReferenceState

variable {objects : ObjectTables} {context : BulkContext} {surplus : BlobRef → Int}
  {bulk bulk' : BulkState}

/-- Lifecycle records are well formed, and sealed payloads have a manifest. -/
structure PayloadsSound (blobs : BlobTables) : Prop where
  valid : ∀ artifact state, blobs.references artifact = some state →
      validateBlobReferenceState state = .ok ()
  sealed : ∀ blob, (blobs.references (.completeBlob blob)).isSome →
      (blobs.manifests (.completeBlob blob)).isSome

/-- Descriptors fit their keys, and every head has its descriptor. -/
structure ObjectsSound (bound : VersionId) (objects : ObjectTables) : Prop where
  descriptor :
    ∀ key stored, objects.versions.get? key = some stored → stored.version.id = (ofLex key).2 ∧
      stored.version.deleted = stored.version.blob.isNone ∧ stored.version.id ≤ bound
  current : ∀ key head, objects.heads.get? key = some head →
      ∃ stored, objects.versions.get? (toLex (key, head.version)) = some stored ∧
        stored.version.deleted = head.deleted

theorem ObjectsSound.mono {bound bound' : VersionId}
    (h : ObjectsSound bound objects) (hle : bound ≤ bound') :
    ObjectsSound bound' objects where
  descriptor := by
    intro key stored hstored
    obtain ⟨hid, hshape, hbound⟩ := h.descriptor key stored hstored
    exact ⟨hid, hshape, hbound.trans hle⟩
  current := h.current

/-- The references of every payload are the descriptors naming it and the given
surplus. -/
def Balanced (surplus : BlobRef → Int) (blobs : BlobTables) (objects : ObjectTables) : Prop :=
  ∀ blob, blobs.held (.completeBlob blob) = objects.naming blob + surplus blob

structure BulkSound
    (context : BulkContext) (surplus : BlobRef → Int) (bulk : BulkState) : Prop where
  payloads : PayloadsSound bulk.blobs
  objects : ObjectsSound bulk.clock.highWatermark bulk.objects
  balanced : Balanced surplus bulk.blobs bulk.objects
  heads : ∀ key, bulk.objects.heads.get? key =
      (bulk.pendingHeads key).or (context.store.source.objects.heads.get? key)
  untouched : ∀ key, bulk.pendingVersions key = none →
      ∀ version, bulk.objects.versions.get? (toLex (key, version)) =
        context.store.source.objects.versions.get? (toLex (key, version))
  references :
    ∀ artifact, bulk.blobs.references artifact = (bulk.pendingBlobReferences.get? artifact).or
      (context.store.source.blobs.references artifact)
  inlined : ∀ blob ∈ bulk.pendingInlinePayloads, (bulk.blobs.manifests (.completeBlob blob)).isSome
  manifests : ∀ artifact, (context.store.source.blobs.manifests artifact).isSome →
      (bulk.blobs.manifests artifact).isSome

/-- Receipts and locators do not matter, and the clock may move on. -/
theorem BulkSound.congr (h : BulkSound context surplus bulk)
    (hobjects : bulk'.objects = bulk.objects) (hblobs : bulk'.blobs = bulk.blobs)
    (hheads : bulk'.pendingHeads = bulk.pendingHeads)
    (hversions : bulk'.pendingVersions = bulk.pendingVersions)
    (hreferences : bulk'.pendingBlobReferences = bulk.pendingBlobReferences)
    (hinlined : bulk'.pendingInlinePayloads = bulk.pendingInlinePayloads)
    (hclock : bulk.clock.highWatermark ≤ bulk'.clock.highWatermark) :
    BulkSound context surplus bulk' where
  payloads := by rw [hblobs]; exact h.payloads
  objects := by rw [hobjects]; exact h.objects.mono hclock
  balanced := by rw [hobjects, hblobs]; exact h.balanced
  heads := by rw [hobjects, hheads]; exact h.heads
  untouched := by rw [hobjects, hversions]; exact h.untouched
  references := by rw [hblobs, hreferences]; exact h.references
  inlined := by rw [hblobs, hinlined]; exact h.inlined
  manifests := by rw [hblobs]; exact h.manifests

variable {blob : BlobRef}

/-- A lifecycle record for a payload with a manifest. -/
theorem PayloadsSound.putReference {blobs : BlobTables} {state : BlobReferenceState}
    (h : PayloadsSound blobs)
    (hvalid : validateBlobReferenceState state = .ok ())
    (hsealed : (blobs.manifests (.completeBlob blob)).isSome) :
    PayloadsSound (blobs.putReference (.completeBlob blob) state) where
  valid := by
    intro artifact found hfound
    simp only [BlobTables.putReference, update_apply] at hfound
    split at hfound
    · cases hfound
      exact hvalid
    · exact h.valid artifact found hfound
  sealed := by
    intro other hsome
    simp only [BlobTables.putReference, update_apply] at hsome ⊢
    by_cases hother : other = blob
    · rw [hother]
      exact hsealed
    rw [if_neg (by simpa using hother)] at hsome
    exact h.sealed other hsome

/-- Manifests only join. -/
theorem PayloadsSound.addManifests {blobs blobs' : BlobTables}
    (h : PayloadsSound blobs)
    (hreferences : blobs'.references = blobs.references)
    (hmanifests : ∀ artifact, (blobs.manifests artifact).isSome →
      (blobs'.manifests artifact).isSome) : PayloadsSound blobs' where
  valid := by
    rw [hreferences]
    exact h.valid
  sealed := by
    intro blob hsome
    rw [hreferences] at hsome
    exact hmanifests _ (h.sealed blob hsome)

variable {operation : PreparedOperation}

theorem isDelete_eq (operation : PreparedOperation) :
    operation.isDelete = operation.payloadReference.isNone := by
  unfold PreparedOperation.isDelete PreparedOperation.payloadReference
  cases operation.request <;> rfl

/-- A publication adds one reference and leaves a well-formed record. -/
theorem advanceBlobReferencePublication_eq_ok {state : BlobReferenceState} {now : Nat}
    {next : BlobReferenceState}
    (h : advanceBlobReferencePublication state now = .ok next) :
    next.held = state.held + 1 ∧ validateBlobReferenceState next = .ok () := by
  simp only [advanceBlobReferencePublication, ok_rules] at h
  obtain ⟨hvalid, h⟩ := h
  obtain ⟨_, hreserved⟩ := validateBlobReferenceState_eq_ok.mp hvalid
  rw [validateBlobReferenceState_eq_ok]
  unfold held
  cases hflag : state.awaitingPublish with
  | false =>
    split at h
    · rename_i hzero
      cases h
      simp only [Bool.false_eq_true, if_false, hzero]
      refine ⟨by omega, by omega, by simp⟩
    simp only [hflag, Bool.false_eq_true, if_false, ok_rules, checkedAdd64_eq_some] at h
    obtain ⟨_, ⟨-, rfl⟩, rfl⟩ := h
    simp only [Bool.false_eq_true, if_false]
    refine ⟨by omega, by omega, by simp⟩
  | true =>
    have hone := hreserved hflag
    rw [if_neg (by omega), if_pos hflag] at h
    cases h
    simp only [Bool.false_eq_true, if_false, if_true]
    refine ⟨by omega, by omega, by simp⟩

/-- A retirement takes one reference away, and is refused only for a record that
counts none. -/
theorem prepareBlobReferenceRetirement_eq {pending : PendingBlobReferences} {stored : BlobTables}
    {reference : BlobRef} {state : BlobReferenceState} {now : Nat}
    (hread : readPendingBlobReference pending stored reference = .ok (some state))
    (hvalid : validateBlobReferenceState state = .ok ()) (hheld : 0 < state.held) :
    ∃ next, prepareBlobReferenceRetirement pending stored reference now = .ok next ∧
    next.held = state.held - 1 ∧ validateBlobReferenceState next = .ok () := by
  obtain ⟨_, hreserved⟩ := validateBlobReferenceState_eq_ok.mp hvalid
  have hflag : state.awaitingPublish = false := by
    cases hflag : state.awaitingPublish with
    | false => rfl
    | true =>
      have hone := hreserved hflag
      simp [held, hflag, hone] at hheld
  have hcount : 0 < state.refCount := by
    simp only [held, hflag, Bool.false_eq_true, if_false] at hheld
    omega
  refine ⟨{ state with
    refCount := state.refCount - 1, updatedAt := max state.updatedAt now }, ?_, ?_, ?_⟩
  · simp only [prepareBlobReferenceRetirement, hread, ok_rules]
    exact ⟨some state, rfl, state, rfl, hvalid, by simp [hflag]; omega, rfl⟩
  · simp only [held, hflag, Bool.false_eq_true, if_false]
    omega
  rw [validateBlobReferenceState_eq_ok]
  refine ⟨?_, ?_⟩
  · dsimp only
    omega
  · simp [hflag]

variable {current : CurrentObject}

/-- A lifecycle record read through the batch is the one the batch would leave. -/
theorem BulkSound.readPending {reference : BlobRef} {found : Option BlobReferenceState}
    (h : BulkSound context surplus bulk)
    (hread : readPendingBlobReference bulk.pendingBlobReferences context.store.source.blobs
    reference = .ok found) : bulk.blobs.references (.completeBlob reference) = found := by
  rw [h.references]
  unfold readPendingBlobReference at hread
  split at hread
  · rename_i state hstate
    cases hread
    rw [hstate]
    rfl
  rename_i hnone
  rw [hnone, Option.none_or]
  exact (readBlobReferenceState_eq_ok hread).1

theorem BulkSound.readPending_some {reference : BlobRef} {state : BlobReferenceState}
    (h : BulkSound context surplus bulk)
    (hstate : bulk.blobs.references (.completeBlob reference) = some state) :
    readPendingBlobReference bulk.pendingBlobReferences context.store.source.blobs reference =
    .ok (some state) := by
  have hvalid := h.payloads.valid _ _ hstate
  rw [h.references] at hstate
  unfold readPendingBlobReference
  cases hpending : bulk.pendingBlobReferences.get? (.completeBlob reference) with
  | some =>
    rw [hpending, Option.some_or] at hstate
    cases hstate
    rfl
  | none =>
    rw [hpending, Option.none_or] at hstate
    simp only [readBlobReferenceState, hstate, ok_rules]
    exact ⟨hvalid, trivial⟩

/-- A payload that a descriptor names has a lifecycle record that counts it. -/
theorem BulkSound.named {key : VersionKey} {stored : StoredVersion}
    (h : BulkSound context surplus bulk) (hsurplus : ∀ blob, 0 ≤ surplus blob)
    (hstored : bulk.objects.versions.get? key = some stored)
    (hblob : stored.version.blob = some blob) :
    ∃ state, bulk.blobs.references (.completeBlob blob) = some state ∧ 0 < state.held := by
  have hnames := names_pos_of_mem hstored hblob
  have hbalance := h.balanced blob
  have hextra := hsurplus blob
  cases hstate : bulk.blobs.references (.completeBlob blob) with
  | none =>
    rw [held_of_missing hstate] at hbalance
    omega
  | some state =>
    rw [held_of_references hstate] at hbalance
    exact ⟨state, rfl, by omega⟩

/-- What the current state of a path is. -/
structure CurrentSound
    (bulk : BulkState) (operation : PreparedOperation) (current : CurrentObject) : Prop where
  head_eq : current.head = bulk.objects.heads.get? operation.headKey
  version_of_head : ∀ head, current.head = some head →
      ∃ version, current.version = some version ∧ version.id = head.version ∧
        version.deleted = head.deleted
  version_none : current.head = none → current.version = none ∧ current.stored = none
  stored_sound : ∀ stored, current.stored = some stored → current.version = some stored.version ∧
      bulk.objects.versions.get?
        (exactVersionKey operation.identity operation.path stored.version.id) =
        some stored

theorem CurrentSound.congr (h : CurrentSound bulk operation current)
    (hobjects : bulk'.objects = bulk.objects) : CurrentSound bulk' operation current :=
  { h with
    head_eq := by rw [hobjects]; exact h.head_eq
    stored_sound := by rw [hobjects]; exact h.stored_sound }

theorem currentSound_readCurrent (h : BulkSound context surplus bulk)
    (hread : readCurrent context bulk operation = .ok current) :
    CurrentSound bulk operation current := by
  simp only [readCurrent, ok_rules, Prod.exists] at hread
  obtain ⟨_, version, hversion, hagrees, -, -, -, rfl⟩ := hread
  rw [← h.heads] at hversion hagrees ⊢
  generalize hhead : bulk.objects.heads.get? operation.headKey = head at *
  cases head with
  | none =>
    cases hversion
    exact
      { head_eq := hhead.symm
        version_of_head := by simp
        version_none := fun _ => ⟨rfl, rfl⟩
        stored_sound := by simp }
  | some head =>
    unfold readCurrentVersion at hversion
    dsimp only at hversion
    have hsome : ∀ found, version = some found →
        found.id = head.version ∧ found.deleted = head.deleted := by
      rintro _ rfl
      simpa [headAgrees] using hagrees
    split at hversion
    · rename_i pending hpending
      cases hversion
      exact
        { head_eq := hhead.symm
          version_of_head := by
            intro _ hselected
            cases hselected
            exact ⟨pending, rfl, hsome pending rfl⟩
          version_none := by simp
          stored_sound := by simp }
    rename_i hpending
    simp only [ok_rules] at hversion
    obtain ⟨descriptor, hdescriptor, rfl, rfl⟩ := hversion
    have hids := hsome descriptor.version rfl
    exact
      { head_eq := hhead.symm
        version_of_head := by
          intro _ hselected
          cases hselected
          exact ⟨descriptor.version, rfl, hids⟩
        version_none := by simp
        stored_sound := by
          intro _ hfound
          cases hfound
          refine ⟨rfl, ?_⟩
          rw [hids.1]
          exact (h.untouched _ hpending _).trans hdescriptor }

variable {versioning : ObjectVersioning} {id : VersionId} {plan : MutationPlan}

/-- The payload a replacement releases at once. -/
def releasedBlob (current : CurrentObject) (versioning : ObjectVersioning) : Option BlobRef :=
  (releasedPredecessor current versioning).bind fun stored => stored.version.blob

theorem planOperation_eq_ok
    (h : planOperation context bulk operation current versioning id = .ok plan) :
    checkInstalledPayload context operation = .ok () ∧ checkTransition (context.intent.map
    (definitionTransition operation id operation.isDelete)) = .ok () ∧
    planInlinePayload context bulk operation = .ok plan.inlinePayload ∧
    planPublication context bulk operation (releasedBlob current versioning) =
    .ok plan.publication ∧ plan.current = current ∧ plan.versioning = versioning ∧
    plan.version = newVersion context operation id ∧ plan.definitionTransition =
    context.intent.map (definitionTransition operation id operation.isDelete) ∧ plan.retired =
    if releasedBlob current versioning = operation.payloadReference then none else
    releasedBlob current versioning := by
  simp only [planOperation, ok_rules] at h
  obtain ⟨hinstalled, htransition, _, -, _, hinline, _, hpublication, rfl⟩ := h
  exact ⟨hinstalled, htransition, hinline, hpublication, rfl, rfl, rfl, rfl, rfl⟩

/-- The payload of a published plan, with the state its record gets. -/
theorem planPublication_eq_ok {released : Option BlobRef} {reference : BlobRef}
    {state : BlobReferenceState}
    (hsound : BulkSound context surplus bulk)
    (h : planPublication context bulk operation released = .ok (some (reference, state))) :
    operation.payloadReference = some reference ∧ released ≠ some reference ∧
    state.held = bulk.blobs.held (.completeBlob reference) + 1 ∧
    validateBlobReferenceState state = .ok () ∧
    ((bulk.blobs.references (.completeBlob reference)).isSome ∨ ∃ payload contentType mode,
    operation.request = .put payload contentType mode) := by
  unfold planPublication at h
  split at h
  · cases h
  rename_i named hnamed
  split at h
  · cases h
  rename_i hreleased
  simp only [ok_rules, Option.some.injEq] at h
  obtain ⟨_, hstate, rfl, rfl⟩ := h
  simp only [prepareBlobPublication, bind_eq_ok] at hstate
  obtain ⟨found, hfound, hstate⟩ := hstate
  have hreferences := hsound.readPending hfound
  refine ⟨hnamed, hreleased, ?_⟩
  cases found with
  | some =>
    obtain ⟨hheld, hvalid⟩ := advanceBlobReferencePublication_eq_ok hstate
    rw [held_of_references hreferences, hreferences]
    exact ⟨hheld, hvalid, .inl rfl⟩
  | none =>
    rw [held_of_missing hreferences]
    dsimp only at hstate
    split at hstate
    · rename_i payload contentType mode hrequest
      cases hstate
      exact ⟨rfl, validateBlobReferenceState_eq_ok.mpr ⟨le_rfl, by simp⟩,
        Or.inr ⟨payload, contentType, mode, hrequest⟩⟩
    · cases hstate

theorem planPublication_eq_none {released : Option BlobRef}
    (h : planPublication context bulk operation released = .ok none) :
    operation.payloadReference = none ∨ released = operation.payloadReference := by
  unfold planPublication at h
  split at h
  · rename_i hnone
    exact .inl hnone
  rename_i reference hreference
  split at h
  · rename_i hsame
    exact .inr (hsame.trans hreference.symm)
  · simp only [ok_rules, reduceCtorEq, and_false, exists_false] at h

/-- A put finds its payload sealed, or stages it. -/
theorem payload_of_put {payload : PreparedPayload} {contentType : Option String} {mode : PutMode}
    {inlinePayload : Option BlobRef}
    (hrequest : operation.request = .put payload contentType mode)
    (hinstalled : checkInstalledPayload context operation = .ok ())
    (hinline : planInlinePayload context bulk operation = .ok inlinePayload) :
    payload.reference ∈ bulk.pendingInlinePayloads ∨ inlinePayload = some payload.reference ∨
    (context.store.source.blobs.references (.completeBlob payload.reference)).isSome ∧
    (context.store.source.blobs.manifests (.completeBlob payload.reference)).isSome := by
  cases payload with
  | inline =>
    simp only [planInlinePayload, hrequest] at hinline
    unfold prepareInlinePayloadValue at hinline
    split at hinline
    · rename_i hstaged
      exact .inl hstaged
    split at hinline
    · rename_i hmanifest
      split at hinline
      · simp only [ok_rules] at hinline
        obtain ⟨_, hfound, hnone, -⟩ := hinline
        rw [PreparedPayload.reference, hmanifest, (readBlobReferenceState_eq_ok hfound).1]
        exact .inr (.inr ⟨Option.isSome_iff_ne_none.mpr hnone, rfl⟩)
      cases hinline
      exact .inr (.inl rfl)
    cases hinline
    exact .inr (.inl rfl)
  | installed =>
    simp only [checkInstalledPayload, hrequest, ok_rules, not_not] at hinstalled
    obtain ⟨_, hpresent, rfl⟩ := hinstalled
    simp only [containsBlob, bind_eq_ok] at hpresent
    obtain ⟨found, hfound, hpresent⟩ := hpresent
    cases found with
    | none => cases hpresent
    | some =>
      rw [pure_eq_ok, Bool.and_eq_true] at hpresent
      rw [PreparedPayload.reference, (readBlobReferenceState_eq_ok hfound).1]
      exact .inr (.inr ⟨rfl, hpresent.2⟩)

theorem sealed_of_put {payload : PreparedPayload} {contentType : Option String} {mode : PutMode}
    {inlinePayload : Option BlobRef}
    (hsound : BulkSound context surplus bulk)
    (hrequest : operation.request = .put payload contentType mode)
    (hinstalled : checkInstalledPayload context operation = .ok ())
    (hinline : planInlinePayload context bulk operation = .ok inlinePayload) :
    inlinePayload = some payload.reference ∨
    (bulk.blobs.manifests (.completeBlob payload.reference)).isSome := by
  rcases payload_of_put hrequest hinstalled hinline with hstaged | hnew | ⟨-, hsome⟩
  · exact .inr (hsound.inlined _ hstaged)
  · exact .inl hnew
  · exact .inr (hsound.manifests _ hsome)

/-- Inline bytes are staged for the operation's own payload. -/
theorem planInlinePayload_eq_ok {reference : BlobRef}
    (h : planInlinePayload context bulk operation = .ok (some reference)) :
    operation.payloadReference = some reference := by
  unfold planInlinePayload at h
  split at h
  · rename_i payload contentType mode hrequest
    unfold prepareInlinePayloadValue at h
    have hsame : payload = reference := by
      split at h
      · cases h
      split at h
      · split at h
        · simp only [ok_rules, reduceCtorEq, and_false, exists_false] at h
        cases h
        rfl
      cases h
      rfl
    rw [PreparedOperation.payloadReference, hrequest, ← hsame]
    rfl
  · cases h

/-- A staged receipt changes nothing the objects and payloads depend on. -/
theorem stageReceipt_eq_ok {version : VersionId} {deleted : Bool}
    {transition : Option DefinitionTransition} {staged : BulkState} {expiresAt : Nat}
    (h : stageReceipt context operation bulk version deleted transition = .ok (staged, expiresAt)) :
    ∃ receipts pendingReceipts, staged = { bulk with receipts, pendingReceipts } := by
  unfold stageReceipt stageMutationReceipt at h
  split at h
  · cases h
    exact ⟨_, _, rfl⟩
  simp only [ok_rules] at h
  obtain ⟨_, -, receipts, -, rfl, -⟩ := h
  exact ⟨receipts, _, rfl⟩

/-- Put a lifecycle record for a sealed payload. -/
theorem BulkSound.stageReference {state : BlobReferenceState} {reference : BlobRef}
    {shifted : BlobRef → Int}
    (h : BulkSound context surplus bulk) (hvalid : validateBlobReferenceState state = .ok ())
    (hsealed : (bulk.blobs.manifests (.completeBlob reference)).isSome)
    (hother : ∀ blob, blob ≠ reference → shifted blob = surplus blob)
    (hshifted : state.held = bulk.objects.naming reference + shifted reference) :
    BulkSound context shifted (stageReference bulk reference state) :=
  { h with
    payloads := h.payloads.putReference hvalid hsealed
    balanced := by
      intro blob
      simp only [Store.stageReference, held_putReference]
      by_cases hblob : blob = reference
      · rw [if_pos (by rw [hblob]), hblob]
        exact hshifted
      rw [if_neg (by simpa using hblob), hother blob hblob]
      exact h.balanced blob
    references := by
      intro artifact
      simp only [Store.stageReference, BlobTables.putReference, update_apply,
        PendingBlobReferences.get?_put]
      split
      · rfl
      · exact h.references artifact }

/-- Stage the bytes of a small payload. -/
theorem bulkSound_stageInlinePayload {reference : BlobRef} {staged : BulkState}
    (h : BulkSound context surplus bulk)
    (hstaged : stageInlinePayload bulk reference = .ok staged) :
    BulkSound context surplus staged ∧ staged.objects = bulk.objects ∧
    staged.clock = bulk.clock ∧ staged.locators = bulk.locators ∧
    staged.pendingHeads = bulk.pendingHeads ∧ staged.pendingVersions = bulk.pendingVersions ∧
    staged.blobs.references = bulk.blobs.references ∧
    (∀ artifact, (bulk.blobs.manifests artifact).isSome →
    (staged.blobs.manifests artifact).isSome) ∧ ∀ inlined, some reference = some inlined →
    (staged.blobs.manifests (.completeBlob inlined)).isSome := by
  simp only [stageInlinePayload, stageInlineCompleteArtifact, ok_rules] at hstaged
  obtain ⟨_, ⟨-, rfl⟩, rfl⟩ := hstaged
  have hmanifests : ∀ artifact, (bulk.blobs.manifests artifact).isSome →
      (update bulk.blobs.manifests (.completeBlob reference)
        (some (inlineManifest reference)) artifact).isSome := by
    intro _ hsome
    rw [update_apply]
    split
    · rfl
    · exact hsome
  refine ⟨?_, rfl, rfl, rfl, rfl, rfl, rfl, hmanifests, by simp⟩
  exact
    { payloads :=
        { valid := h.payloads.valid
          sealed := fun blob hsome => hmanifests _ (h.payloads.sealed blob hsome) }
      objects := h.objects
      balanced := h.balanced
      heads := h.heads
      untouched := h.untouched
      references := h.references
      inlined := by
        intro blob hblob
        rcases List.mem_cons.mp hblob with rfl | hold
        · simp
        · exact hmanifests _ (h.inlined blob hold)
      manifests := fun artifact hsome => hmanifests _ (h.manifests artifact hsome) }

/-- One if the payload is the given one. -/
def one (named : Option BlobRef) (blob : BlobRef) : Int :=
  if named = some blob then 1 else 0

@[simp] theorem one_none (blob : BlobRef) : one none blob = 0 := by
  simp [one]

@[simp] theorem one_self (blob : BlobRef) : one (some blob) blob = 1 := by
  simp [one]

theorem one_of_ne {named : BlobRef}
    (h : blob ≠ named) : one (some named) blob = 0 := by
  simp [one, Ne.symm h]

theorem add_one_nonneg {surplus : BlobRef → Int} (h : ∀ blob, 0 ≤ surplus blob)
    (named : Option BlobRef) (blob : BlobRef) : 0 ≤ surplus blob + one named blob := by
  have hbase := h blob
  unfold one
  split <;> omega

/-- The published payload gains a reference. -/
theorem bulkSound_stagePayload {released : Option BlobRef} {staged : BulkState}
    (h : BulkSound context surplus bulk)
    (hinstalled : checkInstalledPayload context operation = .ok ())
    (hinline : planInlinePayload context bulk operation = .ok plan.inlinePayload)
    (hpublication : planPublication context bulk operation released = .ok plan.publication)
    (hstaged : stagePayload plan bulk = .ok staged) :
    BulkSound context (fun blob => surplus blob + one (plan.publication.map Prod.fst) blob) staged ∧
    staged.objects = bulk.objects ∧ staged.clock = bulk.clock ∧
    staged.locators = bulk.locators ∧ staged.pendingHeads = bulk.pendingHeads ∧
    staged.pendingVersions = bulk.pendingVersions := by
  simp only [stagePayload, ok_rules] at hstaged
  obtain ⟨middle, hmiddle, rfl⟩ := hstaged
  have hsound : BulkSound context surplus middle ∧ middle.objects = bulk.objects ∧ middle.clock =
    bulk.clock ∧ middle.locators = bulk.locators ∧ middle.pendingHeads = bulk.pendingHeads ∧
    middle.pendingVersions = bulk.pendingVersions ∧ middle.blobs.references = bulk.blobs.references
    ∧ (∀ artifact, (bulk.blobs.manifests artifact).isSome → (middle.blobs.manifests
    artifact).isSome) ∧ ∀ reference, plan.inlinePayload = some reference → (middle.blobs.manifests
    (.completeBlob reference)).isSome := by
    unfold stageInlineValue at hmiddle
    cases hvalue : plan.inlinePayload with
    | none =>
      rw [hvalue] at hmiddle
      cases hmiddle
      exact ⟨h, rfl, rfl, rfl, rfl, rfl, rfl, fun _ hsome => hsome, by simp⟩
    | some =>
      rw [hvalue] at hmiddle
      exact bulkSound_stageInlinePayload h hmiddle
  obtain ⟨hmiddle_sound, hobjects, hclock, hlocators, hheads, hversions, _,
    hmanifests, hinlined⟩ := hsound
  unfold stagePublication
  cases hvalue : plan.publication with
  | none =>
    refine ⟨?_, hobjects, hclock, hlocators, hheads, hversions⟩
    simp only [Option.map_none, one_none, add_zero]
    exact hmiddle_sound
  | some published =>
    obtain ⟨reference, _⟩ := published
    rw [hvalue] at hpublication
    obtain ⟨hreference, -, hheld, hvalid, hmaterial⟩ := planPublication_eq_ok h hpublication
    have hsealed : (middle.blobs.manifests (.completeBlob reference)).isSome := by
      rcases hmaterial with hsome | ⟨payload, _, _, hrequest⟩
      · exact hmanifests _ (h.payloads.sealed reference hsome)
      have hpayload : payload.reference = reference := by
        rw [PreparedOperation.payloadReference, hrequest] at hreference
        exact Option.some.inj hreference
      rcases sealed_of_put h hrequest hinstalled hinline with hnew | hold
      · exact hpayload ▸ hinlined _ hnew
      · exact hpayload ▸ hmanifests _ hold
    refine ⟨?_, hobjects, hclock, hlocators, hheads, hversions⟩
    refine hmiddle_sound.stageReference hvalid hsealed ?_ ?_
    · intro _ hblob
      dsimp only [Option.map_some]
      rw [one_of_ne hblob, add_zero]
    have hbalance := h.balanced reference
    rw [hobjects, hheld, hbalance, Option.map_some, one_self, add_assoc]

/-- A retired predecessor's payload loses a reference.  The record is there,
because the predecessor's descriptor still is. -/
theorem bulkSound_stageRetirement
    (h : BulkSound context surplus bulk) (hsurplus : ∀ blob, 0 ≤ surplus blob)
    (hretired : ∀ blob, plan.retired = some blob →
    ∃ key stored, bulk.objects.versions.get? key = some stored ∧ stored.version.blob = some blob) :
    ∃ staged, stageRetirement context plan bulk = .ok staged ∧
    BulkSound context (fun blob => surplus blob - one plan.retired blob) staged ∧
    staged.objects = bulk.objects ∧ staged.clock = bulk.clock ∧
    staged.locators = bulk.locators ∧ staged.pendingHeads = bulk.pendingHeads ∧
    staged.pendingVersions = bulk.pendingVersions := by
  cases hvalue : plan.retired with
  | none =>
    refine ⟨bulk, by rw [stageRetirement, hvalue]; rfl, ?_, rfl, rfl, rfl, rfl, rfl⟩
    simp only [one_none, sub_zero]
    exact h
  | some reference =>
    obtain ⟨_, _, hstored, hblob⟩ := hretired reference hvalue
    obtain ⟨_, hstate, hheld⟩ := h.named hsurplus hstored hblob
    obtain ⟨next, hnext, hnext_held, hvalid⟩ :=
      prepareBlobReferenceRetirement_eq (h.readPending_some hstate)
        (h.payloads.valid _ _ hstate) hheld
    refine ⟨stageReference bulk reference next, ?_, ?_, rfl, rfl, rfl, rfl, rfl⟩
    · simp only [stageRetirement, hvalue, ok_rules]
      exact ⟨next, hnext, rfl⟩
    have hsealed := h.payloads.sealed reference (by rw [hstate]; rfl)
    refine h.stageReference hvalid hsealed ?_ ?_
    · intro _ hother
      rw [one_of_ne hother, sub_zero]
    have hbalance := h.balanced reference
    rw [held_of_references hstate] at hbalance
    rw [hnext_held, hbalance, one_self, add_sub_assoc]

theorem get?_stagePredecessor_of_ne {other key : VersionKey} {stored : Option StoredVersion}
    (h : other ≠ key) (versions : OrdMap VersionKey StoredVersion) :
    (stagePredecessor versioning key stored versions).get? other = versions.get? other := by
  unfold stagePredecessor
  split
  · rfl
  split
  · rfl
  · rw [get?_insert, if_neg h]
  · rw [get?_erase, if_neg h]
  · rfl

/-- A predecessor that stays keeps its version. -/
theorem version_of_get?_stagePredecessor {stored : Option StoredVersion} {key : VersionKey}
    {versions : OrdMap VersionKey StoredVersion} {found : StoredVersion}
    (hstored : ∀ old, stored = some old → versions.get? key = some old)
    (h : (stagePredecessor versioning key stored versions).get? key = some found) :
    ∃ old, versions.get? key = some old ∧ found.version = old.version := by
  unfold stagePredecessor at h
  split at h
  · exact ⟨found, h, rfl⟩
  rename_i old
  have hold := hstored old rfl
  split at h
  · exact ⟨found, h, rfl⟩
  · rw [get?_insert, if_pos rfl, Option.some.injEq] at h
    exact ⟨old, hold, by rw [← h]⟩
  · rw [get?_erase, if_pos rfl] at h
    cases h
  · exact ⟨found, h, rfl⟩

theorem releasedBlob_eq {old : StoredVersion}
    (h : current.stored = some old) : releasedBlob current versioning =
    if versioning = .unversioned ∧ old.retention = .journalReleased then old.version.blob else
    none := by
  unfold releasedBlob releasedPredecessor
  rw [h, Option.filter_some]
  by_cases hversioning : versioning = .unversioned
  · by_cases hretention : old.retention = .journalReleased
    · simp [hversioning, hretention]
    · simp [hversioning, hretention]
  · simp [hversioning]

theorem releasedBlob_eq_none (h : current.stored = none) :
    releasedBlob current versioning = none := by
  unfold releasedBlob releasedPredecessor
  rw [h]
  split <;> rfl

/-- A released payload is named by the descriptor of the current version. -/
theorem CurrentSound.named_of_released (h : CurrentSound bulk operation current)
    (hreleased : releasedBlob current versioning = some blob) :
    ∃ key stored, bulk.objects.versions.get? key = some stored ∧
    stored.version.blob = some blob := by
  cases hstored : current.stored with
  | none =>
    rw [releasedBlob_eq_none hstored] at hreleased
    cases hreleased
  | some old =>
    rw [releasedBlob_eq hstored] at hreleased
    split at hreleased
    · exact ⟨_, old, (h.stored_sound old hstored).2, hreleased⟩
    · cases hreleased

/-- Only a released predecessor's descriptor goes. -/
theorem naming_stagePredecessor {key : VersionKey}
    (current : CurrentObject)
    (hstored : ∀ old, current.stored = some old → objects.versions.get? key = some old)
    (heads : OrdMap HeadKey Head) (blob : BlobRef) :
    (objects.naming blob : Int) =
      ({ heads, versions := stagePredecessor versioning key current.stored objects.versions } :
        ObjectTables).naming blob + one (releasedBlob current versioning) blob := by
  have hkeep : ({ heads, versions := objects.versions } : ObjectTables).naming blob =
      objects.naming blob := rfl
  cases hvalue : current.stored with
  | none => rw [releasedBlob_eq_none hvalue, one_none, stagePredecessor, hkeep, add_zero]
  | some old =>
    have hold := hstored old hvalue
    have hblob : ({ retention := .userRetained, version := old.version } :
        StoredVersion).version.blob = old.version.blob := rfl
    have hmark := naming_insert_same hold hblob heads blob
    rw [releasedBlob_eq hvalue]
    obtain ⟨retention, version⟩ := old
    cases retention with
    | userRetained =>
      rw [if_neg (by simp), one_none, add_zero]
      exact congrArg Nat.cast hkeep.symm
    | journalPending =>
      cases versioning with
      | unversioned => exact congrArg Nat.cast hkeep.symm
      | enabled => exact congrArg Nat.cast hmark.symm
    | journalReleased =>
      cases versioning with
      | unversioned =>
        have herase := naming_erase hold heads blob
        have hnames : (({ retention := .journalReleased, version } :
            StoredVersion).names blob : Int) = one version.blob blob := by
          unfold StoredVersion.names one
          split <;> rfl
        rw [if_pos ⟨rfl, rfl⟩, ← hnames]
        dsimp only [stagePredecessor]
        omega
      | enabled =>
        exact congrArg Nat.cast hmark.symm

/-- The descriptors after the predecessor is dealt with. -/
def predecessorVersions (operation : PreparedOperation) (plan : MutationPlan)
    (versions : OrdMap VersionKey StoredVersion) : OrdMap VersionKey StoredVersion :=
  match plan.current.version with
  | some previous =>
    stagePredecessor plan.versioning
      (exactVersionKey operation.identity operation.path previous.id) plan.current.stored
      versions
  | none => versions

theorem stageObject_eq (operation : PreparedOperation) (plan : MutationPlan) (bulk : BulkState) :
    (stageObject operation plan bulk).objects =
      { heads := bulk.objects.heads.insert operation.headKey
            { version := plan.version.id, deleted := plan.version.deleted, mutationStamp := none }
        versions := (predecessorVersions operation plan bulk.objects.versions).insert
          (exactVersionKey operation.identity operation.path plan.version.id)
          { retention := versionRetention plan.versioning, version := plan.version } } := rfl

section

variable (hcurrent : CurrentSound bulk operation plan.current)

include hcurrent

/-- The predecessor's key is one of the operation's path, and holds its stored
descriptor. -/
theorem predecessorVersions_eq : ∃ version : VersionId, (∀ old, plan.current.stored = some old →
    bulk.objects.versions.get? (toLex (operation.headKey, version)) = some old) ∧
    predecessorVersions operation plan bulk.objects.versions =
    stagePredecessor plan.versioning (toLex (operation.headKey, version))
    plan.current.stored bulk.objects.versions := by
  unfold predecessorVersions
  cases hversion : plan.current.version with
  | some previous =>
    refine ⟨previous.id, ?_, rfl⟩
    intro old hold
    obtain ⟨hsame, hget⟩ := hcurrent.stored_sound old hold
    rw [hversion, Option.some.injEq] at hsame
    rw [hsame]
    exact hget
  | none =>
    have hstored : plan.current.stored = none := by
      cases hstored : plan.current.stored with
      | none => rfl
      | some old =>
        have hsame := (hcurrent.stored_sound old hstored).1
        rw [hversion] at hsame
        cases hsame
    refine ⟨0, ?_, ?_⟩
    · rw [hstored]
      simp
    rw [hstored]
    rfl

/-- Descriptors of other paths stay, and those of the path keep their versions. -/
theorem get?_predecessorVersions {key : VersionKey} {found : StoredVersion}
    (h : (predecessorVersions operation plan bulk.objects.versions).get? key = some found) :
    ∃ old, bulk.objects.versions.get? key = some old ∧ found.version = old.version := by
  obtain ⟨version, hstored, heq⟩ := predecessorVersions_eq hcurrent
  rw [heq] at h
  by_cases hkey : key = toLex (operation.headKey, version)
  · subst hkey
    exact version_of_get?_stagePredecessor hstored h
  rw [get?_stagePredecessor_of_ne hkey] at h
  exact ⟨found, h, rfl⟩

theorem get?_predecessorVersions_of_ne {path : HeadKey}
    (hpath : path ≠ operation.headKey) (version : VersionId) :
    (predecessorVersions operation plan bulk.objects.versions).get? (toLex (path, version)) =
    bulk.objects.versions.get? (toLex (path, version)) := by
  obtain ⟨_, -, heq⟩ := predecessorVersions_eq hcurrent
  rw [heq]
  exact get?_stagePredecessor_of_ne (versionKey_ne hpath) _

/-- The descriptors naming a payload after the whole replacement. -/
theorem naming_stageObject (hfresh : bulk.objects.versions.get?
    (exactVersionKey operation.identity operation.path plan.version.id) = none) (blob : BlobRef) :
    ((stageObject operation plan bulk).objects.naming blob : Int) =
    bulk.objects.naming blob + one plan.version.blob blob -
    one (releasedBlob plan.current plan.versioning) blob := by
  obtain ⟨previous, hstored, heq⟩ := predecessorVersions_eq hcurrent
  have hnew : ({ heads := bulk.objects.heads
                 versions := predecessorVersions operation plan bulk.objects.versions } :
      ObjectTables).versions.get?
        (exactVersionKey operation.identity operation.path plan.version.id) = none := by
    cases hget : (predecessorVersions operation plan bulk.objects.versions).get?
      (exactVersionKey operation.identity operation.path plan.version.id) with
    | none => rfl
    | some _ =>
      obtain ⟨_, hold, -⟩ := get?_predecessorVersions hcurrent hget
      rw [hfresh] at hold
      cases hold
  have hinsert := naming_insert_new hnew (bulk.objects.heads.insert operation.headKey
      { version := plan.version.id, deleted := plan.version.deleted, mutationStamp := none })
    { retention := versionRetention plan.versioning, version := plan.version } blob
  have hpredecessor : (bulk.objects.naming blob : Int) =
      ({ heads := bulk.objects.heads
         versions := stagePredecessor plan.versioning (toLex (operation.headKey, previous))
           plan.current.stored bulk.objects.versions } : ObjectTables).naming blob +
        one (releasedBlob plan.current plan.versioning) blob :=
    naming_stagePredecessor plan.current hstored bulk.objects.heads blob
  have hnames : (({ retention := versionRetention plan.versioning, version := plan.version } :
      StoredVersion).names blob : Int) = one plan.version.blob blob := by
    unfold StoredVersion.names one
    split <;> rfl
  rw [stageObject_eq, hinsert, heq]
  push_cast
  omega

end

theorem bulkSound_stageObject {shifted : BlobRef → Int}
    (h : BulkSound context shifted bulk) (hcurrent : CurrentSound bulk operation plan.current)
    (hversion : plan.version = newVersion context operation id)
    (hfresh : ∀ key stored, bulk.objects.versions.get? key = some stored → stored.version.id < id)
    (hclock : bulk.clock.highWatermark = id)
    (hshifted : ∀ blob, shifted blob = surplus blob + one plan.version.blob blob -
    one (releasedBlob plan.current plan.versioning) blob) :
    BulkSound context surplus (stageObject operation plan bulk) := by
  have hid : plan.version.id = id := by rw [hversion]; rfl
  have hnew : bulk.objects.versions.get?
      (exactVersionKey operation.identity operation.path plan.version.id) = none := by
    cases hget : bulk.objects.versions.get?
      (exactVersionKey operation.identity operation.path plan.version.id) with
    | none => rfl
    | some stored =>
      have hbelow := hfresh _ _ hget
      have hkey : stored.version.id = plan.version.id := (h.objects.descriptor _ _ hget).1
      rw [hkey, hid] at hbelow
      exact absurd hbelow (lt_irrefl id)
  constructor
  case payloads => exact h.payloads
  case objects =>
    rw [stageObject_eq]
    constructor
    case descriptor =>
      intro key _ hstored
      rw [get?_insert] at hstored
      split at hstored
      · rename_i hkey
        cases hstored
        rw [hkey, hversion]
        refine ⟨rfl, isDelete_eq operation, ?_⟩
        exact hclock.ge
      obtain ⟨old, hold, heq⟩ := get?_predecessorVersions hcurrent hstored
      rw [heq]
      exact h.objects.descriptor key old hold
    case current =>
      intro key head hhead
      rw [get?_insert] at hhead
      split at hhead
      · rename_i hkey
        cases hhead
        rw [hkey]
        exact ⟨_, get?_insert_self _ _ _, rfl⟩
      rename_i hkey
      obtain ⟨stored, hstored, hdeleted⟩ := h.objects.current key head hhead
      rw [get?_insert, if_neg (versionKey_ne hkey), get?_predecessorVersions_of_ne hcurrent hkey]
      exact ⟨stored, hstored, hdeleted⟩
  case balanced =>
    intro blob
    have hbalance := h.balanced blob
    have hnaming := naming_stageObject hcurrent hnew blob
    have hshift := hshifted blob
    have hblobs : (stageObject operation plan bulk).blobs = bulk.blobs := rfl
    rw [hblobs]
    omega
  case heads =>
    intro key
    dsimp only [stageObject]
    rw [get?_insert, update_apply]
    split
    · rfl
    · exact h.heads key
  case untouched =>
    intro key hkey version
    dsimp only [stageObject] at hkey
    rw [update_apply] at hkey
    split at hkey
    · cases hkey
    rename_i hother
    rw [stageObject_eq, get?_insert, if_neg (versionKey_ne hother),
      get?_predecessorVersions_of_ne hcurrent hother]
    exact h.untouched key hkey version
  case references => exact h.references
  case inlined => exact h.inlined
  case manifests => exact h.manifests

/-- The operation changed no object and no payload. -/
structure Idle (bulk bulk' : BulkState) : Prop where
  objects_eq : bulk'.objects = bulk.objects
  blobs_eq : bulk'.blobs = bulk.blobs
  heads_eq : bulk'.pendingHeads = bulk.pendingHeads
  versions_eq : bulk'.pendingVersions = bulk.pendingVersions
  references_eq : bulk'.pendingBlobReferences = bulk.pendingBlobReferences
  inlined_eq : bulk'.pendingInlinePayloads = bulk.pendingInlinePayloads
  clock_le : bulk.clock.highWatermark ≤ bulk'.clock.highWatermark

theorem Idle.refl (bulk : BulkState) : Idle bulk bulk :=
  ⟨rfl, rfl, rfl, rfl, rfl, rfl, le_rfl⟩

theorem BulkSound.idle (h : BulkSound context surplus bulk) (hidle : Idle bulk bulk') :
    BulkSound context surplus bulk' :=
  h.congr hidle.objects_eq hidle.blobs_eq hidle.heads_eq hidle.versions_eq
    hidle.references_eq hidle.inlined_eq hidle.clock_le

/-- The locators an operation without a new version leaves: those before it, or
the one a repeated immutable put confirms. -/
def LocatorsConfirmed
    (context : BulkContext) (operation : PreparedOperation) (bulk bulk' : BulkState) : Prop :=
  bulk'.locators = bulk.locators ∨ ∃ head intent,
    admitOperation context bulk operation = .ok (.identical head) ∧ context.intent = some intent ∧
      (definitionTransition operation head.version false intent).validate = .ok () ∧
      bulk'.locators = putLocator bulk.locators
      (definitionTransition operation head.version false intent)

/-- The operation replaced the current version of its path. -/
structure Replaced (context : BulkContext) (operation : PreparedOperation) (bulk bulk' : BulkState)
    (evaluated : EvaluatedOperation) : Prop where
  admitted : ∃ plan middle id,
      admitOperation context bulk operation = .ok (.proceed plan.current plan.versioning) ∧
        CurrentSound bulk operation plan.current ∧ plan.version = newVersion context operation id ∧
          plan.definitionTransition =
            context.intent.map (definitionTransition operation id operation.isDelete) ∧
            checkTransition plan.definitionTransition = .ok () ∧
              middle.objects = bulk.objects ∧ middle.locators = bulk.locators ∧
                bulk.clock.highWatermark < id ∧ middle.clock.highWatermark = id ∧
                  evaluated.receipt.version = id ∧ bulk' = stageObject operation plan middle
  fresh : evaluated.receipt.replayed = false

theorem admitOperation_proceed
    (h : admitOperation context bulk operation = .ok (.proceed current versioning)) :
    readCurrent context bulk operation = .ok current ∧ ∃ settings,
    context.settings operation.identity = .ok settings ∧ versioning = settings.versioning := by
  simp only [admitOperation, bind_eq_ok] at h
  obtain ⟨found, -, h⟩ := h
  cases found with
  | some => cases h
  | none =>
    simp only [ok_rules] at h
    obtain ⟨-, _, hread, settings, hsettings, -, hadmitted⟩ := h
    unfold admitCurrent at hadmitted
    split at hadmitted
    · simp only [ok_rules, reduceCtorEq, and_false, exists_false] at hadmitted
    simp only [ok_rules, Admission.proceed.injEq] at hadmitted
    obtain ⟨-, rfl, rfl⟩ := hadmitted
    exact ⟨hread, settings, hsettings, rfl⟩

theorem idle_stageIdentical
    (head : Head) (hadmitted : admitOperation context bulk operation = .ok (.identical head)) :
    Idle bulk (stageIdentical context operation bulk head).1 ∧
    LocatorsConfirmed context operation bulk (stageIdentical context operation bulk head).1 ∧
    ∀ evaluated, (stageIdentical context operation bulk head).2 = .ok evaluated →
    evaluated.receipt.replayed = true := by
  unfold stageIdentical
  dsimp only
  split
  · exact ⟨Idle.refl bulk, .inl rfl, by simp⟩
  rename_i staged expiresAt hstaged
  obtain ⟨_, _, rfl⟩ := stageReceipt_eq_ok hstaged
  split
  · refine ⟨⟨rfl, rfl, rfl, rfl, rfl, rfl, le_rfl⟩, .inl rfl, ?_⟩
    intro _ hevaluated
    cases hevaluated
    rfl
  rename_i transition htransition
  split
  · exact ⟨⟨rfl, rfl, rfl, rfl, rfl, rfl, le_rfl⟩, .inl rfl, by simp⟩
  rename_i locators hlocators
  simp only [stageDefinitionTransition, ok_rules] at hlocators
  obtain ⟨hvalid, rfl⟩ := hlocators
  obtain ⟨intent, hintent, rfl⟩ := Option.map_eq_some_iff.mp htransition
  refine ⟨⟨rfl, rfl, rfl, rfl, rfl, rfl, le_rfl⟩,
    Or.inr ⟨head, intent, hadmitted, hintent, hvalid, rfl⟩, ?_⟩
  intro _ hevaluated
  cases hevaluated
  rfl

section

variable (hsound : BulkSound context surplus bulk)

include hsound

/-- The references of the payloads of an operation change as its descriptors do. -/
theorem one_publication {released : Option BlobRef}
    {publication : Option (BlobRef × BlobReferenceState)}
    (h : planPublication context bulk operation released = .ok publication) (blob : BlobRef) :
    one (publication.map Prod.fst) blob -
    one (if released = operation.payloadReference then none else released) blob =
    one operation.payloadReference blob - one released blob := by
  cases publication with
  | none =>
    rcases planPublication_eq_none h with hnone | hsame
    · rw [hnone]
      cases released with
      | none | some => simp
    · simp [hsame]
  | some published =>
    obtain ⟨hreference, hother, -⟩ := planPublication_eq_ok hsound h
    rw [hreference, if_neg hother]
    rfl

/-- What the payload stage leaves of a plan can be retired, and keeps the objects. -/
theorem stageRetirement_of_plan {clock : VersionClock} {version : VersionId} {deleted : Bool}
    {transition : Option DefinitionTransition} {receipted : BulkState} {expiresAt : Nat}
    {paid : BulkState}
    (hsurplus : ∀ blob, 0 ≤ surplus blob)
    (hcurrent : CurrentSound bulk operation current)
    (hlater : bulk.clock.highWatermark ≤ clock.highWatermark)
    (hplan : planOperation context { bulk with clock } operation current versioning id = .ok plan)
    (hreceipted : stageReceipt context operation { bulk with clock } version deleted transition =
    .ok (receipted, expiresAt)) (hpaid : stagePayload plan receipted = .ok paid) :
    BulkSound context (fun blob => surplus blob + one (plan.publication.map Prod.fst) blob) paid ∧
    ∃ retired, stageRetirement context plan paid = .ok retired ∧ BulkSound context (fun blob =>
    surplus blob + one (plan.publication.map Prod.fst) blob - one plan.retired blob) retired ∧
    retired.objects = bulk.objects ∧ retired.clock = clock ∧ retired.locators = bulk.locators := by
  obtain ⟨hinstalled, -, hinline, hpublication, rfl, rfl, -, -, hretired⟩ :=
    planOperation_eq_ok hplan
  obtain ⟨receipts, pendingReceipts, rfl⟩ := stageReceipt_eq_ok hreceipted
  have hreceipted_sound : BulkSound context surplus
      { bulk with clock, receipts, pendingReceipts } :=
    hsound.idle ⟨rfl, rfl, rfl, rfl, rfl, rfl, hlater⟩
  obtain ⟨hpaid_sound, hobjects, hclock, hlocators, -, -⟩ :=
    bulkSound_stagePayload hreceipted_sound hinstalled hinline hpublication hpaid
  refine ⟨hpaid_sound, ?_⟩
  have hnamed : ∀ blob, plan.retired = some blob → ∃ key stored, paid.objects.versions.get? key
    = some stored ∧ stored.version.blob = some blob := by
    intro _ hblob
    rw [hretired] at hblob
    split at hblob
    · cases hblob
    rw [hobjects]
    exact hcurrent.named_of_released hblob
  obtain ⟨retired, hretire, hretired_sound, hobjects', hclock', hlocators', -, -⟩ :=
    bulkSound_stageRetirement hpaid_sound (add_one_nonneg hsurplus _) hnamed
  exact ⟨retired, hretire, hretired_sound, hobjects'.trans hobjects, hclock'.trans hclock,
    hlocators'.trans hlocators⟩

theorem stagePlan_cases {clock : VersionClock}
    (hsurplus : ∀ blob, 0 ≤ surplus blob)
    (hadmitted : admitOperation context bulk operation = .ok (.proceed current versioning))
    (hid : bulk.clock.highWatermark < id) (hclock : clock.highWatermark = id)
    (hplan : planOperation context { bulk with clock } operation current versioning id = .ok plan) :
    (Idle bulk (stagePlan context operation { bulk with clock } plan).1 ∧
    (stagePlan context operation { bulk with clock } plan).1.locators = bulk.locators ∧
    ∀ evaluated, (stagePlan context operation { bulk with clock } plan).2 ≠ .ok evaluated) ∨
    (BulkSound context surplus (stagePlan context operation { bulk with clock } plan).1 ∧
    ∃ evaluated, (stagePlan context operation { bulk with clock } plan).2 = .ok evaluated ∧
    Replaced context operation bulk
    (stagePlan context operation { bulk with clock } plan).1 evaluated) := by
  have hle : bulk.clock.highWatermark ≤ clock.highWatermark := by
    rw [hclock]
    exact hid.le
  obtain ⟨-, htransition, -, hpublication, hcurrent_eq, hversioning_eq, hversion,
    hdefinition, hretired⟩ := planOperation_eq_ok hplan
  subst hcurrent_eq hversioning_eq
  have hcurrent := currentSound_readCurrent hsound (admitOperation_proceed hadmitted).1
  unfold stagePlan
  split
  · left
    exact ⟨⟨rfl, rfl, rfl, rfl, rfl, rfl, hle⟩, rfl, by simp⟩
  rename_i receipted expiresAt hreceipted
  split
  · left
    obtain ⟨_, _, rfl⟩ := stageReceipt_eq_ok hreceipted
    exact ⟨⟨rfl, rfl, rfl, rfl, rfl, rfl, hle⟩, rfl, by simp⟩
  rename_i paid hpaid
  obtain ⟨-, retired, hretire, hretired_sound, hmiddle_objects, hretired_clock, hlocators⟩ :=
    stageRetirement_of_plan hsound hsurplus hcurrent hle hplan hreceipted hpaid
  rw [hretire]
  right
  have hmiddle_clock : retired.clock.highWatermark = id := by rw [hretired_clock, hclock]
  have hmiddle_current := hcurrent.congr hmiddle_objects
  have hblob : plan.version.blob = operation.payloadReference := by rw [hversion]; rfl
  refine ⟨?_, _, rfl, ?_⟩
  · refine bulkSound_stageObject hretired_sound hmiddle_current hversion ?_ hmiddle_clock ?_
    · intro key stored hstored
      rw [hmiddle_objects] at hstored
      exact lt_of_le_of_lt (hsound.objects.descriptor key stored hstored).2.2 hid
    intro blob
    have hticked : BulkSound context surplus { bulk with clock } :=
      hsound.idle ⟨rfl, rfl, rfl, rfl, rfl, rfl, hle⟩
    have hshift := one_publication hticked hpublication blob
    rw [hretired, hblob]
    omega
  refine ⟨⟨plan, retired, id, hadmitted, hcurrent, hversion, hdefinition, ?_,
    hmiddle_objects, hlocators, hid, hmiddle_clock, ?_, rfl⟩, rfl⟩
  · rw [hdefinition]
    exact htransition
  rw [hversion]
  rfl

/-- One operation keeps the batch sound.  It changes no object and no payload, or
replaces the current version of its path. -/
theorem evaluateOperation_cases (hsurplus : ∀ blob, 0 ≤ surplus blob) (reading : Nat) :
    (Idle bulk (evaluateOperation context operation reading bulk).1 ∧
    LocatorsConfirmed context operation bulk (evaluateOperation context operation reading bulk).1 ∧
    ∀ evaluated, (evaluateOperation context operation reading bulk).2 = .ok evaluated →
    evaluated.receipt.replayed = true) ∨
    (BulkSound context surplus (evaluateOperation context operation reading bulk).1 ∧ ∃ evaluated,
    (evaluateOperation context operation reading bulk).2 = .ok evaluated ∧
    Replaced context operation bulk
    (evaluateOperation context operation reading bulk).1 evaluated) := by
  unfold evaluateOperation
  split
  · left
    exact ⟨Idle.refl bulk, .inl rfl, by simp⟩
  · left
    refine ⟨Idle.refl bulk, .inl rfl, ?_⟩
    intro _ hevaluated
    cases hevaluated
    rfl
  · rename_i head hadmitted
    exact .inl (idle_stageIdentical head hadmitted)
  rename_i current versioning hadmitted
  split
  · left
    exact ⟨Idle.refl bulk, .inl rfl, by simp⟩
  rename_i id clock hnext
  obtain ⟨hid, hclock⟩ := VersionClock.nextAt_eq_ok hnext
  have hidle : Idle bulk { bulk with clock } :=
    ⟨rfl, rfl, rfl, rfl, rfl, rfl, by rw [hclock]; exact hid.le⟩
  dsimp only
  split
  · left
    exact ⟨hidle, .inl rfl, by simp⟩
  rename_i plan hplan
  rcases stagePlan_cases hsound hsurplus hadmitted hid hclock hplan with
    ⟨hidle', hlocators, hfailed⟩ | hreplaced
  · exact .inl ⟨hidle', .inl hlocators, fun evaluated heq => absurd heq (hfailed evaluated)⟩
  · exact .inr hreplaced

end

end Keldra.Store
