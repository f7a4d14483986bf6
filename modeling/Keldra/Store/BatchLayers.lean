import Keldra.Foundation.Agreement
import Keldra.Store.BulkEvaluation

/-!
# A batch read through its layers

An operation of a bulk sees the operations before it through the values staged
in the batch, laid over the stored tables.  This module relates its evaluation
to one on a store that holds what the batch would leave: both have the same
outcome and leave the same tables, if the checks that read the stored tables
directly (the source of a clone, the presence of an installed payload) have the
same answer on both.
-/

namespace Keldra.Store

open Foundation

/-- What the staged values say about the tables the batch would leave. -/
structure Layered (context : BulkContext) (bulk : BulkState) : Prop where
  versions : ∀ identity path version,
      bulk.pendingVersions (BucketIdentity.headKey identity path) = some version → ∃ settings head,
        context.settings identity = .ok settings ∧
          bulk.pendingHeads (BucketIdentity.headKey identity path) = some head ∧
            head.version = version.id ∧
              bulk.objects.versions.get? (exactVersionKey identity path version.id) =
                some { retention := versionRetention settings.versioning, version }
  receipts : ∀ key, bulk.receipts.receipts.get? key = (bulk.pendingReceipts key).or
      (if key ∈ context.prunedReceipts then none else context.store.receipts.receipts.get? key)
  unexpired : ∀ index ∈ bulk.receipts.expiries.keys, context.now < (ofLex index).1
  manifests :
    ∀ blob, blob ∉ bulk.pendingInlinePayloads → bulk.blobs.manifests (.completeBlob blob) =
      context.store.source.blobs.manifests (.completeBlob blob)
  inlined :
    ∀ blob ∈ bulk.pendingInlinePayloads, (bulk.blobs.references (.completeBlob blob)).isSome ∧
      ∃ manifest, bulk.blobs.manifests (.completeBlob blob) = some manifest ∧
        manifest.layout = .inline
  recorded : ∀ blob, (bulk.blobs.references (.completeBlob blob)).isSome →
      (context.store.source.blobs.references (.completeBlob blob)).isSome ∨
        blob ∈ bulk.pendingInlinePayloads

/-- The next submission: its store holds the tables the batch would leave, and
nothing is left to expire. -/
structure Follows (context : BulkContext) (bulk : BulkState) (next : BulkContext) : Prop where
  config_eq : next.config = context.config
  settings_eq : next.settings = context.settings
  intent_eq : next.intent = context.intent
  now_eq : next.now = context.now
  objects_eq : next.store.source.objects = bulk.objects
  blobs_eq : next.store.source.blobs = bulk.blobs
  receipts_eq : next.store.receipts = bulk.receipts
  aliases_eq : next.store.aliases = context.store.aliases
  pruned_eq : next.prunedReceipts = []

/-- Nothing is staged. -/
structure Fresh (bulk : BulkState) : Prop where
  heads : ∀ key, bulk.pendingHeads key = none
  versions : ∀ key, bulk.pendingVersions key = none
  receipts : ∀ key, bulk.pendingReceipts key = none
  references : bulk.pendingBlobReferences = []
  inlined : bulk.pendingInlinePayloads = []

/-- Two batches that would leave the same tables. -/
structure Visible (bulk bulk' : BulkState) : Prop where
  objects_eq : bulk'.objects = bulk.objects
  blobs_eq : bulk'.blobs = bulk.blobs
  receipts_eq : bulk'.receipts = bulk.receipts
  locators_eq : bulk'.locators = bulk.locators
  clock_eq : bulk'.clock = bulk.clock

/-- Lifecycle records are read as the batch would leave them. -/
def ReadsThrough (context : BulkContext) (bulk : BulkState) : Prop :=
  ∀ reference,
    readPendingBlobReference bulk.pendingBlobReferences context.store.source.blobs reference =
      .ok (bulk.blobs.references (.completeBlob reference))

theorem readBlobReferenceState_eq {blobs : BlobTables}
    (h : PayloadsSound blobs) (reference : BlobRef) :
    readBlobReferenceState blobs (.completeBlob reference) =
    .ok (blobs.references (.completeBlob reference)) := by
  unfold readBlobReferenceState
  cases hstate : blobs.references (.completeBlob reference) with
  | none => rfl
  | some =>
    simp only [ok_rules, and_true]
    exact ⟨(), h.valid _ _ hstate⟩

theorem BulkSound.readsThrough {context : BulkContext} {surplus : BlobRef → Int} {bulk : BulkState}
    (h : BulkSound context surplus bulk) (hvalid : PayloadsSound context.store.source.blobs) :
    ReadsThrough context bulk := by
  intro reference
  rw [h.references]
  unfold readPendingBlobReference
  cases bulk.pendingBlobReferences.get? (.completeBlob reference) with
  | some => rfl
  | none =>
    exact readBlobReferenceState_eq hvalid reference

theorem ReadsThrough.stageReference {context : BulkContext} {bulk : BulkState}
    (h : ReadsThrough context bulk) (reference : BlobRef) (state : BlobReferenceState) :
    ReadsThrough context (stageReference bulk reference state) := by
  intro other
  have hother := h other
  simp only [readPendingBlobReference, Store.stageReference, PendingBlobReferences.get?_put,
    BlobTables.putReference, Function.update_apply] at hother ⊢
  by_cases hsame : other = reference
  · simp [hsame, pure, Except.pure]
  simp only [DestinationReferenceArtifact.completeBlob.injEq, hsame, if_false]
  exact hother

section

variable {context next : BulkContext} {surplus : BlobRef → Int} {bulk begun : BulkState}
  {operation : PreparedOperation}

theorem receiptKeyOf_follows (hfollows : Follows context bulk next) :
    receiptKeyOf next operation = receiptKeyOf context operation := by
  rw [receiptKeyOf, receiptKeyOf, hfollows.config_eq]

theorem findReceipt_follows
    (hlayers : Layered context bulk) (hfollows : Follows context bulk next) (hfresh : Fresh begun) :
    findReceipt next begun operation = findReceipt context bulk operation := by
  unfold findReceipt
  rw [receiptKeyOf_follows hfollows, hfollows.now_eq, hfollows.intent_eq, hfollows.pruned_eq,
    hfollows.receipts_eq]
  cases receiptKeyOf context operation with
  | none => rfl
  | some key =>
    dsimp only
    rw [hfresh.receipts, hlayers.receipts]
    cases bulk.pendingReceipts key with
    | none | some => simp

/-- The same current state.  A version of the batch is read back as a stored
descriptor with the retention its bucket gives it. -/
structure CurrentAgrees (context : BulkContext) (operation : PreparedOperation)
    (current current' : CurrentObject) : Prop where
  head_eq : current'.head = current.head
  version_eq : current'.version = current.version
  aliases_eq : current'.aliases = current.aliases
  stored_eq : current'.stored = current.stored ∨ (current.stored = none ∧ ∃ stored settings,
      current'.stored = some stored ∧ context.settings operation.identity = .ok settings ∧
        stored.retention = versionRetention settings.versioning)

section

variable (hsound : BulkSound context surplus bulk) (hlayers : Layered context bulk)
  (hfollows : Follows context bulk next) (hfresh : Fresh begun)

include hsound hlayers hfollows hfresh

theorem readCurrentVersion_follows :
    Agrees (fun (read read' : Option StoredVersion × Option Version) => read'.2 = read.2 ∧
    (read'.1 = read.1 ∨ (read.1 = none ∧ ∃ stored settings, read'.1 = some stored ∧
    context.settings operation.identity = .ok settings ∧
    stored.retention = versionRetention settings.versioning))) (readCurrentVersion context bulk
    operation ((bulk.pendingHeads operation.headKey).or (context.store.source.objects.heads.get?
    operation.headKey))) (readCurrentVersion next begun operation ((bulk.pendingHeads
    operation.headKey).or (context.store.source.objects.heads.get? operation.headKey))) := by
  unfold readCurrentVersion
  cases hhead : (bulk.pendingHeads operation.headKey).or
    (context.store.source.objects.heads.get? operation.headKey) with
  | none => exact .ok ⟨rfl, Or.inl rfl⟩
  | some head =>
    rw [hfresh.versions, hfollows.objects_eq]
    dsimp only
    cases hpending : bulk.pendingVersions operation.headKey with
    | some version =>
      obtain ⟨settings, staged, hsettings, hstaged, hid, hget⟩ :=
        hlayers.versions operation.identity operation.path version hpending
      have hsame : head = staged := by
        rw [PreparedOperation.headKey, hstaged, Option.some_or, Option.some.injEq] at hhead
        exact hhead.symm
      rw [hsame, hid, hget]
      exact .ok ⟨rfl, Or.inr ⟨rfl, _, settings, rfl, hsettings, rfl⟩⟩
    | none =>
      have hget : bulk.objects.versions.get? (exactVersionKey operation.identity operation.path
        head.version) = context.store.source.objects.versions.get? (exactVersionKey
        operation.identity operation.path head.version) :=
        hsound.untouched operation.headKey hpending head.version
      rw [hget]
      exact agrees_of_eq rfl fun _ _ => ⟨rfl, Or.inl rfl⟩

theorem readCurrent_follows :
    Agrees (CurrentAgrees context operation) (readCurrent context bulk operation)
    (readCurrent next begun operation) := by
  unfold readCurrent
  rw [hfresh.heads, Option.none_or, hfollows.objects_eq, hsound.heads, hfollows.aliases_eq]
  refine (readCurrentVersion_follows hsound hlayers hfollows hfresh).bind ?_
  rintro ⟨_, _⟩ ⟨_, _⟩ - - ⟨hversion, hstored⟩
  subst hversion
  refine .bind_same rfl fun _ _ => .bind_same rfl fun _ _ => .bind_same rfl fun _ _ =>
    .bind_same rfl fun _ _ => .ok ⟨rfl, rfl, rfl, hstored⟩

end

/-- The same way to go on. -/
inductive AdmissionAgrees
    (context : BulkContext) (operation : PreparedOperation) : Admission → Admission → Prop
  | replay (receipt : StoredReceipt) :
      AdmissionAgrees context operation (.replay receipt) (.replay receipt)
  | identical (head : Head) :
      AdmissionAgrees context operation (.identical head) (.identical head)
  | proceed {current current' : CurrentObject} {settings : BucketSettings}
      (agrees : CurrentAgrees context operation current current')
      (read : context.settings operation.identity = .ok settings) :
      AdmissionAgrees context operation (.proceed current settings.versioning)
        (.proceed current' settings.versioning)

theorem admitCurrent_follows {current current' : CurrentObject} {settings : BucketSettings}
    (hagrees : CurrentAgrees context operation current current')
    (hsettings : context.settings operation.identity = .ok settings) :
    Agrees (AdmissionAgrees context operation) (admitCurrent operation current settings.versioning)
    (admitCurrent operation current' settings.versioning) := by
  unfold admitCurrent
  rw [hagrees.head_eq, hagrees.version_eq]
  split
  · exact .bind_same rfl fun _ _ => .bind_same rfl fun _ _ => .bind_same rfl fun _ _ =>
      .bind_same rfl fun _ _ => .ok (.identical _)
  · exact .bind_same rfl fun _ _ => .ok (.proceed hagrees hsettings)

theorem admitOperation_follows
    (hsound : BulkSound context surplus bulk) (hlayers : Layered context bulk)
    (hfollows : Follows context bulk next) (hfresh : Fresh begun)
    (hclone : findReceipt context bulk operation = .ok none →
    checkCloneSource next operation = checkCloneSource context operation) :
    Agrees (AdmissionAgrees context operation) (admitOperation context bulk operation)
    (admitOperation next begun operation) := by
  refine .bind_same (findReceipt_follows hlayers hfollows hfresh).symm fun found hfound => ?_
  cases found with
  | some receipt => exact .ok (.replay receipt)
  | none =>
    refine .bind_same (hclone hfound).symm fun _ _ => ?_
    refine (readCurrent_follows hsound hlayers hfollows hfresh).bind ?_
    intro _ _ _ _ hagrees
    refine .bind_same (by rw [hfollows.settings_eq]) fun settings hsettings => ?_
    exact .bind_same rfl fun _ _ => admitCurrent_follows hagrees hsettings

variable {current current' : CurrentObject} {settings : BucketSettings}

section

variable (h : CurrentAgrees context operation current current')
  (hsettings : context.settings operation.identity = .ok settings)

include h hsettings

/-- A version of the batch is neither released nor changed by its replacement. -/
theorem CurrentAgrees.released_eq : releasedPredecessor current' settings.versioning =
    releasedPredecessor current settings.versioning := by
  rcases h.stored_eq with hsame | ⟨hnone, _, _, hstored, hfound, hretention⟩
  · rw [releasedPredecessor, releasedPredecessor, hsame]
  rw [hsettings, Except.ok.injEq] at hfound
  rw [releasedPredecessor, releasedPredecessor, hnone, hstored]
  split
  · rename_i hversioning
    rw [← hfound, hversioning] at hretention
    simp [Option.filter, hretention, versionRetention]
  · rfl

theorem CurrentAgrees.predecessor_eq (key : VersionKey)
    (versions : OrdMap VersionKey StoredVersion) :
    stagePredecessor settings.versioning key current'.stored versions =
    stagePredecessor settings.versioning key current.stored versions := by
  rcases h.stored_eq with hsame | ⟨hnone, _, _, hstored, hfound, hretention⟩
  · rw [hsame]
  rw [hsettings, Except.ok.injEq] at hfound
  rw [hnone, hstored, ← hfound] at *
  unfold stagePredecessor
  cases hversioning : settings.versioning with
  | unversioned | enabled =>
    rw [hversioning] at hretention
    simp [hretention, versionRetention]

end

/-- The same plan for the same current state. -/
structure PlanAgrees
    (context : BulkContext) (operation : PreparedOperation) (plan plan' : MutationPlan) :
    Prop where
  settings : ∃ settings, context.settings operation.identity = .ok settings ∧
    plan.versioning = settings.versioning
  current : CurrentAgrees context operation plan.current plan'.current
  versioning_eq : plan'.versioning = plan.versioning
  version_eq : plan'.version = plan.version
  accounting_eq : plan'.accountingTransition = plan.accountingTransition
  definition_eq : plan'.definitionTransition = plan.definitionTransition
  deltas_eq : plan'.referenceDeltas = plan.referenceDeltas
  inline_eq : plan'.inlinePayload = plan.inlinePayload
  publication_eq : plan'.publication = plan.publication
  retired_eq : plan'.retired = plan.retired

theorem prepareInlinePayloadValue_follows {reference : BlobRef}
    (hlayers : Layered context bulk)
    (hfollows : Follows context bulk next)
    (hsound : PayloadsSound bulk.blobs) (hstored : PayloadsSound context.store.source.blobs)
    (hrecords : ∀ blob, (context.store.source.blobs.references (.completeBlob blob)).isSome →
    (bulk.blobs.references (.completeBlob blob)).isSome) :
    prepareInlinePayloadValue next.store.source.blobs [] reference =
    prepareInlinePayloadValue context.store.source.blobs bulk.pendingInlinePayloads reference := by
  unfold prepareInlinePayloadValue
  rw [hfollows.blobs_eq, if_neg List.not_mem_nil, readBlobReferenceState_eq hsound,
    readBlobReferenceState_eq hstored]
  by_cases hstaged : reference ∈ bulk.pendingInlinePayloads
  · obtain ⟨hrecord, _, hmanifest, hlayout⟩ := hlayers.inlined reference hstaged
    obtain ⟨_, hstate⟩ := Option.isSome_iff_exists.mp hrecord
    rw [if_pos hstaged, hmanifest, hstate]
    simp [hlayout, rejectIf, bind, Except.bind, pure, Except.pure]
  rw [if_neg hstaged, hlayers.manifests reference hstaged]
  have hmissing : (bulk.blobs.references (.completeBlob reference) = none) =
      (context.store.source.blobs.references (.completeBlob reference) = none) := by
    rw [eq_iff_iff, ← Option.not_isSome_iff_eq_none, ← Option.not_isSome_iff_eq_none, not_iff_not]
    refine ⟨fun hsome => ?_, hrecords reference⟩
    rcases hlayers.recorded reference hsome with hold | hnew
    · exact hold
    · exact absurd hnew hstaged
  cases context.store.source.blobs.manifests (.completeBlob reference) with
  | none => rfl
  | some =>
    split
    · simp only [bind, Except.bind, hmissing]
    · rfl

theorem readPending_visible (hreads : ReadsThrough context bulk) (hreads' : ReadsThrough next begun)
    (hvisible : Visible bulk begun) (reference : BlobRef) :
    readPendingBlobReference begun.pendingBlobReferences next.store.source.blobs reference =
    readPendingBlobReference bulk.pendingBlobReferences context.store.source.blobs reference := by
  rw [hreads reference, hreads' reference, hvisible.blobs_eq]

theorem planPublication_follows {released : Option BlobRef}
    (hreads : ReadsThrough context bulk)
    (hreads' : ReadsThrough next begun) (hfollows : Follows context bulk next)
    (hvisible : Visible bulk begun) : planPublication next begun operation released =
    planPublication context bulk operation released := by
  have hread := fun reference => readPending_visible hreads hreads' hvisible reference
  unfold planPublication prepareBlobPublication
  simp only [hread, hfollows.now_eq]

/-- The checks of an operation that read the stored tables directly answer as on
the store the next submission finds.  An operation that ends before such a check
does not need it. -/
structure ChecksCurrent
    (context next : BulkContext) (begun : BulkState) (operation : PreparedOperation)
    (reading : Nat) : Prop where
  clone : findReceipt next begun operation = .ok none →
      checkCloneSource next operation = checkCloneSource context operation
  installed : ∀ current versioning ticked,
      admitOperation next begun operation = .ok (.proceed current versioning) →
        begun.clock.nextAt reading = .ok ticked →
          checkInstalledPayload next operation = checkInstalledPayload context operation

/-- What a comparison of the two evaluations starts from. -/
structure Compared
    (context : BulkContext) (bulk : BulkState) (next : BulkContext) (begun : BulkState) :
    Prop where
  layers : Layered context bulk
  follows : Follows context bulk next
  fresh : Fresh begun
  visible : Visible bulk begun
  stored : PayloadsSound context.store.source.blobs

variable (h : Compared context bulk next begun) (hsound : BulkSound context surplus bulk)

include h hsound

theorem Compared.reads : ReadsThrough context bulk ∧ ReadsThrough next begun := by
  refine ⟨hsound.readsThrough h.stored, ?_⟩
  intro reference
  rw [h.fresh.references, h.visible.blobs_eq, h.follows.blobs_eq]
  exact readBlobReferenceState_eq hsound.payloads reference

theorem planInlinePayload_follows :
    planInlinePayload next begun operation = planInlinePayload context bulk operation := by
  unfold planInlinePayload
  split
  · rw [h.fresh.inlined]
    refine prepareInlinePayloadValue_follows h.layers h.follows hsound.payloads h.stored ?_
    intro blob hsome
    obtain ⟨_, hstate⟩ := Option.isSome_iff_exists.mp hsome
    rw [hsound.references, hstate]
    cases bulk.pendingBlobReferences.get? (.completeBlob blob) <;> rfl
  · rfl

theorem planOperation_follows (clock : VersionClock) (id : VersionId)
    (hinstalled : checkInstalledPayload next operation = checkInstalledPayload context operation)
    (hagrees : CurrentAgrees context operation current current')
    (hsettings : context.settings operation.identity = .ok settings) :
    Agrees (PlanAgrees context operation)
    (planOperation context { bulk with clock } operation current settings.versioning id)
    (planOperation next { begun with clock } operation current' settings.versioning id) := by
  obtain ⟨hreads, hreads'⟩ := h.reads hsound
  have hreleased := hagrees.released_eq hsettings
  have hversion : newVersion next operation id = newVersion context operation id := by
    rw [newVersion, newVersion, h.follows.now_eq]
  unfold planOperation
  rw [h.follows.intent_eq, hreleased, hversion, hinstalled, hagrees.version_eq]
  refine .bind_same rfl fun _ _ => .bind_same rfl fun _ _ => ?_
  refine .bind_same ?_ fun _ _ => .bind_same ?_ fun inline _ => .bind_same ?_ fun published _ => ?_
  · rw [receiptExpiry, receiptExpiry, h.follows.now_eq, h.follows.config_eq]
  · exact (planInlinePayload_follows h hsound).symm
  · exact (planPublication_follows hreads hreads' h.follows h.visible).symm
  · exact .ok ⟨⟨settings, hsettings, rfl⟩, hagrees, rfl, rfl, rfl, rfl, rfl, rfl, rfl, rfl⟩

end

section

variable {context next : BulkContext} {base bulk begun : BulkState} {operation : PreparedOperation}

/-- The two batches while an operation is staged into them. -/
structure Matched (context next : BulkContext) (bulk begun : BulkState) : Prop where
  visible : Visible bulk begun
  reads : ReadsThrough context bulk
  reads' : ReadsThrough next begun

theorem Matched.stageReference
    (h : Matched context next bulk begun) (reference : BlobRef) (state : BlobReferenceState) :
    Matched context next (stageReference bulk reference state)
      (stageReference begun reference state) where
  visible := by
    refine ⟨h.visible.objects_eq, ?_, h.visible.receipts_eq, h.visible.locators_eq,
      h.visible.clock_eq⟩
    simp only [Store.stageReference, h.visible.blobs_eq]
  reads := h.reads.stageReference reference state
  reads' := h.reads'.stageReference reference state

theorem stageReceipt_follows (operation : PreparedOperation)
    (version : VersionId) (deleted : Bool) (transition : Option DefinitionTransition)
    (hfollows : Follows context base next) (h : Matched context next bulk begun) :
    Agrees (fun (staged staged' : BulkState × Nat) =>
        staged'.2 = staged.2 ∧ Matched context next staged.1 staged'.1)
      (stageReceipt context operation bulk version deleted transition)
      (stageReceipt next operation begun version deleted transition) := by
  unfold stageReceipt stageMutationReceipt
  rw [receiptKeyOf_follows hfollows, hfollows.now_eq, hfollows.config_eq, h.visible.receipts_eq]
  cases receiptKeyOf context operation with
  | none => exact .ok ⟨rfl, h⟩
  | some =>
    refine .bind_same rfl fun expiresAt _ => .bind_same rfl fun receipts _ => .ok ⟨rfl, ?_⟩
    exact
      { visible := ⟨h.visible.objects_eq, h.visible.blobs_eq, rfl, h.visible.locators_eq,
            h.visible.clock_eq⟩
        reads := h.reads
        reads' := h.reads' }

theorem stagePayload_follows {plan plan' : MutationPlan}
    (hinline : plan'.inlinePayload = plan.inlinePayload)
    (hpublication : plan'.publication = plan.publication) (h : Matched context next bulk begun) :
    Agrees (Matched context next) (stagePayload plan bulk) (stagePayload plan' begun) := by
  refine Agrees.bind (R := Matched context next) ?_ ?_
  · unfold stageInlineValue
    rw [hinline]
    cases plan.inlinePayload with
    | none => exact .ok h
    | some =>
      unfold stageInlinePayload
      rw [h.visible.blobs_eq]
      refine .bind_same rfl fun blobs hblobs => .ok ?_
      simp only [stageInlineCompleteArtifact, ok_rules] at hblobs
      obtain ⟨-, rfl⟩ := hblobs
      have hreads' := h.reads'
      unfold ReadsThrough at hreads'
      rw [h.visible.blobs_eq] at hreads'
      exact
        { visible := ⟨h.visible.objects_eq, rfl, h.visible.receipts_eq, h.visible.locators_eq,
              h.visible.clock_eq⟩
          reads := h.reads
          reads' := hreads' }
  · intro _ _ _ _ hmatched
    refine .ok ?_
    unfold stagePublication
    rw [hpublication]
    cases plan.publication with
    | none => exact hmatched
    | some => exact hmatched.stageReference _ _

theorem stageRetirement_follows {plan plan' : MutationPlan}
    (hfollows : Follows context base next)
    (hretired : plan'.retired = plan.retired) (h : Matched context next bulk begun) :
    Agrees (Matched context next) (stageRetirement context plan bulk)
    (stageRetirement next plan' begun) := by
  unfold stageRetirement
  rw [hretired]
  cases plan.retired with
  | none => exact .ok h
  | some reference =>
    refine .bind_same ?_ fun state _ => .ok (h.stageReference reference state)
    unfold prepareBlobReferenceRetirement
    rw [readPending_visible h.reads h.reads' h.visible, hfollows.now_eq]

theorem stageObject_follows {plan plan' : MutationPlan}
    (hagrees : PlanAgrees context operation plan plan') (hvisible : Visible bulk begun) :
    Visible (stageObject operation plan bulk) (stageObject operation plan' begun) := by
  obtain ⟨_, hsettings, hversioning⟩ := hagrees.settings
  have hpredecessor := hagrees.current.predecessor_eq hsettings
  refine ⟨?_, hvisible.blobs_eq, hvisible.receipts_eq, ?_, hvisible.clock_eq⟩
  · simp only [stageObject, hagrees.version_eq, hagrees.versioning_eq, hagrees.current.version_eq,
      hvisible.objects_eq, hversioning, hpredecessor]
  · simp only [stageObject, hagrees.definition_eq, hvisible.locators_eq]

theorem stagePlan_follows {plan plan' : MutationPlan}
    (hfollows : Follows context base next)
    (hagrees : PlanAgrees context operation plan plan') (h : Matched context next bulk begun) :
    (stagePlan next operation begun plan').2 = (stagePlan context operation bulk plan).2 ∧
    Visible (stagePlan context operation bulk plan).1 (stagePlan next operation begun plan').1 := by
  have hreceipt := stageReceipt_follows operation plan.version.id plan.version.deleted
    plan.definitionTransition hfollows h
  unfold stagePlan
  rw [hagrees.version_eq, hagrees.definition_eq]
  generalize stageReceipt context operation bulk plan.version.id plan.version.deleted
    plan.definitionTransition = receipted at hreceipt ⊢
  generalize stageReceipt next operation begun plan.version.id plan.version.deleted
    plan.definitionTransition = receipted' at hreceipt ⊢
  cases hreceipt with
  | error => exact ⟨rfl, h.visible⟩
  | @ok staged staged' hstaged =>
    obtain ⟨first, _⟩ := staged
    obtain ⟨first', _⟩ := staged'
    obtain ⟨hexpires, hmatched⟩ := hstaged
    dsimp only at hexpires hmatched ⊢
    subst hexpires
    have hpayload := stagePayload_follows hagrees.inline_eq hagrees.publication_eq hmatched
    generalize stagePayload plan first = paid at hpayload ⊢
    generalize stagePayload plan' first' = paid' at hpayload ⊢
    cases hpayload with
    | error => exact ⟨rfl, hmatched.visible⟩
    | @ok second second' hsecond =>
      have hretirement := stageRetirement_follows hfollows hagrees.retired_eq hsecond
      dsimp only
      generalize stageRetirement context plan second = retired at hretirement ⊢
      generalize stageRetirement next plan' second' = retired' at hretirement ⊢
      cases hretirement with
      | error => exact ⟨rfl, hsecond.visible⟩
      | ok hthird =>
        refine ⟨?_, stageObject_follows hagrees hthird.visible⟩
        rw [hagrees.deltas_eq, hagrees.accounting_eq, hagrees.current.aliases_eq]

theorem stageIdentical_follows {head : Head}
    (hfollows : Follows context base next)
    (h : Matched context next bulk begun) :
    (stageIdentical next operation begun head).2 = (stageIdentical context operation bulk head).2 ∧
    Visible (stageIdentical context operation bulk head).1
    (stageIdentical next operation begun head).1 := by
  unfold stageIdentical
  rw [hfollows.intent_eq]
  dsimp only
  generalize htransition :
    context.intent.map (definitionTransition operation head.version false) = transition
  have hreceipt := stageReceipt_follows operation head.version false transition hfollows h
  generalize stageReceipt context operation bulk head.version false transition = receipted
    at hreceipt ⊢
  generalize stageReceipt next operation begun head.version false transition = receipted'
    at hreceipt ⊢
  cases hreceipt with
  | error => exact ⟨rfl, h.visible⟩
  | @ok staged staged' hstaged =>
    obtain ⟨first, _⟩ := staged
    obtain ⟨hexpires, hmatched⟩ := hstaged
    subst hexpires
    cases transition with
    | none => exact ⟨rfl, hmatched.visible⟩
    | some transition =>
      dsimp only
      rw [hmatched.visible.locators_eq]
      cases stageDefinitionTransition first.locators transition with
      | error => exact ⟨rfl, hmatched.visible⟩
      | ok =>
        exact ⟨rfl, hmatched.visible.objects_eq, hmatched.visible.blobs_eq,
          hmatched.visible.receipts_eq, rfl, hmatched.visible.clock_eq⟩

/-- One operation has the same outcome and leaves the same tables. -/
theorem evaluateOperation_follows {reading : Nat}
    (h : Compared context bulk next begun) (hsound : BulkSound context surplus bulk)
    (hchecks : ChecksCurrent context next begun operation reading) :
    (evaluateOperation next operation reading begun).2 =
    (evaluateOperation context operation reading bulk).2 ∧
    Visible (evaluateOperation context operation reading bulk).1
    (evaluateOperation next operation reading begun).1 := by
  obtain ⟨hreads, hreads'⟩ := h.reads hsound
  have hmatched : Matched context next bulk begun := ⟨h.visible, hreads, hreads'⟩
  have hadmission := admitOperation_follows hsound h.layers h.follows h.fresh fun hfound =>
    hchecks.clone ((findReceipt_follows h.layers h.follows h.fresh).trans hfound)
  have hinstalled := hchecks.installed
  rw [h.visible.clock_eq] at hinstalled
  unfold evaluateOperation
  generalize admitOperation context bulk operation = admitted at hadmission ⊢
  generalize admitOperation next begun operation = admitted' at hadmission hinstalled ⊢
  cases hadmission with
  | error => exact ⟨rfl, h.visible⟩
  | ok hagrees =>
    cases hagrees with
    | replay => exact ⟨rfl, h.visible⟩
    | identical => exact stageIdentical_follows h.follows hmatched
    | @proceed current current' settings hcurrent hsettings =>
      rw [h.visible.clock_eq]
      cases hticked : bulk.clock.nextAt reading with
      | error => exact ⟨rfl, h.visible⟩
      | ok ticked =>
        obtain ⟨id, clock⟩ := ticked
        have hsame := hinstalled current' settings.versioning (id, clock) rfl hticked
        have hticked : Visible { bulk with clock } { begun with clock } :=
          ⟨h.visible.objects_eq, h.visible.blobs_eq, h.visible.receipts_eq,
            h.visible.locators_eq, rfl⟩
        have hplan := planOperation_follows h hsound clock id hsame hcurrent hsettings
        dsimp only
        generalize planOperation context { bulk with clock } operation current
          settings.versioning id = planned at hplan ⊢
        generalize planOperation next { begun with clock } operation current'
          settings.versioning id = planned' at hplan ⊢
        cases hplan with
        | error => exact ⟨rfl, hticked⟩
        | ok hplans => exact stagePlan_follows h.follows hplans ⟨hticked, hreads, hreads'⟩

end

end Keldra.Store
