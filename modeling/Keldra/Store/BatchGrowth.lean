import Keldra.Store.BatchLayers
import Keldra.Store.ReceiptTables

/-!
# How an operation grows a batch

The staged values keep describing the tables the batch would leave.  An
operation that fails leaves the batch as it was, except for the clock.
-/

namespace Keldra.Store

open Foundation OrdMap Function

variable {context : BulkContext} {bulk staged : BulkState} {operation : PreparedOperation}

/-- A staged receipt lies over the stored ones and expires later. -/
theorem Layered.stageReceipt {version : VersionId} {deleted : Bool}
    {transition : Option DefinitionTransition} {expiresAt : Nat}
    (h : Layered context bulk)
    (hretention : 0 < context.config.receiptRetention.retentionMillis)
    (hstaged : stageReceipt context operation bulk version deleted transition =
    .ok (staged, expiresAt)) : Layered context staged := by
  unfold Store.stageReceipt stageMutationReceipt at hstaged
  split at hstaged
  · cases hstaged
    exact h
  rename_i key hkey
  simp only [ok_rules, checkedAdd64_eq_some] at hstaged
  obtain ⟨_, ⟨-, rfl⟩, receipts, hreceipts, rfl, -⟩ := hstaged
  simp only [stageStoredMutationReceipt, ok_rules] at hreceipts
  obtain ⟨-, _, -, _, -, -, rfl⟩ := hreceipts
  constructor
  case versions => exact h.versions
  case manifests => exact h.manifests
  case inlined => exact h.inlined
  case recorded => exact h.recorded
  case receipts =>
    intro other
    dsimp only
    rw [get?_insert, update_apply]
    split
    · rfl
    · exact h.receipts other
  case unexpired =>
    intro index hindex
    dsimp only at hindex ⊢
    rw [mem_keys_iff, get?_insert] at hindex
    split at hindex
    · rename_i hsame
      rw [hsame]
      change context.now < context.now + _
      omega
    · exact h.unexpired index ((mem_keys_iff _ _).mpr hindex)

variable {surplus : BlobRef → Int} {plan : MutationPlan}

section

variable {blobs : BlobTables}

/-- A record that a publication creates is one of bytes it stages. -/
theorem recorded_of_planPublication {inlinePayload released : Option BlobRef}
    {reference : BlobRef} {state : BlobReferenceState}
    (hsound : BulkSound context surplus bulk) (h : Layered context bulk)
    (hinstalled : checkInstalledPayload context operation = .ok ())
    (hinline : planInlinePayload context bulk operation = .ok inlinePayload)
    (hpublication : planPublication context bulk operation released =
    .ok (some (reference, state))) :
    (context.store.source.blobs.references (.completeBlob reference)).isSome ∨
    reference ∈ bulk.pendingInlinePayloads ∨ inlinePayload = some reference := by
  obtain ⟨hreference, -, -, -, hsource⟩ := planPublication_eq_ok hsound hpublication
  rcases hsource with hsome | ⟨payload, _, _, hrequest⟩
  · rcases h.recorded reference hsome with hold | hstaged
    · exact .inl hold
    · exact .inr (.inl hstaged)
  rw [PreparedOperation.payloadReference, hrequest, Option.some.injEq] at hreference
  subst hreference
  rcases payload_of_put hrequest hinstalled hinline with hstaged | hnew | ⟨hsome, -⟩
  · exact .inr (.inl hstaged)
  · exact .inr (.inr hnew)
  · exact .inl hsome

theorem isSome_putReference {artifact : DestinationReferenceArtifact} {state : BlobReferenceState}
    {other : DestinationReferenceArtifact} :
    ((blobs.putReference artifact state).references other).isSome ↔
    other = artifact ∨ (blobs.references other).isSome := by
  by_cases hother : other = artifact
  · simp [BlobTables.putReference, hother]
  · simp [BlobTables.putReference, hother]

/-- The bytes of a small put are staged before its record. -/
theorem stageInlineValue_eq_ok {inlined : BulkState}
    (h : stageInlineValue plan bulk = .ok inlined) :
    (plan.inlinePayload = none ∧ inlined = bulk) ∨
    ∃ reference, plan.inlinePayload = some reference ∧ inlined =
    { bulk with
      blobs :=
        { bulk.blobs with
          manifests := Function.update bulk.blobs.manifests (.completeBlob reference) (some
            (inlineManifest reference)) }
      pendingInlinePayloads := reference :: bulk.pendingInlinePayloads } := by
  unfold stageInlineValue at h
  split at h
  · rename_i reference hvalue
    simp only [stageInlinePayload, stageInlineCompleteArtifact, ok_rules] at h
    obtain ⟨_, ⟨-, rfl⟩, rfl⟩ := h
    exact .inr ⟨reference, hvalue, rfl⟩
  rename_i hvalue
  cases h
  exact .inl ⟨hvalue, rfl⟩

section

variable (h : Layered context bulk)

include h

/-- Records for payloads that have one, or that are staged inline. -/
theorem Layered.stageReference {reference : BlobRef} {state : BlobReferenceState}
    (hrecorded : (context.store.source.blobs.references (.completeBlob reference)).isSome ∨
    reference ∈ bulk.pendingInlinePayloads) :
    Layered context (stageReference bulk reference state) :=
  { h with
    inlined := by
      intro blob hblob
      obtain ⟨hsome, hmanifest⟩ := h.inlined blob hblob
      exact ⟨isSome_putReference.mpr (.inr hsome), hmanifest⟩
    recorded := by
      intro blob hsome
      rcases isSome_putReference.mp hsome with hsame | hold
      · cases hsame
        exact hrecorded
      · exact h.recorded blob hold }

/-- Inline bytes are staged together with their record, new or old. -/
theorem Layered.stageInlineReference {reference : BlobRef} {pending : PendingBlobReferences}
    (hreferences : ∀ blob, (blobs.references (.completeBlob blob)).isSome ↔
      blob = reference ∨ (bulk.blobs.references (.completeBlob blob)).isSome)
    (hmanifests : blobs.manifests = Function.update bulk.blobs.manifests (.completeBlob reference)
      (some (inlineManifest reference)))
    :
    Layered context
      { bulk with
        blobs
        pendingBlobReferences := pending
        pendingInlinePayloads := reference :: bulk.pendingInlinePayloads } :=
  { h with
    manifests := by
      intro blob hblob
      rw [List.mem_cons, not_or] at hblob
      have hother : DestinationReferenceArtifact.completeBlob blob ≠ .completeBlob reference := by
        simpa using hblob.1
      rw [hmanifests, update_of_ne hother]
      exact h.manifests blob hblob.2
    inlined := by
      intro blob hblob
      rw [hreferences, hmanifests]
      by_cases hsame : blob = reference
      · subst hsame
        exact ⟨.inl rfl, inlineManifest blob, update_self _ _ _, rfl⟩
      rcases List.mem_cons.mp hblob with heq | hold
      · exact absurd heq hsame
      obtain ⟨hsome, hmanifest⟩ := h.inlined blob hold
      have hother : DestinationReferenceArtifact.completeBlob blob ≠ .completeBlob reference := by
        simpa using hsame
      rw [update_of_ne hother]
      exact ⟨.inr hsome, hmanifest⟩
    recorded := by
      intro blob hsome
      rcases (hreferences blob).mp hsome with rfl | hold
      · exact .inr List.mem_cons_self
      rcases h.recorded blob hold with hstored | hstaged
      · exact .inl hstored
      · exact .inr (List.mem_cons_of_mem _ hstaged) }

theorem Layered.stagePayload {released : Option BlobRef} {paid : BulkState}
    (hsound : BulkSound context surplus bulk)
    (hinstalled : checkInstalledPayload context operation = .ok ())
    (hinline : planInlinePayload context bulk operation = .ok plan.inlinePayload)
    (hpublication : planPublication context bulk operation released = .ok plan.publication)
    (hreleased : ∀ blob, released = some blob → (bulk.blobs.references (.completeBlob blob)).isSome)
    (hpaid : stagePayload plan bulk = .ok paid) : Layered context paid := by
  simp only [Store.stagePayload, ok_rules] at hpaid
  obtain ⟨_, hinlined, rfl⟩ := hpaid
  unfold stagePublication
  rcases stageInlineValue_eq_ok hinlined with ⟨hnone, rfl⟩ | ⟨reference, hsome, rfl⟩
  · cases hvalue : plan.publication with
    | none => exact h
    | some published =>
      obtain ⟨_, _⟩ := published
      rw [hvalue] at hpublication
      refine h.stageReference ?_
      rcases recorded_of_planPublication hsound h hinstalled hinline hpublication with
        hstored | hstaged | hnew
      · exact .inl hstored
      · exact .inr hstaged
      rw [hnone] at hnew
      cases hnew
  rw [hsome] at hinline
  have hpayload := planInlinePayload_eq_ok hinline
  cases hvalue : plan.publication with
  | none =>
    -- the payload takes the place of the same released one
    rw [hvalue] at hpublication
    have hsame : released = some reference := by
      rcases planPublication_eq_none hpublication with hmissing | hsame
      · rw [hpayload] at hmissing
        cases hmissing
      · rw [hsame, hpayload]
    refine h.stageInlineReference ?_ rfl
    intro blob
    constructor
    · exact .inr
    rintro (rfl | hold)
    · exact hreleased blob hsame
    · exact hold
  | some published =>
    obtain ⟨_, _⟩ := published
    rw [hvalue] at hpublication
    have hnamed := (planPublication_eq_ok hsound hpublication).1
    obtain rfl := Option.mem_unique hpayload hnamed
    refine h.stageInlineReference ?_ rfl
    intro _
    rw [isSome_putReference]
    simp

theorem Layered.stageRetirement {retired : BulkState}
    (hsound : BulkSound context surplus bulk)
    (hretired : stageRetirement context plan bulk = .ok retired) : Layered context retired := by
  unfold Store.stageRetirement at hretired
  split at hretired
  · cases hretired
    exact h
  rename_i reference hvalue
  simp only [ok_rules] at hretired
  obtain ⟨_, hstate, rfl⟩ := hretired
  simp only [prepareBlobReferenceRetirement, ok_rules] at hstate
  obtain ⟨_, hfound, _, rfl, -⟩ := hstate
  refine h.stageReference (h.recorded reference ?_)
  rw [hsound.readPending hfound]
  rfl

end

end

section

/-- Inline bytes fit one chunk; larger ones are installed before. -/
def PreparedOperation.FitsChunk (operation : PreparedOperation) : Prop :=
  match operation.request with
  | .put (.inline reference) _ _ => reference.length ≤ payloadArtifactChunkBytes
  | _ => True

theorem headKey_inj {path path' : String} {identity identity' : BucketIdentity}
    (h : identity.headKey path = identity'.headKey path') :
    identity = identity' ∧ path = path' := by
  obtain ⟨_, _⟩ := identity
  obtain ⟨_, _⟩ := identity'
  obtain ⟨rfl, rfl, rfl⟩ := h
  exact ⟨rfl, rfl⟩

/-- The new version of the path lies over the stored ones. -/
theorem Layered.stageObject {settings : BucketSettings}
    (h : Layered context bulk)
    (hcurrent : CurrentSound bulk operation plan.current)
    (hsettings : context.settings operation.identity = .ok settings)
    (hversioning : plan.versioning = settings.versioning) :
    Layered context (stageObject operation plan bulk) :=
  { h with
    versions := by
      intro identity path version hversion
      rw [stageObject_eq]
      by_cases hkey : identity.headKey path = operation.headKey
      · obtain ⟨rfl, rfl⟩ := headKey_inj hkey
        have hown : version = plan.version := by
          simp only [Store.stageObject] at hversion
          rw [hkey, update_self, Option.some.injEq] at hversion
          exact hversion.symm
        subst hown
        refine ⟨settings,
          { version := plan.version.id, deleted := plan.version.deleted, mutationStamp := none },
          hsettings, ?_, rfl, ?_⟩
        · simp only [Store.stageObject]
          rw [hkey, update_self]
        dsimp only
        rw [get?_insert_self, hversioning]
      simp only [Store.stageObject] at hversion
      rw [update_of_ne hkey] at hversion
      obtain ⟨found, head, hfound, hhead, hid, hget⟩ := h.versions identity path version hversion
      refine ⟨found, head, hfound, ?_, hid, ?_⟩
      · simp only [Store.stageObject]
        rw [update_of_ne hkey]
        exact hhead
      have hother : exactVersionKey identity path version.id ≠
          exactVersionKey operation.identity operation.path plan.version.id :=
        versionKey_ne hkey
      dsimp only
      rw [get?_insert, if_neg hother]
      exact (get?_predecessorVersions_of_ne hcurrent hkey version.id).trans hget }

theorem stagePayload_ok {receipted : BulkState} (hfits : operation.FitsChunk)
    (hinline : planInlinePayload context bulk operation = .ok plan.inlinePayload) :
    ∃ paid, stagePayload plan receipted = .ok paid := by
  unfold stagePayload stageInlineValue
  cases hvalue : plan.inlinePayload with
  | none => exact ⟨_, rfl⟩
  | some reference =>
    rw [hvalue] at hinline
    have hsmall : reference.length ≤ payloadArtifactChunkBytes := by
      have hpayload := planInlinePayload_eq_ok hinline
      unfold planInlinePayload at hinline
      split at hinline
      · rename_i named contentType mode hrequest
        simp only [PreparedOperation.FitsChunk, hrequest] at hfits
        rw [PreparedOperation.payloadReference, hrequest, Option.some.injEq,
          PreparedPayload.reference] at hpayload
        rw [← hpayload]
        exact hfits
      · cases hinline
    simp only [stageInlinePayload, stageInlineCompleteArtifact, rejectIf,
      if_neg (Nat.not_lt.mpr hsmall)]
    exact ⟨_, rfl⟩

variable {id : VersionId} {clock : VersionClock}

/-- A plan is refused with its receipt, or staged as a whole. -/
theorem stagePlan_eq {current : CurrentObject} {versioning : ObjectVersioning}
    (hsound : BulkSound context surplus bulk) (hsurplus : ∀ blob, 0 ≤ surplus blob)
    (hadmitted : admitOperation context bulk operation = .ok (.proceed current versioning))
    (hlater : bulk.clock.highWatermark ≤ clock.highWatermark) (hfits : operation.FitsChunk)
    (hplan : planOperation context { bulk with clock } operation current versioning id = .ok plan) :
    (∃ error, stagePlan context operation { bulk with clock } plan =
    ({ bulk with clock }, .error error)) ∨ ∃ receipted expiresAt paid retired evaluated,
    stageReceipt context operation { bulk with clock } plan.version.id plan.version.deleted
    plan.definitionTransition = .ok (receipted, expiresAt) ∧
    stagePayload plan receipted = .ok paid ∧ stageRetirement context plan paid = .ok retired ∧
    stagePlan context operation { bulk with clock } plan =
    (stageObject operation plan retired, .ok evaluated) := by
  obtain ⟨-, -, hinline, -, rfl, rfl, -, -, -⟩ := planOperation_eq_ok hplan
  have hcurrent := currentSound_readCurrent hsound (admitOperation_proceed hadmitted).1
  unfold stagePlan
  cases hreceipted : stageReceipt context operation { bulk with clock } plan.version.id
    plan.version.deleted plan.definitionTransition with
  | error error => exact .inl ⟨error, rfl⟩
  | ok result =>
    obtain ⟨receipted, expiresAt⟩ := result
    obtain ⟨paid, hpaid⟩ := @stagePayload_ok _ _ _ _ receipted hfits hinline
    obtain ⟨-, retired, hretire, -⟩ :=
      stageRetirement_of_plan hsound hsurplus hcurrent hlater hplan hreceipted hpaid
    right
    dsimp only
    rw [hpaid]
    dsimp only
    rw [hretire]
    exact ⟨receipted, expiresAt, paid, retired, _, rfl, hpaid, hretire, rfl⟩

section

variable (hlayers : Layered context bulk) (hsound : BulkSound context surplus bulk)
  (hsurplus : ∀ blob, 0 ≤ surplus blob)
  (hretention : 0 < context.config.receiptRetention.retentionMillis)

include hlayers hsound hsurplus hretention

theorem layered_stagePlan {current : CurrentObject} {versioning : ObjectVersioning}
    (hadmitted : admitOperation context bulk operation = .ok (.proceed current versioning))
    (hlater : bulk.clock.highWatermark ≤ clock.highWatermark) (hfits : operation.FitsChunk)
    (hplan : planOperation context { bulk with clock } operation current versioning id = .ok plan) :
    Layered context (stagePlan context operation { bulk with clock } plan).1 := by
  have hticked : Layered context { bulk with clock } :=
    ⟨hlayers.versions, hlayers.receipts, hlayers.unexpired, hlayers.manifests, hlayers.inlined,
      hlayers.recorded⟩
  rcases stagePlan_eq hsound hsurplus hadmitted hlater hfits hplan with
    ⟨_, hrefused⟩ | ⟨_, _, paid, retired, _, hreceipted, hpaid, hretire, hstaged⟩
  · rw [hrefused]
    exact hticked
  rw [hstaged]
  obtain ⟨hread, _, hsettings, hversioning⟩ := admitOperation_proceed hadmitted
  obtain ⟨hinstalled, -, hinline, hpublication, rfl, rfl, -, -, _⟩ := planOperation_eq_ok hplan
  have hcurrent := currentSound_readCurrent hsound hread
  obtain ⟨hpaid_sound, _, hretire', -, hobjects, -, -⟩ :=
    stageRetirement_of_plan hsound hsurplus hcurrent hlater hplan hreceipted hpaid
  obtain rfl := Except.ok.inj (hretire.symm.trans hretire')
  have hreceipted_layers := hticked.stageReceipt hretention hreceipted
  obtain ⟨receipts, pendingReceipts, rfl⟩ := stageReceipt_eq_ok hreceipted
  have hreceipted_sound : BulkSound context surplus
      { bulk with clock, receipts, pendingReceipts } :=
    hsound.idle ⟨rfl, rfl, rfl, rfl, rfl, rfl, hlater⟩
  have hpaid_layers : Layered context paid := by
    refine hreceipted_layers.stagePayload hreceipted_sound hinstalled hinline hpublication ?_ hpaid
    intro _ hblob
    obtain ⟨_, _, hstored, hnames⟩ := hcurrent.named_of_released hblob
    obtain ⟨_, hstate, -⟩ := hreceipted_sound.named hsurplus hstored hnames
    rw [hstate]
    rfl
  exact (hpaid_layers.stageRetirement hpaid_sound hretire).stageObject (hcurrent.congr hobjects)
    hsettings hversioning

/-- An operation keeps the layers. -/
theorem layered_evaluateOperation
    (hintent : context.intent = none) (hfits : operation.FitsChunk) (reading : Nat) :
    Layered context (evaluateOperation context operation reading bulk).1 := by
  unfold evaluateOperation
  split
  · exact hlayers
  · exact hlayers
  · unfold stageIdentical
    rw [hintent, Option.map_none]
    dsimp only
    split
    · exact hlayers
    rename_i staged expiresAt hstaged
    exact hlayers.stageReceipt hretention hstaged
  rename_i current versioning hadmitted
  split
  · exact hlayers
  rename_i id clock hnext
  have hlater := VersionClock.le_nextAt hnext
  dsimp only
  split
  · exact ⟨hlayers.versions, hlayers.receipts, hlayers.unexpired, hlayers.manifests,
      hlayers.inlined, hlayers.recorded⟩
  rename_i plan hplan
  exact layered_stagePlan hlayers hsound hsurplus hretention hadmitted hlater hfits hplan

end

/-- An operation that fails changes only the clock. -/
theorem failed_evaluateOperation {reading : Nat} {error : MutationError}
    (hsound : BulkSound context surplus bulk)
    (hsurplus : ∀ blob, 0 ≤ surplus blob) (hintent : context.intent = none)
    (hfits : operation.FitsChunk)
    (herror : (evaluateOperation context operation reading bulk).2 = .error error) :
    ∃ clock, (evaluateOperation context operation reading bulk).1 = { bulk with clock } := by
  unfold evaluateOperation at herror ⊢
  split
  · exact ⟨bulk.clock, rfl⟩
  · exact ⟨bulk.clock, rfl⟩
  · rename_i head hadmitted
    rw [hadmitted] at herror
    simp only [stageIdentical, hintent, Option.map_none] at herror ⊢
    split
    · exact ⟨bulk.clock, rfl⟩
    rename_i staged expiresAt hstaged
    rw [hstaged] at herror
    cases herror
  rename_i current versioning hadmitted
  rw [hadmitted] at herror
  split
  · exact ⟨bulk.clock, rfl⟩
  rename_i id clock hnext
  have hlater := VersionClock.le_nextAt hnext
  rw [hnext] at herror
  dsimp only at herror ⊢
  split
  · exact ⟨clock, rfl⟩
  rename_i plan hplan
  rw [hplan] at herror
  rcases stagePlan_eq hsound hsurplus hadmitted hlater hfits hplan with
    ⟨_, hrefused⟩ | ⟨_, _, _, _, _, -, -, -, hstaged⟩
  · exact ⟨clock, by rw [hrefused]⟩
  dsimp only at herror
  rw [hstaged] at herror
  cases herror

end

end Keldra.Store
