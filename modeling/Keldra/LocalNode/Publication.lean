import Keldra.Foundation.Refusals
import Keldra.LocalNode.StoredPayloads

/-!
# Publishing a sealed payload

A publish or a put of a payload that has references does not fail because the
payload is missing.  The presence check of a publish is made before the commit
lock is taken, the one of a put under it; neither looks at the other operations
of the same bulk.
-/

namespace Keldra.LocalNode

open Foundation Store List Avoids

variable {e : MutationError} {context : BulkContext} {surplus : BlobRef → Int}
  {operation : PreparedOperation} {blob : BlobRef}

section

/-- The presence check an operation passes before it waits for the commit lock. -/
def prepareOperation
    (blobs : BlobTables) (operation : PreparedOperation) : Except MutationError Unit :=
  match operation.request with
  | .publish blob _ _ => do
    let present ← containsBlob blobs blob
    rejectIf (¬ present) .blobNotFound
  | .clone _ _ blob _ _ => do
    let present ← containsBlob blobs blob
    rejectIf (¬ present) .blobNotFound
  | .put _ _ _ => pure ()
  | .delete _ => pure ()

/-- The answer of a clone whose source has gone. -/
def cloneSourceGone : MutationError := .invalidObjectMutation
    ("clone source exact version is no longer live or no longer matches its " ++ "content identity")

/-- What the checks of stored payloads and clone sources answer. -/
def PayloadMissing (e : MutationError) : Prop :=
  e = .blobNotFound ∨ e = cloneSourceGone

@[simp] theorem payloadMissing_iff :
    PayloadMissing e ↔ e = .blobNotFound ∨ e = .invalidObjectMutation
      ("clone source exact version is no longer live or no longer matches its " ++
        "content identity") := Iff.rfl

theorem payloadMissing_blob : PayloadMissing .blobNotFound := Or.inl rfl

theorem PayloadMissing.ne {other : MutationError}
    (he : PayloadMissing e) (hother : ¬ PayloadMissing other) :
    other ≠ e := by
  rintro rfl
  exact hother he

theorem PayloadMissing.guard {p : Prop} [Decidable p]
    (he : PayloadMissing e) (hother : ¬ PayloadMissing other) (hrest : Avoids e (rest ())) :
    Avoids e (rejectIf p other >>= rest) :=
  Avoids.guard (he.ne hother) hrest

theorem PayloadMissing.check {p : Prop} [Decidable p] (he : PayloadMissing e)
    (hother : ¬ PayloadMissing other) : Avoids e (rejectIf p other : Except MutationError Unit) :=
  avoids_rejectIf (he.ne hother)

theorem PayloadMissing.okOr
    (he : PayloadMissing e) (hother : ¬ PayloadMissing other) (hrest : ∀ a, Avoids e (rest a)) :
    Avoids e (okOr x other >>= rest) :=
  (avoids_okOr (he.ne hother)).bind fun a _ => hrest a

theorem not_payloadMissing_malformed (reason : String) :
    ¬ PayloadMissing (malformedDefinition reason) := by
  rintro (hmissing | hmissing)
  · cases hmissing
  rw [malformedDefinition, cloneSourceGone, MutationError.invalidObjectMutation.injEq] at hmissing
  have hfirst := congrArg (fun text : String => text.toList.head?) hmissing
  simp [toString] at hfirst

theorem avoids_readBlobReferenceState {blobs : BlobTables}
    {artifact : DestinationReferenceArtifact}
    (he : PayloadMissing e) :
    Avoids e (readBlobReferenceState blobs artifact) := by
  unfold readBlobReferenceState
  split
  · exact avoids_pure
  refine bind ?_ fun _ _ => avoids_pure
  exact he.guard (by simp) <| he.check (by simp)

variable {bulk : BulkState}

theorem avoids_findReceipt (he : PayloadMissing e) :
    Avoids e (findReceipt context bulk operation) := by
  unfold findReceipt
  split
  · exact avoids_pure
  dsimp only
  split
  · exact avoids_pure
  exact he.guard (by simp) <| he.guard (by simp) <| he.guard (by simp) <| avoids_pure

theorem avoids_checkCloneSource : Avoids .blobNotFound (checkCloneSource context operation) := by
  unfold checkCloneSource
  split
  · exact avoids_rejectIf (by simp)
  · exact avoids_pure

section

variable (he : PayloadMissing e)

include he

theorem avoids_readCurrent : Avoids e (readCurrent context bulk operation) := by
  refine bind ?_ fun _ _ => ?_
  · unfold readCurrentVersion
    split
    · exact avoids_pure
    split
    · exact avoids_pure
    · exact he.okOr (by simp) fun _ => avoids_pure
  exact he.guard (by simp) <| he.guard (by simp) <| he.guard (by simp) <| he.guard (by simp) <|
      avoids_pure

theorem avoids_checkPolicy {policy : BucketPolicy} : Avoids e (checkPolicy operation policy) := by
  exact he.guard (by simp) <| he.guard (by simp) <| he.check (by simp)

theorem avoids_admitCurrent {current : CurrentObject} {versioning : ObjectVersioning} :
    Avoids e (admitCurrent operation current versioning) := by
  unfold admitCurrent
  split
  · refine he.okOr (by simp) fun existing =>
      he.guard (by simp) <| bind ?_ fun _ _ => he.guard (by simp) <| avoids_pure
    unfold versionBlobReference
    split
    · exact avoids_pure
    · exact avoids_pure
    · exact avoids_error.mpr (he.ne (by simp))
  refine bind ?_ fun _ _ => avoids_pure
  exact he.check (by simp)

theorem avoids_admitOperation (hsettings : ∀ identity, Avoids e (context.settings identity))
    (hclone : Avoids e (checkCloneSource context operation)) :
    Avoids e (admitOperation context bulk operation) := by
  refine (avoids_findReceipt he).bind fun found _ => ?_
  cases found with
  | some => exact avoids_pure
  | none =>
    exact hclone.bind fun _ _ => (avoids_readCurrent he).bind fun _ _ =>
        (hsettings _).bind fun _ _ => (avoids_checkPolicy he).bind fun _ _ => avoids_admitCurrent he

theorem avoids_advanceBlobReferencePublication {state : BlobReferenceState} {now : Nat} :
    Avoids e (advanceBlobReferencePublication state now) := by
  refine bind ?_ fun _ _ => ?_
  · exact he.guard (by simp) <| he.check (by simp)
  split
  · exact avoids_pure
  split
  · exact avoids_pure
  · exact he.okOr (by simp) fun _ => avoids_pure

end

/-- A payload with a lifecycle record can be published. -/
theorem avoids_planPublication {released : Option BlobRef}
    (hsound : BulkSound context surplus bulk)
    (hblob : operation.payloadReference = some blob)
    (hrecord : (context.store.source.blobs.references (.completeBlob blob)).isSome) :
    Avoids .blobNotFound (planPublication context bulk operation released) := by
  unfold planPublication
  rw [hblob]
  dsimp only
  split
  · exact avoids_pure
  refine bind ?_ fun _ _ => avoids_pure
  refine bind ?_ fun found hfound => ?_
  · unfold readPendingBlobReference
    split
    · exact avoids_pure
    · exact avoids_readBlobReferenceState payloadMissing_blob
  have hread := hsound.readPending hfound
  rw [hsound.references] at hread
  cases found with
  | some => exact avoids_advanceBlobReferencePublication payloadMissing_blob
  | none =>
    obtain ⟨_, hstate⟩ := Option.isSome_iff_exists.mp hrecord
    rw [Option.or_eq_none_iff, hstate] at hread
    exact absurd hread.2 (by simp)

theorem avoids_checkInstalledPayload (hblob : operation.payloadReference = some blob)
    (hpresent : containsBlob context.store.source.blobs blob = .ok true) :
    Avoids .blobNotFound (checkInstalledPayload context operation) := by
  unfold checkInstalledPayload
  split
  · rename_i reference contentType mode hrequest
    have hsame : reference = blob := by
      simpa [PreparedOperation.payloadReference, hrequest, PreparedPayload.reference] using hblob
    rw [hsame, hpresent]
    exact avoids_ok.bind fun present heq => by
      cases heq
      exact avoids_of_eq_ok rfl
  · exact avoids_pure

section

variable (he : PayloadMissing e)

include he

theorem avoids_checkTransition {transition : Option DefinitionTransition} :
    Avoids e (checkTransition transition) := by
  unfold checkTransition
  split
  · have hmalformed := fun reason => he.ne (not_payloadMissing_malformed reason)
    exact (avoids_rejectIf (hmalformed _)).bind fun _ _ =>
      (avoids_mapError hmalformed).bind fun _ _ => avoids_rejectIf (hmalformed _)
  · exact avoids_pure

theorem avoids_planInlinePayload : Avoids e (planInlinePayload context bulk operation) := by
  unfold planInlinePayload
  split
  · unfold prepareInlinePayloadValue
    split
    · exact avoids_pure
    split
    · split
      · exact (avoids_readBlobReferenceState he).bind fun _ _ => he.guard (by simp) <| avoids_pure
      · exact avoids_pure
    · exact avoids_pure
  · exact avoids_pure

theorem avoids_planOperation {current : CurrentObject} {versioning : ObjectVersioning}
    {id : VersionId}
    (hinstalled : Avoids e (checkInstalledPayload context operation))
    (hpublication : ∀ released, Avoids e (planPublication context bulk operation released)) :
    Avoids e (planOperation context bulk operation current versioning id) := by
  refine hinstalled.bind fun _ _ =>
    (avoids_checkTransition he).bind fun _ _ => bind ?_ fun _ _ =>
      (avoids_planInlinePayload he).bind fun _ _ => (hpublication _).bind fun _ _ => avoids_pure
  unfold receiptExpiry
  split
  · exact avoids_okOr (he.ne (by simp))
  · exact avoids_pure

theorem avoids_stageReceipt {version : VersionId} {deleted : Bool}
    {transition : Option DefinitionTransition} :
    Avoids e (stageReceipt context operation bulk version deleted transition) := by
  unfold stageReceipt stageMutationReceipt
  split
  · exact avoids_pure
  refine he.okOr (by simp) fun _ => bind ?_ fun _ _ => avoids_pure
  exact he.guard (by simp) <|
      he.okOr (by simp) fun _ => he.okOr (by simp) fun _ => he.guard (by simp) <| avoids_pure

theorem avoids_stagePayload {plan : MutationPlan} : Avoids e (stagePayload plan bulk) := by
  refine bind ?_ fun _ _ => avoids_pure
  unfold stageInlineValue
  split
  · exact bind (he.guard (by simp) <| avoids_pure) fun _ _ => avoids_pure
  · exact avoids_pure

theorem avoids_stageRetirement {plan : MutationPlan} :
    Avoids e (stageRetirement context plan bulk) := by
  unfold stageRetirement
  split
  · exact avoids_pure
  refine bind ?_ fun _ _ => avoids_pure
  refine bind ?_ fun _ _ => he.okOr (by simp) fun _ =>
    bind ?_ fun _ _ => he.guard (by simp) <| avoids_pure
  · unfold readPendingBlobReference
    split
    · exact avoids_pure
    · exact avoids_readBlobReferenceState he
  · exact he.guard (by simp) <| he.check (by simp)

theorem avoids_stagePlan {plan : MutationPlan} :
    Avoids e (stagePlan context operation bulk plan).2 := by
  unfold stagePlan
  split
  · rename_i error herror
    exact avoids_error.mpr fun heq => avoids_stageReceipt he (by rw [herror, heq])
  split
  · rename_i error herror
    exact avoids_error.mpr fun heq => avoids_stagePayload he (by rw [herror, heq])
  split
  · rename_i error herror
    exact avoids_error.mpr fun heq => avoids_stageRetirement he (by rw [herror, heq])
  · exact avoids_ok

theorem avoids_stageDefinitionTransition
    {locators : DefinitionKind → HeadKey → Option LocatorValue}
    {transition : DefinitionTransition} :
    Avoids e (stageDefinitionTransition locators transition) := by
  have hvalid : Avoids e (checkTransition (some transition)) := avoids_checkTransition he
  exact hvalid.bind fun _ _ => avoids_pure

theorem avoids_stageIdentical {head : Head} :
    Avoids e (stageIdentical context operation bulk head).2 := by
  unfold stageIdentical
  dsimp only
  split
  · rename_i error herror
    exact avoids_error.mpr fun heq => avoids_stageReceipt he (by rw [herror, heq])
  split
  · exact avoids_ok
  split
  · rename_i error herror
    exact avoids_error.mpr fun heq => avoids_stageDefinitionTransition he (by rw [herror, heq])
  · exact avoids_ok

/-- An operation fails with such an error only at one of the three checks that
can. -/
theorem avoids_evaluateOperation (hsettings : ∀ identity, Avoids e (context.settings identity))
    (hclone : Avoids e (checkCloneSource context operation))
    (hinstalled : Avoids e (checkInstalledPayload context operation))
    (hpublication : ∀ clock, bulk.clock.highWatermark ≤ clock.highWatermark →
    ∀ released, Avoids e (planPublication context { bulk with clock } operation released))
    (reading : Nat) : Avoids e (evaluateOperation context operation reading bulk).2 := by
  unfold evaluateOperation
  split
  · rename_i error herror
    exact avoids_error.mpr fun heq =>
      avoids_admitOperation he hsettings hclone (by rw [herror, heq])
  · exact avoids_ok
  · exact avoids_stageIdentical he
  split
  · exact avoids_error.mpr (he.ne (by simp))
  rename_i id clock hnext
  have hlater := hpublication clock (VersionClock.le_nextAt hnext)
  dsimp only
  split
  · rename_i error herror
    exact avoids_error.mpr fun heq =>
      avoids_planOperation he hinstalled hlater (by rw [herror, heq])
  · exact avoids_stagePlan he

end

/-- An operation that names a present payload does not miss it. -/
theorem finds_evaluateOperation (hsound : BulkSound context surplus bulk)
    (hsettings : ∀ identity, Avoids .blobNotFound (context.settings identity))
    (hblob : operation.payloadReference = some blob)
    (hpresent : containsBlob context.store.source.blobs blob = .ok true)
    (hrecord : (context.store.source.blobs.references (.completeBlob blob)).isSome)
    (reading : Nat) :
    Avoids .blobNotFound (evaluateOperation context operation reading bulk).2 := by
  refine avoids_evaluateOperation payloadMissing_blob hsettings avoids_checkCloneSource
    (avoids_checkInstalledPayload hblob hpresent) ?_ reading
  intro _ hlater _
  exact avoids_planPublication (hsound.idle ⟨rfl, rfl, rfl, rfl, rfl, rfl, hlater⟩) hblob hrecord

end

variable {backpressure : Bool} {progress : BulkProgress}
  {prepared : List (Nat × PreparedOperation × Nat)}

section

variable {store : LocalStore}

/-- The outcome of an operation of a bulk: its own index, and no missing payload
when it names the given one. -/
def FindsPayload (blob : BlobRef) (entry : Nat × PreparedOperation × Nat)
    (outcome : Nat × Except MutationError MutationReceipt) : Prop :=
  outcome.1 = entry.1 ∧ (entry.2.1.payloadReference = some blob → Avoids .blobNotFound outcome.2)

theorem avoids_requireUnreserved (he : PayloadMissing e) :
    Avoids e (requireUnreserved store operation) := by
  unfold requireUnreserved
  induction operation.lockPaths with
  | nil => exact avoids_pure
  | cons _ _ ih =>
    rw [forM_eq_forM, forM_cons]
    refine bind ?_ fun _ _ => ih
    split
    · exact avoids_error.mpr (he.ne (by simp))
    · exact avoids_pure

section

variable (hsettings : ∀ identity, Avoids .blobNotFound (context.settings identity))
  (hpresent : containsBlob context.store.source.blobs blob = .ok true)
  (hrecord : (context.store.source.blobs.references (.completeBlob blob)).isSome)
  (h : ∀ outcome ∈ progress.results, ∃ entry ∈ prepared, FindsPayload blob entry outcome)

include hsettings hpresent hrecord h

theorem findsPayload_evaluateNext {entry : Nat × PreparedOperation × Nat}
    (hsound : BulkSound context surplus progress.bulk)
    (hentry : entry ∈ prepared) :
    ∀ outcome ∈ (evaluateNext context backpressure progress entry).results,
    ∃ entry ∈ prepared, FindsPayload blob entry outcome := by
  obtain ⟨index, operation, reading⟩ := entry
  have hoperation : operation.payloadReference = some blob →
      Avoids .blobNotFound (evaluateOperation context operation reading progress.bulk).2 :=
    fun hblob => finds_evaluateOperation hsound hsettings hblob hpresent hrecord reading
  have hsnoc : ∀ outcome : Except MutationError MutationReceipt, (operation.payloadReference = some
    blob → Avoids .blobNotFound outcome) → ∀ found ∈ progress.results ++ [(index, outcome)], ∃ entry
    ∈ prepared, FindsPayload blob entry found := by
    intro _ houtcome found hfound
    rcases mem_append.mp hfound with hold | hnew
    · exact h found hold
    rw [mem_singleton.mp hnew]
    exact ⟨_, hentry, rfl, houtcome⟩
  unfold evaluateNext
  dsimp only
  split
  · exact h
  split
  · rename_i error herror
    exact hsnoc _ fun _ => avoids_error.mpr fun heq =>
      avoids_requireUnreserved payloadMissing_blob (by rw [herror, heq])
  generalize evaluateOperation context operation reading progress.bulk = result at hoperation ⊢
  obtain ⟨_, outcome⟩ := result
  cases outcome with
  | error => exact hsnoc _ fun hblob => avoids_error.mpr (avoids_error.mp (hoperation hblob))
  | ok =>
    dsimp only
    split
    · exact hsnoc _ fun _ => avoids_ok
    · exact hsnoc _ fun _ => avoids_ok

theorem findsPayload_foldl {rest : List (Nat × PreparedOperation × Nat)}
    (hsurplus : ∀ blob, 0 ≤ surplus blob) (hprogress : ProgressSound context surplus progress)
    (hrest : rest ⊆ prepared) :
    ∀ outcome ∈ (rest.foldl (evaluateNext context backpressure) progress).results,
    ∃ entry ∈ prepared, FindsPayload blob entry outcome := by
  induction rest generalizing progress with
  | nil => exact h
  | cons entry _ ih =>
    rw [cons_subset] at hrest
    exact ih (findsPayload_evaluateNext hsettings hpresent hrecord h hprogress.bulk hrest.1)
      (progressSound_evaluateNext entry hsurplus hprogress) hrest.2

end

theorem avoids_pruneExpired {receiptCodec : ReceiptCodec} {now : Nat}
    (indexes : List (Nat ×ₗ Nat))
    (pruned : List Nat) (prunedBytes : Nat) (tables : ReceiptTables) (he : PayloadMissing e) :
    Avoids e (pruneExpired receiptCodec now indexes pruned prunedBytes tables) := by
  induction indexes generalizing pruned prunedBytes tables with
  | nil => exact avoids_pure
  | cons _ _ ih =>
    unfold pruneExpired
    dsimp only
    split
    · exact avoids_pure
    refine he.guard (by simp) <| he.okOr (by simp) fun _ => he.guard (by simp) <| ?_
    split
    · exact avoids_pure
    exact he.okOr (by simp) fun _ => he.okOr (by simp) fun _ => ih _ _ _

theorem avoids_stageLocalChanges {codec : LocalChangeCodec} {config : StoreConfig}
    {journal : JournalTables} {cursors : SourceId → Nat} {changes : List PendingLocalChange}
    {effects : LocalReferenceEffects} {admission : SourceJournalAdmission}
    (he : PayloadMissing e) :
    Avoids e (stageLocalChanges codec config journal cursors changes effects admission) := by
  refine bind ?_ fun _ _ => ?_
  · unfold SourceJournalAdmission.suppressesPhysicalReplicaChanges
    split
    · exact avoids_pure
    · exact he.guard (by simp) <| avoids_pure
  split
  · exact avoids_pure
  refine (avoids_mapError fun _ => he.ne (by simp)).bind fun _ _ => he.guard (by simp) <|
      he.guard (by simp) <| bind ?_ fun _ _ =>
        (avoids_foldlM ?_ _).bind fun _ _ => bind ?_ fun _ _ => avoids_pure
  · unfold movesReferenceCursor
    split
    · exact he.guard (by simp) <| avoids_pure
    · exact he.guard (by simp) <| avoids_pure
    · exact avoids_pure
  · intro _ _
    exact he.okOr (by simp) fun _ => (avoids_mapError fun _ => he.ne (by simp)).bind fun _ _ =>
        he.guard (by simp) <| (avoids_mapError fun _ => he.ne (by simp)).bind fun _ _ =>
            he.okOr (by simp) fun _ => he.okOr (by simp) fun _ => avoids_pure
  unfold SourceJournalAdmission.checkTransition
  split
  · exact he.guard (by simp) <| he.check (by simp)
  · exact avoids_pure

theorem avoids_persistBulk {codec : LocalChangeCodec} {config : NodeConfig}
    {admission : SourceJournalAdmission}
    (he : PayloadMissing e) :
    Avoids e (store.persistBulk codec config admission progress) := by
  exact bind ((avoids_stageLocalChanges he).bind fun _ _ => avoids_pure)
    fun _ _ => avoids_pure

/-- After a failed write no operation misses a payload it found. -/
theorem findsPayload_failUnresolved {error : MutationError}
    {results : List (Nat × Except MutationError MutationReceipt)}
    (hdistinct : (prepared.map Prod.fst).Nodup) (herror : error ≠ .blobNotFound)
    (h : ∀ outcome ∈ results, ∃ entry ∈ prepared, FindsPayload blob entry outcome) :
    ∀ outcome ∈ failUnresolvedPrepared results (prepared.map Prod.fst) error,
    ∃ entry ∈ prepared, FindsPayload blob entry outcome := by
  intro _ houtcome
  unfold failUnresolvedPrepared at houtcome
  rw [map_map, mem_map] at houtcome
  obtain ⟨entry, hentry, rfl⟩ := houtcome
  refine ⟨entry, hentry, ?_⟩
  dsimp only [Function.comp]
  split
  · rename_i previous hprevious
    obtain ⟨before, _, rfl, -⟩ := lookup_eq_some_iff.mp hprevious
    obtain ⟨other, hother, hindex, havoids⟩ := h _ (mem_append_right before mem_cons_self)
    have hsame : other = entry := inj_on_of_nodup_map hdistinct hother hentry hindex.symm
    subst hsame
    refine ⟨rfl, fun hblob => ?_⟩
    split
    · exact avoids_error.mpr herror
    · exact havoids hblob
  · exact ⟨rfl, fun _ => avoids_error.mpr herror⟩

/-- No operation of a bulk misses a payload that is present before the bulk. -/
theorem findsPayload_bulkWrite {codec : LocalChangeCodec} {config : NodeConfig}
    {log : List LogEntry} {settings : BucketIdentity → Except MutationError BucketSettings}
    {intent : Option DefinitionMutationIntent} {admission : SourceJournalAdmission} {now : Nat}
    (h : NodeSound codec config log store)
    (hsettings : ∀ identity, Avoids .blobNotFound (settings identity))
    (hdistinct : (prepared.map Prod.fst).Nodup)
    (hpresent : containsBlob store.source.blobs blob = .ok true)
    (hrecord : (store.source.blobs.references (.completeBlob blob)).isSome) : ∀ outcome ∈
    (store.bulkWrite codec config settings intent backpressure admission now prepared).2,
    ∃ entry ∈ prepared, FindsPayload blob entry outcome := by
  unfold LocalStore.bulkWrite
  split
  · rename_i error herror
    intro _ houtcome
    obtain ⟨entry, hentry, rfl⟩ := mem_map.mp houtcome
    refine ⟨entry, hentry, rfl, fun _ => avoids_error.mpr fun heq => ?_⟩
    unfold stageExpiredMutationReceipts at herror
    split at herror
    · cases herror
    · exact avoids_pruneExpired _ _ _ _ payloadMissing_blob
        (herror.trans (congrArg Except.error heq))
  rename_i receipts prunedReceipts hreceipts
  dsimp only
  generalize hcontext :
    ({ config, store, settings, intent, now, prunedReceipts } : BulkContext) = context
  have hstore : context.store = store := by rw [← hcontext]
  have hreadings : context.settings = settings := by rw [← hcontext]
  have hresults := @findsPayload_foldl context _ blob backpressure _ prepared
    (by rw [hreadings]; exact hsettings) (by rw [hstore]; exact hpresent)
    (by rw [hstore]; exact hrecord) (fun _ hmem => by cases hmem) prepared
    (deltaOf_pending_nonpos h) (progressSound_beginBulk h receipts hstore) (Subset.refl _)
  split
  · exact hresults
  rename_i error herror
  exact findsPayload_failUnresolved hdistinct
    (fun heq => avoids_persistBulk payloadMissing_blob (by rw [herror, heq])) hresults

end

end Keldra.LocalNode
