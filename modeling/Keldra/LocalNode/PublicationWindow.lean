import Keldra.LocalNode.Releases

/-!
# The publication window of a sealed payload

A seal makes sure that its payload has a reference.  New and unreferenced bytes
get a reservation; for bytes that are already published the seal takes none and
relies on the references of others.  In either case the payload can be published
as long as no later operation gives the last reference back.
-/

namespace Keldra.LocalNode

open Foundation Store

variable {store : LocalStore} {blob : BlobRef} {now : Nat}

section

variable (codec : LocalChangeCodec) (config : NodeConfig)

/-- A seal of the payload that succeeds: of small bytes in a batch, or of an
upload whose observed manifest is still the stored one. -/
inductive SealedAt
    (store : LocalStore) (blob : BlobRef) (now : Nat) (sealed : LocalStore) : Prop where
  | inline (references : List BlobRef) (admission : SourceJournalAdmission)
      (named : blob ∈ references)
      (ok : sealInline codec config references now admission store = .ok sealed)
  | upload (upload : Digest) (observed : Option ArtifactManifest)
      (admission : SourceJournalAdmission)
      (current : store.source.blobs.manifests (.completeBlob blob) = observed)
      (ok : finishUpload codec config upload blob observed now admission store = .ok sealed)

/-- Neither the presence check of an operation that names the payload nor the
bulk it is in finds the payload missing. -/
def Publishable (store : LocalStore) (blob : BlobRef) : Prop :=
  ∀ operation : PreparedOperation, operation.payloadReference = some blob →
    prepareOperation store.source.blobs operation ≠ .error .blobNotFound ∧
      ∀ settings intent backpressure admission now prepared index reading outcome,
      (∀ identity, settings identity ≠ .error MutationError.blobNotFound) →
      (prepared.map Prod.fst).Nodup → (index, operation, reading) ∈ prepared → (index, outcome) ∈
      (store.bulkWrite codec config settings intent backpressure admission now prepared).2 →
      outcome ≠ .error .blobNotFound

variable {codec config} {log : List LogEntry} {sealed : LocalStore} {since : Nat}

section

variable (h : NodeSound codec config log store)

include h

theorem Referenced.present (hsealed : Referenced blob since store.source.blobs) :
    containsBlob store.source.blobs blob = .ok true ∧
    (store.source.blobs.references (.completeBlob blob)).isSome := by
  obtain ⟨state, hstate, hcount, -⟩ := hsealed
  have hsome : (store.source.blobs.references (.completeBlob blob)).isSome := by
    rw [hstate]
    rfl
  refine ⟨?_, hsome⟩
  simp only [containsBlob, readBlobReferenceState, hstate, ok_rules]
  refine ⟨some state, ⟨h.payloads.valid _ _ hstate, rfl⟩, ?_⟩
  simp [hcount, h.payloads.sealed blob hsome]

theorem Referenced.publishable (hsealed : Referenced blob since store.source.blobs) :
    Publishable codec config store blob := by
  obtain ⟨hpresent, hrecord⟩ := hsealed.present h
  intro operation hblob
  refine ⟨?_, ?_⟩
  · unfold prepareOperation
    split
    case h_3 | h_4 => simp [pure, Except.pure]
    all_goals
      rename_i named contentType mode hrequest
      have hsame : named = blob := by
        simpa [PreparedOperation.payloadReference, hrequest] using hblob
      rw [hsame, hpresent]
      simp [rejectIf, bind, Except.bind]
  · intro _ _ _ _ _ _ index reading _ hsettings hdistinct hentry houtcome
    obtain ⟨entry, hmem, hindex, havoids⟩ :=
      findsPayload_bulkWrite h hsettings hdistinct hpresent hrecord _ houtcome
    have hsame : entry = (index, operation, reading) :=
      List.inj_on_of_nodup_map hdistinct hmem hentry hindex.symm
    subst hsame
    exact havoids hblob

theorem SealedAt.sound (hseal : SealedAt codec config store blob now sealed) :
    (∃ log, NodeSound codec config log sealed) ∧ Referenced blob now sealed.source.blobs := by
  cases hseal with
  | inline _ _ hnamed hok =>
    obtain ⟨_, hsound⟩ := nodeSound_sealInline h hok
    exact ⟨⟨_, hsound⟩, (keeps_sealInline hok).2 hnamed⟩
  | upload _ _ _ hcurrent hok =>
    obtain ⟨_, hsound⟩ := nodeSound_finishUpload h hok
    exact ⟨⟨_, hsound⟩, (keeps_finishUpload hok).2 hcurrent rfl⟩

end

/-- The window: while no action can give the last reference back, the payload
stays referenced. -/
theorem referenced_foldl (after : List LocalAction) (httl : 0 < config.awaitingPublishTtl)
    (h : ∃ log, NodeSound codec config log store)
    (hsealed : Referenced blob since store.source.blobs)
    (hwindow : ∀ action ∈ after, RunsBefore (since + config.awaitingPublishTtl) action)
    (hspare : ∀ count action, after[count]? = some action →
    releasedBy blob ((after.take count).foldl (step codec config) store) action <
    refCount ((after.take count).foldl (step codec config) store).source.blobs blob) :
    (∃ log, NodeSound codec config log (after.foldl (step codec config) store)) ∧
    Referenced blob since (after.foldl (step codec config) store).source.blobs := by
  induction after generalizing store with
  | nil => exact ⟨h, hsealed⟩
  | cons action _ ih =>
    obtain ⟨_, hsound⟩ := h
    obtain ⟨_, hnext⟩ := nodeSound_step hsound action
    have hkeeps := keeps_step action hsound httl (hwindow action List.mem_cons_self) hsealed
    have hfirst : releasedBy blob store action < refCount store.source.blobs blob :=
      hspare 0 action rfl
    refine ih ⟨_, hnext⟩ (hsealed.keeps hkeeps hfirst)
      (fun other hother => hwindow other (List.mem_cons_of_mem _ hother)) ?_
    intro count other hother
    exact hspare (count + 1) other hother

/--
A payload sealed at some time stays publishable through every later action that
runs before its reservation would expire, if before each of these actions it has
more references than the action may give back.
-/
theorem sealed_payload_stays_publishable
    (codec : LocalChangeCodec) (config : NodeConfig) (nodeId : Nat)
    (before after : List LocalAction) (blob : BlobRef) (since : Nat) (sealed : LocalStore)
    (httl : 0 < config.awaitingPublishTtl)
    (hseal : SealedAt codec config (run codec config nodeId before) blob since sealed)
    (hwindow : ∀ action ∈ after, RunsBefore (since + config.awaitingPublishTtl) action)
    (hspare : ∀ count action, after[count]? = some action →
    releasedBy blob ((after.take count).foldl (step codec config) sealed) action <
    refCount ((after.take count).foldl (step codec config) sealed).source.blobs blob)
    (count : Nat) :
    Publishable codec config ((after.take count).foldl (step codec config) sealed) blob := by
  obtain ⟨log, hsound⟩ := nodeSound_run codec config nodeId before
  obtain ⟨hsealed, hreferenced⟩ := hseal.sound hsound
  obtain ⟨⟨_, hlog⟩, hend⟩ := referenced_foldl (after.take count) httl hsealed hreferenced
    (fun action haction => hwindow action (List.mem_of_mem_take haction)) (by
      intro index action haction
      rw [List.getElem?_take] at haction
      split at haction
      · rename_i hlt
        rw [List.take_take, Nat.min_eq_left hlt.le]
        exact hspare index action haction
      · cases haction)
  exact hend.publishable hlog

end

/-- An accepted seal as an action. -/
theorem sealedAt_step {references : List BlobRef} {admission : SourceJournalAdmission}
    (hnamed : blob ∈ references)
    (hok : (sealInline codec config references now admission store).toBool = true) :
    SealedAt codec config store blob now
    (step codec config store (.sealInline references now admission)) := by
  cases hseal : sealInline codec config references now admission store with
  | error =>
    rw [hseal] at hok
    cases hok
  | ok sealed =>
    have hstep : step codec config store (.sealInline references now admission) = sealed := by
      simp only [step, orUnchanged, hseal]
    rw [hstep]
    exact .inline references admission hnamed hseal

/-- The record of a seal of the report. -/
def reportSealed (offset millis : Nat) : LocalChange :=
  PendingLocalChange.atOffset offset
    (lifecycleInvalidation (.completeBlob sampleReport) (customEpochMillis + millis))

def sealReport (millis : Nat) : LocalAction :=
  .sealInline [sampleReport] (customEpochMillis + millis) .bounded

def publishReport : PreparedOperation := sampleOperation "a" (.publish sampleReport none .put)

def reservedCodec : LocalChangeCodec := tableCodec [reportSealed 1 1, reportPut 2 8392704]

/-- The publication turns the reservation into its reference, so the report can be
published once more. -/
theorem publishable_after_publication :
    (step reservedCodec sampleConfig (LocalStore.initial 1) (sealReport 1)).source.journal.tail =
    1 ∧ Publishable reservedCodec sampleConfig
    (run reservedCodec sampleConfig 1 [sealReport 1, sampleWrite .unversioned 2 publishReport])
    sampleReport := by
  have hseal : SealedAt reservedCodec sampleConfig (run reservedCodec sampleConfig 1 [])
      sampleReport (customEpochMillis + 1)
      (step reservedCodec sampleConfig (LocalStore.initial 1) (sealReport 1)) :=
    sealedAt_step (List.mem_singleton.mpr rfl) (by decide +kernel)
  refine ⟨by decide +kernel, ?_⟩
  refine sealed_payload_stays_publishable reservedCodec sampleConfig 1 []
    [sampleWrite .unversioned 2 publishReport] sampleReport _ _ (by decide) hseal ?_ ?_ 1
  · intro _ haction
    rw [List.mem_singleton.mp haction]
    trivial
  intro count _ haction
  cases count with
  | zero =>
    cases haction
    decide +kernel
  | succ => cases haction

/-- The report is published as an old version of a path, sealed again, and the old
version is deleted. -/
def releasedCodec : LocalChangeCodec := tableCodec
    [reportPut 1 4198400, PendingLocalChange.atOffset 2
      (.objectHead sampleBucket "a" 8392704 false none [{ blob := sampleRevision, change := 1 }]
        (some
          { previousLiveLength := some 3, currentLiveLength := some 4, logicalBytesRemoved := 0 })
        none),
      reportSealed 3 3,
      PendingLocalChange.atOffset 4 (.retainedVersionDeleted sampleBucket "a" none 4198400 none
        [{ blob := sampleReport, change := -1 }]
        (some
          { previousLiveLength := none, currentLiveLength := none, logicalBytesRemoved := 3 }))]

def revisedReport : List LocalAction :=
  [sampleWrite .enabled 1 (sampleOperation "a" (.put (.inline sampleReport) none .put)),
    sampleWrite .enabled 2 (sampleOperation "a" (.put (.inline sampleRevision) none .put))]

def deleteReport : LocalAction :=
  .deleteRetainedVersion (sampleSettings .enabled) (customEpochMillis + 4)
    (customEpochMillis + 4) sampleBucket "a" 4198400

/--
A millisecond after a successful seal the deletion of the other version that holds
the same bytes makes them unpublishable, for a publish and for a put.
-/
theorem sealed_payload_lost_with_other_version :
    SealedAt releasedCodec sampleConfig (run releasedCodec sampleConfig 1 revisedReport)
    sampleReport (customEpochMillis + 3)
    (run releasedCodec sampleConfig 1 (revisedReport ++ [sealReport 3])) ∧
    customEpochMillis + 4 < customEpochMillis + 3 + sampleConfig.awaitingPublishTtl ∧
    prepareOperation (run releasedCodec sampleConfig 1
    (revisedReport ++ [sealReport 3, deleteReport])).source.blobs
    publishReport = .error .blobNotFound ∧ ((run releasedCodec sampleConfig 1
    (revisedReport ++ [sealReport 3, deleteReport])).bulkWrite
    releasedCodec sampleConfig (sampleSettings .enabled) none false .bounded (customEpochMillis + 5)
    [(0, sampleOperation "b" (.put (.installed sampleReport) none .put),
    customEpochMillis + 5)]).2 = [(0, .error .blobNotFound)] := by
  refine ⟨?_, by decide, by decide +kernel, by decide +kernel⟩
  rw [run_snoc]
  exact sealedAt_step (List.mem_singleton.mpr rfl) (by decide +kernel)

end Keldra.LocalNode
