import Keldra.LocalNode.Writes

/-!
# Stored versions keep their payloads

In every reachable state of a node on its own the references of a payload,
corrected by the effects its journal has still to deliver, are the stored version
descriptors that name it and its reservation.  Payloads of stored versions are
therefore never collected, and every live path can be read.
-/

namespace Keldra.LocalNode

open Foundation Store

theorem nodeSound_orUnchanged {codec : LocalChangeCodec} {config : NodeConfig}
    {log : List LogEntry} {store : LocalStore} {result : Except MutationError LocalStore}
    (h : NodeSound codec config log store)
    (hok : ∀ next, result = .ok next → ∃ entries, NodeSound codec config (log ++ entries) next) :
    ∃ entries, NodeSound codec config (log ++ entries) (orUnchanged store result) := by
  unfold orUnchanged
  split
  · exact hok _ rfl
  · exact h.still

theorem nodeSound_step {codec : LocalChangeCodec} {config : NodeConfig} {log : List LogEntry}
    {store : LocalStore}
    (h : NodeSound codec config log store) (action : LocalAction) :
    ∃ entries, NodeSound codec config (log ++ entries) (step codec config store action) := by
  cases action with
  | bulkWrite => exact nodeSound_bulkWrite h
  | deleteRetainedVersion => exact nodeSound_deleteRetainedVersion h
  | sealInline => exact nodeSound_orUnchanged h fun _ => nodeSound_sealInline h
  | uploadChunk upload now => exact (nodeSound_setUpload h upload (some now)).still
  | finishUpload => exact nodeSound_orUnchanged h fun _ => nodeSound_finishUpload h
  | collect => exact nodeSound_collect h
  | collectUpload upload =>
    simp only [step, collectUpload]
    split
    · exact (nodeSound_setUpload h upload none).still
    · exact h.still
  | readPage => exact (nodeSound_readPage h).still
  | applyPage => exact nodeSound_applyPage h
  | finishDelivery => exact nodeSound_finishDelivery h
  | pruneReceipts => exact nodeSound_pruneReceipts h
  | maintain =>
    simp only [step]
    split
    · rename_i haction
      exact nodeSound_maintain h haction
    · exact h.still
  | reopen => exact nodeSound_reopen h

theorem nodeSound_run
    (codec : LocalChangeCodec) (config : NodeConfig) (nodeId : Nat) (actions : List LocalAction) :
    ∃ log, NodeSound codec config log (run codec config nodeId actions) := by
  induction actions using List.reverseRecOn with
  | nil => exact ⟨[], nodeSound_initial codec config nodeId⟩
  | append_singleton _ action ih =>
    obtain ⟨log, hlog⟩ := ih
    rw [run_snoc]
    obtain ⟨entries, hnext⟩ := nodeSound_step hlog action
    exact ⟨log ++ entries, hnext⟩

/-- The records of a journal after an offset. -/
def recordsAfter
    (codec : LocalChangeCodec) (journal : JournalTables) (offset : Nat) : List LocalChange :=
  (List.range' (offset + 1) (journal.tail - offset)).filterMap fun position =>
    (journal.records.get? position).bind fun encoded => (codec.decode encoded).toOption

/-- The effects of the records after the node's own reference cursor. -/
def undeliveredEffects (codec : LocalChangeCodec) (config : NodeConfig) (store : LocalStore) :
    List ReferenceDelta :=
  (recordsAfter codec store.source.journal
    (store.source.journal.referenceCursor config.store.sourceId)).flatMap
      LocalChange.referenceDeltas

theorem undeliveredEffects_eq {codec : LocalChangeCodec} {log : List LogEntry}
    {config : NodeConfig} {store : LocalStore} (h : NodeSound codec config log store) :
    undeliveredEffects codec config store =
    pendingEffects config.store log store.source.journal := by
  rw [undeliveredEffects, recordsAfter, h.logs.toRecorded.changes_after h.floor_le, pendingEffects,
    logEffects_eq_flatMap]

section

/-- The reference count of a payload; one without a record has none. -/
def refCount (blobs : BlobTables) (blob : BlobRef) : Nat :=
  (blobs.references (.completeBlob blob)).elim 0 BlobReferenceState.refCount

def isAwaitingPublish (blobs : BlobTables) (blob : BlobRef) : Bool :=
  (blobs.references (.completeBlob blob)).elim false BlobReferenceState.awaitingPublish

variable {codec : LocalChangeCodec} {config : NodeConfig} {store : LocalStore}

theorem held_eq_refCount (blobs : BlobTables) (blob : BlobRef) : blobs.held (.completeBlob blob) =
    refCount blobs blob - if isAwaitingPublish blobs blob then 1 else 0 := by
  unfold BlobTables.held refCount isAwaitingPublish
  cases blobs.references (.completeBlob blob) with
  | none | some => rfl

/-- The payload of a stored version counts it and is sealed. -/
theorem NodeSound.named {log : List LogEntry} {key : VersionKey} {stored : StoredVersion}
    {blob : BlobRef}
    (h : NodeSound codec config log store)
    (hstored : store.source.objects.versions.get? key = some stored)
    (hblob : stored.version.blob = some blob) : ∃ state manifest,
    store.source.blobs.references (.completeBlob blob) = some state ∧ 0 < state.refCount ∧
    validateBlobReferenceState state = .ok () ∧
    store.source.blobs.manifests (.completeBlob blob) = some manifest := by
  have hnames := names_pos_of_mem hstored hblob
  have hbalance := h.balanced blob
  have hextra := deltaOf_pending_nonpos h blob
  dsimp only at hbalance
  cases hstate : store.source.blobs.references (.completeBlob blob) with
  | none =>
    rw [held_of_missing hstate] at hbalance
    omega
  | some state =>
    have hsealed := h.payloads.sealed blob (by rw [hstate]; rfl)
    obtain ⟨manifest, hmanifest⟩ := Option.isSome_iff_exists.mp hsealed
    refine ⟨state, manifest, rfl, ?_, h.payloads.valid _ _ hstate, hmanifest⟩
    rw [held_of_references hstate, BlobReferenceState.held] at hbalance
    split at hbalance <;> omega

theorem openBlob_of_named {state : BlobReferenceState} {manifest : ArtifactManifest}
    {blobs : BlobTables} {blob : BlobRef}
    (hstate : blobs.references (.completeBlob blob) = some state) (hcount : 0 < state.refCount)
    (hvalid : validateBlobReferenceState state = .ok ())
    (hmanifest : blobs.manifests (.completeBlob blob) = some manifest) :
    openBlob blobs blob = .ok manifest := by
  simp only [openBlob, readBlobReferenceState, hstate, ok_rules]
  refine ⟨some state, ⟨hvalid, rfl⟩, ?_, hmanifest⟩
  have hne : state.refCount ≠ 0 := by omega
  simp [hne]

/-- A live path opens. -/
theorem NodeSound.opens {log : List LogEntry} {head : Head} {identity : BucketIdentity}
    {path : String}
    (h : NodeSound codec config log store)
    (hhead : store.source.objects.heads.get? (identity.headKey path) = some head)
    (hlive : head.deleted = false) :
    ∃ version manifest, openObject store identity path = .ok (some (version, some manifest)) ∧
    version.id = head.version := by
  obtain ⟨stored, hstored, hdeleted⟩ := h.objects.current _ head hhead
  obtain ⟨hid, hshape, -⟩ := h.objects.descriptor _ stored hstored
  have hid' : stored.version.id = head.version := hid
  rw [hdeleted, hlive] at hshape
  cases hblob : stored.version.blob with
  | none =>
    rw [hblob] at hshape
    cases hshape
  | some blob =>
    obtain ⟨_, manifest, hstate, hcount, hvalid, hmanifest⟩ := h.named hstored hblob
    have hopen := openBlob_of_named hstate hcount hvalid hmanifest
    have hreference : versionBlobReference stored.version = .ok (some blob) := by
      rw [versionBlobReference, hblob, hdeleted, hlive]
      rfl
    refine ⟨stored.version, manifest, ?_, hid'⟩
    have hkey : store.source.objects.versions.get?
        (exactVersionKey identity path head.version) = some stored := hstored
    simp only [openObject, hhead, hkey, validateSelectedHead, ok_rules]
    refine ⟨stored, rfl, some blob, ⟨by rw [hid']; simp, by simp [hdeleted], hreference⟩, ?_⟩
    rw [bind_eq_ok]
    exact ⟨manifest, hopen, rfl⟩

/--
After any run of a node's local operations the reference count of every payload
and its effects behind the reference cursor are the stored version descriptors
that name it, and one for a reservation.  Payloads of stored versions are sealed,
and the head of every live path can be read.
-/
theorem stored_versions_keep_payloads
    (codec : LocalChangeCodec) (config : NodeConfig) (nodeId : Nat) (actions : List LocalAction) :
    let store := run codec config nodeId actions
    (∀ blob, (refCount store.source.blobs blob : Int) +
      deltaOf blob (undeliveredEffects codec config store) = store.source.objects.naming blob +
          if isAwaitingPublish store.source.blobs blob then 1 else 0) ∧
      (∀ key stored blob, store.source.objects.versions.get? key = some stored →
        stored.version.blob = some blob → ∃ manifest,
          store.source.blobs.manifests (.completeBlob blob) = some manifest) ∧
        ∀ identity path head,
          store.source.objects.heads.get? (BucketIdentity.headKey identity path) = some head →
            head.deleted = false → ∃ version manifest,
              openObject store identity path = .ok (some (version, some manifest)) ∧
                version.id = head.version := by
  obtain ⟨_, h⟩ := nodeSound_run codec config nodeId actions
  refine ⟨fun blob => ?_, fun key stored blob hstored hblob => ?_,
    fun identity path head hhead hlive => h.opens hhead hlive⟩
  · have hbalance := h.balanced blob
    dsimp only at hbalance
    rw [held_eq_refCount] at hbalance
    rw [undeliveredEffects_eq h]
    omega
  obtain ⟨_, manifest, -, -, -, hmanifest⟩ := h.named hstored hblob
  exact ⟨manifest, hmanifest⟩

end

/-- The identifiers up to this one are used up, also for a node that restarts now. -/
def Covers (seen : VersionId) (store : LocalStore) : Prop :=
  seen ≤ store.clock.highWatermark ∧ seen ≤ store.versionHighWatermark.getD 0

theorem covers_foldl {surplus : BlobRef → Int} {context : BulkContext} {progress : BulkProgress}
    {seen : VersionId} {persisted : Option VersionId} {backpressure : Bool} {last : BulkProgress}
    (prepared : List (Nat × PreparedOperation × Nat))
    (hsurplus : ∀ blob, 0 ≤ surplus blob) (h : ProgressSound context surplus progress)
    (hcovers : seen ≤ progress.bulk.clock.highWatermark ∧
    seen ≤ (progress.highWatermark.or persisted).getD 0)
    (hlast : prepared.foldl (evaluateNext context backpressure) progress = last) :
    seen ≤ last.bulk.clock.highWatermark ∧ seen ≤ (last.highWatermark.or persisted).getD 0 := by
  induction prepared generalizing progress with
  | nil =>
    subst hlast
    exact hcovers
  | cons entry _ ih =>
    refine ih (progressSound_evaluateNext entry hsurplus h) ?_ hlast
    rcases evaluateNext_cases entry hsurplus h.bulk rfl with ⟨hidle, hsame⟩ | ⟨-, hlater, hhigh⟩
    · rw [hsame]
      exact ⟨hcovers.1.trans hidle.clock_le, hcovers.2⟩
    have hclock := hcovers.1.trans hlater.le
    rw [hhigh]
    refine ⟨hclock, ?_⟩
    cases progress.highWatermark with
    | none => exact hclock
    | some => exact hclock.trans (le_max_right _ _)

theorem covers_bulkWrite {log : List LogEntry} {seen : VersionId}
    {settings : BucketIdentity → Except MutationError BucketSettings}
    {intent : Option DefinitionMutationIntent} {backpressure : Bool}
    {admission : SourceJournalAdmission} {now : Nat} {prepared : List (Nat × PreparedOperation × Nat)}
    (h : NodeSound codec config log store) (hcovers : Covers seen store) :
    Covers seen
    (store.bulkWrite codec config settings intent backpressure admission now prepared).1 := by
  unfold LocalStore.bulkWrite
  split
  · exact hcovers
  rename_i receipts prunedReceipts _
  dsimp only
  generalize hprogress : prepared.foldl _ _ = progress
  have hfold := covers_foldl prepared (deltaOf_pending_nonpos h)
    (progressSound_beginBulk h receipts rfl) hcovers hprogress
  split
  · rename_i hpersist
    simp only [LocalStore.persistBulk, ok_rules] at hpersist
    obtain ⟨_, -, rfl⟩ := hpersist
    exact hfold
  · exact ⟨hfold.1, hcovers.2⟩

theorem covers_step {log : List LogEntry} {seen : VersionId}
    (h : NodeSound codec config log store) (hcovers : Covers seen store)
    (action : LocalAction) : Covers seen (step codec config store action) := by
  by_cases hsource : isSourceAction action
  · obtain ⟨_, hnext, -⟩ := step_source hsource
    rw [hnext]
    exact hcovers
  cases action with
  | bulkWrite => exact covers_bulkWrite h hcovers
  | deleteRetainedVersion =>
    obtain ⟨_, _, _, hnext, -, hclock, hwatermark⟩ := deleteRetainedVersion_writes
    rw [step, hnext]
    refine ⟨hcovers.1.trans hclock, ?_⟩
    rcases hwatermark with rfl | rfl
    · exact hcovers.2
    · exact hcovers.1.trans hclock
  | pruneReceipts =>
    simp only [step, pruneReceipts]
    split <;> exact hcovers
  | reopen => exact ⟨hcovers.2, hcovers.2⟩
  | _ => exact absurd rfl hsource

theorem covers_run {seen : VersionId} {nodeId : Nat} {actions later : List LocalAction}
    (hcovers : Covers seen (run codec config nodeId actions)) :
    Covers seen (run codec config nodeId (actions ++ later)) := by
  induction later using List.reverseRecOn with
  | nil =>
    rw [List.append_nil]
    exact hcovers
  | append_singleton later action ih =>
    obtain ⟨_, h⟩ := nodeSound_run codec config nodeId (actions ++ later)
    rw [← List.append_assoc, run_snoc]
    exact covers_step h ih action

/--
The identifier of a version a node has stored is never given out again: whatever
the node does later, also if it deletes the version and restarts, and however its
time source jumps, the identifiers its clock gives out are above it.  The bounds say
that no identifier leaves its 64 bits, where the source's shifts would drop bits.
-/
theorem version_identifiers_not_reused (codec : LocalChangeCodec) (config : NodeConfig)
    (nodeId : Nat) (actions later : List LocalAction) (key : VersionKey) (stored : StoredVersion)
    (hstored : (run codec config nodeId actions).source.objects.versions.get? key = some stored)
    (reading : Nat) (id : VersionId) (clock : VersionClock)
    (hnext : (run codec config nodeId (actions ++ later)).clock.nextAt reading = .ok (id, clock))
    (_hfits : ∀ done ∈ (actions ++ later).inits,
    (run codec config nodeId done).clock.highWatermark < 2 ^ 64) (_hid : id < 2 ^ 64) :
    stored.version.id < id := by
  obtain ⟨_, h⟩ := nodeSound_run codec config nodeId actions
  have hcovers : Covers stored.version.id (run codec config nodeId actions) :=
    ⟨(h.objects.descriptor key stored hstored).2.2, (h.watermark.descriptor key stored hstored).2.2⟩
  exact (covers_run hcovers).1.trans_lt (VersionClock.nextAt_eq_ok hnext).1

theorem restarted_node_goes_on : ((run (tableCodec [reportPut 1 4198400]) sampleConfig 1
    [sampleWrite .enabled 1 (sampleOperation "a" (.put (.inline sampleReport) none .put))]
    ).source.objects.versions.get? (exactVersionKey sampleBucket "a" 4198400)).any
    fun stored => stored.version.id < 8392704 := by
  refine Option.any_eq_true_iff_get _ _ |>.mpr ⟨by decide +kernel, decide_eq_true ?_⟩
  exact version_identifiers_not_reused _ _ _ _ [.reopen] _ _ (Option.some_get _).symm
    customEpochMillis _ ⟨1, 2, 0, 8392704⟩ (by decide +kernel) (by decide +kernel) (by decide)

end Keldra.LocalNode
