import Keldra.LocalNode.Operations

/-!
# Bulk writes and deletions of retained versions

Both write their objects, payload records and journal records in one batch, and
need a delivered journal for it.  A write that fails has only moved the clock.
-/

namespace Keldra.LocalNode

open Foundation Store

variable {codec : LocalChangeCodec} {config : NodeConfig} {log : List LogEntry}
  {store next : LocalStore}

section

variable {context : BulkContext} {surplus : BlobRef → Int} {progress : BulkProgress}
  {backpressure : Bool}

/-- The batch after one more operation of the list. -/
theorem evaluateNext_bulk (context : BulkContext) (backpressure : Bool) (progress : BulkProgress)
    (entry : Nat × PreparedOperation × Nat) :
    (evaluateNext context backpressure progress entry).bulk = progress.bulk ∨
    (evaluateNext context backpressure progress entry).bulk =
    (evaluateOperation context entry.2.1 entry.2.2 progress.bulk).1 := by
  obtain ⟨_, operation, reading⟩ := entry
  unfold evaluateNext
  dsimp only
  split
  · exact Or.inl rfl
  split
  · exact Or.inl rfl
  generalize evaluateOperation context operation reading progress.bulk = result
  obtain ⟨_, outcome⟩ := result
  right
  cases outcome with
  | error => rfl
  | ok =>
    dsimp only
    split <;> rfl

theorem evaluateNext_reserved {operation : PreparedOperation} {error : MutationError}
    {index reading : Nat}
    (hopen : progress.receiptCapacityAt = none)
    (hreserved : requireUnreserved context.store operation = .error error) :
    evaluateNext context backpressure progress (index, operation, reading) =
    { progress with results := progress.results ++ [(index, .error error)] } := by
  simp [evaluateNext, hopen, hreserved]

/-- What the evaluation of a list of operations keeps. -/
structure ProgressSound
    (context : BulkContext) (surplus : BlobRef → Int) (progress : BulkProgress) : Prop where
  bulk : BulkSound context surplus progress.bulk
  clock_le : context.store.clock.highWatermark ≤ progress.bulk.clock.highWatermark
  watermark : ObjectsSound ((progress.highWatermark.or context.store.versionHighWatermark).getD 0)
      progress.bulk.objects

theorem ProgressSound.idle {changed : BulkProgress} {bulk : BulkState}
    (h : ProgressSound context surplus progress) (hidle : Idle progress.bulk bulk)
    (hbulk : changed.bulk = bulk) (hwatermark : changed.highWatermark = progress.highWatermark) :
    ProgressSound context surplus changed where
  bulk := by
    rw [hbulk]
    exact h.bulk.idle hidle
  clock_le := by
    rw [hbulk]
    exact h.clock_le.trans hidle.clock_le
  watermark := by
    rw [hbulk, hwatermark, hidle.objects_eq]
    exact h.watermark

/-- One operation of the list leaves the tables, or takes the clock's next identifier. -/
theorem evaluateNext_cases {after : BulkProgress}
    (entry : Nat × PreparedOperation × Nat)
    (hsurplus : ∀ blob, 0 ≤ surplus blob) (h : BulkSound context surplus progress.bulk)
    (hafter : evaluateNext context backpressure progress entry = after) :
    Idle progress.bulk after.bulk ∧ after.highWatermark = progress.highWatermark ∨
    BulkSound context surplus after.bulk ∧
    progress.bulk.clock.highWatermark < after.bulk.clock.highWatermark ∧
    after.highWatermark = some (progress.highWatermark.elim after.bulk.clock.highWatermark
    fun current => max current after.bulk.clock.highWatermark) := by
  obtain ⟨_, operation, reading⟩ := entry
  have hcases := @evaluateOperation_cases _ _ progress.bulk operation h hsurplus reading
  subst hafter
  unfold evaluateNext
  dsimp only
  split
  · exact .inl ⟨Idle.refl _, rfl⟩
  split
  · exact .inl ⟨Idle.refl _, rfl⟩
  generalize hnext : evaluateOperation context operation reading progress.bulk = result at hcases
  obtain ⟨bulk, outcome⟩ := result
  cases outcome with
  | error =>
    rcases hcases with ⟨hidle, -, -⟩ | ⟨-, _, hevaluated, -⟩
    · exact .inl ⟨hidle, rfl⟩
    · cases hevaluated
  | ok evaluated =>
    dsimp only at hcases ⊢
    rcases hcases with ⟨hidle, -, hreplayed⟩ | ⟨hbulk, _, hevaluated, hreplaced⟩
    · rw [if_pos (hreplayed evaluated rfl)]
      exact .inl ⟨hidle, rfl⟩
    cases hevaluated
    rw [if_neg (by rw [hreplaced.fresh]; simp)]
    obtain ⟨_, _, _, -, -, -, -, -, -, -, hbefore, hclock, hversion, hstaged⟩ :=
      hreplaced.admitted
    have hclock' : bulk.clock.highWatermark = evaluated.receipt.version := by
      rw [hstaged, hversion]
      exact hclock
    rw [← hversion, ← hclock'] at hbefore
    exact .inr ⟨hbulk, hbefore, by rw [hclock']⟩

theorem progressSound_evaluateNext (entry : Nat × PreparedOperation × Nat)
    (hsurplus : ∀ blob, 0 ≤ surplus blob) (h : ProgressSound context surplus progress) :
    ProgressSound context surplus (evaluateNext context backpressure progress entry) := by
  rcases evaluateNext_cases entry hsurplus h.bulk rfl with ⟨hidle, hsame⟩ | ⟨hbulk, hlater, hhigh⟩
  · exact h.idle hidle rfl hsame
  refine ⟨hbulk, h.clock_le.trans hlater.le, hbulk.objects.mono ?_⟩
  rw [hhigh]
  cases progress.highWatermark with
  | none => exact le_rfl
  | some => exact le_max_right _ _

theorem progressSound_foldl (prepared : List (Nat × PreparedOperation × Nat))
    (hsurplus : ∀ blob, 0 ≤ surplus blob) (h : ProgressSound context surplus progress) :
    ProgressSound context surplus
    (prepared.foldl (evaluateNext context backpressure) progress) := by
  induction prepared generalizing progress with
  | nil => exact h
  | cons entry _ ih => exact ih (progressSound_evaluateNext entry hsurplus h)

section

variable (h : NodeSound codec config log store)

include h

theorem progressSound_beginBulk (receipts : ReceiptTables) (hstore : context.store = store) :
    ProgressSound context
      (fun blob => -deltaOf blob (pendingEffects config.store log store.source.journal))
      { bulk := store.beginBulk receipts
        results := []
        changes := []
        highWatermark := none
        receiptCapacityAt := none } := by
  subst hstore
  constructor
  case bulk =>
    exact
      { h with
        heads := fun _ => rfl
        untouched := fun _ _ _ => rfl
        references := fun _ => rfl
        inlined := fun _ hmem => by cases hmem
        manifests := fun _ hsome => hsome }
  case clock_le => exact le_rfl
  case watermark => exact h.watermark

/-- The clock may be ahead of the store. -/
theorem NodeSound.setClock {clock : VersionClock}
    (hclock : store.clock.highWatermark ≤ clock.highWatermark) :
    NodeSound codec config log { store with clock } :=
  { h with objects := h.objects.mono hclock }

theorem nodeSound_persistBulk {admission : SourceJournalAdmission}
    (hstore : context.store = store) (hprogress : ProgressSound context
    (fun blob => -deltaOf blob (pendingEffects config.store log store.source.journal)) progress)
    (hpersist : store.persistBulk codec config admission progress = .ok next) :
    ∃ entries, NodeSound codec config (log ++ entries) next := by
  subst hstore
  simp only [LocalStore.persistBulk, ok_rules] at hpersist
  obtain ⟨_, happend, rfl⟩ := hpersist
  by_cases hchanges : progress.changes = []
  · rw [if_pos hchanges]
    simp only [SourceStore.append, ok_rules] at happend
    obtain ⟨journal, hstaged, rfl⟩ := happend
    have hjournal : journal = context.store.source.journal := by
      rcases stageLocalChanges_eq_ok hstaged with ⟨-, rfl⟩ | ⟨hsome, -⟩
      · rfl
      · exact absurd hchanges hsome
    subst hjournal
    refine NodeSound.still ?_
    exact
      { h with
        payloads := hprogress.bulk.payloads
        objects := hprogress.bulk.objects
        watermark := hprogress.watermark
        balanced := hprogress.bulk.balanced }
  · rw [if_neg hchanges]
    exact h.inline hchanges happend rfl hprogress.bulk.payloads hprogress.bulk.objects
      hprogress.watermark hprogress.bulk.balanced

theorem nodeSound_bulkWrite {settings : BucketIdentity → Except MutationError BucketSettings}
    {intent : Option DefinitionMutationIntent} {admission : SourceJournalAdmission} {now : Nat}
    {prepared : List (Nat × PreparedOperation × Nat)} :
    ∃ entries, NodeSound codec config (log ++ entries)
    (store.bulkWrite codec config settings intent backpressure admission now prepared).1 := by
  unfold LocalStore.bulkWrite
  split
  · exact h.still
  rename_i receipts prunedReceipts hreceipts
  dsimp only
  generalize hcontext :
    ({ config, store, settings, intent, now, prunedReceipts } : BulkContext) = context
  have hstore : context.store = store := by rw [← hcontext]
  have hprogress := @progressSound_foldl _ _ _ backpressure prepared
    (deltaOf_pending_nonpos h) (progressSound_beginBulk h receipts hstore)
  split
  · rename_i written hpersist
    exact nodeSound_persistBulk h hstore hprogress hpersist
  refine (h.setClock ?_).still
  have hclock := hprogress.clock_le
  rw [hstore] at hclock
  exact hclock

end

end

section

variable {identity : BucketIdentity} {path : String} {version : VersionId} {found : RetainedTarget}
  {objects : ObjectTables} {bound id : VersionId}

/-- A deletion finds the path's head and the descriptor of the version. -/
theorem findRetainedTarget_eq_some
    {settings : BucketIdentity → Except MutationError BucketSettings}
    (h : findRetainedTarget settings store identity path version = .ok (some found)) :
    store.source.objects.heads.get? (identity.headKey path) = some found.head ∧
    found.target.id = version ∧ ∃ stored,
    store.source.objects.versions.get? (exactVersionKey identity path version) = some stored ∧
    stored.version = found.target := by
  simp only [findRetainedTarget, ok_rules] at h
  obtain ⟨_, -, -, -, -, h⟩ := h
  split at h
  · cases h
  rename_i head hhead
  split at h
  · simp only [ok_rules, reduceCtorEq, and_false, exists_false] at h
  rename_i stored hstored
  simp only [ok_rules, Option.some.injEq] at h
  obtain ⟨hshape, -, -, rfl⟩ := h
  rw [not_or, not_not] at hshape
  exact ⟨hhead, hshape.1, stored, hstored, rfl⟩

theorem prepareBlobReferenceRetirement_eq_ok {pending : PendingBlobReferences}
    {stored : BlobTables} {reference : BlobRef} {now : Nat} {state : BlobReferenceState}
    (h : prepareBlobReferenceRetirement pending stored reference now = .ok state) :
    ∃ before, readPendingBlobReference pending stored reference = .ok (some before) ∧
    state.held = before.held - 1 ∧ validateBlobReferenceState state = .ok () := by
  simp only [prepareBlobReferenceRetirement, ok_rules, not_or, Bool.not_eq_true] at h
  obtain ⟨_, hread, before, rfl, hvalid, ⟨hflag, _⟩, rfl⟩ := h
  obtain ⟨_, -⟩ := validateBlobReferenceState_eq_ok.mp hvalid
  refine ⟨before, hread, ?_, ?_⟩
  · simp only [BlobReferenceState.held, hflag, Bool.false_eq_true, if_false]
    omega
  rw [validateBlobReferenceState_eq_ok]
  refine ⟨?_, by simp [hflag]⟩
  dsimp only
  omega

/-- The payload of a deleted version loses its reference. -/
theorem releaseTarget_eq_ok {blobs : BlobTables} {target : Version} {now : Nat}
    {released : BlobTables}
    (hpayloads : PayloadsSound blobs) (h : releaseTarget blobs target now = .ok released) :
    PayloadsSound released ∧ ∀ blob, released.held (.completeBlob blob) =
    blobs.held (.completeBlob blob) - one target.blob blob := by
  simp only [releaseTarget, bind_eq_ok] at h
  obtain ⟨reference, hreference, h⟩ := h
  have hblob : reference = target.blob := by
    unfold versionBlobReference at hreference
    split at hreference
    · rename_i hsome _
      cases hreference
      exact hsome.symm
    · rename_i hnone _
      cases hreference
      exact hnone.symm
    · cases hreference
  subst hblob
  cases hnamed : target.blob with
  | none =>
    rw [hnamed] at h
    cases h
    refine ⟨hpayloads, fun blob => ?_⟩
    simp [one]
  | some reference =>
    rw [hnamed] at h
    simp only [ok_rules] at h
    obtain ⟨_, hstate, rfl⟩ := h
    obtain ⟨before, hread, hheld, hvalid⟩ := prepareBlobReferenceRetirement_eq_ok hstate
    have hbefore : blobs.references (.completeBlob reference) = some before :=
      (readBlobReferenceState_eq_ok hread).1
    refine ⟨hpayloads.putReference hvalid (hpayloads.sealed reference ?_), fun blob => ?_⟩
    · rw [hbefore]
      rfl
    rw [held_putReference]
    by_cases hblob : blob = reference
    · subst hblob
      rw [if_pos rfl, hheld, held_of_references hbefore, one, if_pos rfl]
    rw [if_neg (by simpa using hblob), one_of_ne (by simpa using hblob)]
    omega

/-- A deleted version is no longer named. -/
theorem naming_deletedObjects {stored : StoredVersion} {tombstone : Option Version}
    (hstored : objects.versions.get? (exactVersionKey identity path version) = some stored)
    (hnew : ∀ fresh, tombstone = some fresh → fresh.blob = none ∧
    objects.versions.get? (exactVersionKey identity path fresh.id) = none) (blob : BlobRef) :
    ((deletedObjects objects identity path version tombstone).naming blob : Int) =
    objects.naming blob - one stored.version.blob blob := by
  have hnames : (stored.names blob : Int) = one stored.version.blob blob := by
    unfold StoredVersion.names one
    split <;> rfl
  have herase := naming_erase hstored objects.heads blob
  let erased : ObjectTables :=
    { heads := objects.heads
      versions := objects.versions.erase (exactVersionKey identity path version) }
  have herased : (erased.naming blob : Int) =
      objects.naming blob - one stored.version.blob blob := by
    dsimp only [erased]
    omega
  cases tombstone with
  | none => exact herased
  | some fresh =>
    obtain ⟨hblob, hmissing⟩ := hnew fresh rfl
    have hgone : erased.versions.get? (exactVersionKey identity path fresh.id) = none := by
      rw [OrdMap.get?_erase]
      split
      · rfl
      · exact hmissing
    have hfresh : ({ retention := .userRetained, version := fresh } : StoredVersion).names
        blob = 0 := by
      simp [StoredVersion.names, hblob]
    have hinsert : (deletedObjects objects identity path version (some fresh)).naming blob =
        ({ retention := .userRetained, version := fresh } : StoredVersion).names blob +
          erased.naming blob :=
      naming_insert_new hgone _ _ blob
    omega

/-- Without a version that is not the current one. -/
theorem objectsSound_deleted {head : Head}
    (h : ObjectsSound bound objects)
    (hhead : objects.heads.get? (identity.headKey path) = some head)
    (hother : head.version ≠ version) :
    ObjectsSound bound (deletedObjects objects identity path version none) where
  descriptor := by
    intro key stored hstored
    simp only [deletedObjects, OrdMap.get?_erase] at hstored
    split at hstored
    · cases hstored
    · exact h.descriptor key stored hstored
  current := by
    intro key selected hselected
    obtain ⟨stored, hstored, hdeleted⟩ := h.current key selected hselected
    refine ⟨stored, ?_, hdeleted⟩
    simp only [deletedObjects, OrdMap.get?_erase]
    rw [if_neg ?_]
    · exact hstored
    intro hkey
    have hpath : key = identity.headKey path :=
      congrArg (fun entry : VersionKey => (ofLex entry).1) hkey
    have hversion : selected.version = version :=
      congrArg (fun entry : VersionKey => (ofLex entry).2) hkey
    rw [hpath] at hselected
    have hsame : selected = head := Option.some.inj (hselected.symm.trans hhead)
    rw [hsame] at hversion
    exact hother hversion

/-- A tombstone in the place of the current version. -/
theorem objectsSound_tombstone {now : Nat}
    (h : ObjectsSound bound objects) (hid : bound < id) : ObjectsSound id
      (deletedObjects objects identity path version (some (tombstoneVersion id now))) where
  descriptor := by
    intro key stored hstored
    simp only [deletedObjects, OrdMap.get?_insert, OrdMap.get?_erase] at hstored
    split at hstored
    · rename_i hkey
      cases hstored
      rw [hkey]
      exact ⟨rfl, rfl, le_rfl⟩
    split at hstored
    · cases hstored
    · exact (h.mono hid.le).descriptor key stored hstored
  current := by
    intro key selected hselected
    simp only [deletedObjects, OrdMap.get?_insert] at hselected
    simp only [deletedObjects, OrdMap.get?_insert, OrdMap.get?_erase]
    split at hselected
    · rename_i hkey
      cases hselected
      rw [hkey]
      exact ⟨_, if_pos rfl, rfl⟩
    rename_i hkey
    obtain ⟨stored, hstored, hdeleted⟩ := h.current key selected hselected
    refine ⟨stored, ?_, hdeleted⟩
    rw [if_neg (versionKey_ne hkey), if_neg (versionKey_ne hkey)]
    exact hstored

/-- A version id behind the clock is in no descriptor. -/
theorem get?_fresh (h : ObjectsSound bound objects) (hid : bound < id) :
    objects.versions.get? (exactVersionKey identity path id) = none := by
  cases hstored : objects.versions.get? (exactVersionKey identity path id) with
  | none => rfl
  | some stored =>
    obtain ⟨hkey, -, hbound⟩ := h.descriptor _ stored hstored
    have hsame : stored.version.id = id := hkey
    rw [hsame] at hbound
    exact absurd (lt_of_le_of_lt hbound hid) (lt_irrefl _)

/-- The write of a deletion, whatever takes the version's place. -/
theorem nodeSound_persistDeletion {stored : StoredVersion} {now : Nat} {blobs : BlobTables}
    {tombstone : Option Version}
    (h : NodeSound codec config log store) (hstored : store.source.objects.versions.get?
    (exactVersionKey identity path found.target.id) = some stored)
    (hversion : stored.version = found.target)
    (hreleased : releaseTarget store.source.blobs found.target now = .ok blobs)
    (hnew : ∀ fresh, tombstone = some fresh → fresh.blob = none ∧
    store.source.objects.versions.get? (exactVersionKey identity path fresh.id) = none)
    (hobjects : ObjectsSound store.clock.highWatermark
    (deletedObjects store.source.objects identity path found.target.id tombstone))
    (hwatermark : ObjectsSound
    (((tombstone.map fun fresh => fresh.id).or store.versionHighWatermark).getD 0)
    (deletedObjects store.source.objects identity path found.target.id tombstone))
    (hpersist : persistDeletion codec config store identity path found blobs tombstone = .ok next) :
    ∃ entries, NodeSound codec config (log ++ entries) next := by
  simp only [persistDeletion, ok_rules] at hpersist
  obtain ⟨_, happend, rfl⟩ := hpersist
  obtain ⟨hpayloads, hheld⟩ := releaseTarget_eq_ok h.payloads hreleased
  refine h.inline (List.cons_ne_nil _ _) happend rfl hpayloads hobjects hwatermark ?_
  intro blob
  have hbalance := h.balanced blob
  rw [hheld, naming_deletedObjects hstored hnew, hversion]
  omega

theorem nodeSound_deleteRetainedVersion
    {settings : BucketIdentity → Except MutationError BucketSettings} {now reading : Nat}
    (h : NodeSound codec config log store) :
    ∃ entries, NodeSound codec config (log ++ entries)
    (deleteRetainedVersion codec config settings now reading identity path version store).1 := by
  unfold deleteRetainedVersion
  split
  · exact h.still
  · exact h.still
  rename_i found hfound
  obtain ⟨hhead, hid, _, hstored, hversion⟩ := findRetainedTarget_eq_some hfound
  subst hid
  split
  · exact h.still
  rename_i blobs hreleased
  split
  · rename_i hother
    split
    · exact h.still
    rename_i written hpersist
    exact nodeSound_persistDeletion h hstored hversion hreleased (by simp) (objectsSound_deleted
      h.objects hhead hother) (objectsSound_deleted h.watermark hhead hother) hpersist
  split
  · exact h.still
  split
  · exact h.still
  rename_i id clock hnext
  obtain ⟨hlater, hclock⟩ := VersionClock.nextAt_eq_ok hnext
  have hticked : NodeSound codec config log { store with clock } :=
    h.setClock (by rw [hclock]; exact hlater.le)
  have htombstone : ObjectsSound id (deletedObjects store.source.objects identity path
    found.target.id (some (tombstoneVersion id now))) :=
    objectsSound_tombstone h.objects hlater
  dsimp only
  split
  · exact hticked.still
  rename_i written hpersist
  refine nodeSound_persistDeletion hticked hstored hversion hreleased ?_ ?_ ?_ hpersist
  · rintro _ hfresh
    cases hfresh
    exact ⟨rfl, get?_fresh h.objects hlater⟩
  · rw [hclock]
    exact htombstone
  · exact htombstone

/-- Steps of a source and writes of its tables. -/
inductive SourceMoves (codec : LocalChangeCodec) (config : StoreConfig) (source : SourceStore) :
    SourceStore → Prop where
  | still : SourceMoves codec config source source
  | step (h : SourceMoves codec config source after) (action : JournalAction) :
      SourceMoves codec config source (after.step codec config action)
  | tables (h : SourceMoves codec config source after) (objects : ObjectTables)
      (blobs : BlobTables) : SourceMoves codec config source { after with objects, blobs }

theorem SourceMoves.append {source after : SourceStore} {changes : List PendingLocalChange}
    {effects : LocalReferenceEffects} {admission : SourceJournalAdmission}
    {write : ObjectTables × BlobTables → ObjectTables × BlobTables}
    {bounds : StoreConfig} {last : SourceStore}
    (h : SourceMoves codec bounds source after)
    (hlast : SourceStore.append codec bounds after changes effects admission write = .ok last) :
    SourceMoves codec bounds source last := by
  have hstep := h.step (.append changes effects admission write)
  rw [SourceStore.step, hlast] at hstep
  exact hstep

/-- A deletion writes no receipts; the watermark it persists is the clock's. -/
theorem deleteRetainedVersion_writes
    {settings : BucketIdentity → Except MutationError BucketSettings} {now reading : Nat} :
    ∃ source clock watermark,
    (deleteRetainedVersion codec config settings now reading identity path version store).1 =
    { store with source, clock, versionHighWatermark := watermark } ∧
    SourceMoves codec config.store store.source source ∧
    store.clock.highWatermark ≤ clock.highWatermark ∧
    (watermark = store.versionHighWatermark ∨ watermark = some clock.highWatermark) := by
  unfold deleteRetainedVersion
  split
  case h_1 | h_2 => exact ⟨_, _, _, rfl, .still, le_rfl, .inl rfl⟩
  split
  · exact ⟨_, _, _, rfl, .still, le_rfl, .inl rfl⟩
  split
  · split
    · exact ⟨_, _, _, rfl, .still, le_rfl, .inl rfl⟩
    rename_i hwritten
    simp only [persistDeletion, ok_rules] at hwritten
    obtain ⟨_, hsource, rfl⟩ := hwritten
    exact ⟨_, _, _, rfl, (SourceMoves.still.append hsource).step .settleInline, le_rfl, .inl rfl⟩
  split
  · exact ⟨_, _, _, rfl, .still, le_rfl, .inl rfl⟩
  split
  · exact ⟨_, _, _, rfl, .still, le_rfl, .inl rfl⟩
  rename_i hnext
  obtain ⟨hlater, hclock⟩ := VersionClock.nextAt_eq_ok hnext
  rw [← hclock] at hlater
  dsimp only
  split
  · exact ⟨_, _, _, rfl, .still, hlater.le, .inl rfl⟩
  rename_i hwritten
  simp only [persistDeletion, ok_rules] at hwritten
  obtain ⟨_, hsource, rfl⟩ := hwritten
  exact ⟨_, _, _, rfl, (SourceMoves.still.append hsource).step .settleInline, hlater.le,
    .inr (congrArg some hclock.symm)⟩

/-- The actions that write nothing but the source. -/
def isSourceAction : LocalAction → Bool
  | .bulkWrite .. | .deleteRetainedVersion .. | .pruneReceipts _ | .reopen => false
  | _ => true

theorem step_source {action : LocalAction} (h : isSourceAction action = true) :
    ∃ source, step codec config store action = { store with source } ∧
    SourceMoves codec config.store store.source source := by
  cases action with
  | bulkWrite | deleteRetainedVersion | pruneReceipts | reopen => cases h
  | sealInline =>
    simp only [step, orUnchanged]
    split
    · rename_i hnext
      simp only [sealInline, ok_rules, Prod.exists] at hnext
      obtain ⟨_, _, _, -, _, hsource, rfl⟩ := hnext
      exact ⟨_, rfl, .append .still hsource⟩
    · exact ⟨_, rfl, .still⟩
  | uploadChunk => exact ⟨_, rfl, .tables .still _ _⟩
  | finishUpload =>
    simp only [step, orUnchanged]
    split
    · rename_i hnext
      simp only [finishUpload, ok_rules] at hnext
      obtain ⟨-, hnext⟩ := hnext
      split at hnext
      · cases hnext
        exact ⟨_, rfl, .still⟩
      simp only [ok_rules] at hnext
      obtain ⟨_, -, -, -, _, -, _, -, _, hsource, rfl⟩ := hnext
      exact ⟨_, rfl, .append .still hsource⟩
    · exact ⟨_, rfl, .still⟩
  | collect =>
    simp only [step, collect]
    split
    · rename_i hcollect
      rcases collectDueArtifact_eq_ok hcollect with rfl | ⟨-, -, hsource⟩
      · exact ⟨_, rfl, .still⟩
      · exact ⟨_, rfl, .append .still hsource⟩
    · exact ⟨_, rfl, .still⟩
  | collectUpload =>
    simp only [step, collectUpload]
    split
    · exact ⟨_, rfl, .tables .still _ _⟩
    · exact ⟨_, rfl, .still⟩
  | readPage =>
    simp only [step, readPage]
    split
    · exact ⟨_, rfl, .still⟩
    rename_i changes _
    split
    · exact ⟨_, rfl, .still⟩
    rename_i last _
    exact ⟨_, rfl, .step .still (.readDelivery _ last.offset (localEffects changes))⟩
  | applyPage _ admission now =>
    simp only [step, applyPage]
    split
    · exact ⟨_, rfl, .still⟩
    rename_i request _
    exact ⟨_, rfl, .step .still (.applyReferenceDeltas admission now request)⟩
  | finishDelivery | maintain =>
    simp only [step, finishDelivery]
    split
    · exact ⟨_, rfl, .step .still _⟩
    · exact ⟨_, rfl, .still⟩

end

end Keldra.LocalNode
