import Keldra.LocalNode.Publication
import Keldra.LocalNode.StoredReceipts
import Keldra.Store.BatchGrowth

/-!
# A bulk write and the in-order execution of its operations

Submitting the prepared operations of a bulk one at a time, at the same instant
and with the same clock readings, gives the same outcomes and leaves the same
store as the bulk, exactly if the checks that read the stored tables directly
answer as they would on the tables of the batch.
-/

namespace Keldra.LocalNode

open Foundation Store SourceJournalAdmission

variable {codec : LocalChangeCodec} {admission : SourceJournalAdmission}

section

variable {changes : List PendingLocalChange}

/-- A bounded append fits in the retention bounds, alone and with what was retained. -/
theorem checkTransition_eq_ok {retention : WatchRetention} {before after : JournalTables} :
    admission.checkTransition retention before after = .ok () ↔ (admission = .bounded →
    ¬ OverLimit retention (after.retainedEntries - before.retainedEntries)
    (after.retainedBytes - before.retainedBytes) ∧
    ¬ OverLimit retention after.retainedEntries after.retainedBytes) := by
  unfold SourceJournalAdmission.checkTransition
  split
  · rename_i hbounded
    simp [hbounded, bind_eq_ok, rejectIf_eq_ok]
  rename_i hbounded
  simp [hbounded, pure, Except.pure]

/-- An inline append of some records, step by step. -/
theorem inline_stageLocalChanges_iff {config : StoreConfig} {log : List LogEntry}
    {journal staged : JournalTables}
    (hlog : Logs codec config log journal)
    (hchanges : changes ≠ []) :
    stageLocalChanges codec config journal journal.referenceCursor changes .appliedInline admission
    = .ok staged ↔ admission ≠ .physicalReplica ∧ (admission = .bounded →
    ¬ OverLimit config.watchRetention journal.retainedEntries journal.retainedBytes) ∧
    journal.referenceCursor config.sourceId = journal.tail ∧
    ∃ appended, changes.foldlM (appendRecord codec config .storage (admission.admitRecord
    config.watchRetention)) journal = .ok appended ∧
    admission.checkTransition config.watchRetention journal appended = .ok () ∧
    { appended with
      settledThrough := if journal.settledThrough =
        journal.tail then appended.tail else appended.settledThrough
      referenceCursor := Function.update journal.referenceCursor config.sourceId appended.tail } =
    staged := by
  have hcursor := hlog.cursor_le
  unfold stageLocalChanges suppressesPhysicalReplicaChanges
  by_cases hreplica : admission = .physicalReplica
  · simp [hreplica, rejectIf, bind, Except.bind]
  rw [if_pos hreplica]
  simp only [hlog.status, movesReferenceCursor, ok_rules, mapError_eq_ok, Except.ok.injEq,
    exists_eq_left', not_and, ne_eq, hreplica, not_false_eq_true, true_and, false_or,
    Bool.false_eq_true, hchanges, if_false, not_lt, not_not, reduceCtorEq]
  constructor
  · rintro ⟨hlimit, -, _, ⟨hdelivered, rfl⟩, appended, happended, htransition, hstaged⟩
    exact ⟨hlimit, hdelivered, appended, happended, htransition, hstaged⟩
  rintro ⟨hlimit, hdelivered, appended, happended, htransition, hstaged⟩
  exact ⟨hlimit, hcursor, true, ⟨hdelivered, rfl⟩, appended, happended, htransition, hstaged⟩

/-- Records are appended in the same way whatever the cursors are. -/
theorem appendRecord_cursors {config : StoreConfig} {journal : JournalTables}
    {pending : PendingLocalChange} {appended : JournalTables}
    (settled : Nat) (cursors : SourceId → Nat)
    (h : appendRecord codec config .storage (admission.admitRecord config.watchRetention) journal
      pending = .ok appended) :
    appendRecord codec config .storage (admission.admitRecord config.watchRetention)
      { journal with settledThrough := settled, referenceCursor := cursors } pending =
      .ok { appended with settledThrough := settled, referenceCursor := cursors } := by
  simp only [appendRecord, ok_rules, mapError_eq_ok] at h ⊢
  obtain ⟨tail, htail, encoded, hencoded, hadmitted, routes, hroutes, entries, hentries, bytes,
    hbytes, rfl⟩ := h
  exact ⟨tail, htail, encoded, hencoded, hadmitted, routes, hroutes, entries, hentries, bytes,
    hbytes, rfl⟩

theorem foldlM_appendRecord_cursors {config : StoreConfig} {journal appended : JournalTables}
    (settled : Nat) (cursors : SourceId → Nat) (h : changes.foldlM
      (appendRecord codec config .storage (admission.admitRecord config.watchRetention)) journal =
        .ok appended) :
    changes.foldlM
      (appendRecord codec config .storage (admission.admitRecord config.watchRetention))
      { journal with settledThrough := settled, referenceCursor := cursors } =
      .ok { appended with settledThrough := settled, referenceCursor := cursors } := by
  induction changes generalizing journal with
  | nil =>
    cases h
    rfl
  | cons _ _ ih =>
    rw [List.foldlM_cons, bind_eq_ok] at h ⊢
    obtain ⟨_, hbetween, h⟩ := h
    exact ⟨_, appendRecord_cursors settled cursors hbetween, ih h⟩

/-- The counters of a journal only grow with appended records. -/
theorem foldlM_appendRecord_grows {config : StoreConfig} {journal appended : JournalTables}
    (h : changes.foldlM
    (appendRecord codec config .storage (admission.admitRecord config.watchRetention)) journal =
    .ok appended) :
    journal.tail ≤ appended.tail ∧ journal.retainedEntries ≤ appended.retainedEntries ∧
    journal.retainedBytes ≤ appended.retainedBytes ∧
    appended.settledThrough = journal.settledThrough ∧
    appended.referenceCursor = journal.referenceCursor ∧
    (changes ≠ [] → journal.tail < appended.tail) := by
  induction changes generalizing journal with
  | nil =>
    cases h
    exact ⟨le_rfl, le_rfl, le_rfl, rfl, rfl, fun hnone => absurd rfl hnone⟩
  | cons _ _ ih =>
    rw [List.foldlM_cons, bind_eq_ok] at h
    obtain ⟨_, hbetween, h⟩ := h
    obtain ⟨_, _, -, -, rfl⟩ := appendRecord_eq_ok hbetween
    obtain ⟨htail, hentries, hbytes, hsettled, hcursor, -⟩ := ih h
    dsimp only at htail hentries hbytes hsettled hcursor
    exact ⟨by omega, by omega, by omega, hsettled, hcursor, fun _ => by omega⟩

/-- One inline append of two lists of records is an append of the first and then
one of the second. -/
theorem stageLocalChanges_append {config : StoreConfig} {log : List LogEntry}
    {journal : JournalTables} {first second : List PendingLocalChange} {staged : JournalTables}
    (hlog : Logs codec config log journal)
    (h : stageLocalChanges codec config journal journal.referenceCursor (first ++ second)
    .appliedInline admission = .ok staged) :
    ∃ middle, stageLocalChanges codec config journal journal.referenceCursor first .appliedInline
    admission = .ok middle ∧
    stageLocalChanges codec config middle middle.referenceCursor second .appliedInline
    admission = .ok staged := by
  by_cases hfirst : first = []
  · subst hfirst
    refine ⟨journal, ?_, h⟩
    have hbounded : admission ≠ .physicalReplica := by
      rintro rfl
      simp [stageLocalChanges, suppressesPhysicalReplicaChanges, rejectIf,
        bind, Except.bind] at h
    simp [stageLocalChanges, suppressesPhysicalReplicaChanges, hbounded,
      bind, Except.bind, pure, Except.pure]
  have hboth : first ++ second ≠ [] := by simp [hfirst]
  obtain ⟨hreplica, hlimit, hdelivered, _, happended, htransition, rfl⟩ :=
    (inline_stageLocalChanges_iff hlog hboth).mp h
  rw [List.foldlM_append, bind_eq_ok] at happended
  obtain ⟨between, hbetween, happended⟩ := happended
  obtain ⟨_, _, _, hsettled, _, hmore⟩ := foldlM_appendRecord_grows hbetween
  obtain ⟨_, _, _, hsettled', _, -⟩ :=
    foldlM_appendRecord_grows happended
  have hsettled_le := hlog.settled_le
  have hwithin := checkTransition_eq_ok.mp htransition
  have hless : admission = .bounded → ¬ OverLimit config.watchRetention (between.retainedEntries -
    journal.retainedEntries) (between.retainedBytes - journal.retainedBytes) ∧ ¬ OverLimit
    config.watchRetention between.retainedEntries between.retainedBytes := by
    intro hbounded
    obtain ⟨-, htotal⟩ := hwithin hbounded
    simp only [OverLimit, not_or, not_lt] at htotal ⊢
    omega
  have hmiddle := (inline_stageLocalChanges_iff hlog hfirst).mpr
    ⟨hreplica, hlimit, hdelivered, between, hbetween, checkTransition_eq_ok.mpr hless, rfl⟩
  refine ⟨_, hmiddle, ?_⟩
  obtain ⟨_, -, hlogs, -, -⟩ := logs_stageLocalChanges hlog hlog.cursor_le hmiddle
  by_cases hsecond : second = []
  · subst hsecond
    cases happended
    simp [stageLocalChanges, suppressesPhysicalReplicaChanges, hreplica,
      bind, Except.bind, pure, Except.pure]
  rw [inline_stageLocalChanges_iff hlogs hsecond]
  refine ⟨hreplica, ?_, by simp, _, foldlM_appendRecord_cursors _ _ happended, ?_, ?_⟩
  · exact fun hbounded => (hless hbounded).2
  · refine checkTransition_eq_ok.mpr fun hbounded => ?_
    obtain ⟨-, htotal⟩ := hwithin hbounded
    simp only [OverLimit, not_or, not_lt] at htotal ⊢
    omega
  rw [Function.update_idem, hsettled, hsettled', hsettled]
  by_cases hsame : journal.settledThrough = journal.tail
  · simp [hsame]
  have hbehind : journal.settledThrough ≠ between.tail := by omega
  simp [hsame, hbehind]

end

variable {config : NodeConfig} {store next last : LocalStore} {progress : BulkProgress}

/-- The store after the write of a batch with the given journal. -/
def writtenStore
    (store : LocalStore) (progress : BulkProgress) (journal : JournalTables) : LocalStore :=
  { store with
    source :=
      { store.source with
        journal
        objects := progress.bulk.objects
        blobs := progress.bulk.blobs
        referenceSafeThrough :=
          if progress.changes = [] then store.source.referenceSafeThrough else journal.tail }
    receipts := progress.bulk.receipts
    locators := progress.bulk.locators
    versionHighWatermark := progress.highWatermark.or store.versionHighWatermark
    clock := progress.bulk.clock }

/-- A batch is written if the journal admits its records. -/
theorem persistBulk_iff {log : List LogEntry}
    (h : NodeSound codec config log store) :
    store.persistBulk codec config admission progress = .ok next ↔ ∃ journal,
    stageLocalChanges codec config.store store.source.journal
    store.source.journal.referenceCursor progress.changes .appliedInline admission = .ok journal ∧
    writtenStore store progress journal = next := by
  simp only [LocalStore.persistBulk, SourceStore.append, ok_rules, exists_exists_and_eq_and]
  refine exists_congr fun journal => and_congr_right fun hstaged => ?_
  by_cases hchanges : progress.changes = []
  · simp only [hchanges, if_true, writtenStore]
  obtain ⟨_, hlogs, -, _, -⟩ := inline_stageLocalChanges h.logs hchanges hstaged
  have hsafe := h.safe_le
  have hgrows : store.source.journal.tail ≤ journal.tail := by
    rw [h.logs.tail_eq, hlogs.tail_eq, List.length_append]
    omega
  have hsettled : ¬ journal.tail < store.source.referenceSafeThrough := by omega
  simp only [hchanges, if_false, SourceStore.settleInline, hlogs.status, hsettled, writtenStore]

/-- The write of a batch can be continued by the write of what comes after it. -/
theorem persistBulk_continue {log : List LogEntry} {whole : BulkProgress}
    {more : List PendingLocalChange} {rest : BulkProgress}
    (h : NodeSound codec config log store) (hnext : ∃ entries,
    NodeSound codec config (log ++ entries) next)
    (hpersist : store.persistBulk codec config admission progress = .ok next)
    (hwhole : store.persistBulk codec config admission whole = .ok last)
    (hchanges : whole.changes = progress.changes ++ more) (hmore : rest.changes = more)
    (hvisible : Visible whole.bulk rest.bulk)
    (hwatermark : rest.highWatermark.or progress.highWatermark = whole.highWatermark) :
    next.persistBulk codec config admission rest = .ok last := by
  obtain ⟨_, hnext⟩ := hnext
  rw [persistBulk_iff h] at hpersist hwhole
  obtain ⟨journal, hjournal, rfl⟩ := hpersist
  obtain ⟨final, hfinal, rfl⟩ := hwhole
  rw [hchanges] at hfinal
  obtain ⟨_, hmiddle, hfinal⟩ := stageLocalChanges_append h.logs hfinal
  rw [hjournal, Except.ok.injEq] at hmiddle
  subst hmiddle
  rw [persistBulk_iff hnext]
  refine ⟨final, by rw [hmore]; exact hfinal, ?_⟩
  have hsafe : (if rest.changes = [] then
        (if progress.changes = [] then store.source.referenceSafeThrough else journal.tail)
        else
          final.tail) =
        if whole.changes = [] then store.source.referenceSafeThrough else final.tail := by
    rw [hchanges, hmore]
    by_cases hnone : more = []
    · subst hnone
      have hsame : final = journal := by
        rcases stageLocalChanges_eq_ok hfinal with ⟨-, rfl⟩ | ⟨hsome, -⟩
        · rfl
        · exact absurd rfl hsome
      simp [hsame]
    · simp [hnone]
  simp only [writtenStore, hsafe, hvisible.objects_eq, hvisible.blobs_eq, hvisible.receipts_eq,
    hvisible.locators_eq, hvisible.clock_eq, ← hwatermark, Option.or_assoc]

variable {context : BulkContext} {surplus : BlobRef → Int}

section

variable {next : BulkContext} {operation : PreparedOperation} {reading index : Nat}
  {bulk : BulkState}

/-- The journal records an outcome adds. -/
def addedChanges
    (operation : PreparedOperation) (outcome : Except MutationError EvaluatedOperation) :
    List PendingLocalChange :=
  match outcome with
  | .error _ => []
  | .ok evaluated =>
    if evaluated.receipt.replayed then [] else evaluated.pendingHeadChanges operation

/-- The version an outcome adds. -/
def addedVersion (outcome : Except MutationError EvaluatedOperation) : Option VersionId :=
  match outcome with
  | .error _ => none
  | .ok evaluated => if evaluated.receipt.replayed then none else some evaluated.receipt.version

def raised (highWatermark added : Option VersionId) : Option VersionId :=
  match added with
  | none => highWatermark
  | some version => some (highWatermark.elim version fun current => max current version)

/-- Without backpressure every operation of the list is evaluated. -/
theorem evaluateNext_eq (hopen : progress.receiptCapacityAt = none)
    (hunreserved : requireUnreserved context.store operation = .ok ()) :
    evaluateNext context false progress (index, operation, reading) =
    { bulk := (evaluateOperation context operation reading progress.bulk).1
      results := progress.results ++ [(index, (evaluateOperation context operation reading
        progress.bulk).2.map fun evaluated => evaluated.receipt)]
      changes := progress.changes ++ addedChanges operation (evaluateOperation context operation
        reading progress.bulk).2
      highWatermark := raised progress.highWatermark (addedVersion (evaluateOperation context
        operation reading progress.bulk).2)
      receiptCapacityAt := none } := by
  unfold evaluateNext
  simp only [hopen, Option.isSome_none, Bool.false_eq_true, if_false, hunreserved]
  generalize evaluateOperation context operation reading progress.bulk = result
  obtain ⟨_, outcome⟩ := result
  cases outcome with
  | error => simp [addedChanges, addedVersion, raised]
  | ok evaluated =>
    by_cases hreplayed : evaluated.receipt.replayed = true
    · simp [addedChanges, addedVersion, raised, hreplayed]
    · simp [addedChanges, addedVersion, raised, hreplayed]

/-- A new version is later than every version before it. -/
theorem addedVersion_evaluateOperation {version : VersionId}
    (hsound : BulkSound context surplus bulk) (hsurplus : ∀ blob, 0 ≤ surplus blob)
    (hadded : addedVersion (evaluateOperation context operation reading bulk).2 = some version) :
    bulk.clock.highWatermark < version ∧
    (evaluateOperation context operation reading bulk).1.clock.highWatermark = version := by
  have hcases := @evaluateOperation_cases context surplus bulk operation hsound hsurplus reading
  generalize evaluateOperation context operation reading bulk = result at hcases hadded ⊢
  obtain ⟨_, outcome⟩ := result
  rcases hcases with ⟨-, -, hreplayed⟩ | ⟨-, evaluated, rfl, hreplaced⟩
  · cases outcome with
    | error => cases hadded
    | ok evaluated =>
      have htrue := hreplayed evaluated rfl
      simp [addedVersion, htrue] at hadded
  obtain ⟨_, _, _, -, -, -, -, -, -, -, hbefore, hclock, hversion, hstaged⟩ :=
    hreplaced.admitted
  simp only [addedVersion, hreplaced.fresh, Bool.false_eq_true, if_false, Option.some.injEq]
    at hadded
  subst hadded
  rw [hversion]
  refine ⟨hbefore, ?_⟩
  rw [hstaged]
  exact hclock

/-- The clock does not go back. -/
theorem clock_le_evaluateOperation
    (hsound : BulkSound context surplus bulk) (hsurplus : ∀ blob, 0 ≤ surplus blob) :
    bulk.clock.highWatermark ≤
    (evaluateOperation context operation reading bulk).1.clock.highWatermark := by
  rcases evaluateOperation_cases hsound hsurplus reading with
    ⟨hidle, -, -⟩ | ⟨-, _, -, hreplaced⟩
  · exact hidle.clock_le
  obtain ⟨_, _, _, -, -, -, -, -, -, -, hbefore, hclock, -, hstaged⟩ :=
    hreplaced.admitted
  rw [hstaged]
  exact hbefore.le.trans hclock.ge

end

/-- An evaluation that has not begun. -/
def unevaluated (bulk : BulkState) : BulkProgress :=
  { bulk, results := [], changes := [], highWatermark := none, receiptCapacityAt := none }

section

variable (config : NodeConfig) (settings : BucketIdentity → Except MutationError BucketSettings)
  (now : Nat)

/-- What the evaluation of a bulk reads. -/
def bulkContext (pruned : List Nat) (store : LocalStore) : BulkContext :=
  { config, store, settings, intent := none, now, prunedReceipts := pruned }

/-- The operations of a bulk, evaluated. -/
def bulkProgress (receipts : ReceiptTables) (pruned : List Nat)
    (prepared : List (Nat × PreparedOperation × Nat)) (store : LocalStore) : BulkProgress :=
  prepared.foldl (evaluateNext (bulkContext config settings now pruned store) false)
    (unevaluated (store.beginBulk receipts))

end

theorem bulkWrite_of_persist {receipts : ReceiptTables} {pruned : List Nat}
    {prepared : List (Nat × PreparedOperation × Nat)}
    (hexpired : stageExpiredMutationReceipts config.receiptCodec now store.receipts =
    .ok (receipts, pruned)) (hwritten : store.persistBulk codec config admission
    (bulkProgress config settings now receipts pruned prepared store) = .ok last) :
    store.bulkWrite codec config settings none false admission now prepared =
    (last, (bulkProgress config settings now receipts pruned prepared store).results) := by
  unfold bulkProgress bulkContext unevaluated at hwritten ⊢
  unfold LocalStore.bulkWrite
  rw [hexpired]
  dsimp only
  rw [hwritten]

/-- The context of a later submission at the same instant. -/
def laterContext (context : BulkContext) (next : LocalStore) : BulkContext :=
  { context with store := next, prunedReceipts := [] }

/-- One operation submitted on its own, with nothing left to expire. -/
def submitted (context : BulkContext) (next : LocalStore) (entry : Nat × PreparedOperation × Nat) :
    BulkProgress :=
  evaluateNext (laterContext context next) false (unevaluated (next.beginBulk next.receipts)) entry

/-- The operations so far, evaluated in one batch, and the store that a write of
the batch leaves. -/
structure Continues
    (codec : LocalChangeCodec) (admission : SourceJournalAdmission) (context : BulkContext)
    (surplus : BlobRef → Int) (progress : BulkProgress) (next : LocalStore) : Prop where
  sound : ProgressSound context surplus progress
  layers : Layered context progress.bulk
  watermark_le :
    ∀ version, progress.highWatermark = some version → version ≤ progress.bulk.clock.highWatermark
  receiptCapacityAt_eq : progress.receiptCapacityAt = none
  written : context.store.persistBulk codec context.config admission progress = .ok next

/-- The checks of the next operation that read the stored tables answer as on the
store it finds. -/
def ChecksAgree
    (context : BulkContext) (next : LocalStore) (entry : Nat × PreparedOperation × Nat) : Prop :=
  requireUnreserved context.store entry.2.1 = .ok () →
    ChecksCurrent context (laterContext context next) (next.beginBulk next.receipts) entry.2.1
      entry.2.2

theorem Continues.compared {log : List LogEntry}
    (h : Continues codec admission context surplus progress next)
    (hnode : NodeSound codec context.config log context.store) :
    Compared context progress.bulk (laterContext context next) (next.beginBulk next.receipts) := by
  obtain ⟨_, -, rfl⟩ := (persistBulk_iff hnode).mp h.written
  exact
    { layers := h.layers
      follows := ⟨rfl, rfl, rfl, rfl, rfl, rfl, rfl, rfl, rfl⟩
      fresh := ⟨fun _ => rfl, fun _ => rfl, fun _ => rfl, rfl, rfl⟩
      visible := ⟨rfl, rfl, rfl, rfl, rfl⟩
      stored := hnode.payloads }

theorem submitted_eq_bulkProgress
    (hintent : context.intent = none) (entry : Nat × PreparedOperation × Nat) :
    submitted context next entry =
    bulkProgress context.config context.settings context.now next.receipts [] [entry] next := by
  rw [submitted, laterContext, hintent]
  rfl

section

variable (h : Continues codec admission context surplus progress next)

include h

/-- Nothing is left to expire for a submission. -/
theorem Continues.stageExpired_eq :
    stageExpiredMutationReceipts context.config.receiptCodec context.now next.receipts =
    .ok (next.receipts, []) := by
  refine stageExpiredMutationReceipts_eq ?_
  rw [persistBulk_receipts h.written]
  exact h.layers.unexpired

/-- A submission on its own, written out. -/
theorem Continues.bulkWrite_eq
    (hintent : context.intent = none) (entry : Nat × PreparedOperation × Nat)
    (hlast : next.persistBulk codec context.config admission (submitted context next entry) =
    .ok last) :
    next.bulkWrite codec context.config context.settings none false admission context.now [entry] =
    (last, (submitted context next entry).results) := by
  rw [submitted_eq_bulkProgress hintent] at hlast ⊢
  exact bulkWrite_of_persist h.stageExpired_eq hlast

theorem requireUnreserved_later {log : List LogEntry}
    (hnode : NodeSound codec context.config log context.store) (operation : PreparedOperation) :
    requireUnreserved (laterContext context next).store operation =
    requireUnreserved context.store operation := by
  obtain ⟨_, -, rfl⟩ := (persistBulk_iff hnode).mp h.written
  rfl

/-- One more operation evaluated in the batch. -/
theorem Continues.grow (hsurplus : ∀ blob, 0 ≤ surplus blob)
    (hretention : 0 < context.config.receiptRetention.retentionMillis)
    (hintent : context.intent = none)
    (entry : Nat × PreparedOperation × Nat) (hfits : entry.2.1.FitsChunk)
    (hlast : context.store.persistBulk codec context.config admission
    (evaluateNext context false progress entry) = .ok last) :
    Continues codec admission context surplus (evaluateNext context false progress entry) last := by
  obtain ⟨index, operation, reading⟩ := entry
  have hsound := @progressSound_evaluateNext _ _ _ false (index, operation, reading) hsurplus
    h.sound
  cases hreserved : requireUnreserved context.store operation with
  | error =>
    rw [evaluateNext_reserved h.receiptCapacityAt_eq hreserved] at hlast hsound ⊢
    exact ⟨hsound, h.layers, h.watermark_le, h.receiptCapacityAt_eq, hlast⟩
  | ok =>
    rw [evaluateNext_eq h.receiptCapacityAt_eq hreserved] at hlast hsound ⊢
    refine ⟨hsound, ?_, ?_, rfl, hlast⟩
    · exact layered_evaluateOperation h.layers h.sound.bulk hsurplus hretention hintent hfits
        reading
    intro version hversion
    have hlater := @clock_le_evaluateOperation _ _ operation reading _ h.sound.bulk hsurplus
    cases hadded : addedVersion
      (evaluateOperation context operation reading progress.bulk).2 with
    | none =>
      rw [hadded, raised] at hversion
      exact (h.watermark_le version hversion).trans hlater
    | some _ =>
      obtain ⟨hbefore, hafter⟩ := addedVersion_evaluateOperation h.sound.bulk hsurplus hadded
      rw [hadded, raised, Option.some.injEq] at hversion
      rw [hafter, ← hversion]
      cases hhigh : progress.highWatermark with
      | none => exact le_rfl
      | some current => exact max_le ((h.watermark_le current hhigh).trans hbefore.le) le_rfl

/-- If the checks agree the operation on its own has the outcome it has in the
batch, and its write leaves what the larger batch would. -/
theorem Continues.submitted_eq {log : List LogEntry}
    (hnode : NodeSound codec context.config log context.store)
    (hcontext : surplus = fun blob => -deltaOf blob (pendingEffects context.config.store log
    context.store.source.journal))
    (entry : Nat × PreparedOperation × Nat) (hchecks : ChecksAgree context next entry)
    (hlast : context.store.persistBulk codec context.config admission
    (evaluateNext context false progress entry) = .ok last) :
    next.persistBulk codec context.config admission (submitted context next entry) = .ok last ∧
    (evaluateNext context false progress entry).results =
    progress.results ++ (submitted context next entry).results := by
  obtain ⟨_, operation, reading⟩ := entry
  have hcompared := h.compared hnode
  have hreserve := requireUnreserved_later h hnode operation
  have hsurplus : ∀ blob, 0 ≤ surplus blob := by
    rw [hcontext]
    exact deltaOf_pending_nonpos hnode
  have hnext := nodeSound_persistBulk hnode rfl (by rw [← hcontext]; exact h.sound) h.written
  cases hreserved : requireUnreserved context.store operation with
  | error =>
    rw [evaluateNext_reserved h.receiptCapacityAt_eq hreserved] at hlast ⊢
    rw [submitted, evaluateNext_reserved rfl (hreserve.trans hreserved)]
    refine ⟨?_, rfl⟩
    exact persistBulk_continue hnode hnext h.written hlast (List.append_nil _).symm rfl
      ⟨hcompared.visible.objects_eq, hcompared.visible.blobs_eq, hcompared.visible.receipts_eq,
        hcompared.visible.locators_eq, hcompared.visible.clock_eq⟩ rfl
  | ok =>
    obtain ⟨houtcome, hvisible⟩ :=
      evaluateOperation_follows hcompared h.sound.bulk (hchecks hreserved)
    rw [evaluateNext_eq h.receiptCapacityAt_eq hreserved] at hlast ⊢
    rw [submitted, evaluateNext_eq rfl (hreserve.trans hreserved)]
    dsimp only [unevaluated]
    rw [houtcome]
    refine ⟨?_, rfl⟩
    refine persistBulk_continue hnode hnext h.written hlast rfl rfl hvisible ?_
    cases hadded : addedVersion
      (evaluateOperation context operation reading progress.bulk).2 with
    | none => rfl
    | some _ =>
      obtain ⟨hbefore, -⟩ := addedVersion_evaluateOperation h.sound.bulk hsurplus hadded
      cases hhigh : progress.highWatermark with
      | none => rfl
      | some current =>
        have hcurrent := (h.watermark_le current hhigh).trans hbefore.le
        simp [raised, max_eq_right hcurrent]

end

end Keldra.LocalNode
