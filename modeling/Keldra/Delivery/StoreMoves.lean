import Keldra.Delivery.Model

/-!
# What the operations do to one node

Every operation moves a node's journal the same way: it adds records behind the
tail, and it may move the cursor of the node's own journal over records without
effects.  `StoreMove` says this once.  The references an artifact holds change
only when a batch of effects is applied.
-/

namespace Keldra.Delivery

open Foundation Store List

variable {codec : LocalChangeCodec} {config : StoreConfig} {log : List LogEntry}
  {store : SourceStore}

section

variable {entries : List LogEntry} {before after : SourceStore}

/-- The records behind the old tail are the new entries of the log. -/
theorem newRecords_eq {journal journal' : JournalTables}
    (hlog : Recorded codec config log journal)
    (hlogs : Recorded codec config (log ++ entries) journal')
    (hfloor : journal'.retentionFloor ≤ journal.tail) :
    newRecords codec journal journal' = entries.map LogEntry.change := by
  rw [newRecords, hlogs.changes_after hfloor, hlog.tail_eq, drop_left]

/--
A move of a node's store.  `cursors` are the reference cursors its batch writes;
the cursor of the node's own journal may also follow records without effects
from the old tail to the new one.
-/
def StoreMove (codec : LocalChangeCodec) (config : StoreConfig) (log : List LogEntry)
    (cursors : SourceId → Nat) (before after : SourceStore) : Prop :=
  ∃ entries, Logs codec config (log ++ entries) after.journal ∧
    newRecords codec before.journal after.journal = entries.map LogEntry.change ∧
      (after.journal.referenceCursor = cursors ∨
      (before.journal.referenceCursor config.sourceId = before.journal.tail ∧
      after.journal.referenceCursor = Function.update cursors config.sourceId after.journal.tail ∧
      ∀ entry ∈ entries, entry.change.referenceDeltas = []))

theorem StoreMove.still
    (hlog : Logs codec config log before.journal) (hjournal : after.journal = before.journal) :
    StoreMove codec config log before.journal.referenceCursor before after := by
  refine ⟨[], ?_, ?_, .inl ?_⟩
  · rw [append_nil, hjournal]
    exact hlog
  · simp [newRecords, hjournal]
  · rw [hjournal]

theorem floor_le_tail (hlog : Logs codec config log before.journal)
    (hmove : JournalMove codec config log before after) :
    after.journal.retentionFloor ≤ before.journal.tail := by
  have hsettled := hlog.settled_le
  have hfloor := hlog.floor_le_settled
  rcases hmove.floor_safe with _ | ⟨_, -⟩
  · omega
  · omega

theorem referenceDeltas_atOffset
    {pending : PendingLocalChange} (h : pending.hasReferenceEffects = false) (offset : Nat) :
    (pending.atOffset offset).referenceDeltas = [] := by
  rcases pending with _ | _ | ⟨_, _, _ | _⟩ | _ | _ | _ <;>
    simp_all [PendingLocalChange.hasReferenceEffects, PendingLocalChange.atOffset,
      LocalChange.referenceDeltas]

theorem referenceDeltas_of_appends {changes : List PendingLocalChange}
    (happends : Appends log changes entries)
    (hchanges : ∀ change ∈ changes, change.hasReferenceEffects = false) :
    ∀ entry ∈ entries, entry.change.referenceDeltas = [] := by
  induction happends with
  | nil => simp
  | cons _ ih =>
    intro entry hentry
    rcases mem_cons.mp hentry with rfl | hentry
    · exact referenceDeltas_atOffset (hchanges _ mem_cons_self) _
    · exact ih (fun change hchange => hchanges change (mem_cons_of_mem _ hchange)) entry hentry

/-- A cursor moves only over changes without effects, from the tail. -/
theorem movesReferenceCursor_eq_true {effects : LocalReferenceEffects}
    {changes : List PendingLocalChange} {cursor tail : Nat}
    (heffects : effects = .appliedInline → ∀ change ∈ changes, change.hasReferenceEffects = false)
    (h : movesReferenceCursor effects changes cursor tail = .ok true) :
    cursor = tail ∧ ∀ change ∈ changes, change.hasReferenceEffects = false := by
  cases effects with
  | appliedInline =>
    simp only [movesReferenceCursor, ok_rules, not_not] at h
    exact ⟨h.1, heffects rfl⟩
  | noReferenceEffects =>
    simp only [movesReferenceCursor, ok_rules, any_eq_true, decide_eq_true_eq] at h
    obtain ⟨hnone, hcursor⟩ := h
    refine ⟨hcursor, ?_⟩
    intro change hchange
    by_contra hflag
    exact hnone ⟨change, hchange, by simpa using hflag⟩
  | deferred => cases h

/-- An append moves the store. -/
theorem storeMove_append {cursors : SourceId → Nat} {effects : LocalReferenceEffects}
    {changes : List PendingLocalChange} {admission : SourceJournalAdmission}
    (hlog : Logs codec config log before.journal)
    (hcursors : cursors config.sourceId ≤ before.journal.tail)
    (heffects : effects = .appliedInline → ∀ change ∈ changes, change.hasReferenceEffects = false)
    (h : stageLocalChanges codec config before.journal cursors changes effects admission =
    .ok after.journal) : StoreMove codec config log cursors before after := by
  obtain ⟨entries, happends, hlogs, _, -⟩ := logs_stageLocalChanges hlog hcursors h
  have hrecords := newRecords_eq hlog.toRecorded hlogs.toRecorded (by
    have hle := hlog.floor_le_settled
    have hsettled := hlog.settled_le
    omega)
  refine ⟨entries, hlogs, hrecords, ?_⟩
  rcases stageLocalChanges_eq_ok h with ⟨-, hsame⟩ |
    ⟨-, -, _, moves, _, hmoves, -, hstaged⟩
  · exact .inl (by rw [hsame])
  cases moves with
  | false => exact .inl (by rw [hstaged]; rfl)
  | true =>
    obtain ⟨hcursor, hnone⟩ := movesReferenceCursor_eq_true heffects hmoves
    refine .inr ⟨hcursor, by rw [hstaged]; rfl, ?_⟩
    rcases happends with rfl | happends
    · simp
    · exact referenceDeltas_of_appends happends hnone

end

theorem referenceCursor_prune {forceHeadroom : Bool}
    (hlog : Logs codec config log store.journal) :
    (SourceStore.prune codec config forceHeadroom store).journal.referenceCursor =
    store.journal.referenceCursor := by
  unfold SourceStore.prune
  split
  · rename_i journal objects hpass
    obtain ⟨-, -, -, hcursor, -⟩ := logs_enforceRetention hlog hpass
    exact hcursor
  · rfl

@[simp] theorem blobs_prune (forceHeadroom : Bool) (store : SourceStore) :
    (SourceStore.prune codec config forceHeadroom store).blobs = store.blobs := by
  unfold SourceStore.prune
  split <;> rfl

/-- Maintenance keeps the reference cursors and the payload tables. -/
theorem maintenance_step {action : JournalAction}
    (hlog : Logs codec config log store.journal)
    (haction : isMaintenance action) :
    (store.step codec config action).journal.referenceCursor = store.journal.referenceCursor ∧
    (store.step codec config action).blobs = store.blobs ∧
    (store.step codec config action).deliveries = store.deliveries := by
  cases action with
  | append | readDelivery | applyReferenceDeltas => cases haction
  | settleThrough | settlePositions =>
    simp only [SourceStore.step]
    split
    · rename_i journal hsettled
      first
        | exact ⟨by rw [(settleThrough_eq_ok hlog hsettled).1], rfl, rfl⟩
        | exact ⟨by rw [(settlePositions_eq_ok hlog hsettled).1], rfl, rfl⟩
    · exact ⟨rfl, rfl, rfl⟩
  | settleInline | ensureMembership =>
    simp only [SourceStore.step, SourceStore.settleInline, SourceStore.ensureMembership,
      hlog.status]
    split <;> exact ⟨rfl, rfl, rfl⟩
  | advanceReferenceSafe | checkpoint =>
    simp only [SourceStore.step, SourceStore.advanceReferenceSafe, SourceStore.applyCheckpoint,
      hlog.status]
    repeat' split
    all_goals
      first
        | exact ⟨rfl, rfl, rfl⟩
        | exact ⟨referenceCursor_prune hlog, blobs_prune _ _, deliveries_prune _ _⟩
  | pruneForCapacity | reopen =>
    exact ⟨referenceCursor_prune hlog, blobs_prune _ _, deliveries_prune _ _⟩

theorem storeMove_maintenance {action : JournalAction}
    (hlog : Logs codec config log store.journal)
    (hdeliveries : DeliveriesWithin config store) (haction : isMaintenance action) :
    StoreMove codec config log store.journal.referenceCursor store
    (store.step codec config action) := by
  have hmove := journalMove_step hlog hdeliveries action
  obtain ⟨entries, hlogs⟩ := hmove.logs
  exact ⟨entries, hlogs, newRecords_eq hlog.toRecorded hlogs.toRecorded (floor_le_tail hlog hmove),
    Or.inl (maintenance_step hlog haction).1⟩

section

variable {cluster : Cluster} {node : Nat} {next : SourceStore}
  {artifact : DestinationReferenceArtifact}

/-- An append with the rest of its batch. -/
theorem append_eq_ok {changes : List PendingLocalChange} {effects : LocalReferenceEffects}
    {admission : SourceJournalAdmission}
    {write : ObjectTables × BlobTables → ObjectTables × BlobTables}
    (h : SourceStore.append codec config store changes effects admission write = .ok next) :
    stageLocalChanges codec config store.journal store.journal.referenceCursor changes effects
    admission = .ok next.journal ∧
    next.blobs = (write (store.objects, store.blobs)).2 ∧ next.deliveries = store.deliveries := by
  simp only [SourceStore.append, ok_rules] at h
  obtain ⟨_, hstaged, rfl⟩ := h
  exact ⟨hstaged, rfl, rfl⟩

/-- What a local operation leaves: a moved journal, the same references for
every artifact, and the same requests. -/
def LocalMove
    (cluster : Cluster) (node : Nat) (log : List LogEntry) (before after : SourceStore) : Prop :=
  StoreMove cluster.codec (cluster.storeConfig node) log before.journal.referenceCursor
    before after ∧
    (∀ artifact, after.blobs.held artifact = before.blobs.held artifact) ∧
      after.deliveries = before.deliveries

theorem LocalMove.still (hlog : Logs cluster.codec (cluster.storeConfig node) log store.journal) :
    LocalMove cluster node log store store :=
  ⟨StoreMove.still hlog rfl, fun _ => rfl, rfl⟩

/-- An append whose batch keeps the references is a local move. -/
theorem localMove_append {effects : LocalReferenceEffects} {changes : List PendingLocalChange}
    {write : ObjectTables × BlobTables → ObjectTables × BlobTables}
    {admission : SourceJournalAdmission}
    (hlog : Logs cluster.codec (cluster.storeConfig node) log store.journal)
    (heffects : effects = .appliedInline → ∀ change ∈ changes, change.hasReferenceEffects = false)
    (hheld : ∀ artifact,
    (write (store.objects, store.blobs)).2.held artifact = store.blobs.held artifact)
    (h : SourceStore.append cluster.codec (cluster.storeConfig node) store changes effects
    admission write = .ok next) : LocalMove cluster node log store next := by
  obtain ⟨hstaged, hblobs, hdeliveries⟩ := append_eq_ok h
  refine ⟨storeMove_append hlog hlog.cursor_le heffects hstaged, ?_, hdeliveries⟩
  intro artifact
  rw [hblobs]
  exact hheld artifact

theorem held_remove (blobs : BlobTables) (artifact other : DestinationReferenceArtifact) :
    (blobs.remove artifact).held other = if other = artifact then 0 else blobs.held other := by
  unfold BlobTables.held BlobTables.remove
  by_cases hother : other = artifact
  · simp [hother]
  · simp [hother]

section

variable (hlog : Logs cluster.codec (cluster.storeConfig node) log store.journal)

include hlog

theorem localMove_seal {artifacts : List DestinationReferenceArtifact} {now : Nat}
    {admission : SourceJournalAdmission} {place : BlobTables → BlobTables}
    (h : store.sealArtifacts cluster.codec (cluster.storeConfig node) artifacts now admission
    place = .ok next) : LocalMove cluster node log store next := by
  simp only [SourceStore.sealArtifacts, bind_eq_ok] at h
  obtain ⟨_, hstates, h⟩ := h
  refine localMove_append hlog (fun hinline => by cases hinline) ?_ h
  intro artifact
  exact held_reserveArtifacts hstates artifact

theorem localMove_release {changes : List PendingLocalChange} {now : Nat}
    {effects : LocalReferenceEffects} {admission : SourceJournalAdmission}
    (hchanges : ∀ change ∈ changes, change.hasReferenceEffects = false)
    (h : store.releaseAwaiting cluster.codec (cluster.storeConfig node) artifact now changes
    effects admission = .ok next) : LocalMove cluster node log store next := by
  simp only [SourceStore.releaseAwaiting, bind_eq_ok] at h
  obtain ⟨released, hreleased, h⟩ := h
  refine localMove_append hlog (fun _ => hchanges) ?_ h
  intro _
  cases released with
  | none => rfl
  | some =>
    rw [held_putReference]
    split
    · rename_i hother
      rw [hother]
      exact held_prepareAwaitingBlobRelease hreleased
    · rfl

theorem localMove_collect {ttl dueUpdatedAt now : Nat} {removed : Bool}
    (h : store.collectDueArtifact cluster.codec (cluster.storeConfig node) ttl artifact
    dueUpdatedAt now = .ok (next, removed)) : LocalMove cluster node log store next := by
  rcases collectDueArtifact_eq_ok h with rfl | ⟨hheld, -, hcollected⟩
  · exact LocalMove.still hlog
  refine localMove_append hlog (fun hinline => by cases hinline) ?_ hcollected
  intro _
  rw [held_remove]
  split
  · rename_i hother
    rw [hother, hheld]
  · rfl

/-- Every local operation is a local move. -/
theorem localMove_nodeStep
    (hdeliveries : DeliveriesWithin (cluster.storeConfig node) store) (action : NodeAction) :
    LocalMove cluster node log store (nodeStep cluster node store action) := by
  cases action with
  | append _ deferred =>
    simp only [nodeStep, SourceStore.step]
    split
    · rename_i next hnext
      refine localMove_append hlog ?_ (fun _ => rfl) hnext
      intro hinline
      cases deferred <;> cases hinline
    · exact LocalMove.still hlog
  | sealArtifacts | collect =>
    simp only [nodeStep]
    split
    · rename_i next hnext
      first | exact localMove_seal hlog hnext | exact localMove_collect hlog hnext
    · exact LocalMove.still hlog
  | release =>
    simp only [nodeStep]
    split
    · exact LocalMove.still hlog
    rename_i hnone
    split
    · rename_i next hnext
      refine localMove_release hlog ?_ hnext
      intro change hchange
      by_contra hflag
      exact hnone (any_eq_true.mpr ⟨change, hchange, by simpa using hflag⟩)
    · exact LocalMove.still hlog
  | maintain =>
    simp only [nodeStep]
    split
    · rename_i haction
      obtain ⟨-, hblobs, hsame⟩ := maintenance_step hlog haction
      exact ⟨storeMove_maintenance hlog hdeliveries haction, fun _ => by rw [hblobs], hsame⟩
    · exact LocalMove.still hlog

theorem localMove_finishCompaction {cursors : OrdMap Nat Nat}
    (hdeliveries : DeliveriesWithin (cluster.storeConfig node) store) :
    LocalMove cluster node log store (finishCompaction cluster node store cursors) := by
  simp only [finishCompaction]
  split
  · exact LocalMove.still hlog
  rename_i safe hsafe
  split
  · exact LocalMove.still hlog
  rename_i derived hderived
  have hlog' : Logs cluster.codec (cluster.storeConfig node) log
      ({ store with derived } : SourceStore).journal := hlog
  have haction : isMaintenance (.advanceReferenceSafe safe) := rfl
  obtain ⟨-, hblobs, hsame⟩ := maintenance_step hlog' haction
  exact ⟨storeMove_maintenance hlog' hdeliveries haction, fun _ => by rw [hblobs], hsame⟩

end

end

end Keldra.Delivery
