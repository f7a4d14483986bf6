import Keldra.Delivery.Passes
import Keldra.LocalNode.Model
import Keldra.Store.BulkEvaluation

/-!
# The invariant of a node on its own

The references of every payload are the stored descriptors that name it plus
what the journal records behind the node's reference cursor still have to take
away.  Such records come from retention only, so they only take away.

The rules below say which changes of the store keep the invariant: quiet appends,
inline appends, retention, and the application of a page of the journal.
-/

namespace Keldra.LocalNode

open Foundation Store List

variable {codec : LocalChangeCodec} {config : StoreConfig} {log : List LogEntry}
  {journal staged : JournalTables} {changes : List PendingLocalChange}

section

/-- An append without reference effects moves the cursor only along a delivered
tail. -/
theorem quiet_stageLocalChanges {cursors : SourceId → Nat} {admission : SourceJournalAdmission}
    (hlog : Logs codec config log journal) (hcursors : cursors config.sourceId ≤ journal.tail)
    (h : stageLocalChanges codec config journal cursors changes .noReferenceEffects admission =
    .ok staged) : ∃ entries, Logs codec config (log ++ entries) staged ∧ logEffects entries = [] ∧
    staged.retentionFloor = journal.retentionFloor ∧
    (staged.referenceCursor config.sourceId = cursors config.sourceId ∨
    (journal.referenceCursor config.sourceId = journal.tail ∧
    staged.referenceCursor config.sourceId = staged.tail)) := by
  obtain ⟨entries, happends, hlogs, hfloor, -⟩ := logs_stageLocalChanges hlog hcursors h
  rcases stageLocalChanges_eq_ok h with ⟨-, rfl⟩ |
    ⟨-, -, _, _, _, hmoves, -, rfl⟩
  · have hlength : (log ++ entries).length = log.length := by
      rw [← hlogs.tail_eq, ← hlog.tail_eq]
    have hnone : entries = [] := by
      rw [length_append] at hlength
      exact eq_nil_of_length_eq_zero (by omega)
    exact ⟨entries, hlogs, by rw [hnone]; rfl, hfloor, Or.inl rfl⟩
  simp only [movesReferenceCursor, ok_rules, any_eq_true, not_exists, not_and,
    Bool.not_eq_true] at hmoves
  obtain ⟨hquiet, rfl⟩ := hmoves
  refine ⟨entries, hlogs, ?_, hfloor, ?_⟩
  · rcases happends with rfl | happends
    · rfl
    rw [logEffects_of_appends happends]
    refine flatMap_eq_nil_iff.mpr ?_
    intro change hchange
    exact Delivery.referenceDeltas_atOffset (hquiet change hchange) 0
  by_cases hcursor : journal.referenceCursor config.sourceId = journal.tail
  · right
    simp [hcursor]
  simp [hcursor]

/-- An append that applied its effects needs a delivered tail, and moves the
cursor along. -/
theorem inline_stageLocalChanges {admission : SourceJournalAdmission}
    (hlog : Logs codec config log journal) (hchanges : changes ≠ [])
    (h : stageLocalChanges codec config journal journal.referenceCursor changes .appliedInline
    admission = .ok staged) : ∃ entries, Logs codec config (log ++ entries) staged ∧
    staged.retentionFloor = journal.retentionFloor ∧
    journal.referenceCursor config.sourceId = journal.tail ∧
    staged.referenceCursor config.sourceId = staged.tail := by
  obtain ⟨entries, -, hlogs, hfloor, -⟩ := logs_stageLocalChanges hlog hlog.cursor_le h
  refine ⟨entries, hlogs, hfloor, ?_⟩
  have hbounded : admission ≠ .physicalReplica := by
    rintro rfl
    simp only [stageLocalChanges, SourceJournalAdmission.suppressesPhysicalReplicaChanges, ok_rules,
      ne_eq, not_true_eq_false, if_false] at h
    obtain ⟨_, ⟨hphysical, -⟩, -⟩ := h
    simp at hphysical
  rcases stageLocalChanges_eq_ok h with ⟨hnone | hreplica, -⟩ |
    ⟨-, -, _, _, _, hmoves, -, rfl⟩
  · exact absurd hnone hchanges
  · exact absurd hreplica hbounded
  simp only [movesReferenceCursor, ok_rules, not_not] at hmoves
  obtain ⟨hcursor, rfl⟩ := hmoves
  exact ⟨hcursor, by simp⟩

end

section

variable {source : SourceStore} {blobs : BlobTables}

/-- A page read from the journal carries the effects of its records. -/
def Carried (config : StoreConfig) (log : List LogEntry) (request : ReferenceDeltaBatch) : Prop :=
  request.source = config.sourceId ∧ request.after ≤ log.length ∧ ∃ changes,
    changes <+: (log.map LogEntry.change).drop request.after ∧
      request.through = request.after + changes.length ∧ request.deltas = localEffects changes

theorem Carried.mono {request : ReferenceDeltaBatch}
    (h : Carried config log request)
    (entries : List LogEntry) : Carried config (log ++ entries) request := by
  obtain ⟨hsource, hwithin, changes, hpart, hthrough, hdeltas⟩ := h
  refine ⟨hsource, ?_, changes, ?_, hthrough, hdeltas⟩
  · rw [length_append]
    omega
  rw [map_append]
  exact hpart.trans ((prefix_append _ _).drop _)

/-- The effects a node has still to deliver to itself. -/
def pendingEffects (config : StoreConfig) (log : List LogEntry) (journal : JournalTables) :
    List ReferenceDelta :=
  logEffects (log.drop (journal.referenceCursor config.sourceId))

structure NodeSound (codec : LocalChangeCodec) (config : NodeConfig) (log : List LogEntry)
    (store : LocalStore) : Prop where
  logs : Logs codec config.store log store.source.journal
  carried : ∀ request ∈ store.source.deliveries, Carried config.store log request
  safe_le :
    store.source.referenceSafeThrough ≤ store.source.journal.referenceCursor config.store.sourceId
  floor_le :
    store.source.journal.retentionFloor ≤ store.source.journal.referenceCursor config.store.sourceId
  releases : ∀ delta ∈ pendingEffects config.store log store.source.journal, delta.change ≤ 0
  payloads : PayloadsSound store.source.blobs
  objects : ObjectsSound store.clock.highWatermark store.source.objects
  watermark : ObjectsSound (store.versionHighWatermark.getD 0) store.source.objects
  balanced :
    Balanced (fun blob => -deltaOf blob (pendingEffects config.store log store.source.journal))
      store.source.blobs store.source.objects

variable {config : NodeConfig} {entries : List LogEntry} {store next : LocalStore}

theorem nodeSound_initial (codec : LocalChangeCodec) (config : NodeConfig) (nodeId : Nat) :
    NodeSound codec config [] (LocalStore.initial nodeId) where
  logs := logs_initial
  carried := fun _ h => by cases h
  safe_le := le_rfl
  floor_le := le_rfl
  releases := fun _ h => by cases h
  payloads :=
    { valid := fun _ _ h => by cases h
      sealed := fun _ h => by cases h }
  objects :=
    { descriptor := fun _ _ h => by cases h
      current := fun _ _ h => by cases h }
  watermark :=
    { descriptor := fun _ _ h => by cases h
      current := fun _ _ h => by cases h }
  balanced := fun _ => rfl

/-- Records without effects behind the log leave the pending effects, and the cursor does
not move back. -/
theorem pendingEffects_quiet (hlog : Logs codec config.store log journal)
    (hlogs : Logs codec config.store (log ++ entries) staged) (hquiet : logEffects entries = [])
    (hcursor : staged.referenceCursor config.store.sourceId =
    journal.referenceCursor config.store.sourceId ∨
    (journal.referenceCursor config.store.sourceId = journal.tail ∧
    staged.referenceCursor config.store.sourceId = staged.tail)) :
    pendingEffects config.store (log ++ entries) staged =
    pendingEffects config.store log journal ∧ journal.referenceCursor config.store.sourceId ≤
    staged.referenceCursor config.store.sourceId := by
  have hwithin := hlog.cursor_le
  rw [hlog.tail_eq] at hwithin
  unfold pendingEffects
  rcases hcursor with hsame | ⟨hdelivered, hmoved⟩
  · rw [hsame, drop_append_of_le_length hwithin, logEffects_append, hquiet, append_nil]
    exact ⟨rfl, le_rfl⟩
  rw [hdelivered, hmoved, hlog.tail_eq, hlogs.tail_eq, drop_length, drop_length, length_append]
  exact ⟨rfl, Nat.le_add_right _ _⟩

section

variable (h : NodeSound codec config log store)

include h

section

variable (hpayloads : PayloadsSound blobs)
  (hheld : ∀ artifact, blobs.held artifact = store.source.blobs.held artifact)

include hpayloads hheld

/-- An append without effects, in a batch that keeps every payload's references. -/
theorem NodeSound.quiet {admission : SourceJournalAdmission}
    (happend : SourceStore.append codec config.store store.source changes .noReferenceEffects
    admission (fun tables => (tables.1, blobs)) = .ok source) :
    ∃ entries, NodeSound codec config (log ++ entries) { store with source } := by
  simp only [SourceStore.append, ok_rules] at happend
  obtain ⟨_, hstaged, rfl⟩ := happend
  obtain ⟨entries, hlogs, hquiet, hfloor, hcursor⟩ :=
    quiet_stageLocalChanges h.logs h.logs.cursor_le hstaged
  obtain ⟨hpending, hforward⟩ := pendingEffects_quiet h.logs hlogs hquiet hcursor
  refine ⟨entries, ?_⟩
  exact
    { h with
      logs := hlogs
      carried := fun request hrequest => (h.carried request hrequest).mono entries
      safe_le := h.safe_le.trans hforward
      floor_le := by
        rw [hfloor]
        exact h.floor_le.trans hforward
      releases := by
        rw [hpending]
        exact h.releases
      payloads := hpayloads
      balanced := by
        intro blob
        rw [hheld, hpending]
        exact h.balanced blob }

/-- Nothing but the payloads' byte plane changes. -/
theorem NodeSound.setBlobs : NodeSound codec config log
    { store with source := { store.source with blobs } } :=
  { h with payloads := hpayloads, balanced := fun blob => (hheld _).trans (h.balanced blob) }

end

theorem deltaOf_pending_nonpos (blob : BlobRef) :
    0 ≤ -deltaOf blob (pendingEffects config.store log store.source.journal) := by
  have hle : deltaOf blob (pendingEffects config.store log store.source.journal) ≤ 0 :=
    deltaOf_nonpos h.releases
  omega

end

/-- A delivered tail leaves nothing pending. -/
theorem pendingEffects_eq_nil (hlog : Logs codec config.store log journal)
    (hdelivered : journal.referenceCursor config.store.sourceId = journal.tail) :
    pendingEffects config.store log journal = [] := by
  rw [pendingEffects, hdelivered, hlog.tail_eq, drop_length]
  rfl

/-- Everything but the reference-safe offset is as before an inline settlement,
and that offset is the tail at most. -/
theorem settleInline_eq (hlog : Logs codec config.store log source.journal) :
    ∃ safe, source.settleInline config.store = { source with referenceSafeThrough := safe } ∧
      (safe = source.referenceSafeThrough ∨ safe = source.journal.tail) := by
  simp only [SourceStore.settleInline, hlog.status]
  split
  · exact ⟨_, rfl, Or.inl rfl⟩
  · exact ⟨_, rfl, Or.inr rfl⟩

/-- An append that applied its effects: the batch must leave payloads and objects
in balance. -/
theorem NodeSound.inline {admission : SourceJournalAdmission}
    {objects : ObjectTables} (h : NodeSound codec config log store) (hchanges : changes ≠ [])
    (happend : SourceStore.append codec config.store store.source changes .appliedInline
    admission (fun _ => (objects, blobs)) = .ok source)
    (hsource : next.source = source.settleInline config.store) (hpayloads : PayloadsSound blobs)
    (hobjects : ObjectsSound next.clock.highWatermark objects)
    (hwatermark : ObjectsSound (next.versionHighWatermark.getD 0) objects) (hbalanced : Balanced
    (fun blob => -deltaOf blob (pendingEffects config.store log store.source.journal))
    blobs objects) : ∃ entries, NodeSound codec config (log ++ entries) next := by
  simp only [SourceStore.append, ok_rules] at happend
  obtain ⟨journal, hstaged, rfl⟩ := happend
  obtain ⟨entries, hlogs, hfloor, hdelivered, hmoved⟩ :=
    inline_stageLocalChanges h.logs hchanges hstaged
  have hbefore := pendingEffects_eq_nil h.logs hdelivered
  have hafter := pendingEffects_eq_nil hlogs hmoved
  have hgrows : store.source.journal.tail ≤ journal.tail := by
    rw [h.logs.tail_eq, hlogs.tail_eq, length_append]
    omega
  have hjournal : Logs codec config.store (log ++ entries)
      ({ store.source with journal, objects, blobs } : SourceStore).journal := hlogs
  obtain ⟨_, hsettled, hsafe⟩ := settleInline_eq hjournal
  rw [hsettled] at hsource
  have hsafe_le := h.safe_le
  have hfloor_le := h.floor_le
  refine ⟨entries, ?_⟩
  rw [hbefore] at hbalanced
  constructor
  case logs =>
    rw [hsource]
    exact hlogs
  case carried =>
    rw [hsource]
    exact fun request hrequest => (h.carried request hrequest).mono entries
  case safe_le =>
    rw [hsource]
    dsimp only at hsafe ⊢
    rcases hsafe with _ | _
    · omega
    · omega
  case floor_le =>
    rw [hsource]
    rw [hmoved, hfloor]
    omega
  case releases =>
    rw [hsource]
    rw [hafter]
    simp
  case payloads =>
    rw [hsource]
    exact hpayloads
  case objects =>
    rw [hsource]
    exact hobjects
  case watermark =>
    rw [hsource]
    exact hwatermark
  case balanced =>
    rw [hsource]
    rw [hafter]
    exact hbalanced

/-- Retention: records of releases join the log while descriptors go. -/
theorem NodeSound.retire (h : NodeSound codec config log store)
    (hlogs : Logs codec config.store (log ++ entries) source.journal)
    (hcursor : source.journal.referenceCursor = store.source.journal.referenceCursor)
    (hsafe : source.referenceSafeThrough ≤
    store.source.journal.referenceCursor config.store.sourceId)
    (hfloor : source.journal.retentionFloor ≤
    store.source.journal.referenceCursor config.store.sourceId)
    (hblobs : source.blobs = store.source.blobs)
    (hdeliveries : source.deliveries = store.source.deliveries)
    (hretires : Retires store.source.objects source.objects (logEffects entries)) :
    NodeSound codec config (log ++ entries) { store with source } := by
  have hwithin := h.logs.cursor_le
  rw [h.logs.tail_eq] at hwithin
  have hpending : pendingEffects config.store (log ++ entries) source.journal =
      pendingEffects config.store log store.source.journal ++ logEffects entries := by
    unfold pendingEffects
    rw [hcursor, drop_append_of_le_length hwithin, logEffects_append]
  have hobjects : ∀ bound, ObjectsSound bound store.source.objects →
      ObjectsSound bound source.objects := by
    intro _ hsound
    constructor
    case descriptor =>
      intro key stored hstored
      obtain ⟨old, hold, heq⟩ := hretires.kept key stored hstored
      rw [← heq]
      exact hsound.descriptor key old hold
    case current =>
      intro key head hhead
      rw [hretires.heads_eq] at hhead
      obtain ⟨old, hold, hdeleted⟩ := hsound.current key head hhead
      obtain ⟨stored, hstored, heq⟩ := hretires.current key head hhead old hold
      exact ⟨stored, hstored, by rw [heq]; exact hdeleted⟩
  constructor
  case logs => exact hlogs
  case carried =>
    intro request hrequest
    rw [hdeliveries] at hrequest
    exact (h.carried request hrequest).mono entries
  case safe_le =>
    rw [hcursor]
    exact hsafe
  case floor_le =>
    rw [hcursor]
    exact hfloor
  case releases =>
    rw [hpending]
    intro delta hdelta
    rcases mem_append.mp hdelta with hold | hnew
    · exact h.releases delta hold
    · exact hretires.negative delta hnew
  case payloads =>
    rw [hblobs]
    exact h.payloads
  case objects => exact hobjects _ h.objects
  case watermark => exact hobjects _ h.watermark
  case balanced =>
    intro blob
    have hbalance := h.balanced blob
    have hcounts := hretires.counts blob
    dsimp only at hbalance ⊢
    rw [hblobs, hpending, deltaOf_append]
    omega

end

end Keldra.LocalNode
