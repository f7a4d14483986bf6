import Mathlib.Algebra.BigOperators.Group.List.Basic
import Keldra.Foundation.RetainedLog
import Keldra.Store.Journal

/-!
# The journal as a log

A journal stands for the list of all changes ever appended to it.  The tables
keep the entries above the retention floor: their records, their routes, their
number and the sum of their logical sizes.  `Recorded` says so of the tables,
and `Logs` adds the order of the cursors.  Every operation is described here by
what it does to the list.

* `recorded_appendRecord`: one appended change is one more entry;
* `logs_stageLocalChanges`: an append adds its changes in order;
* `logs_enforceRetention`: a retention pass raises the floor within the safe
  offset and adds its delayed releases.
-/

namespace Keldra.Store

open Foundation List SourceJournalAdmission

/-- A change and the bytes stored for it. -/
structure LogEntry where
  change : LocalChange
  bytes : Bytes

def LogEntry.logicalBytes (entry : LogEntry) : Nat :=
  recordLogicalBytes entry.change entry.bytes

open LogEntry

variable {codec : LocalChangeCodec} {config : StoreConfig} {log : List LogEntry}
  {journal : JournalTables}

section

variable (codec config)

/-- The tables keep the entries of a log above the retention floor. -/
structure Recorded (log : List LogEntry) (journal : JournalTables) : Prop where
  tail_eq : journal.tail = log.length
  floor_le : journal.retentionFloor ≤ log.length
  entries_eq : journal.retainedEntries = log.length - journal.retentionFloor
  encoded : ∀ entry ∈ log, codec.encode entry.change = .ok entry.bytes
  offsets : ∀ i entry, log[i]? = some entry → entry.change.offset = i + 1
  records_eq : journal.records = retained journal.retentionFloor (log.map LogEntry.bytes)
  bytes_eq :
    journal.retainedBytes = ((log.drop journal.retentionFloor).map LogEntry.logicalBytes).sum
  routes_iff : ∀ key, key ∈ journal.routes ↔ ∃ entry ∈ log.drop journal.retentionFloor,
      key ∈ routeKeys config.sourceId.sourceEpoch entry.change

/-- The tables keep a log, with the cursors in order. -/
structure Logs (log : List LogEntry) (journal : JournalTables) : Prop
    extends Recorded codec config log journal where
  floor_le_settled : journal.retentionFloor ≤ journal.settledThrough
  settled_le : journal.settledThrough ≤ journal.tail
  cursor_le : journal.referenceCursor config.sourceId ≤ journal.tail

variable {codec config}

theorem logs_initial : Logs codec config [] JournalTables.initial where
  tail_eq := rfl
  floor_le := le_rfl
  entries_eq := rfl
  encoded := by simp
  offsets := by simp
  records_eq := (retained_nil 0).symm
  bytes_eq := rfl
  routes_iff := by simp [JournalTables.initial]
  floor_le_settled := le_rfl
  settled_le := le_rfl
  cursor_le := le_rfl

/-- The status is readable exactly while the counters agree. -/
theorem Logs.status (h : Logs codec config log journal) : localWatchStatus config journal = .ok
      { sourceId := config.sourceId
        tail := journal.tail
        settledThrough := journal.settledThrough
        retentionFloor := journal.retentionFloor
        retainedEntries := journal.retainedEntries
        retainedBytes := journal.retainedBytes } := by
  have hentries := h.entries_eq
  have htail := h.tail_eq
  have hconsistent : ¬ (journal.settledThrough < journal.retentionFloor ∨ journal.tail <
    journal.settledThrough ∨ journal.retainedEntries ≠ journal.tail - journal.retentionFloor) := by
    have hfloor := h.floor_le_settled
    have hsettled := h.settled_le
    omega
  simp only [localWatchStatus, ok_rules]
  exact ⟨hconsistent, trivial⟩

/-- The stored record of a retained offset is the log's entry. -/
theorem Recorded.get?_records (h : Recorded codec config log journal) (offset : Nat) :
    journal.records.get? offset =
    if journal.retentionFloor < offset then log[offset - 1]?.map bytes else none := by
  rw [h.records_eq, get?_retained, getElem?_map]

/-- Behind the retention floor the stored records are the log's. -/
theorem Recorded.changes_after {offset : Nat}
    (h : Recorded codec config log journal)
    (hfloor : journal.retentionFloor ≤ offset) :
    ((range' (offset + 1) (journal.tail - offset)).filterMap fun position =>
    (journal.records.get? position).bind fun encoded => (codec.decode encoded).toOption) =
    (log.drop offset).map change := by
  have hlength : journal.tail - offset = ((log.drop offset).map change).length := by
    rw [h.tail_eq, length_map, length_drop]
  rw [hlength]
  apply filterMap_range'_eq
  intro i _ hchange
  rw [getElem?_map, Option.map_eq_some_iff] at hchange
  obtain ⟨entry, hentry, rfl⟩ := hchange
  have hposition : log[offset + 1 + i - 1]? = some entry := by
    rw [← hentry, getElem?_drop]
    congr 1
    omega
  have hdecode := codec.decode_of_encode _ _ (h.encoded entry (mem_of_getElem? hposition))
  rw [h.get?_records, if_pos (by omega), hposition]
  simp [hdecode, Except.toOption]

end

variable {pending : PendingLocalChange} {changes : List PendingLocalChange}

section

variable {ε : Type}

/-- What writing one change behind the tail leaves. -/
theorem appendRecord_eq_ok (h : appendRecord codec config fail admitSize journal pending =
    .ok appended) : ∃ encoded routes, codec.encode (pending.atOffset (journal.tail + 1)) =
    .ok encoded ∧ stageJournalRoutes journal.routes config.sourceId.sourceEpoch (pending.atOffset
    (journal.tail + 1)) = .ok routes ∧ appended =
    { journal with
      tail := journal.tail + 1
      retainedEntries := journal.retainedEntries + 1
      retainedBytes := journal.retainedBytes + recordLogicalBytes (pending.atOffset (journal.tail +
        1)) encoded
      records := journal.records.insert (journal.tail + 1) encoded
      routes } := by
  simp only [appendRecord, bind_eq_ok, okOr_eq_ok, mapError_eq_ok, pure_eq_ok,
    checkedAdd64_eq_some] at h
  obtain ⟨_, ⟨-, rfl⟩, encoded, hencoded, -, -, routes, hroutes, _, ⟨-, rfl⟩, _, ⟨-, rfl⟩, rfl⟩ := h
  exact ⟨encoded, routes, hencoded, hroutes, rfl⟩

theorem sum_drop_snoc {floor : Nat}
    (hfloor : floor ≤ log.length) (entry : LogEntry) :
    (((log ++ [entry]).drop floor).map logicalBytes).sum =
    ((log.drop floor).map logicalBytes).sum + entry.logicalBytes := by
  rw [drop_append_of_le_length hfloor, map_append, sum_append]
  simp

/-- One appended change is one more entry of the log. -/
theorem recorded_appendRecord (hlog : Recorded codec config log journal)
    (h : appendRecord codec config fail admitSize journal pending = .ok appended) :
    ∃ encoded, Recorded codec config (log ++
    [{ change := pending.atOffset (log.length + 1), bytes := encoded }]) appended ∧
    appended.retentionFloor = journal.retentionFloor ∧
    appended.settledThrough = journal.settledThrough ∧
    appended.referenceCursor = journal.referenceCursor := by
  obtain ⟨encoded, _, hencoded, hroutes, rfl⟩ := appendRecord_eq_ok h
  rw [hlog.tail_eq] at hencoded hroutes
  have hentries := hlog.entries_eq
  have hfloor := hlog.floor_le
  refine ⟨encoded, ?_, rfl, rfl, rfl⟩
  constructor
  case tail_eq => simp [hlog.tail_eq]
  case floor_le =>
    simp only [length_append, length_singleton]
    omega
  case entries_eq =>
    simp only [length_append, length_singleton]
    omega
  case encoded =>
    intro entry hentry
    rcases mem_append.mp hentry with hold | hnew
    · exact hlog.encoded entry hold
    rw [mem_singleton.mp hnew]
    exact hencoded
  case offsets =>
    intro i entry hentry
    by_cases hi : i < log.length
    · rw [getElem?_append_left hi] at hentry
      exact hlog.offsets i entry hentry
    rw [getElem?_append_right (by omega), getElem?_singleton] at hentry
    split at hentry
    · cases hentry
      rw [PendingLocalChange.offset_atOffset]
      omega
    · cases hentry
  case records_eq =>
    have hlength : (log.map bytes).length = log.length := length_map _
    have hsnoc := retained_snoc (by omega : journal.retentionFloor ≤
      (log.map bytes).length) encoded
    rw [hlength, ← hlog.records_eq, ← hlog.tail_eq] at hsnoc
    rw [hsnoc, map_append]
    rfl
  case bytes_eq =>
    rw [sum_drop_snoc hfloor, hlog.bytes_eq, hlog.tail_eq]
    rfl
  case routes_iff =>
    intro _
    rw [mem_stageJournalRoutes hroutes, hlog.routes_iff, drop_append_of_le_length hfloor]
    simp

/-- The entries that changes become behind a log. -/
inductive Appends : List LogEntry → List PendingLocalChange → List LogEntry → Prop where
  | nil (log : List LogEntry) : Appends log [] []
  | cons {log : List LogEntry} {pending : PendingLocalChange} {rest : List PendingLocalChange}
      {encoded : Bytes} {entries : List LogEntry}
      (tail : Appends (log ++ [{ change := pending.atOffset (log.length + 1), bytes := encoded }])
        rest entries) :
      Appends log (pending :: rest)
        ({ change := pending.atOffset (log.length + 1), bytes := encoded } :: entries)

/-- Appending changes one after another adds them to the log in order. -/
theorem recorded_foldlM (hlog : Recorded codec config log journal)
    (h : changes.foldlM (appendRecord codec config fail admitSize) journal = .ok appended) :
    ∃ entries, Appends log changes entries ∧ Recorded codec config (log ++ entries) appended ∧
    appended.retentionFloor = journal.retentionFloor ∧
    appended.settledThrough = journal.settledThrough ∧
    appended.referenceCursor = journal.referenceCursor := by
  induction changes generalizing log journal with
  | nil =>
    cases h
    refine ⟨[], Appends.nil log, ?_, rfl, rfl, rfl⟩
    rw [append_nil]
    exact hlog
  | cons _ _ ih =>
    rw [foldlM_cons, bind_eq_ok] at h
    obtain ⟨_, hmiddle, hrest⟩ := h
    obtain ⟨_, hrecorded, hfloor, hsettled, hcursor⟩ := recorded_appendRecord hlog hmiddle
    obtain ⟨entries, happends, hlogs, hfloor', hsettled', hcursor'⟩ := ih hrecorded hrest
    refine ⟨_ :: entries, Appends.cons happends, ?_, hfloor'.trans hfloor,
      hsettled'.trans hsettled, hcursor'.trans hcursor⟩
    rw [append_assoc, singleton_append] at hlogs
    exact hlogs

end

section

/-- An accepted append: either nothing is appended, or the changes are, within
the bounds if it was a bounded one. -/
theorem stageLocalChanges_eq_ok {cursors : SourceId → Nat} {effects : LocalReferenceEffects}
    {admission : SourceJournalAdmission} {staged : JournalTables}
    (h : stageLocalChanges codec config journal cursors changes effects admission = .ok staged) :
    ((changes = [] ∨ admission = .physicalReplica) ∧
    staged = { journal with referenceCursor := cursors }) ∨ (changes ≠ [] ∧
    admission ≠ .physicalReplica ∧ ∃ appended moves,
    changes.foldlM (appendRecord codec config .storage (admission.admitRecord
    config.watchRetention)) journal = .ok appended ∧
    movesReferenceCursor effects changes (journal.referenceCursor config.sourceId) journal.tail =
    .ok moves ∧ (admission = .bounded →
    ¬ OverLimit config.watchRetention appended.retainedEntries appended.retainedBytes) ∧ staged =
    { appended with
      settledThrough := if effects ≠ .deferred ∧ journal.settledThrough =
        journal.tail then appended.tail else appended.settledThrough
      referenceCursor := if moves then Function.update cursors config.sourceId appended.tail else
        cursors }) := by
  obtain ⟨_, hsuppressed, h⟩ := bind_eq_ok.mp h
  by_cases hempty : changes = []
  · rw [if_pos (.inr hempty), pure_eq_ok] at h
    exact .inl ⟨.inl hempty, h.symm⟩
  by_cases hreplica : admission = .physicalReplica
  · rw [suppressesPhysicalReplicaChanges, if_neg (not_not.mpr hreplica)]
      at hsuppressed
    simp only [ok_rules] at hsuppressed
    rw [← hsuppressed.2, if_pos (.inl rfl), pure_eq_ok] at h
    exact .inl ⟨.inr hreplica, h.symm⟩
  rw [suppressesPhysicalReplicaChanges, if_pos hreplica, pure_eq_ok]
    at hsuppressed
  rw [← hsuppressed, if_neg (by simpa using hempty)] at h
  simp only [localWatchStatus, ok_rules, mapError_eq_ok] at h
  obtain ⟨_, ⟨-, hstatus⟩, -, -, moves, hmoves, appended, happended, hbounds, rfl⟩ := h
  subst hstatus
  refine .inr ⟨hempty, hreplica, appended, moves, happended, hmoves, ?_, rfl⟩
  rintro rfl
  rw [checkTransition, if_pos rfl] at hbounds
  simp only [ok_rules] at hbounds
  exact hbounds.2

/-- An append adds its changes to the log and keeps the cursors in order. -/
theorem logs_stageLocalChanges {cursors : SourceId → Nat} {effects : LocalReferenceEffects}
    {admission : SourceJournalAdmission} {staged : JournalTables}
    (hlog : Logs codec config log journal) (hcursors : cursors config.sourceId ≤ journal.tail)
    (h : stageLocalChanges codec config journal cursors changes effects admission = .ok staged) :
    ∃ entries, (entries = [] ∨ Appends log changes entries) ∧
    Logs codec config (log ++ entries) staged ∧ staged.retentionFloor = journal.retentionFloor ∧
    journal.settledThrough ≤ staged.settledThrough := by
  rcases stageLocalChanges_eq_ok h with ⟨-, rfl⟩ | ⟨-, -, appended, _, happended, -, -, rfl⟩
  · refine ⟨[], .inl rfl, ?_, rfl, le_rfl⟩
    rw [append_nil]
    exact
      { toRecorded := { hlog.toRecorded with }
        floor_le_settled := hlog.floor_le_settled
        settled_le := hlog.settled_le
        cursor_le := hcursors }
  obtain ⟨entries, happends, hrecorded, hfloor, hsettled, -⟩ :=
    recorded_foldlM hlog.toRecorded happended
  have hgrows : journal.tail ≤ appended.tail := by
    rw [hrecorded.tail_eq, hlog.tail_eq, length_append]
    omega
  have hsettled_le := hlog.settled_le
  have hfloor_le := hlog.floor_le_settled
  refine ⟨entries, .inr happends, ?_, hfloor, ?_⟩
  · exact
      { toRecorded := { hrecorded with }
        floor_le_settled := by
          dsimp only
          split <;> omega
        settled_le := by
          dsimp only
          split <;> omega
        cursor_le := by
          dsimp only
          split
          · simp
          · omega }
  · dsimp only
    split <;> omega

end

section

theorem settleThrough_eq_ok {settled : JournalTables}
    {offset : Nat} (hlog : Logs codec config log journal)
    (h : settleThrough config journal offset = .ok settled) :
    settled = { journal with settledThrough := settled.settledThrough } ∧
      journal.settledThrough ≤ settled.settledThrough ∧ settled.settledThrough ≤ journal.tail := by
  rw [settleThrough, hlog.status] at h
  obtain ⟨_, hstatus, h⟩ := bind_eq_ok.mp h
  cases hstatus
  have hle := hlog.settled_le
  split at h
  · rw [pure_eq_ok] at h
    subst h
    exact ⟨rfl, le_rfl, hle⟩
  rename_i hforward
  simp only [ok_rules] at h
  obtain ⟨hwithin, rfl⟩ := h
  dsimp only at hforward hwithin ⊢
  exact ⟨rfl, by omega, by omega⟩

theorem settledPrefix_eq_ok {proven : List Nat} {through bound : Nat} {result tail : Nat}
    (hproven : ∀ offset ∈ proven, offset ≤ tail) (hthrough : through ≤ tail)
    (h : settledPrefix proven bound through = .ok result) : through ≤ result ∧ result ≤ tail := by
  induction bound generalizing through with
  | zero =>
    cases h
    exact ⟨le_rfl, hthrough⟩
  | succ _ ih =>
    simp only [settledPrefix, ok_rules, checkedAdd64_eq_some] at h
    obtain ⟨_, ⟨-, rfl⟩, h⟩ := h
    split at h
    · rename_i hnext
      obtain ⟨_, hresult⟩ := ih (hproven _ hnext) h
      exact ⟨by omega, hresult⟩
    cases h
    exact ⟨le_rfl, hthrough⟩

theorem settlePositions_eq_ok {offsets : List Nat} {settled : JournalTables}
    {source : SourceId} (hlog : Logs codec config log journal)
    (h : settlePositions config journal source offsets = .ok settled) :
    settled = { journal with settledThrough := settled.settledThrough } ∧
      journal.settledThrough ≤ settled.settledThrough ∧ settled.settledThrough ≤ journal.tail := by
  unfold settlePositions at h
  split at h
  · rw [pure_eq_ok] at h
    subst h
    exact ⟨rfl, le_rfl, hlog.settled_le⟩
  rw [hlog.status] at h
  obtain ⟨_, hstatus, h⟩ := bind_eq_ok.mp h
  cases hstatus
  simp only [ok_rules] at h
  obtain ⟨-, hwithin, _, hthrough, rfl⟩ := h
  have hproven : ∀ offset ∈ offsets, offset ≤ journal.tail := by simpa using hwithin
  obtain ⟨hle, hresult⟩ := settledPrefix_eq_ok hproven hlog.settled_le hthrough
  exact ⟨rfl, hle, hresult⟩

/-- A settled cursor moved forward within the log keeps the log. -/
theorem Logs.settle {through : Nat}
    (hlog : Logs codec config log journal)
    (hforward : journal.settledThrough ≤ through) (hwithin : through ≤ journal.tail) :
    Logs codec config log { journal with settledThrough := through } where
  toRecorded := { hlog.toRecorded with }
  floor_le_settled := hlog.floor_le_settled.trans hforward
  settled_le := hwithin
  cursor_le := hlog.cursor_le

end

section

variable {pass next : RetentionPass}

theorem drop_eq_cons {floor : Nat} {entry : LogEntry}
    (h : log[floor]? = some entry) :
    log.drop floor = entry :: log.drop (floor + 1) := by
  obtain ⟨hlt, rfl⟩ := List.getElem?_eq_some_iff.mp h
  exact drop_eq_getElem_cons hlt

/-- Pruning one record raises the floor by one and changes nothing else the log
stands for. -/
theorem recorded_pruneRecord {stored : ObjectTables}
    (hlog : Recorded codec config log pass.journal)
    (h : pruneRecord codec config stored pass = .ok next) : Recorded codec config log next.journal ∧
    next.journal.retentionFloor = pass.journal.retentionFloor + 1 ∧
    next.journal.settledThrough = pass.journal.settledThrough ∧
    next.journal.referenceCursor = pass.journal.referenceCursor := by
  simp only [pruneRecord, ok_rules, checkedAdd64_eq_some, checkedSub64_eq_some, Prod.exists] at h
  obtain ⟨_, ⟨-, rfl⟩, encoded, hencoded, change, hchange, -, _, hroutes, _, _,
    _, -, _, ⟨-, rfl⟩, rfl⟩ := h
  -- the record at the floor is the log's next entry, and it decodes to its change
  rw [hlog.get?_records, if_pos (by omega), Nat.add_sub_cancel, Option.map_eq_some_iff] at hencoded
  obtain ⟨entry, hentry, rfl⟩ := hencoded
  have hdecode := codec.decode_of_encode _ _ (hlog.encoded entry (mem_of_getElem? hentry))
  rw [hdecode, Except.ok.injEq] at hchange
  subst hchange
  have hlt : pass.journal.retentionFloor < log.length := (List.getElem?_eq_some_iff.mp hentry).1
  have hdrop := drop_eq_cons hentry
  have hentries := hlog.entries_eq
  refine ⟨?_, rfl, rfl, rfl⟩
  constructor
  case tail_eq => exact hlog.tail_eq
  case floor_le => exact hlt
  case entries_eq =>
    dsimp only
    omega
  case encoded => exact hlog.encoded
  case offsets => exact hlog.offsets
  case records_eq => rw [hlog.records_eq, retained_prune]
  case bytes_eq =>
    rw [hlog.bytes_eq, hdrop, map_cons, sum_cons]
    exact Nat.add_sub_cancel_left _ _
  case routes_iff =>
    intro key
    dsimp only
    rw [mem_stageJournalRouteRemoval hroutes, hlog.routes_iff, hdrop]
    constructor
    · rintro ⟨⟨later, hlater, hkey⟩, hnot⟩
      rcases mem_cons.mp hlater with rfl | hlater
      · exact absurd hkey hnot
      · exact ⟨later, hlater, hkey⟩
    rintro ⟨later, hlater, hkey⟩
    refine ⟨⟨later, mem_cons_of_mem _ hlater, hkey⟩, fun hmine => ?_⟩
    -- a later entry has a later offset, so it shares no route key
    obtain ⟨i, hi⟩ := mem_iff_getElem?.mp hlater
    rw [getElem?_drop] at hi
    have hfirst := hlog.offsets _ _ hentry
    have hsecond := hlog.offsets _ _ hi
    have hoffset := offset_of_mem_routeKeys hkey
    rw [offset_of_mem_routeKeys hmine] at hoffset
    omega

/-- A pruning loop raises the floor, never past the safe offset. -/
theorem recorded_pruneRecords {stored : ObjectTables} {forceHeadroom : Bool}
    {safeThrough bound : Nat}
    (hlog : Recorded codec config log pass.journal)
    (h : pruneRecords codec config stored forceHeadroom safeThrough bound pass = .ok next) :
    Recorded codec config log next.journal ∧
    pass.journal.retentionFloor ≤ next.journal.retentionFloor ∧
    (next.journal.retentionFloor ≤ safeThrough ∨
    next.journal.retentionFloor = pass.journal.retentionFloor) ∧
    next.journal.settledThrough = pass.journal.settledThrough ∧
    next.journal.referenceCursor = pass.journal.referenceCursor := by
  induction bound generalizing pass with
  | zero =>
    cases h
    exact ⟨hlog, le_rfl, .inr rfl, rfl, rfl⟩
  | succ _ ih =>
    unfold pruneRecords at h
    split at h
    · obtain ⟨_, hmiddle, h⟩ := bind_eq_ok.mp h
      obtain ⟨hrecorded, _, hsettled, hcursor⟩ := recorded_pruneRecord hlog hmiddle
      obtain ⟨hlogs, _, _, hsettled', hcursor'⟩ := ih hrecorded h
      refine ⟨hlogs, by omega, .inl ?_, hsettled'.trans hsettled, hcursor'.trans hcursor⟩
      omega
    cases h
    exact ⟨hlog, le_rfl, .inr rfl, rfl, rfl⟩

/--
A retention pass raises the floor, within the settled cursor, the reference-safe
offset and both derived consumers' offsets, and appends the releases of the
pruned records.
-/
theorem logs_enforceRetention {forceHeadroom : Bool} {referenceSafeThrough : Nat}
    {consumerSafe : WatchJournalStatus → Except String (Nat × Nat)} {objects : ObjectTables}
    {journal' : JournalTables} {objects' : ObjectTables}
    (hlog : Logs codec config log journal)
    (h : enforceRetention codec config forceHeadroom referenceSafeThrough consumerSafe journal
    objects = .ok (journal', objects')) : ∃ entries, Logs codec config (log ++ entries) journal' ∧
    journal'.settledThrough = journal.settledThrough ∧
    journal'.referenceCursor = journal.referenceCursor ∧
    journal.retentionFloor ≤ journal'.retentionFloor ∧
    (journal'.retentionFloor = journal.retentionFloor ∨
    (journal'.retentionFloor ≤ referenceSafeThrough ∧ ∃ safe, consumerSafe
    { sourceId := config.sourceId
      tail := journal.tail
      settledThrough := journal.settledThrough
      retentionFloor := journal.retentionFloor
      retainedEntries := journal.retainedEntries
      retainedBytes := journal.retainedBytes } = .ok safe ∧ journal'.retentionFloor ≤ safe.1 ∧
    journal'.retentionFloor ≤ safe.2)) ∧ ((entries = [] ∧ objects' = objects) ∨
    ∃ safeThrough bound pass, pruneRecords codec config objects forceHeadroom safeThrough bound
    { journal, objects, retiredKeys := [], delayedReleases := [], prunedRecords := 0 } = .ok pass ∧
    Appends log pass.delayedReleases entries ∧ objects' = pass.objects) := by
  rw [enforceRetention, hlog.status] at h
  obtain ⟨_, hstatus, h⟩ := bind_eq_ok.mp h
  cases hstatus
  split at h
  · obtain ⟨rfl, rfl⟩ := h
    refine ⟨[], ?_, rfl, rfl, le_rfl, .inl rfl, .inl ⟨rfl, rfl⟩⟩
    rw [append_nil]
    exact hlog
  simp only [ok_rules, Prod.exists] at h
  obtain ⟨indexSafe, accountingSafe, hsafe, pass, hpass, appended, happended, rfl, rfl⟩ := h
  obtain ⟨hrecorded, hle, hwithin, hsettled, hcursor⟩ :=
    recorded_pruneRecords hlog.toRecorded hpass
  obtain ⟨entries, happends, hlogs, _, hsettled', hcursor'⟩ :=
    recorded_foldlM hrecorded happended
  dsimp only at hle hwithin hsettled hcursor
  have hfloor_settled := hlog.floor_le_settled
  have hsettled_tail := hlog.settled_le
  have hgrows : journal.tail ≤ appended.tail := by
    rw [hlogs.tail_eq, hlog.tail_eq, length_append]
    omega
  refine ⟨entries, ?_, hsettled'.trans hsettled, hcursor'.trans hcursor, by omega, ?_,
    Or.inr ⟨_, _, pass, hpass, happends, rfl⟩⟩
  · exact
      { toRecorded := hlogs
        floor_le_settled := by omega
        settled_le := by omega
        cursor_le := by
          rw [hcursor', hcursor]
          exact hlog.cursor_le.trans hgrows }
  rcases hwithin with _ | _
  · right
    refine ⟨by omega, (indexSafe, accountingSafe), hsafe, ?_, ?_⟩
    · omega
    · omega
  · omega

end

end Keldra.Store
