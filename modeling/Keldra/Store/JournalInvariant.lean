import Keldra.Store.SourceStore

/-!
# The source-journal invariant

What the journal's counters, records and routes say in every reachable state,
read off the tables alone.
-/

namespace Keldra.Store

open Foundation

/-- Bytes a stored record counts for. -/
def storedLogicalBytes (codec : LocalChangeCodec) (encoded : Bytes) : Nat :=
  match codec.decode encoded with
  | .ok change => recordLogicalBytes change encoded
  | .error _ => invalidationRecordBytes encoded.length

/-- The counters, records and routes of a journal agree. -/
structure SourceJournalInvariant
    (codec : LocalChangeCodec) (config : StoreConfig) (journal : JournalTables) : Prop where
  floor_le_settled : journal.retentionFloor ≤ journal.settledThrough
  settled_le_tail : journal.settledThrough ≤ journal.tail
  cursor_le_tail : journal.referenceCursor config.sourceId ≤ journal.tail
  keys : ∀ offset, (journal.records.get? offset).isSome ↔
      journal.retentionFloor < offset ∧ offset ≤ journal.tail
  entries : journal.retainedEntries = journal.tail - journal.retentionFloor
  bytes : journal.retainedBytes = (journal.records.values.map (storedLogicalBytes codec)).sum
  routes : ∀ key, key ∈ journal.routes ↔ ∃ encoded ∈ journal.records.values, ∃ change,
      codec.decode encoded = .ok change ∧ key ∈ routeKeys config.sourceId.sourceEpoch change

theorem Recorded.values_eq {codec : LocalChangeCodec} {config : StoreConfig} {log : List LogEntry}
    {journal : JournalTables}
    (h : Recorded codec config log journal) :
    journal.records.values = (log.drop journal.retentionFloor).map LogEntry.bytes := by
  rw [h.records_eq, values_retained, List.map_drop]

theorem Recorded.decode {codec : LocalChangeCodec} {config : StoreConfig} {log : List LogEntry}
    {journal : JournalTables} {entry : LogEntry}
    (h : Recorded codec config log journal)
    (hentry : entry ∈ log.drop journal.retentionFloor) :
    codec.decode entry.bytes = .ok entry.change :=
  codec.decode_of_encode _ _ (h.encoded entry (List.mem_of_mem_drop hentry))

/-- A journal that keeps a log satisfies the invariant. -/
theorem Logs.invariant {codec : LocalChangeCodec} {config : StoreConfig} {log : List LogEntry}
    {journal : JournalTables}
    (h : Logs codec config log journal) :
    SourceJournalInvariant codec config journal where
  floor_le_settled := h.floor_le_settled
  settled_le_tail := h.settled_le
  cursor_le_tail := h.cursor_le
  keys := by
    intro _
    rw [h.records_eq, isSome_get?_retained, List.length_map, h.tail_eq]
  entries := by
    rw [h.entries_eq, h.tail_eq]
  bytes := by
    rw [h.bytes_eq, h.values_eq, List.map_map]
    congr 1
    refine List.map_congr_left fun entry hentry => ?_
    simp only [Function.comp_apply, storedLogicalBytes, h.decode hentry]
    rfl
  routes := by
    intro _
    rw [h.routes_iff, h.values_eq]
    constructor
    · rintro ⟨entry, hentry, hkey⟩
      exact ⟨entry.bytes, List.mem_map_of_mem hentry, entry.change, h.decode hentry, hkey⟩
    rintro ⟨_, hencoded, _, hchange, hkey⟩
    obtain ⟨entry, hentry, rfl⟩ := List.mem_map.mp hencoded
    rw [h.decode hentry, Except.ok.injEq] at hchange
    subst hchange
    exact ⟨entry, hentry, hkey⟩

/--
In every reachable state the counters, records and routes of the journal agree,
and a bounded append accepted there leaves no more than the configured bounds,
or appends nothing.
-/
theorem source_journal_invariant
    (codec : LocalChangeCodec) (config : StoreConfig) (actions : List JournalAction) :
    SourceJournalInvariant codec config (SourceStore.run codec config actions).journal ∧
      ∀ cursors changes effects staged,
        stageLocalChanges codec config (SourceStore.run codec config actions).journal
          cursors changes effects .bounded = .ok staged →
          (changes = [] ∧ staged =
            { (SourceStore.run codec config actions).journal with referenceCursor := cursors }) ∨
            (staged.retainedEntries ≤ config.watchRetention.maxEntries ∧
              staged.retainedBytes ≤ config.watchRetention.maxBytes) := by
  obtain ⟨⟨_, hlog⟩, -⟩ := logs_run codec config actions
  refine ⟨hlog.invariant, ?_⟩
  intro _ _ _ _ hstaged
  rcases stageLocalChanges_eq_ok hstaged with ⟨hnone | hreplica, hsame⟩ |
    ⟨-, -, _, _, -, -, hbounds, rfl⟩
  · exact Or.inl ⟨hnone, hsame⟩
  · cases hreplica
  right
  have hwithin := hbounds rfl
  rw [OverLimit, not_or, not_lt, not_lt] at hwithin
  exact hwithin

end Keldra.Store
