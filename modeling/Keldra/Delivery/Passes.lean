import Keldra.Delivery.StoreMoves

/-!
# What a delivery pass holds

A page is a contiguous part of its source's records, and so is what the pass has
routed of it.  A batch cut from the routed records at a destination's cursor
carries exactly the effects of the records between its two ends.

Everything here speaks of the source's history, which grows at its end, so that
nothing done elsewhere can invalidate it.
-/

namespace Keldra.Delivery

open Foundation Store List

variable {cluster : Cluster} {node : Nat} {changes : List LocalChange} {change : LocalChange}

/-- Effects of records on one node. -/
def routedTo (cluster : Cluster) (node : Nat) (changes : List LocalChange) :
    List DestinationReferenceDelta :=
  changes.flatMap fun change =>
    routeEffects cluster.selectPayloadPlacement change.referenceDeltas node

theorem changeOf_routedTo_append
    (artifact : DestinationReferenceArtifact) (first second : List LocalChange) :
    changeOf artifact (routedTo cluster node (first ++ second)) =
    changeOf artifact (routedTo cluster node first) +
    changeOf artifact (routedTo cluster node second) := by
  rw [routedTo, flatMap_append, changeOf_append]
  rfl

theorem routedTo_eq_nil (h : ∀ change ∈ changes, change.referenceDeltas = []) :
    routedTo cluster node changes = [] := by
  refine flatMap_eq_nil_iff.mpr ?_
  intro change hchange
  rw [h change hchange]
  rfl

/-- How a pass keeps a record it has routed. -/
def routedEntry (cluster : Cluster) (change : LocalChange) : Nat × RoutedEffects :=
  (change.offset, routeEffects cluster.selectPayloadPlacement change.referenceDeltas)

theorem routeChange_eq_some {visibilityThrough : Nat} {classified prepared : Bool}
    {effects : RoutedEffects}
    (h : routeChange cluster visibilityThrough classified prepared change = some effects) :
    (change.offset, effects) = routedEntry cluster change := by
  have hempty : change.referenceDeltas = [] →
      (change.offset, (fun _ => [] : RoutedEffects)) = routedEntry cluster change := by
    intro hnone
    rw [routedEntry, hnone]
    rfl
  unfold routeChange at h
  split at h
  · rename_i hnone
    cases h
    exact hempty hnone.2
  split at h
  · cases h
  split at h
  · rename_i hnone
    cases h
    exact hempty hnone
  split at h
  · cases h
  cases h
  rfl

section

variable {history later : List LocalChange} {source : Nat} {store : SourceStore}
  {log : List LogEntry} {seen : List LocalChange} {slowest : Nat} {codec : LocalChangeCodec}
  {config : StoreConfig} {journal : JournalTables} {cursors : OrdMap Nat Nat}

/-- No destination's cursor is before the page. -/
def CursorsFrom (slowest : Nat) (cursors : OrdMap Nat Nat) : Prop :=
  ∀ node cursor, cursors.get? node = some cursor → slowest ≤ cursor

/-- What a pass holds is a contiguous part of its source's records. -/
def PassSound (cluster : Cluster) (history : List LocalChange) : Pass → Prop
  | .routing cursors slowest _ changes routed =>
    CursorsFrom slowest cursors ∧ slowest ≤ history.length ∧
      ∃ seen, routed = seen.map (routedEntry cluster) ∧ seen ++ changes <+: history.drop slowest
  | .applying cursors routed through _ =>
    ∃ slowest seen, CursorsFrom slowest cursors ∧ slowest ≤ history.length ∧
      routed = seen.map (routedEntry cluster) ∧ seen <+: history.drop slowest ∧
        through = slowest + seen.length
  | _ => True

theorem PassSound.mono
    {pass : Pass} (h : PassSound cluster history pass) (hgrow : history <+: later) :
    PassSound cluster later pass := by
  cases pass with
  | routing =>
    obtain ⟨hcursors, hwithin, seen, hrouted, hpart⟩ := h
    exact ⟨hcursors, hwithin.trans hgrow.length_le, seen, hrouted,
      hpart.trans (hgrow.drop _)⟩
  | applying =>
    obtain ⟨slowest, seen, hcursors, hwithin, hrouted, hpart, hthrough⟩ := h
    exact ⟨slowest, seen, hcursors, hwithin.trans hgrow.length_le, hrouted,
      hpart.trans (hgrow.drop _), hthrough⟩
  | idle | readingCursors | compacting => trivial

section

variable (hlog : Recorded codec config log journal)

include hlog

/-- The records of a log are numbered by their offsets. -/
theorem numbered_history : Numbered LocalChange.offset (log.map LogEntry.change) := by
  intro i _ hchange
  rw [getElem?_map, Option.map_eq_some_iff] at hchange
  obtain ⟨entry, hentry, rfl⟩ := hchange
  exact hlog.offsets i entry hentry

/-- A stored record reads back as the log's entry. -/
theorem readLocalChange_eq_ok {offset : Nat}
    (h : readLocalChange codec journal (offset + 1) = .ok change) :
    (log.map LogEntry.change)[offset]? = some change := by
  simp only [readLocalChange, ok_rules, mapError_eq_ok] at h
  obtain ⟨_, hencoded, _, hdecoded, -, rfl⟩ := h
  rw [hlog.get?_records] at hencoded
  split at hencoded
  · rw [Nat.add_sub_cancel, Option.map_eq_some_iff] at hencoded
    obtain ⟨entry, hentry, rfl⟩ := hencoded
    have hdecode := codec.decode_of_encode _ _ (hlog.encoded entry (mem_of_getElem? hentry))
    rw [hdecode, Except.ok.injEq] at hdecoded
    rw [getElem?_map, hentry, Option.map_some, hdecoded]
  · cases hencoded

theorem mapM_readLocalChange {start count : Nat}
    (h : (List.range' (start + 1) count).mapM (readLocalChange codec journal) = .ok changes) :
    changes <+: (log.map LogEntry.change).drop start := by
  induction count generalizing start changes with
  | zero =>
    cases h
    exact nil_prefix
  | succ _ ih =>
    simp only [range'_succ, mapM_cons, ok_rules] at h
    obtain ⟨_, hchange, _, hrest, rfl⟩ := h
    have hentry := readLocalChange_eq_ok hlog hchange
    obtain ⟨hlt, hvalue⟩ := List.getElem?_eq_some_iff.mp hentry
    rw [drop_eq_getElem_cons hlt, hvalue]
    exact cons_prefix_cons.mpr ⟨rfl, ih hrest⟩

end

/-- A scanned page is a contiguous part of the log after its offset. -/
theorem scanLocalChanges_eq_ok {afterOffset limit : Nat} (hlog : Logs codec config log journal)
    (h : scanLocalChanges codec config journal afterOffset limit = .ok changes) :
    changes <+: (log.map LogEntry.change).drop afterOffset ∧
    afterOffset ≤ (log.map LogEntry.change).length := by
  simp only [scanLocalChanges, hlog.status] at h
  obtain ⟨_, hstatus, h⟩ := bind_eq_ok.mp h
  cases hstatus
  simp only [ok_rules] at h
  obtain ⟨-, _, h⟩ := h
  have htail := hlog.tail_eq
  refine ⟨?_, by rw [length_map]; omega⟩
  split at h
  · cases h
    exact nil_prefix
  · exact mapM_readLocalChange hlog.toRecorded h

/-- The slowest destination is no later than any. -/
theorem cursorsFrom_min (cursors : OrdMap Nat Nat) (tail : Nat) :
    CursorsFrom (cursors.values.min?.getD tail) cursors := by
  intro node cursor hcursor
  have hentry := (cursors.get?_eq_some_iff node cursor).mp hcursor
  have hmem : cursor ∈ cursors.values := mem_map.mpr ⟨_, hentry, rfl⟩
  cases hmin : cursors.values.min? with
  | none =>
    rw [min?_eq_none_iff] at hmin
    rw [hmin] at hmem
    cases hmem
  | some => exact (min?_eq_some_iff.mp hmin).2 cursor hmem

theorem passSound_beginPass (source : Nat) (store : SourceStore) :
    PassSound cluster history (passOr (beginPass cluster source store)) := by
  unfold passOr
  split
  · rename_i pass hpass
    simp only [beginPass, ok_rules] at hpass
    obtain ⟨-, -, -, -, rfl⟩ := hpass
    trivial
  · trivial

theorem passSound_beginRouting {pageSize : Nat}
    (hlog : Logs cluster.codec (cluster.storeConfig source) log store.journal) :
    PassSound cluster (log.map LogEntry.change)
    (passOr (beginRouting cluster source store cursors pageSize)) := by
  unfold passOr
  split
  · rename_i pass hpass
    simp only [beginRouting, hlog.status] at hpass
    obtain ⟨_, hstatus, hpass⟩ := bind_eq_ok.mp hpass
    cases hstatus
    rw [bind_eq_ok, exists_unit_eq_ok] at hpass
    obtain ⟨-, hpass⟩ := hpass
    split at hpass
    · cases hpass
      trivial
    simp only [ok_rules, mapError_eq_ok] at hpass
    obtain ⟨_, hchanges, rfl⟩ := hpass
    obtain ⟨hpart, hwithin⟩ := scanLocalChanges_eq_ok hlog hchanges
    refine ⟨cursorsFrom_min _ _, hwithin, [], rfl, ?_⟩
    exact ( takeWhile_prefix _).trans hpart
  · trivial

section

variable (hnumbered : Numbered LocalChange.offset history)

include hnumbered

/-- The last routed offset ends the routed part. -/
theorem last_routed (hpart : seen <+: history.drop slowest) :
    (((seen.map (routedEntry cluster)).getLast?).map Prod.fst).getD slowest =
    slowest + seen.length := by
  rcases eq_nil_or_concat' seen with rfl | ⟨first, last, rfl⟩
  · rfl
  have hlast : history[slowest + first.length]? = some last := by
    rw [← getElem?_drop]
    obtain ⟨_, hrest⟩ := hpart
    rw [← hrest, append_assoc, getElem?_append_right le_rfl]
    simp
  have hoffset := hnumbered _ _ hlast
  simp only [map_append, map_cons, map_nil, getLast?_append, getLast?_singleton, Option.some_or,
    Option.map_some, Option.getD_some, routedEntry, length_append, length_singleton]
  omega

theorem passSound_closeRouting (hcursors : CursorsFrom slowest cursors)
    (hwithin : slowest ≤ history.length) (hpart : seen <+: history.drop slowest) :
    PassSound cluster history
    (closeRouting cluster cursors slowest (seen.map (routedEntry cluster))) := by
  simp only [closeRouting]
  split
  · exact ⟨slowest, seen, hcursors, hwithin, rfl, hpart, last_routed hnumbered hpart⟩
  · trivial

/-- A batch carries the effects of the records between its ends. -/
theorem deltas_destinationBatch {routed : List (Nat × RoutedEffects)} {remaining : List Nat}
    {through after : Nat}
    (hsound : PassSound cluster history (.applying cursors routed through remaining))
    (hafter : cursors.get? node = some after) (hlt : after < through) :
    through ≤ history.length ∧ (destinationBatch cluster source node after through routed).deltas =
    routedTo cluster node ((history.drop after).take (through - after)) := by
  obtain ⟨_, _, hcursors, _, rfl, hpart, rfl⟩ := hsound
  have hslowest := hcursors node after hafter
  have hlength := hpart.length_le
  rw [length_drop] at hlength
  have hpart := prefix_iff_eq_take.mp hpart
  have hfilter := hnumbered.filter_slice hslowest hlt.le
  rw [← hpart] at hfilter
  refine ⟨by omega, ?_⟩
  simp only [destinationBatch]
  rw [← hfilter, routedTo, filter_map, flatMap_map]
  rfl

end

end

end Keldra.Delivery
