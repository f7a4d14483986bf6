import Mathlib.Algebra.BigOperators.Group.Finset.Basic
import Mathlib.Algebra.BigOperators.Group.Finset.Piecewise
import Keldra.Delivery.Passes

/-!
# Reference counts are exact

A destination's references to an artifact are the effects routed to it by every
source's records up to its cursor of that source.  The cursors and the counts
move together, because a batch is applied exactly when it starts at the cursor,
and because every batch ever sent carries the effects of a contiguous part of
its source's records.

`Carries` says the latter of the requests in flight, and `PassSound` of the
passes that make them.
-/

namespace Keldra.Delivery

open Foundation Store List Function

variable {cluster : Cluster} {state : State} {node : Nat} {store : SourceStore}
  {batch : ReferenceDeltaBatch}

/-- A request carries the effects, on its destination, of a contiguous part of
its source's records. -/
def Carries (cluster : Cluster) (state : State) (node : Nat) (batch : ReferenceDeltaBatch) : Prop :=
  ∃ source ∈ cluster.nodes, batch.source = cluster.sourceId source ∧
    batch.through ≤ (state.history source).length ∧ batch.deltas = routedTo cluster node
      (((state.history source).drop batch.after).take (batch.through - batch.after)) ∧
      (node = source → batch ∈ (state.stores source).deliveries)

/-- A destination's cursor of a source. -/
def cursorOf (cluster : Cluster) (store : SourceStore) (source : Nat) : Nat :=
  store.journal.referenceCursor (cluster.sourceId source)

/-- The references a store should count under given histories. -/
def Counts (cluster : Cluster) (history : Nat → List LocalChange) (node : Nat)
    (store : SourceStore) : Prop :=
  (∀ source ∈ cluster.nodes, cursorOf cluster store source ≤ (history source).length) ∧ ∀ artifact,
    store.blobs.held artifact = ∑ source ∈ cluster.nodes, changeOf artifact (routedTo cluster node
      ((history source).take (cursorOf cluster store source)))

structure Invariant (cluster : Cluster) (state : State) : Prop where
  logs : ∀ node, ∃ log,
    Logs cluster.codec (cluster.storeConfig node) log (state.stores node).journal ∧
      state.history node = log.map LogEntry.change
  deliveries : ∀ node, DeliveriesWithin (cluster.storeConfig node) (state.stores node)
  counts : ∀ node, Counts cluster state.history node (state.stores node)
  inFlight : ∀ entry ∈ state.inFlight, Carries cluster state entry.1 entry.2
  passes : ∀ source ∈ cluster.nodes, PassSound cluster (state.history source) (state.passes source)

theorem invariant_initial : Invariant cluster State.initial where
  logs := fun _ => ⟨[], logs_initial, rfl⟩
  deliveries := fun _ _ hmem => by cases hmem
  counts := by
    refine fun node => ⟨fun _ _ => le_rfl, fun artifact => ?_⟩
    symm
    exact Finset.sum_eq_zero fun _ _ => rfl
  inFlight := fun _ hmem => by cases hmem
  passes := fun _ _ => trivial

theorem sourceId_injective {first second : Nat}
    (h : cluster.sourceId first = cluster.sourceId second) :
    first = second :=
  congrArg SourceId.nodeId h

/-- Grown histories leave what a store counts. -/
theorem Counts.append {history history' : Nat → List LocalChange}
    (h : Counts cluster history node store) (hgrow : ∀ source, history source <+: history' source) :
    Counts cluster history' node store := by
  refine ⟨fun source hsource => (h.1 source hsource).trans (hgrow source).length_le, ?_⟩
  intro artifact
  rw [h.2 artifact]
  refine Finset.sum_congr rfl ?_
  intro source hsource
  obtain ⟨_, hlater⟩ := hgrow source
  rw [← hlater, take_append_of_le_length (h.1 source hsource)]

theorem Carries.append {state' : State}
    (h : Carries cluster state node batch)
    (hgrow : ∀ source, state.history source <+: state'.history source)
    (hdeliveries : ∀ source, ∀ request ∈ (state.stores source).deliveries,
    request ∈ (state'.stores source).deliveries) : Carries cluster state' node batch := by
  obtain ⟨source, hsource, hid, hwithin, hdeltas, hself⟩ := h
  refine ⟨source, hsource, hid, hwithin.trans (hgrow source).length_le, ?_,
    fun hnode => hdeliveries source _ (hself hnode)⟩
  obtain ⟨_, hlater⟩ := hgrow source
  rw [hdeltas, ← hlater]
  by_cases hafter : batch.after ≤ (state.history source).length
  · rw [drop_append_of_le_length hafter, take_append_of_le_length]
    rw [length_drop]
    omega
  have hempty : batch.through - batch.after = 0 := by omega
  rw [hempty, take_zero, take_zero]

variable {cursors : SourceId → Nat}

section

theorem history_setStore
    (cluster : Cluster) (state : State) (node : Nat) (store : SourceStore) (source : Nat) :
    state.history source <+: (state.setStore cluster node store).history source := by
  simp only [State.setStore]
  by_cases hsource : source = node
  · rw [hsource, update_self]
    exact prefix_append _ _
  · rw [update_of_ne hsource]

/-- The invariant after a node's store moved, from what the move does there. -/
theorem Invariant.setStore {log : List LogEntry}
    (h : Invariant cluster state)
    (hlog : Logs cluster.codec (cluster.storeConfig node) log (state.stores node).journal)
    (hhistory : state.history node = log.map LogEntry.change)
    (hmove : StoreMove cluster.codec (cluster.storeConfig node) log cursors
    (state.stores node) store)
    (hkeep : ∀ request ∈ (state.stores node).deliveries, request ∈ store.deliveries)
    (hnew : ∀ request ∈ store.deliveries, request ∈ (state.stores node).deliveries ∨
    request.through ≤ (state.stores node).journal.tail)
    (hcounts : Counts cluster (state.setStore cluster node store).history node store) :
    Invariant cluster (state.setStore cluster node store) := by
  obtain ⟨entries, hlogs, hrecords, -⟩ := hmove
  have hgrow := history_setStore cluster state node store
  constructor
  case logs =>
    intro other
    by_cases hother : other = node
    · subst hother
      refine ⟨log ++ entries, ?_, ?_⟩
      · simpa [State.setStore] using hlogs
      · simp [State.setStore, hhistory, hrecords]
    obtain ⟨otherLog, hotherLog, hotherHistory⟩ := h.logs other
    refine ⟨otherLog, ?_, ?_⟩
    · simpa [State.setStore, hother] using hotherLog
    · simpa [State.setStore, hother] using hotherHistory
  case deliveries =>
    intro other
    by_cases hother : other = node
    · subst hother
      have hgrows : (state.stores other).journal.tail ≤ store.journal.tail := by
        rw [hlogs.tail_eq, hlog.tail_eq, length_append]
        omega
      intro request hrequest hid
      simp only [State.setStore, update_self] at hrequest ⊢
      rcases hnew request hrequest with hold | hwithin
      · exact (h.deliveries other request hold hid).trans hgrows
      · exact hwithin.trans hgrows
    · simpa [State.setStore, hother] using h.deliveries other
  case counts =>
    intro other
    by_cases hother : other = node
    · subst hother
      simpa [State.setStore] using hcounts
    have hcount := (h.counts other).append hgrow
    simpa [State.setStore, hother] using hcount
  case inFlight =>
    intro entry hentry
    refine (h.inFlight entry hentry).append hgrow ?_
    intro source request hrequest
    by_cases hsource : source = node
    · subst hsource
      simpa [State.setStore] using hkeep request hrequest
    · simpa [State.setStore, hsource] using hrequest
  case passes =>
    intro source hsource
    exact (h.passes source hsource).mono (hgrow source)

/-- A cursor that stays, or follows records without effects from the tail,
counts the same. -/
theorem routed_take_eq {cursor' cursor : Nat} {history later : List LocalChange}
    (artifact : DestinationReferenceArtifact) (hcursor :
    (cursor' = cursor ∧ cursor ≤ history.length) ∨
    (cursor = history.length ∧ cursor' = (history ++ later).length ∧
    ∀ change ∈ later, change.referenceDeltas = [])) :
    changeOf artifact (routedTo cluster node ((history ++ later).take cursor')) =
    changeOf artifact (routedTo cluster node (history.take cursor)) := by
  rcases hcursor with ⟨rfl, hwithin⟩ | ⟨rfl, rfl, hnone⟩
  · rw [take_append_of_le_length hwithin]
  rw [take_length, take_length, changeOf_routedTo_append, routedTo_eq_nil hnone,
    changeOf_nil, add_zero]

/-- How a move changes the cursor of one source, over the cursors its batch
writes. -/
theorem StoreMove.cursor {log : List LogEntry}
    (hlog : Logs cluster.codec (cluster.storeConfig node) log (state.stores node).journal)
    (hhistory : state.history node = log.map LogEntry.change)
    (hmove : StoreMove cluster.codec (cluster.storeConfig node) log cursors
    (state.stores node) store) (source : Nat) :
    ∃ later, (state.setStore cluster node store).history source = state.history source ++ later ∧
    (cursorOf cluster store source = cursors (cluster.sourceId source) ∨ (source = node ∧
    cursorOf cluster (state.stores node) source = (state.history source).length ∧
    cursorOf cluster store source = (state.history source ++ later).length ∧
    ∀ change ∈ later, change.referenceDeltas = [])) := by
  obtain ⟨entries, hlogs, hrecords, hcursors⟩ := hmove
  by_cases hsource : source = node
  · subst hsource
    refine ⟨entries.map LogEntry.change, by simp [State.setStore, hrecords], ?_⟩
    rcases hcursors with hsame | ⟨hcaught, hmoved, hnone⟩
    · exact .inl (by rw [cursorOf, hsame])
    refine .inr ⟨rfl, ?_, ?_, ?_⟩
    · rw [hhistory, length_map, ← hlog.tail_eq]
      exact hcaught
    · rw [cursorOf, hmoved, hhistory, ← map_append, length_map, ← hlogs.tail_eq]
      exact update_self _ _ _
    intro _ hchange
    obtain ⟨entry, hentry, rfl⟩ := mem_map.mp hchange
    exact hnone entry hentry
  · refine ⟨[], by simp [State.setStore, hsource], .inl ?_⟩
    rcases hcursors with hsame | ⟨-, hmoved, -⟩
    · rw [cursorOf, hsame]
    have hne : cluster.sourceId source ≠ (cluster.storeConfig node).sourceId :=
      fun heq => hsource (sourceId_injective heq)
    rw [cursorOf, hmoved, update_of_ne hne]

/-- Local operations keep the invariant. -/
theorem Invariant.localMove {log : List LogEntry}
    (h : Invariant cluster state)
    (hlog : Logs cluster.codec (cluster.storeConfig node) log (state.stores node).journal)
    (hhistory : state.history node = log.map LogEntry.change)
    (hmove : LocalMove cluster node log (state.stores node) store) :
    Invariant cluster (state.setStore cluster node store) := by
  obtain ⟨hstore, hheld, hdeliveries⟩ := hmove
  refine h.setStore hlog hhistory hstore (fun _ hrequest => hdeliveries ▸ hrequest)
    (fun _ hrequest => .inl (hdeliveries ▸ hrequest)) ?_
  obtain ⟨hwithin, hexact⟩ := h.counts node
  constructor
  · intro source hsource
    obtain ⟨_, hlater, hcursor⟩ := hstore.cursor hlog hhistory source
    rw [hlater]
    rcases hcursor with hsame | ⟨-, -, hmoved, -⟩
    · rw [hsame, length_append]
      exact (hwithin source hsource).trans (Nat.le_add_right _ _)
    · exact hmoved.le
  intro _
  rw [hheld, hexact]
  refine Finset.sum_congr rfl ?_
  intro source hsource
  obtain ⟨_, hlater, hcursor⟩ := hstore.cursor hlog hhistory source
  rw [hlater]
  symm
  apply routed_take_eq
  rcases hcursor with hsame | ⟨rfl, hcaught, hmoved, hnone⟩
  · exact .inl ⟨hsame, hwithin source hsource⟩
  · exact .inr ⟨hcaught, hmoved, hnone⟩

/-- An arriving batch keeps the invariant: it moves the cursor and the counts by
the same records, or nothing. -/
theorem Invariant.receive {admission : SourceJournalAdmission} {now : Nat}
    (h : Invariant cluster state) (hcarries : Carries cluster state node batch) :
    Invariant cluster (state.receive cluster node batch admission now) := by
  obtain ⟨log, hlog, hhistory⟩ := h.logs node
  unfold State.receive SourceStore.applyDeltas
  split
  · exact h.localMove hlog hhistory (LocalMove.still hlog)
  split
  · rename_i journal blobs applied happlied
    rcases applyReferenceDeltas_eq_ok happlied with ⟨-, rfl, rfl⟩ |
      ⟨hcursor, _, states, _, hstates, rfl, hstaged⟩
    · exact h.localMove hlog hhistory (LocalMove.still hlog)
    obtain ⟨origin, horigin, hid, hthrough, hdeltas, -⟩ := hcarries
    rw [hid] at hcursor hstaged
    obtain ⟨hwithin, hexact⟩ := h.counts node
    have hlength : (state.history node).length = (state.stores node).journal.tail := by
      rw [hhistory, length_map, hlog.tail_eq]
    have hmove : StoreMove cluster.codec (cluster.storeConfig node) log
        (update (state.stores node).journal.referenceCursor (cluster.sourceId origin) batch.through)
        (state.stores node)
        { (state.stores node) with
          journal, blobs := stageBlobReferenceUpdates (state.stores node).blobs states } := by
      refine storeMove_append hlog ?_ (fun hinline => by cases hinline) hstaged
      by_cases hself : (cluster.storeConfig node).sourceId = cluster.sourceId origin
      · rw [hself, update_self]
        have hnode : node = origin := sourceId_injective hself
        rw [← hlength, hnode]
        exact hthrough
      rw [update_of_ne hself]
      exact hlog.cursor_le
    refine h.setStore hlog hhistory hmove (fun _ hrequest => hrequest)
      (fun _ hrequest => .inl hrequest) ?_
    constructor
    · intro source hsource
      obtain ⟨_, hlater, hmoved⟩ := hmove.cursor hlog hhistory source
      rw [hlater]
      rcases hmoved with hsame | ⟨-, -, hmoved, -⟩
      · rw [hsame, length_append]
        by_cases horiginal : source = origin
        · rw [horiginal, update_self]
          exact hthrough.trans (Nat.le_add_right _ _)
        have hne : cluster.sourceId source ≠ cluster.sourceId origin :=
          fun heq => horiginal (sourceId_injective heq)
        rw [update_of_ne hne]
        exact (hwithin source hsource).trans (Nat.le_add_right _ _)
      · exact hmoved.le
    intro artifact
    have hadd := held_foldlM_applyDelta hstates artifact
    have hterm : ∀ source ∈ cluster.nodes, changeOf artifact (routedTo cluster node
              (((state.setStore cluster node
                { (state.stores node) with
                  journal,
                  blobs := stageBlobReferenceUpdates (state.stores node).blobs
                    states }).history source).take
                (cursorOf cluster
                  { (state.stores node) with
                    journal,
                    blobs := stageBlobReferenceUpdates (state.stores node).blobs states }
                  source))) =
          changeOf artifact (routedTo cluster node ((state.history source).take
            (cursorOf cluster (state.stores node) source))) +
            if source = origin then changeOf artifact batch.deltas else 0 := by
      intro source hsource
      obtain ⟨_, hlater, hmoved⟩ := hmove.cursor hlog hhistory source
      rw [hlater]
      by_cases horiginal : source = origin
      · subst horiginal
        rw [if_pos rfl]
        rcases hmoved with hsame | ⟨rfl, hcaught, -, -⟩
        · rw [update_self] at hsame
          rw [hsame, take_append_of_le_length hthrough, hdeltas, cursorOf, hcursor,
            ← changeOf_routedTo_append, ← take_add]
          congr 3
          omega
        rw [cursorOf, hcursor] at hcaught
        omega
      · rw [if_neg horiginal, add_zero]
        have hne : cluster.sourceId source ≠ cluster.sourceId origin :=
          fun heq => horiginal (sourceId_injective heq)
        apply routed_take_eq
        rcases hmoved with hsame | ⟨rfl, hcaught, hmoved, hnone⟩
        · rw [update_of_ne hne] at hsame
          exact .inl ⟨hsame, hwithin source hsource⟩
        · exact .inr ⟨hcaught, hmoved, hnone⟩
    rw [Finset.sum_congr rfl hterm, Finset.sum_add_distrib, Finset.sum_ite_eq',
      if_pos horigin, ← hexact artifact]
    exact hadd
  · exact h.localMove hlog hhistory (LocalMove.still hlog)

end

section

variable {source : Nat}
variable {through after : Nat} {cursors : OrdMap Nat Nat} {routed : List (Nat × RoutedEffects)}

theorem Invariant.setPass {pass : Pass} (h : Invariant cluster state)
    (hpass : PassSound cluster (state.history source) pass) :
    Invariant cluster (state.setPass source pass) :=
  { h with
    passes := by
      intro other hother
      simp only [State.setPass]
      by_cases hsource : other = source
      · rw [hsource, update_self]
        exact hpass
      rw [update_of_ne hsource]
      exact h.passes other hother }

theorem Invariant.numbered (h : Invariant cluster state) (source : Nat) :
    Numbered LocalChange.offset (state.history source) := by
  obtain ⟨_, hlog, hhistory⟩ := h.logs source
  rw [hhistory]
  exact numbered_history hlog.toRecorded

/-- The source's part of a send: the request is recorded, the journal stays. -/
theorem step_readDelivery {codec : LocalChangeCodec} {config : StoreConfig}
    {deltas : List DestinationReferenceDelta}
    (hwithin : through ≤ store.journal.tail) :
    store.step codec config (.readDelivery after through deltas) = { store with deliveries :=
          { source := config.sourceId, after, through, deltas } :: store.deliveries } := by
  simp only [SourceStore.step, SourceStore.readDelivery]
  rw [if_pos hwithin]

/-- Sending a sound pass's batch keeps the invariant. -/
theorem Invariant.send {remaining : List Nat}
    (h : Invariant cluster state) (hsource : source ∈ cluster.nodes)
    (hsound : PassSound cluster (state.history source) (.applying cursors routed through remaining))
    (hafter : cursors.get? node = some after) (hlt : after < through) :
    Invariant cluster (state.send cluster source node
    (destinationBatch cluster source node after through routed)) ∧
    Carries cluster (state.send cluster source node
    (destinationBatch cluster source node after through routed))
    node (destinationBatch cluster source node after through routed) := by
  obtain ⟨_, hlog, hhistory⟩ := h.logs source
  obtain ⟨hthrough, hdeltas⟩ := deltas_destinationBatch (h.numbered source) hsound hafter hlt
  have htail : (state.history source).length = (state.stores source).journal.tail := by
    rw [hhistory, length_map, hlog.tail_eq]
  generalize hbatch : destinationBatch cluster source node after through routed = batch at *
  have hends : batch.source = cluster.sourceId source ∧ batch.after = after ∧
      batch.through = through := by
    rw [← hbatch]
    exact ⟨rfl, rfl, rfl⟩
  obtain ⟨hid, rfl, rfl⟩ := hends
  have hread : (state.stores source).step cluster.codec (cluster.storeConfig source)
      (.readDelivery batch.after batch.through batch.deltas) =
        { (state.stores source) with deliveries := batch :: (state.stores source).deliveries } := by
    rw [step_readDelivery (htail ▸ hthrough)]
    congr 2
    rw [← hbatch]
    rfl
  have hset := h.setStore hlog hhistory (StoreMove.still hlog
      (rfl : ({ (state.stores source) with
        deliveries := batch :: (state.stores source).deliveries } : SourceStore).journal = _))
    (fun _ hrequest => mem_cons_of_mem _ hrequest)
    (by
      intro _ hrequest
      rcases mem_cons.mp hrequest with rfl | hold
      · exact .inr (htail ▸ hthrough)
      · exact .inl hold)
    ((h.counts source).append (history_setStore cluster state source _))
  have hcarries : Carries cluster (state.send cluster source node batch) node batch := by
    refine ⟨source, hsource, hid, ?_, ?_, ?_⟩
    · exact hthrough.trans (history_setStore cluster state source _ source).length_le
    · obtain ⟨_, hlater⟩ := history_setStore cluster state source
        ((state.stores source).step cluster.codec (cluster.storeConfig source)
          (.readDelivery batch.after batch.through batch.deltas)) source
      simp only [State.send]
      rw [← hlater, drop_append_of_le_length (by omega), take_append_of_le_length]
      · exact hdeltas
      rw [length_drop]
      omega
    rintro -
    simp only [State.send, State.setStore, update_self]
    rw [hread]
    exact mem_cons_self
  refine ⟨?_, hcarries⟩
  have hsame : state.send cluster source node batch =
      { state.setStore cluster source
        { (state.stores source) with deliveries := batch :: (state.stores source).deliveries } with
        inFlight := (node, batch) :: state.inFlight } := by
    simp only [State.send]
    rw [hread]
    rfl
  rw [hsame] at hcarries ⊢
  exact
    { hset with
      inFlight := by
        intro entry hentry
        rcases mem_cons.mp hentry with rfl | hold
        · exact hcarries
        · exact hset.inFlight entry hold }

/-- An answer moves a destination's cursor forward only. -/
theorem cursorsFrom_advanceCursor {slowest : Nat}
    {reply : Except ReferenceDeltaError ReferenceDeltaApplied}
    (h : CursorsFrom slowest cursors) (hthrough : slowest ≤ through) :
    CursorsFrom slowest (advanceCursor cursors node through reply) := by
  unfold advanceCursor
  split
  · split
    · intro other cursor hcursor
      rw [OrdMap.get?_insert] at hcursor
      split at hcursor
      · cases hcursor
        omega
      · exact h other cursor hcursor
    · exact h
  · exact h

theorem Invariant.applyNext {answer : Option (SourceJournalAdmission × Nat)}
    {rest : List Nat} (h : Invariant cluster state)
    (hsource : source ∈ cluster.nodes) (hsound : PassSound cluster (state.history source)
    (.applying cursors routed through (node :: rest))) :
    Invariant cluster (state.applyNext cluster source node cursors routed through rest answer) := by
  have hrest : PassSound cluster (state.history source)
      (.applying cursors routed through rest) := hsound
  unfold State.applyNext
  split
  · exact h.setPass trivial
  rename_i after hafter
  split
  · exact h.setPass hrest
  rename_i hlt
  obtain ⟨hsent, hcarries⟩ := h.send hsource hsound hafter (by omega)
  generalize destinationBatch cluster source node after through routed = batch at *
  have hgrow : state.history source <+: (state.send cluster source node batch).history source :=
    history_setStore cluster state source _ source
  cases answer with
  | none => exact hsent.setPass (hrest.mono hgrow)
  | some answer =>
    refine (hsent.receive hcarries).setPass ?_
    obtain ⟨slowest, seen, hcursors, hwithin, hrouted, hpart, hthrough⟩ := hrest
    have hadvanced : PassSound cluster (state.history source) (.applying (advanceCursor cursors
      node through ((state.send cluster source node batch).reply cluster node batch answer.1
      answer.2)) routed through rest) :=
      ⟨slowest, seen, cursorsFrom_advanceCursor hcursors (by omega), hwithin, hrouted,
        hpart, hthrough⟩
    exact hadvanced.mono (hgrow.trans (history_setStore cluster _ node _ source))

/-- Every event of a pass keeps the invariant. -/
theorem Invariant.deliver
    (h : Invariant cluster state) (hsource : source ∈ cluster.nodes) (event : DeliveryEvent) :
    Invariant cluster (state.deliver cluster source event) := by
  obtain ⟨_, hlog, hhistory⟩ := h.logs source
  have hpass := h.passes source hsource
  unfold State.deliver
  split
  · exact h.setPass trivial
  · exact h.setPass (passSound_beginPass _ _)
  · split
    · exact h.setPass trivial
    · exact h.setPass trivial
  · refine h.setPass ?_
    rw [hhistory]
    exact passSound_beginRouting hlog
  · rename_i classified prepared cursors slowest visibilityThrough change rest routed hphase
    rw [hphase] at hpass
    obtain ⟨hcursors, hwithin, seen, rfl, hpart⟩ := hpass
    split
    · rename_i effects heffects
      refine h.setPass ⟨hcursors, hwithin, seen ++ [change], ?_, ?_⟩
      · rw [map_append, map_singleton, routeChange_eq_some heffects]
      rw [append_assoc]
      exact hpart
    refine h.setPass (passSound_closeRouting (h.numbered source) hcursors hwithin ?_)
    exact (prefix_append _ _).trans hpart
  · rename_i cursors slowest visibilityThrough routed hphase
    rw [hphase] at hpass
    obtain ⟨hcursors, hwithin, _, rfl, hpart⟩ := hpass
    refine h.setPass (passSound_closeRouting (h.numbered source) hcursors hwithin ?_)
    exact (prefix_append _ _).trans hpart
  · rename_i hphase
    rw [hphase] at hpass
    exact h.applyNext hsource hpass
  · exact h.setPass trivial
  · exact (h.localMove hlog hhistory
      (localMove_finishCompaction hlog (h.deliveries source))).setPass trivial
  · exact h

theorem invariant_step (h : Invariant cluster state) (event : Event) :
    Invariant cluster (step cluster state event) := by
  cases event with
  | act node action =>
    simp only [step]
    split
    · obtain ⟨_, hlog, hhistory⟩ := h.logs node
      exact h.localMove hlog hhistory (localMove_nodeStep hlog (h.deliveries node) action)
    · exact h
  | deliver _ event =>
    simp only [step]
    split
    · rename_i hsource
      exact h.deliver hsource event
    · exact h
  | arrive =>
    simp only [step]
    split
    · rename_i node batch hentry
      exact h.receive (h.inFlight _ (mem_of_getElem? hentry))
    · exact h

theorem invariant_run (cluster : Cluster) (events : List Event) :
    Invariant cluster (run cluster events) := by
  induction events using reverseRecOn with
  | nil => exact invariant_initial
  | append_singleton _ event ih =>
    rw [run_snoc]
    exact invariant_step ih event

end

/--
Reference counts are exact.  After any interleaving of delivery passes, arriving
requests, seals, releases, collection, appends and journal maintenance, every
artifact of every node counts, beyond its reservation, exactly the effects
routed to the node by the records of every source up to the node's cursor of
that source.  The records are those the source's journal has stored: the
retained ones are still there, at their offsets.
-/
theorem reference_counts_exact (cluster : Cluster) (events : List Event) :
    (∀ node artifact, ((run cluster events).stores node).blobs.held artifact =
      ∑ source ∈ cluster.nodes, changeOf artifact (routedTo cluster node
        (((run cluster events).history source).filter fun change =>
          change.offset ≤ ((run cluster events).stores node).journal.referenceCursor
            (cluster.sourceId source)))) ∧
      ∀ source, ((run cluster events).history source).length =
        ((run cluster events).stores source).journal.tail ∧ ∀ offset encoded,
            ((run cluster events).stores source).journal.records.get? offset = some encoded →
              ∃ change, cluster.codec.decode encoded = .ok change ∧ change.offset = offset ∧
                ((run cluster events).history source)[offset - 1]? = some change := by
  have h := invariant_run cluster events
  constructor
  · intro node artifact
    rw [(h.counts node).2 artifact]
    refine Finset.sum_congr rfl ?_
    intro source _
    rw [(h.numbered source).filter_le]
    rfl
  intro source
  obtain ⟨_, hlog, hhistory⟩ := h.logs source
  refine ⟨by rw [hhistory, length_map, hlog.tail_eq], ?_⟩
  intro _ _ hencoded
  rw [hlog.get?_records] at hencoded
  split at hencoded
  · rename_i habove
    rw [Option.map_eq_some_iff] at hencoded
    obtain ⟨entry, hentry, rfl⟩ := hencoded
    have hoffset := hlog.offsets _ _ hentry
    refine ⟨entry.change, ?_, by omega, ?_⟩
    · exact cluster.codec.decode_of_encode _ _ (hlog.encoded entry (mem_of_getElem? hentry))
    · rw [hhistory, getElem?_map, hentry, Option.map_some]
  · cases hencoded

end Keldra.Delivery
