import Keldra.Store.BlobReferences
import Keldra.Store.DerivedConsumers
import Keldra.Store.JournalLog

/-!
# A node's store around its journal

The operations that share the source journal, as one machine.  Each action is
one holder of the commit lock; what it writes before a later part of it fails
stays written.  An append comes with the rest of its batch, an arbitrary change
of the object and payload tables.

The delivery of content references reads a page of the journal, sends the
effects to every destination, this node included, and retries.  `deliveries` are
the requests such passes have made from this journal; each can be applied any
number of times at any later moment.  Requests of other sources are arbitrary.
-/

namespace Keldra.Store

open Foundation

/-- A node's tables and the volatile part its journal depends on. -/
structure SourceStore where
  journal : JournalTables
  derived : DerivedTables
  objects : ObjectTables
  blobs : BlobTables
  referenceSafeThrough : Nat
  deliveries : List ReferenceDeltaBatch

def SourceStore.initial : SourceStore where
  journal := JournalTables.initial
  derived := DerivedTables.initial
  objects := { heads := OrdMap.empty, versions := OrdMap.empty }
  blobs := BlobTables.initial
  referenceSafeThrough := 0
  deliveries := []

inductive JournalAction where
  | append (changes : List PendingLocalChange) (effects : LocalReferenceEffects)
      (admission : SourceJournalAdmission)
      (write : ObjectTables × BlobTables → ObjectTables × BlobTables)
  | settleThrough (offset : Nat)
  | settlePositions (source : SourceId) (offsets : List Nat)
  | settleInline
  | advanceReferenceSafe (offset : Nat)
  | readDelivery (after through : Nat) (deltas : List DestinationReferenceDelta)
  | applyReferenceDeltas
    (admission : SourceJournalAdmission) (now : Nat) (request : ReferenceDeltaBatch)
  | ensureMembership (fence : PlacementLogId) (activeNodes : List Nat)
  | checkpoint (checkpoint : DerivedConsumerCheckpoint) (activeNodes : List Nat)
  | pruneForCapacity
  | reopen

namespace SourceStore

variable (codec : LocalChangeCodec) (config : StoreConfig)

/-- One retention pass; a failed one changes nothing. -/
def prune (forceHeadroom : Bool) (store : SourceStore) : SourceStore :=
  match enforceRetention codec config forceHeadroom store.referenceSafeThrough
    (fun status => (derivedConsumerSafeThrough store.derived status).mapError
      DerivedConsumerError.text)
    store.journal store.objects with
  | .ok (journal, objects) => { store with journal, objects }
  | .error _ => store

section

variable (store : SourceStore)

def append (changes : List PendingLocalChange)
    (effects : LocalReferenceEffects) (admission : SourceJournalAdmission)
    (write : ObjectTables × BlobTables → ObjectTables × BlobTables) :
    Except MutationError SourceStore := do
  let journal ← stageLocalChanges codec config store.journal store.journal.referenceCursor
    changes effects admission
  let (objects, blobs) := write (store.objects, store.blobs)
  pure { store with journal, objects, blobs }

/-- The volatile safe offset only moves forward, up to the tail. -/
def advanceReferenceSafe (offset : Nat) : SourceStore :=
  match localWatchStatus config store.journal with
  | .error _ => store
  | .ok status =>
    if offset < store.referenceSafeThrough ∨ status.tail < offset ∨
      (offset = store.referenceSafeThrough ∧
        ¬ OverLimit config.watchRetention status.retainedEntries status.retainedBytes) then
      store
    else
      prune codec config false { store with referenceSafeThrough := offset }

/-- After an inline append everything up to the tail is delivered. -/
def settleInline : SourceStore :=
  match localWatchStatus config store.journal with
  | .error _ => store
  | .ok status =>
    if status.tail < store.referenceSafeThrough then
      store
    else
      { store with referenceSafeThrough := status.tail }

/-- A delivery pass reads records up to `through`. -/
def readDelivery (after through : Nat) (deltas : List DestinationReferenceDelta) : SourceStore :=
  if through ≤ store.journal.tail then
    { store with
      deliveries := { source := config.sourceId, after, through, deltas } :: store.deliveries }
  else
    store

def applyDeltas (admission : SourceJournalAdmission) (now : Nat)
    (request : ReferenceDeltaBatch) : SourceStore :=
  if request.source = config.sourceId ∧ request ∉ store.deliveries then
    store
  else
    match applyReferenceDeltas codec config admission now store.journal store.blobs request with
    | .ok (journal, blobs, _) => { store with journal, blobs }
    | .error _ => store

def ensureMembership (fence : PlacementLogId) (activeNodes : List Nat) : SourceStore :=
  match ensureDerivedConsumerMembership config store.journal store.derived fence
    activeNodes with
  | .ok derived => { store with derived }
  | .error _ => store

/-- The checkpoint is written before the retention pass it allows. -/
def applyCheckpoint (checkpoint : DerivedConsumerCheckpoint)
    (activeNodes : List Nat) : SourceStore :=
  match stageDerivedConsumerCheckpoint config store.journal store.derived checkpoint
    activeNodes with
  | .error _ => store
  | .ok derived =>
    match derivedConsumerStatus derived with
    | .ok (some _) => prune codec config false { store with derived }
    | _ => { store with derived }

/-- Reopening reconstructs the safe offset from the durable floor. -/
def reopen : SourceStore :=
  prune codec config false { store with referenceSafeThrough := store.journal.retentionFloor }

def step : JournalAction → SourceStore
  | .append changes effects admission write =>
    match append codec config store changes effects admission write with
    | .ok next => next
    | .error _ => store
  | .settleThrough offset =>
    match Store.settleThrough config store.journal offset with
    | .ok journal => { store with journal }
    | .error _ => store
  | .settlePositions source offsets =>
    match Store.settlePositions config store.journal source offsets with
    | .ok journal => { store with journal }
    | .error _ => store
  | .settleInline => settleInline config store
  | .advanceReferenceSafe offset => advanceReferenceSafe codec config store offset
  | .readDelivery after through deltas => readDelivery config store after through deltas
  | .applyReferenceDeltas admission now request =>
    applyDeltas codec config store admission now request
  | .ensureMembership fence activeNodes => ensureMembership config store fence activeNodes
  | .checkpoint checkpoint activeNodes => applyCheckpoint codec config store checkpoint activeNodes
  | .pruneForCapacity => prune codec config true store
  | .reopen => reopen codec config store

end

def run (actions : List JournalAction) : SourceStore :=
  actions.foldl (step codec config) initial

theorem run_snoc (actions : List JournalAction) (action : JournalAction) :
    run codec config (actions ++ [action]) =
    step codec config (run codec config actions) action := by
  simp [run]

end SourceStore

open SourceStore

section

variable {journal : JournalTables} {admission : SourceJournalAdmission}

/-- What a step may do to the journal: the log grows, the cursors move forward,
and the floor moves only as far as every consumer has got. -/
structure JournalMove (codec : LocalChangeCodec) (config : StoreConfig)
    (log : List LogEntry) (before after : SourceStore) : Prop where
  logs : ∃ entries, Logs codec config (log ++ entries) after.journal
  settled_le : before.journal.settledThrough ≤ after.journal.settledThrough
  floor_le : before.journal.retentionFloor ≤ after.journal.retentionFloor
  floor_safe : after.journal.retentionFloor = before.journal.retentionFloor ∨
      (after.journal.retentionFloor ≤ before.journal.settledThrough ∧
        after.journal.retentionFloor ≤ after.referenceSafeThrough ∧ ∃ status safe,
          derivedConsumerSafeThrough after.derived status = .ok safe ∧
            after.journal.retentionFloor ≤ safe.1 ∧ after.journal.retentionFloor ≤ safe.2)

variable {codec : LocalChangeCodec} {config : StoreConfig} {log : List LogEntry}
  {store before after : SourceStore}

section

variable (hlog : Logs codec config log before.journal)

include hlog

/-- A step that leaves the journal alone. -/
theorem JournalMove.still (hjournal : after.journal = before.journal) :
    JournalMove codec config log before after where
  logs := by
    refine ⟨[], ?_⟩
    rw [List.append_nil, hjournal]
    exact hlog
  settled_le := by rw [hjournal]
  floor_le := by rw [hjournal]
  floor_safe := Or.inl (by rw [hjournal])

/-- A step that moves only the settled cursor. -/
theorem JournalMove.settle
    (hsettled : journal = { before.journal with settledThrough := journal.settledThrough } ∧
      before.journal.settledThrough ≤ journal.settledThrough ∧
        journal.settledThrough ≤ before.journal.tail)
    (hjournal : after.journal = journal) :
    JournalMove codec config log before after := by
  obtain ⟨hsame, hforward, hwithin⟩ := hsettled
  have hfloor : journal.retentionFloor = before.journal.retentionFloor := by rw [hsame]
  refine ⟨⟨[], ?_⟩, ?_, ?_, .inl ?_⟩
  · rw [List.append_nil, hjournal, hsame]
    exact hlog.settle hforward hwithin
  · rw [hjournal]
    exact hforward
  · rw [hjournal, hfloor]
  · rw [hjournal, hfloor]

/-- A step that appends. -/
theorem JournalMove.append {cursors : SourceId → Nat} {changes : List PendingLocalChange}
    {effects : LocalReferenceEffects}
    (hcursors : cursors config.sourceId ≤ before.journal.tail)
    (hstaged : stageLocalChanges codec config before.journal cursors changes effects
    admission = .ok journal) (hjournal : after.journal = journal) :
    JournalMove codec config log before after := by
  obtain ⟨entries, -, hlogs, hfloor, hsettled⟩ := logs_stageLocalChanges hlog hcursors hstaged
  rw [← hjournal] at hlogs hfloor hsettled
  exact ⟨⟨entries, hlogs⟩, hsettled, hfloor.ge, .inl hfloor⟩

end

theorem journalMove_prune {forceHeadroom : Bool}
    (hlog : Logs codec config log store.journal)
    (hjournal : store.journal = before.journal) :
    JournalMove codec config log before (SourceStore.prune codec config forceHeadroom store) := by
  unfold prune
  split
  · rename_i journal objects hpass
    obtain ⟨entries, hlogs, hsettled, -, hfloor, hsafe, -⟩ := logs_enforceRetention hlog hpass
    rw [hjournal] at hsettled hfloor hsafe
    refine ⟨⟨entries, hlogs⟩, hsettled.ge, hfloor, ?_⟩
    rcases hsafe with hsame | ⟨hreference, safe, hconsumers, hindex, haccounting⟩
    · exact .inl hsame
    have hwithin := hlogs.floor_le_settled
    rw [hsettled] at hwithin
    rw [mapError_eq_ok] at hconsumers
    exact .inr ⟨hwithin, hreference, _, safe, hconsumers, hindex, haccounting⟩
  · rw [hjournal] at hlog
    exact JournalMove.still hlog hjournal

@[simp] theorem derived_prune (forceHeadroom : Bool) (store : SourceStore) :
    (SourceStore.prune codec config forceHeadroom store).derived = store.derived := by
  unfold prune
  split <;> rfl

@[simp] theorem deliveries_prune (forceHeadroom : Bool) (store : SourceStore) :
    (SourceStore.prune codec config forceHeadroom store).deliveries = store.deliveries := by
  unfold prune
  split <;> rfl

/-- Requests read from this journal end within it. -/
def DeliveriesWithin (config : StoreConfig) (store : SourceStore) : Prop :=
  ∀ request ∈ store.deliveries,
    request.source = config.sourceId → request.through ≤ store.journal.tail

theorem journalMove_applyDeltas {now : Nat} {request : ReferenceDeltaBatch}
    (hlog : Logs codec config log store.journal) (hdeliveries : DeliveriesWithin config store) :
    JournalMove codec config log store (store.applyDeltas codec config admission now request) := by
  unfold applyDeltas
  split
  · exact JournalMove.still hlog rfl
  rename_i hours
  split
  · rename_i journal blobs applied happlied
    rcases applyReferenceDeltas_eq_ok happlied with ⟨-, rfl, -⟩ |
      ⟨-, -, _, _, -, -, hstaged⟩
    · exact JournalMove.still hlog rfl
    refine JournalMove.append hlog ?_ hstaged rfl
    by_cases hsource : request.source = config.sourceId
    · rw [hsource, Function.update_self]
      have hmem : request ∈ store.deliveries := by
        by_contra hnot
        exact hours ⟨hsource, hnot⟩
      exact hdeliveries request hmem hsource
    rw [Function.update_of_ne (Ne.symm hsource)]
    exact hlog.cursor_le
  · exact JournalMove.still hlog rfl

/-- Every action moves the journal forward. -/
theorem journalMove_step (hlog : Logs codec config log store.journal)
    (hdeliveries : DeliveriesWithin config store) (action : JournalAction) :
    JournalMove codec config log store (store.step codec config action) := by
  cases action with
  | append =>
    simp only [SourceStore.step]
    split
    · rename_i next hnext
      simp only [SourceStore.append, ok_rules] at hnext
      obtain ⟨_, hstaged, rfl⟩ := hnext
      exact JournalMove.append hlog hlog.cursor_le hstaged rfl
    · exact JournalMove.still hlog rfl
  | settleThrough | settlePositions =>
    simp only [SourceStore.step]
    split
    · rename_i journal hsettled
      first
        | exact JournalMove.settle hlog (settleThrough_eq_ok hlog hsettled) rfl
        | exact JournalMove.settle hlog (settlePositions_eq_ok hlog hsettled) rfl
    · exact JournalMove.still hlog rfl
  | advanceReferenceSafe | checkpoint =>
    simp only [SourceStore.step, advanceReferenceSafe, applyCheckpoint, hlog.status]
    repeat' split
    all_goals first | exact JournalMove.still hlog rfl | exact journalMove_prune hlog rfl
  | settleInline | readDelivery | ensureMembership =>
    refine JournalMove.still hlog ?_
    simp only [SourceStore.step, settleInline, readDelivery, ensureMembership, hlog.status]
    split <;> rfl
  | applyReferenceDeltas => exact journalMove_applyDeltas hlog hdeliveries
  | pruneForCapacity | reopen => exact journalMove_prune hlog rfl

/-- The delivery requests after a step: those before it, and one just read. -/
theorem deliveries_step (store : SourceStore) (action : JournalAction) :
    (store.step codec config action).deliveries = store.deliveries ∨
    ∃ request, request.through ≤ store.journal.tail ∧
    (store.step codec config action).deliveries = request :: store.deliveries := by
  cases action with
  | readDelivery =>
    simp only [SourceStore.step, readDelivery]
    split
    · rename_i hwithin
      exact .inr ⟨_, hwithin, rfl⟩
    · exact .inl rfl
  | append =>
    left
    simp only [SourceStore.step]
    split
    · rename_i next hnext
      simp only [SourceStore.append, ok_rules] at hnext
      obtain ⟨_, -, rfl⟩ := hnext
      rfl
    · rfl
  | settleThrough | settlePositions | settleInline | applyReferenceDeltas | ensureMembership |
    advanceReferenceSafe | checkpoint =>
    left
    simp only [SourceStore.step, settleInline, applyDeltas, ensureMembership, advanceReferenceSafe,
      applyCheckpoint]
    repeat' split
    all_goals first | rfl | rw [deliveries_prune]
  | pruneForCapacity | reopen => exact .inl (deliveries_prune _ _)

theorem deliveriesWithin_step (hlog : Logs codec config log store.journal)
    (hdeliveries : DeliveriesWithin config store) (action : JournalAction) :
    DeliveriesWithin config (store.step codec config action) := by
  obtain ⟨_, hlogs⟩ := (journalMove_step hlog hdeliveries action).logs
  have hgrows : store.journal.tail ≤ (store.step codec config action).journal.tail := by
    rw [hlogs.tail_eq, hlog.tail_eq, List.length_append]
    omega
  intro request hmem hsource
  rcases deliveries_step store action with hsame | ⟨_, hwithin, hnew⟩
  · rw [hsame] at hmem
    exact (hdeliveries request hmem hsource).trans hgrows
  rw [hnew] at hmem
  rcases List.mem_cons.mp hmem with rfl | hold
  · exact hwithin.trans hgrows
  · exact (hdeliveries request hold hsource).trans hgrows

/-- In every reachable state the journal keeps a log. -/
theorem logs_run (codec : LocalChangeCodec) (config : StoreConfig) (actions : List JournalAction) :
    (∃ log, Logs codec config log (SourceStore.run codec config actions).journal) ∧
    DeliveriesWithin config (SourceStore.run codec config actions) := by
  induction actions using List.reverseRecOn with
  | nil =>
    refine ⟨⟨[], logs_initial⟩, ?_⟩
    intro _ hmem
    cases hmem
  | append_singleton _ action ih =>
    obtain ⟨⟨log, hlog⟩, hdeliveries⟩ := ih
    rw [SourceStore.run_snoc]
    obtain ⟨entries, hlogs⟩ := (journalMove_step hlog hdeliveries action).logs
    exact ⟨⟨log ++ entries, hlogs⟩, deliveriesWithin_step hlog hdeliveries action⟩

end

end Keldra.Store
