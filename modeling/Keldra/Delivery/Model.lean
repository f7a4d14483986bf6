import Keldra.Store.PayloadLifecycle

/-!
# Delivery of content references

Every node's journal is a source of reference effects, and every ACTIVE node a
destination.  A delivery pass of a source reads the destinations' cursors, scans
one page of its journal from the slowest of them, routes every record's effects
to the nodes that hold the payload, and sends each destination the effects after
its own cursor.

The passes wait for other nodes at many points.  The model splits them there: a
pass is a small state machine, its events carry what the outside answered, and
the events of all passes and the local operations of all nodes interleave
freely.  A request that was sent stays in flight.  It can arrive at any later
moment, several times, whatever its sender has concluded, also when the sender
has restarted since.

`history` observes each journal: the records ever stored, in the order of their
offsets, also after retention has pruned them.
-/

namespace Keldra.Delivery

open Foundation Store

structure PlacedShard where
  owner : Nat
  ordinal : Nat
deriving DecidableEq, Repr

/-- Who holds a payload: complete copies, or one fragment each. -/
inductive PayloadPlacement where
  | small (owners : List Nat)
  | largeComplete (owners : List Nat)
  | large (shards : List PlacedShard)
deriving DecidableEq, Repr

/-- The nodes, their stores' configuration, and one placement. -/
structure Cluster where
  codec : LocalChangeCodec
  nodes : Finset Nat
  sourceEpoch : Nat → Digest
  watchRetention : Nat → WatchRetention
  awaitingPublishTtl : Nat
  activeNodeIds : List Nat
  hasAddress : Nat → Bool
  fence : PlacementLogId
  selectPayloadPlacement : BlobRef → PayloadPlacement

def Cluster.sourceId (cluster : Cluster) (node : Nat) : SourceId :=
  { nodeId := node, sourceEpoch := cluster.sourceEpoch node }

def Cluster.storeConfig (cluster : Cluster) (node : Nat) : StoreConfig :=
  { sourceId := cluster.sourceId node, watchRetention := cluster.watchRetention node }

/-- Effects by the node they are routed to. -/
abbrev RoutedEffects := Nat → List DestinationReferenceDelta

def RoutedEffects.push (routed : RoutedEffects) (owner : Nat) (delta : DestinationReferenceDelta) :
    RoutedEffects :=
  Function.update routed owner (routed owner ++ [delta])

/-- Route one effect to every holder of its payload. -/
def routeDelta (placement : BlobRef → PayloadPlacement) (routed : RoutedEffects)
    (delta : ReferenceDelta) : RoutedEffects :=
  match placement delta.blob with
  | .small owners =>
    owners.foldl (fun routed owner =>
        routed.push owner { artifact := .completeBlob delta.blob, change := delta.change })
      routed
  | .largeComplete owners =>
    owners.foldl (fun routed owner =>
        routed.push owner { artifact := .completeBlob delta.blob, change := delta.change })
      routed
  | .large shards =>
    shards.foldl (fun routed shard =>
        routed.push shard.owner
          { artifact :=
              .shard { fragmentFormatVersion, blob := delta.blob, ordinal := shard.ordinal }
            change := delta.change })
      routed

def routeEffects
    (placement : BlobRef → PayloadPlacement) (deltas : List ReferenceDelta) : RoutedEffects :=
  deltas.foldl (routeDelta placement) (fun _ => [])

def maxLocalInvalidationScanRecords : Nat := 1024

def readLocalChange (codec : LocalChangeCodec) (journal : JournalTables) (offset : Nat) :
    Except MutationError LocalChange := do
  let encoded ← okOr (journal.records.get? offset)
    (.storage s!"local change offset {offset} is missing")
  let change ← (codec.decode encoded).mapError .storage
  rejectIf (change.offset ≠ offset) (.storage "local change key does not match its stored offset")
  pure change

/-- One page of the journal after an offset. -/
def scanLocalChanges (codec : LocalChangeCodec) (config : StoreConfig) (journal : JournalTables)
    (afterOffset limit : Nat) : Except MutationError (List LocalChange) := do
  let status ← (localWatchStatus config journal).mapError .storage
  let floor := status.retentionFloor
  let tail := status.tail
  rejectIf (afterOffset < floor)
    (.storage s!"local change cursor {afterOffset} is below retention floor {floor}")
  rejectIf (tail < afterOffset)
    (.storage s!"local change cursor {afterOffset} is beyond journal tail {tail}")
  let limit := min limit maxLocalInvalidationScanRecords
  if limit = 0 ∨ afterOffset = tail then
    pure []
  else
    let through := min (saturatingAdd64 afterOffset limit) tail
    (List.range' (afterOffset + 1) (through - afterOffset)).mapM (readLocalChange codec journal)

section

inductive ReferenceDeliveryError where
  | source (error : MutationError)
  | sourceNotActive (sourceId : SourceId)
  | missingAddress (node : Nat)
  | journalGap (node cursor floor : Nat)
  | cursorAhead (node cursor tail : Nat)
  | placement (message : String)
deriving DecidableEq, Repr

/-- Where a delivery pass of a source waits. -/
inductive Pass where
  | idle
  | readingCursors (remaining : List Nat) (cursors : OrdMap Nat Nat)
  | routing (cursors : OrdMap Nat Nat) (slowest visibilityThrough : Nat)
      (changes : List LocalChange) (routed : List (Nat × RoutedEffects))
  | applying (cursors : OrdMap Nat Nat) (routed : List (Nat × RoutedEffects)) (through : Nat)
      (remaining : List Nat)
  | compacting (cursors : OrdMap Nat Nat)

variable (cluster : Cluster)

def validateCursor (node cursor floor tail : Nat) : Except ReferenceDeliveryError Unit := do
  rejectIf (cursor < floor) (.journalGap node cursor floor)
  rejectIf (tail < cursor) (.cursorAhead node cursor tail)

/-- Start a pass: the source must be one of the ACTIVE nodes. -/
def beginPass (source : Nat) (store : SourceStore) : Except ReferenceDeliveryError Pass := do
  let status ← (localWatchStatus (cluster.storeConfig source) store.journal).mapError
    fun message => .source (.storage message)
  cluster.activeNodeIds.forM fun node => rejectIf (¬ cluster.hasAddress node) (.missingAddress node)
  rejectIf (status.sourceId.nodeId ∉ cluster.activeNodeIds) (.sourceNotActive status.sourceId)
  pure (.readingCursors cluster.activeNodeIds OrdMap.empty)

/-- With every cursor read, scan a page from the slowest destination. -/
def beginRouting (source : Nat) (store : SourceStore) (cursors : OrdMap Nat Nat) (pageSize : Nat) :
    Except ReferenceDeliveryError Pass := do
  let status ← (localWatchStatus (cluster.storeConfig source) store.journal).mapError
    fun message => .source (.storage message)
  cursors.entries.forM fun entry => validateCursor entry.1 entry.2 status.retentionFloor status.tail
  let slowest := cursors.values.min?.getD status.tail
  if slowest = status.tail then
    pure (.compacting cursors)
  else do
    let changes ← (scanLocalChanges cluster.codec (cluster.storeConfig source) store.journal
      slowest pageSize).mapError .source
    pure (.routing cursors slowest status.settledThrough
      (changes.takeWhile fun change => change.offset ≤ status.tail) [])

def isObjectMetadata : LocalChange → Bool
  | .objectHead _ => true
  | .retainedVersionDeleted _ => true
  | _ => false

/-- The routed effects of one record.  `classified` says whether the metadata
quorum proved it, `prepared` whether the payloads of its positive effects are
installed; without these the pass stops before the record. -/
def routeChange (visibilityThrough : Nat) (classified prepared : Bool) (change : LocalChange) :
    Option RoutedEffects :=
  if ¬ isObjectMetadata change ∧ change.referenceDeltas = [] then
    some fun _ => []
  else if isObjectMetadata change ∧ visibilityThrough < change.offset ∧ ¬ classified then
    none
  else if change.referenceDeltas = [] then
    some fun _ => []
  else if (change.referenceDeltas.any fun delta => 0 < delta.change) ∧ ¬ prepared then
    none
  else
    some (routeEffects cluster.selectPayloadPlacement change.referenceDeltas)

/-- The page is routed, or a record blocked it. -/
def closeRouting
    (cursors : OrdMap Nat Nat) (slowest : Nat) (routed : List (Nat × RoutedEffects)) : Pass :=
  let through := (routed.getLast?.map Prod.fst).getD slowest
  if slowest < through then .applying cursors routed through cluster.activeNodeIds else .idle

/-- The effects of the routed records after a destination's cursor. -/
def destinationBatch (source node after through : Nat) (routed : List (Nat × RoutedEffects)) :
    ReferenceDeltaBatch :=
  { source := cluster.sourceId source
    after
    through
    deltas := (routed.filter fun entry => after < entry.1).flatMap fun entry => entry.2 node }

/-- The offset every destination has passed. -/
def compactionOffset (source : Nat) (store : SourceStore) (cursors : OrdMap Nat Nat) :
    Except ReferenceDeliveryError Nat := do
  let status ← (localWatchStatus (cluster.storeConfig source) store.journal).mapError
    fun message => .source (.storage message)
  let safe := cursors.values.min?.getD status.tail
  rejectIf (status.tail < safe) (.cursorAhead source safe status.tail)
  rejectIf (cluster.activeNodeIds.any fun node => 65535 < node)
    (.placement "ACTIVE node ID exceeds the source-journal identity range")
  pure safe

/-- Tell the source's retention how far delivery got. -/
def finishCompaction
    (source : Nat) (store : SourceStore) (cursors : OrdMap Nat Nat) : SourceStore :=
  let config := cluster.storeConfig source
  match compactionOffset cluster source store cursors with
  | .error _ => store
  | .ok safe =>
    match ensureDerivedConsumerMembership config store.journal store.derived cluster.fence
      (cluster.activeNodeIds.insertionSort (· ≤ ·)) with
    | .error _ => store
    | .ok derived =>
      SourceStore.step cluster.codec config { store with derived } (.advanceReferenceSafe safe)

end

section

/-- Local operations of a node. -/
inductive NodeAction where
  | append (changes : List PendingLocalChange) (deferred : Bool)
      (admission : SourceJournalAdmission) (write : ObjectTables → ObjectTables)
  | sealArtifacts (artifacts : List DestinationReferenceArtifact) (now : Nat)
      (admission : SourceJournalAdmission) (place : BlobTables → BlobTables)
  | release (artifact : DestinationReferenceArtifact) (now : Nat)
      (changes : List PendingLocalChange) (effects : LocalReferenceEffects)
      (admission : SourceJournalAdmission)
  | collect (artifact : DestinationReferenceArtifact) (dueUpdatedAt now : Nat)
  | maintain (action : JournalAction)

inductive DeliveryEvent where
  | start
  | readCursor (answered : Bool)
  | scan (pageSize : Nat)
  | route (classified prepared : Bool)
  /-- The next destination applies its batch and answers, or no answer comes. -/
  | apply (answer : Option (SourceJournalAdmission × Nat))
  | compact
  | restart

inductive Event where
  | act (node : Nat) (action : NodeAction)
  | deliver (source : Nat) (event : DeliveryEvent)
  /-- A request in flight arrives. -/
  | arrive (index : Nat) (admission : SourceJournalAdmission) (now : Nat)

structure State where
  stores : Nat → SourceStore
  passes : Nat → Pass
  inFlight : List (Nat × ReferenceDeltaBatch)
  history : Nat → List LocalChange

def State.initial : State where
  stores := fun _ => SourceStore.initial
  passes := fun _ => .idle
  inFlight := []
  history := fun _ => []

/-- The records a step has put behind a journal's tail. -/
def newRecords (codec : LocalChangeCodec) (before after : JournalTables) : List LocalChange :=
  (List.range' (before.tail + 1) (after.tail - before.tail)).filterMap fun offset =>
    (after.records.get? offset).bind fun encoded => (codec.decode encoded).toOption

variable (cluster : Cluster)

/-- Replace one node's store, observing its journal. -/
def State.setStore (state : State) (node : Nat) (store : SourceStore) : State :=
  { state with
    stores := Function.update state.stores node store
    history := Function.update state.history node
      (state.history node ++ newRecords cluster.codec (state.stores node).journal store.journal) }

def State.setPass (state : State) (source : Nat) (pass : Pass) : State :=
  { state with passes := Function.update state.passes source pass }

/-- Journal operations that neither append records nor apply effects. -/
def isMaintenance : JournalAction → Bool
  | .append .. => false
  | .readDelivery .. => false
  | .applyReferenceDeltas .. => false
  | _ => true

/-- A local operation; a failed one changes nothing. -/
def nodeStep (node : Nat) (store : SourceStore) : NodeAction → SourceStore
  | .append changes deferred admission write =>
    SourceStore.step cluster.codec (cluster.storeConfig node) store
      (.append changes (if deferred then .deferred else .noReferenceEffects) admission
        fun tables => (write tables.1, tables.2))
  | .sealArtifacts artifacts now admission place =>
    match store.sealArtifacts cluster.codec (cluster.storeConfig node) artifacts now
      admission place with
    | .ok next => next
    | .error _ => store
  | .release artifact now changes effects admission =>
    if changes.any PendingLocalChange.hasReferenceEffects then
      store
    else
      match store.releaseAwaiting cluster.codec (cluster.storeConfig node) artifact now
        changes effects admission with
      | .ok next => next
      | .error _ => store
  | .collect artifact dueUpdatedAt now =>
    match store.collectDueArtifact cluster.codec (cluster.storeConfig node)
      cluster.awaitingPublishTtl artifact dueUpdatedAt now with
    | .ok next => next.1
    | .error _ => store
  | .maintain action =>
    if isMaintenance action then
      SourceStore.step cluster.codec (cluster.storeConfig node) store action
    else
      store

/-- Put a batch in flight. -/
def State.send (state : State) (source node : Nat) (batch : ReferenceDeltaBatch) : State :=
  let sent := state.setStore cluster source
    (SourceStore.step cluster.codec (cluster.storeConfig source) (state.stores source)
      (.readDelivery batch.after batch.through batch.deltas))
  { sent with inFlight := (node, batch) :: sent.inFlight }

/-- A batch arrives at its destination. -/
def State.receive (state : State) (node : Nat) (batch : ReferenceDeltaBatch)
    (admission : SourceJournalAdmission) (now : Nat) : State :=
  state.setStore cluster node
    ((state.stores node).applyDeltas cluster.codec (cluster.storeConfig node) admission now batch)

/-- What the destination answers to a batch. -/
def State.reply (state : State) (node : Nat) (batch : ReferenceDeltaBatch)
    (admission : SourceJournalAdmission) (now : Nat) :
    Except ReferenceDeltaError ReferenceDeltaApplied :=
  (applyReferenceDeltas cluster.codec (cluster.storeConfig node) admission now
    (state.stores node).journal (state.stores node).blobs batch).map fun result => result.2.2

/-- The destination's cursor after its answer, if it got far enough. -/
def advanceCursor (cursors : OrdMap Nat Nat) (node through : Nat)
    (reply : Except ReferenceDeltaError ReferenceDeltaApplied) : OrdMap Nat Nat :=
  match reply with
  | .ok applied =>
    if through ≤ applied.through then cursors.insert node applied.through else cursors
  | .error _ => cursors

/-- Send the next destination its batch. -/
def State.applyNext (state : State) (source node : Nat) (cursors : OrdMap Nat Nat)
    (routed : List (Nat × RoutedEffects)) (through : Nat) (rest : List Nat)
    (answer : Option (SourceJournalAdmission × Nat)) : State :=
  match cursors.get? node with
  | none => state.setPass source .idle
  | some after =>
    if through ≤ after then
      state.setPass source (.applying cursors routed through rest)
    else
      let batch := destinationBatch cluster source node after through routed
      let sent := state.send cluster source node batch
      match answer with
      | none => sent.setPass source (.applying cursors routed through rest)
      | some (admission, now) =>
        (sent.receive cluster node batch admission now).setPass source (.applying
          (advanceCursor cursors node through (sent.reply cluster node batch admission now))
          routed through rest)

def passOr (result : Except ReferenceDeliveryError Pass) : Pass :=
  match result with
  | .ok pass => pass
  | .error _ => .idle

/-- One event of a delivery pass. -/
def State.deliver (state : State) (source : Nat) (event : DeliveryEvent) : State :=
  match event, state.passes source with
  | .restart, _ => state.setPass source .idle
  | .start, .idle => state.setPass source (passOr (beginPass cluster source (state.stores source)))
  | .readCursor answered, .readingCursors (node :: rest) cursors =>
    if answered then
      state.setPass source (.readingCursors rest (cursors.insert node
        ((state.stores node).journal.referenceCursor (cluster.sourceId source))))
    else
      state.setPass source .idle
  | .scan pageSize, .readingCursors [] cursors =>
    state.setPass source
      (passOr (beginRouting cluster source (state.stores source) cursors pageSize))
  | .route classified prepared, .routing cursors slowest visibilityThrough (change :: rest)
    routed =>
    match routeChange cluster visibilityThrough classified prepared change with
    | some effects =>
      state.setPass source (.routing cursors slowest visibilityThrough rest
        (routed ++ [(change.offset, effects)]))
    | none => state.setPass source (closeRouting cluster cursors slowest routed)
  | .route _ _, .routing cursors slowest _ [] routed =>
    state.setPass source (closeRouting cluster cursors slowest routed)
  | .apply answer, .applying cursors routed through (node :: rest) =>
    state.applyNext cluster source node cursors routed through rest answer
  | .apply _, .applying cursors _ _ [] => state.setPass source (.compacting cursors)
  | .compact, .compacting cursors =>
    (state.setStore cluster source
      (finishCompaction cluster source (state.stores source) cursors)).setPass source .idle
  | _, _ => state

def step (state : State) (event : Event) : State :=
  match event with
  | .act node action =>
    if node ∈ cluster.nodes then
      state.setStore cluster node (nodeStep cluster node (state.stores node) action)
    else
      state
  | .deliver source event =>
    if source ∈ cluster.nodes then state.deliver cluster source event else state
  | .arrive index admission now =>
    match state.inFlight[index]? with
    | some (node, batch) => state.receive cluster node batch admission now
    | none => state

def run (events : List Event) : State :=
  events.foldl (step cluster) State.initial

theorem run_snoc (events : List Event) (event : Event) :
    run cluster (events ++ [event]) = step cluster (run cluster events) event := by
  simp [run]

end

end Keldra.Delivery
