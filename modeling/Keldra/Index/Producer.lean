import Keldra.Foundation.OrdMap

/-!
# The index producer's passes

A pass opens a writer for every assigned partition that has none and advances each
writer once: through its baseline, or by one page of its journal.  A window keeps the
latest change of each path until it is flushed.  The first error ends the pass, and the
producer then drops all writers and starts again from the durable Currents.

The selection of an object's values, its query deltas and the publication of a flushed
window are not modelled; a value or a document they refuse is an error of the host.
-/

namespace Keldra.Index

open Foundation OrdMap List Function

section Extraction

inductive ScalarValue where
  | null
  | boolean (value : Bool)
  | signed (value : Int)
  | unsigned (value : Nat)
  | number (bits : Nat)
  | string (value : String)
deriving DecidableEq, Repr

inductive FieldType where
  | boolean
  | signedInteger
  | unsignedInteger
  | float
  | date
  | keyword
  | text
deriving DecidableEq, Repr

inductive Cardinality where
  | single
  | multi
deriving DecidableEq, Repr

/-- A field of a recipe; dates are read in the field's own format. -/
structure FieldSchema where
  name : String
  sourceSelector : String
  fieldType : FieldType
  cardinality : Cardinality
  allowMissing : Bool
  allowNull : Bool
  parseMillis : String → Option Int

/-- The field state of one document; an explicit null is kept apart from the values. -/
structure TypedJsonFieldState where
  present : Bool
  null : Bool
  values : List ScalarValue
deriving DecidableEq, Repr

/-- What extraction calls: the bits of an integer that a float holds exactly, and the checks
and query deltas of a document once its field states are known. -/
structure ProjectionHost where
  exactNumber : Int → Option Nat
  finish : List FieldSchema → List TypedJsonFieldState → Except String Unit

def maxTermBytes : Nat := 32766

/-- A value in the representation of its field's type. -/
def normalizeSelectedValue (host : ProjectionHost) (field : FieldSchema) (value : ScalarValue) :
    Except String ScalarValue :=
  let invalid :=
    "Typed JSON field `" ++ field.name ++ "` contains a value outside its declared type"
  match field.fieldType, value with
  | _, .null => pure .null
  | .boolean, .boolean value => pure (.boolean value)
  | .signedInteger, .signed value => pure (.signed value)
  | .signedInteger, .unsigned value =>
    if value < 2 ^ 63 then pure (.signed value) else .error invalid
  | .unsignedInteger, .unsigned value => pure (.unsigned value)
  | .unsignedInteger, .signed value => if value = 0 then pure (.unsigned 0) else .error invalid
  | .float, .number bits => pure (.number bits)
  | .float, .signed value => (okOr (host.exactNumber value) invalid).map .number
  | .float, .unsigned value => (okOr (host.exactNumber value) invalid).map .number
  | .date, .string value => (okOr (field.parseMillis value) invalid).map .signed
  | .keyword, .string value => pure (.string value)
  | .text, .string value => pure (.string value)
  | _, _ => .error invalid

def valueMatchesField (field : FieldSchema) (value : ScalarValue) : Except String Unit :=
  match field.fieldType, value with
  | _, .null => pure ()
  | .boolean, .boolean _ => pure ()
  | .signedInteger, .signed _ => pure ()
  | .date, .signed _ => pure ()
  | .unsignedInteger, .unsigned _ => pure ()
  | .float, .number _ => pure ()
  | .keyword, .string value =>
    rejectIf (maxTermBytes < value.utf8ByteSize) "keyword value is too long"
  | .text, .string _ => pure ()
  | _, _ => .error "scalar does not match its Typed JSON field"

/-- The checks of a field that is present. -/
def checkPresentState (field : FieldSchema) (state : TypedJsonFieldState) :
    Except String Unit := do
  rejectIf (state.null = true ∧ field.allowNull = false) "field state contains a disallowed null"
  rejectIf (field.cardinality = .single ∧ 1 < state.values.length + state.null.toNat)
    "single-valued field state has multiple values"
  state.values.forM (valueMatchesField field)

/-- The text that keyword values are sorted by. -/
def ScalarValue.keyword : ScalarValue → String
  | .string value => value
  | _ => ""

/-- Several keywords are kept as a sorted set. -/
def sortedKeywords (field : FieldSchema) : Prop :=
  field.fieldType = .keyword ∧ field.cardinality = .multi

instance (field : FieldSchema) : Decidable (sortedKeywords field) :=
  inferInstanceAs (Decidable (_ ∧ _))

def canonicalizeFieldState (field : FieldSchema) (state : TypedJsonFieldState) :
    Except String TypedJsonFieldState :=
  if state.present = false then do
    rejectIf (state.null = true ∨ state.values ≠ []) "missing field state contains values"
    rejectIf (field.allowMissing = false) "required field is missing"
    pure state
  else do
    checkPresentState field state
    pure (if sortedKeywords field then
        { state with
          values := (state.values.insertionSort fun a b => a.keyword ≤ b.keyword).destutter
            (· ≠ ·) }
      else state)

/-- The check that encoding makes of a field state. -/
def validateCanonicalFieldState (field : FieldSchema) (state : TypedJsonFieldState) :
    Except String Unit :=
  if state.present = false then
    rejectIf (state.null = true ∨ state.values ≠ [] ∨ field.allowMissing = false)
      "missing field state is invalid"
  else do
    checkPresentState field state
    rejectIf (sortedKeywords field ∧ ¬ state.values.IsChain fun a b => a.keyword < b.keyword)
      "Typed JSON field state is not canonical"

def TypedJsonFieldState.fromSelected (field : FieldSchema) :
    Option (List ScalarValue) → Except String TypedJsonFieldState
  | none => pure { present := false, null := false, values := [] }
  | some selected =>
    canonicalizeFieldState field
      { present := true
        null := selected.contains .null
        values := selected.filter (· ≠ .null) }

/-- The values selected of an object, by selector. -/
abbrev SelectedValues := String → Option (List ScalarValue)

/-- What a change leaves of its object, as far as it is in a recipe's scope. -/
inductive SourceChange where
  | outside
  | remove
  | upsert (selected : SelectedValues)

/-- The normalized values of an object for a recipe's fields. -/
def selectFields (host : ProjectionHost) (fields : List FieldSchema) (selected : SelectedValues) :
    Except String (List (Option (List ScalarValue))) :=
  fields.mapM fun field =>
    match selected field.sourceSelector with
    | none => pure none
    | some values => do
      let values ← values.mapM (normalizeSelectedValue host field)
      pure (some values)

def prepareTypedJsonDocument
    (host : ProjectionHost) (fields : List FieldSchema)
    (selected : List (Option (List ScalarValue))) :
    Except String (List TypedJsonFieldState) := do
  let states ← (fields.zip selected).mapM fun entry => do
    let state ← TypedJsonFieldState.fromSelected entry.1 entry.2
    validateCanonicalFieldState entry.1 state
    pure state
  host.finish fields states
  pure states

/-- The row of a change: none outside the recipe's scope, and no fields for a removal. -/
def prepare (host : ProjectionHost) (fields : List FieldSchema) :
    SourceChange → Except String (Option (List TypedJsonFieldState))
  | .outside => pure none
  | .remove => pure (some [])
  | .upsert selected => do
    let selected ← selectFields host fields selected
    let states ← prepareTypedJsonDocument host fields selected
    pure (some states)

end Extraction

section Producer

/-- A journaled change of a path. -/
structure Mutation where
  path : String
  offset : Nat
  ordinal : Nat
  change : SourceChange

def Mutation.position (mutation : Mutation) : Nat ×ₗ Nat :=
  toLex (mutation.offset, mutation.ordinal)

/-- The latest change of each path. -/
abbrev MutationWindow := OrdMap String Mutation

/-- What a partition reads up to the captured barrier: its recipe's fields, the
objects of its baseline, and the pages of its journal after that. -/
structure PartitionSource where
  fields : List FieldSchema
  baseline : List SelectedValues
  pages : List (List Mutation)

/-- A writer's place in the baseline and the journal, and its mutation window. -/
structure Writer where
  taken : Nat
  scanned : Nat
  pending : MutationWindow
  operations : Nat
  since : Option Nat

structure ProducerLimits where
  batchItems : Nat
  flushAge : Nat
  windowOverflows : MutationWindow → List Mutation → Bool
  windowFull : MutationWindow → Nat → Bool

variable (host : ProjectionHost) (limits : ProducerLimits)

/-- A writer starts from Current, the number of pages it covers. -/
def openWriter (current : Option Nat) : Writer :=
  { taken := 0, scanned := current.getD 0, pending := OrdMap.empty, operations := 0, since := none }

/-- The changes of a window in the order of the journal. -/
def windowMutations (window : MutationWindow) : List Mutation :=
  (window.entries.map Prod.snd).insertionSort fun a b => a.position ≤ b.position

/-- Prepare the window if a flush is due, and publish Current if it gives a row. -/
def flushIf (source : PartitionSource) (due : Bool) (current : Option Nat) (writer : Writer) :
    Except String (Option Nat × Writer) :=
  if due then do
    let rows ← (windowMutations writer.pending).mapM fun mutation =>
      prepare host source.fields mutation.change
    pure (if rows.any Option.isSome then some writer.scanned else current,
      { writer with pending := OrdMap.empty, operations := 0, since := none })
  else
    pure (current, writer)

/-- A later change of a path replaces the one in the window. -/
def applyMutation (window : MutationWindow) (mutation : Mutation) : MutationWindow :=
  if (window.get? mutation.path).all fun previous => previous.position < mutation.position then
    window.insert mutation.path mutation
  else
    window

def queuePage (now : Nat) (page : List Mutation) (writer : Writer) : Writer :=
  { writer with
    scanned := writer.scanned + 1
    pending := page.foldl applyMutation writer.pending
    operations := writer.operations + page.length
    since := if page.isEmpty then writer.since else writer.since <|> some now }

/-- One batch of the baseline; its end publishes the first Current. -/
def backfill (source : PartitionSource) (writer : Writer) : Except String (Option Nat × Writer) :=
  let batch := (source.baseline.drop writer.taken).take (max limits.batchItems 1)
  if batch.isEmpty then
    pure (some 0, writer)
  else do
    let _ ← batch.mapM fun selected => prepare host source.fields (.upsert selected)
    pure (none, { writer with taken := writer.taken + batch.length })

/-- A failed step leaves the Current it found. -/
def durably (current : Option Nat) (result : Except String (Option Nat × Writer))
    (next : Option Nat → Writer → Option Nat × Except String Writer) :
    Option Nat × Except String Writer :=
  match result with
  | .error error => (current, .error error)
  | .ok (current, writer) => next current writer

/-- `advance`: the Current it leaves, also when it fails. -/
def advance (now : Nat) (source : PartitionSource) (current : Option Nat) (writer : Writer) :
    Option Nat × Except String Writer :=
  let aged := fun (current : Option Nat) (writer : Writer) =>
    durably current
      (flushIf host source (writer.since.any fun since => since + limits.flushAge ≤ now)
        current writer)
      fun current writer => (current, .ok writer)
  if current.isNone then
    durably current (backfill host limits source writer)
      fun current writer => (current, .ok writer)
  else
    match source.pages[writer.scanned]? with
    | none => aged current writer
    | some page =>
      durably current (flushIf host source
        (!writer.pending.entries.isEmpty && limits.windowOverflows writer.pending page) current
          writer)
        fun current writer =>
          let queued := queuePage now page writer
          durably current
            (flushIf host source (limits.windowFull queued.pending queued.operations) current
              queued) aged

variable {κ : Type} [LinearOrder κ]

/-- The durable Currents and the open writers. -/
structure ProducerState (κ : Type) where
  currents : κ → Option Nat
  writers : κ → Option Writer

/-- `reconcile` over the assigned partitions, up to the first error. -/
def reconcile (now : Nat) : List (κ × PartitionSource) → ProducerState κ →
      ProducerState κ × Except String Unit
  | [], state => (state, .ok ())
  | (key, source) :: rest, state =>
    let writer := (state.writers key).getD (openWriter (state.currents key))
    match advance host limits now source (state.currents key) writer with
    | (current, .error error) =>
      ({ state with currents := Function.update state.currents key current }, .error error)
    | (current, .ok writer) =>
      reconcile now rest
        { currents := Function.update state.currents key current
          writers := Function.update state.writers key (some writer) }

/-- One turn of the producer loop at the given time. -/
def producerPass (assigned : OrdMap κ PartitionSource) (state : ProducerState κ) (now : Nat) :
    ProducerState κ :=
  match reconcile host limits now assigned.entries state with
  | (state, .error _) => { state with writers := fun _ => none }
  | (state, .ok ()) =>
    { state with writers := fun key => if assigned.contains key then state.writers key else none }

/-- Passes at the given times, after a start from the durable Currents. -/
def producerRun
    (assigned : OrdMap κ PartitionSource) (currents : κ → Option Nat) (times : List Nat) :
    ProducerState κ :=
  times.foldl (producerPass host limits assigned) { currents, writers := fun _ => none }

end Producer

section Isolation

variable {host : ProjectionHost} {limits : ProducerLimits} {source : PartitionSource}
  {current : Option Nat} {writer : Writer}

/-- All changes that a partition reads. -/
def PartitionSource.changes (source : PartitionSource) : List SourceChange :=
  source.baseline.map .upsert ++ source.pages.flatten.map Mutation.change

/-- All objects of a partition can be prepared for its recipe. -/
def Fits (host : ProjectionHost) (source : PartitionSource) : Prop :=
  ∀ change ∈ source.changes, ∃ row, prepare host source.fields change = .ok row

/-- A writer's window comes from the partition's journal. -/
def FromJournal (source : PartitionSource) (writer : Writer) : Prop :=
  ∀ path mutation, writer.pending.get? path = some mutation → mutation ∈ source.pages.flatten

theorem mapM_prepare {α : Type} (hfits : Fits host source) (change : α → SourceChange)
    (objects : List α) (h : ∀ object ∈ objects, change object ∈ source.changes) :
    ∃ rows, objects.mapM (fun object => prepare host source.fields (change object)) = .ok rows := by
  induction objects with
  | nil => exact ⟨[], rfl⟩
  | cons object _ ih =>
    obtain ⟨row, hrow⟩ := hfits _ (h object mem_cons_self)
    obtain ⟨rows, hrows⟩ := ih fun later hlater => h later (mem_cons_of_mem _ hlater)
    exact ⟨row :: rows, by rw [mapM_cons, hrow, hrows]; rfl⟩

/-- A flush empties the window. -/
theorem flushIf_ok (hfits : Fits host source) (hwriter : FromJournal source writer)
    (due : Bool) (current : Option Nat) :
    ∃ next flushed, flushIf host source due current writer = .ok (next, flushed) ∧
      FromJournal source flushed := by
  cases due with
  | false => exact ⟨current, writer, rfl, hwriter⟩
  | true =>
    obtain ⟨rows, hrows⟩ := mapM_prepare hfits Mutation.change
      (windowMutations writer.pending) (by
        intro mutation hmem
        obtain ⟨entry, hentry, rfl⟩ := mem_map.mp ((mem_insertionSort _).mp hmem)
        exact mem_append_right _ (mem_map_of_mem (hwriter _ _ (get?_of_mem hentry))))
    refine ⟨_, _, by rw [flushIf, if_pos rfl, hrows]; rfl, ?_⟩
    intro _ _ hget
    cases hget

theorem applyMutation_get? {window : MutationWindow} {mutation found : Mutation} {path : String}
    (h : (applyMutation window mutation).get? path = some found) :
    found = mutation ∨ window.get? path = some found := by
  unfold applyMutation at h
  split at h
  · rw [get?_insert] at h
    split at h
    · exact .inl (Option.some.inj h).symm
    · exact .inr h
  · exact .inr h

/-- What a page leaves in the window comes from the page or was there. -/
theorem foldl_applyMutation_get? {page : List Mutation} {window : MutationWindow}
    {found : Mutation} {path : String}
    (h : (page.foldl applyMutation window).get? path = some found) :
    found ∈ page ∨ window.get? path = some found := by
  induction page generalizing window with
  | nil => exact .inr h
  | cons mutation rest ih =>
    rcases ih h with hmem | hget
    · exact .inl (mem_cons_of_mem _ hmem)
    rcases applyMutation_get? hget with rfl | hold
    · exact .inl mem_cons_self
    · exact .inr hold

/-- A partition whose objects fit its recipe advances without an error. -/
theorem advance_ok (limits : ProducerLimits) (hfits : Fits host source)
    (hwriter : FromJournal source writer) (now : Nat) (current : Option Nat) :
    ∃ next advanced, advance host limits now source current writer = (next, .ok advanced) ∧
      FromJournal source advanced := by
  have haged : ∀ current writer, FromJournal source writer → ∃ next advanced, durably current
      (flushIf host source (writer.since.any fun since => since + limits.flushAge ≤ now)
        current writer) (fun current writer => (current, .ok writer)) = (next, .ok advanced) ∧
      FromJournal source advanced := by
    intro current _ hwriter
    obtain ⟨next, flushed, hflush, hflushed⟩ := flushIf_ok hfits hwriter _ current
    exact ⟨next, flushed, by rw [hflush]; rfl, hflushed⟩
  unfold advance
  split
  · -- the baseline
    unfold backfill
    dsimp only
    split
    · exact ⟨some 0, writer, rfl, hwriter⟩
    obtain ⟨_, hrows⟩ := mapM_prepare hfits SourceChange.upsert
      ((source.baseline.drop writer.taken).take (max limits.batchItems 1)) (by
        intro selected hmem
        exact mem_append_left _ (mem_map_of_mem (mem_of_mem_drop (mem_of_mem_take hmem))))
    rw [hrows]
    exact ⟨none, _, rfl, hwriter⟩
  split
  · exact haged current writer hwriter
  rename_i page hpage
  obtain ⟨first, flushed, hflush, hflushed⟩ := flushIf_ok hfits hwriter
    (!writer.pending.entries.isEmpty && limits.windowOverflows writer.pending page) current
  have hqueued : FromJournal source (queuePage now page flushed) := by
    intro path mutation hget
    rcases foldl_applyMutation_get? hget with hnew | hold
    · exact mem_flatten.mpr ⟨page, mem_of_getElem? hpage, hnew⟩
    · exact hflushed path mutation hold
  obtain ⟨second, full, hfull, hsound⟩ := flushIf_ok hfits hqueued
    (limits.windowFull (queuePage now page flushed).pending
      (queuePage now page flushed).operations) first
  simp only [hflush, durably, hfull]
  exact haged second full hsound

variable {κ : Type} [LinearOrder κ]
variable (host limits) in
/-- What one pass does to a partition that it advances. -/
def ownPass (source : PartitionSource) (state : Option Nat × Option Writer) (now : Nat) :
    Option Nat × Option Writer :=
  let advanced := advance host limits now source state.1 (state.2.getD (openWriter state.1))
  (advanced.1, advanced.2.toOption)

/-- Every assigned partition fits its recipe and has a window of its own journal. -/
def AllFit (host : ProjectionHost) (partitions : List (κ × PartitionSource))
    (state : ProducerState κ) : Prop :=
  ∀ entry ∈ partitions, Fits host entry.2 ∧
    ∀ writer, state.writers entry.1 = some writer → FromJournal entry.2 writer

/-- A pass in which every partition fits advances each on its own. -/
theorem reconcile_ok (limits : ProducerLimits)
    {partitions : List (κ × PartitionSource)} {state : ProducerState κ}
    (hnodup : (partitions.map Prod.fst).Nodup) (hfit : AllFit host partitions state)
    (now : Nat) : ∃ next, reconcile host limits now partitions state = (next, .ok ()) ∧
    AllFit host partitions next ∧
    (∀ entry ∈ partitions, (next.currents entry.1, next.writers entry.1) =
    ownPass host limits entry.2 (state.currents entry.1, state.writers entry.1) now) ∧
    ∀ key ∉ partitions.map Prod.fst, next.writers key = state.writers key ∧
    next.currents key = state.currents key := by
  induction partitions generalizing state with
  | nil => exact ⟨state, rfl, hfit, by simp, by simp⟩
  | cons entry rest ih =>
    obtain ⟨key, source⟩ := entry
    rw [map_cons, nodup_cons] at hnodup
    obtain ⟨hown, hwindow⟩ := hfit (key, source) mem_cons_self
    have hwriter : FromJournal source
        ((state.writers key).getD (openWriter (state.currents key))) := by
      cases hopen : state.writers key with
      | none => simp [FromJournal, openWriter]
      | some writer => exact hwindow writer hopen
    obtain ⟨current, writer, hadvance, hsound⟩ :=
      advance_ok limits hown hwriter now (state.currents key)
    have hother : ∀ other ∈ rest, other.1 ≠ key := fun other hmem heq =>
      hnodup.1 (mem_map.mpr ⟨other, hmem, heq⟩)
    obtain ⟨next, hnext, hfits, hrest, hkept⟩ := @ih
      { currents := update state.currents key current
        writers := update state.writers key (some writer) } hnodup.2 (by
        intro other hmem
        dsimp only
        rw [update_of_ne (hother other hmem)]
        exact hfit other (mem_cons_of_mem _ hmem))
    have hhere := hkept key hnodup.1
    dsimp only at hhere
    rw [update_self, update_self] at hhere
    refine ⟨next, by rw [reconcile, hadvance]; exact hnext, ?_, ?_, ?_⟩
    · refine forall_mem_cons.mpr ⟨⟨hown, fun found hfound => ?_⟩, hfits⟩
      rw [hhere.1, Option.some.injEq] at hfound
      rw [← hfound]
      exact hsound
    · refine forall_mem_cons.mpr ⟨?_, fun other hmem => ?_⟩
      · rw [hhere.1, hhere.2, ownPass, hadvance]
        rfl
      rw [hrest other hmem]
      dsimp only
      rw [update_of_ne (hother other hmem), update_of_ne (hother other hmem)]
    intro other hmem
    rw [map_cons, mem_cons, not_or] at hmem
    obtain ⟨hwriters, hcurrents⟩ := hkept other hmem.2
    rw [hwriters, hcurrents]
    dsimp only
    rw [update_of_ne hmem.1, update_of_ne hmem.1]
    exact ⟨rfl, rfl⟩

/-- A producer whose partitions all fit their recipes runs each on its own. -/
theorem producerRun_eq (limits : ProducerLimits) (assigned : OrdMap κ PartitionSource)
    (hfits : ∀ key source, assigned.get? key = some source → Fits host source)
    (currents : κ → Option Nat) (times : List Nat) :
    AllFit host assigned.entries (producerRun host limits assigned currents times) ∧
    ∀ key source, assigned.get? key = some source →
    ((producerRun host limits assigned currents times).currents key,
    (producerRun host limits assigned currents times).writers key) =
    times.foldl (ownPass host limits source) (currents key, none) := by
  induction times using reverseRecOn with
  | nil =>
    refine ⟨fun entry hmem => ⟨hfits entry.1 entry.2 (get?_of_mem hmem), ?_⟩,
      fun key source _ => rfl⟩
    intro _ hwriter
    cases hwriter
  | append_singleton earlier now ih =>
    obtain ⟨hall, hruns⟩ := ih
    obtain ⟨next, hnext, hfit, hown, -⟩ := reconcile_ok limits assigned.nodup_keys hall now
    have hpass : producerRun host limits assigned currents (earlier ++ [now]) =
        { next with
          writers := fun key => if assigned.contains key then next.writers key else none } := by
      rw [producerRun, foldl_append]
      change producerPass host limits assigned
        (producerRun host limits assigned currents earlier) now = _
      rw [producerPass, hnext]
    rw [hpass]
    refine ⟨fun entry hmem => ⟨(hfit entry hmem).1, fun writer hwriter => ?_⟩, ?_⟩
    · dsimp only at hwriter
      split at hwriter
      · exact (hfit entry hmem).2 writer hwriter
      · cases hwriter
    intro key source hget
    have hcontains : assigned.contains key = true :=
      (assigned.contains_iff key).mpr ⟨source, hget⟩
    dsimp only
    rw [if_pos hcontains, hown (key, source) ((assigned.get?_eq_some_iff key source).mp hget),
      hruns key source hget, foldl_append]
    rfl

/-- In every run of the producer in which the objects of all assigned partitions can be
prepared for their recipes, each partition is after every pass where it would be if
it were assigned alone. -/
theorem partitions_advance_alone
    (host : ProjectionHost)
    (limits : ProducerLimits)
    (assigned : OrdMap κ PartitionSource)
    (key : κ)
    (source : PartitionSource)
    (hassigned : assigned.get? key = some source)
    (hown : Fits host source)
    (hothers : ∀ other theirs, other ≠ key → assigned.get? other = some theirs →
      Fits host theirs)
    (currents : κ → Option Nat)
    (times : List Nat) :
    let together := producerRun host limits assigned currents times
    let alone := producerRun host limits (OrdMap.empty.insert key source) currents times
    together.currents key = alone.currents key ∧
      together.writers key = alone.writers key := by
  have hall : ∀ other theirs, assigned.get? other = some theirs → Fits host theirs := by
    intro other theirs hget
    by_cases hsame : other = key
    · rw [hsame, hassigned] at hget
      rw [← Option.some.inj hget]
      exact hown
    · exact hothers other theirs hsame hget
  have honly : ∀ other theirs, (empty.insert key source).get? other = some theirs →
      Fits host theirs := by
    intro other theirs hget
    rw [get?_insert] at hget
    split at hget
    · rw [← Option.some.inj hget]
      exact hown
    · cases hget
  have htogether := (producerRun_eq limits assigned hall currents times).2 key source hassigned
  have halone := (producerRun_eq limits (empty.insert key source) honly currents times).2 key
    source (get?_insert_self _ _ _)
  exact Prod.mk.inj (htogether.trans halone.symm)

end Isolation

section Samples

def flagField : FieldSchema where
  name := "flag"
  sourceSelector := "/flag"
  fieldType := .boolean
  cardinality := .single
  allowMissing := true
  allowNull := true
  parseMillis := fun _ => none

/-- A partition with one baseline object that holds the value. -/
def flagPartition (value : ScalarValue) : PartitionSource where
  fields := [flagField]
  baseline := [fun selector => if selector = "/flag" then some [value] else none]
  pages := []

def sampleHost : ProjectionHost where
  exactNumber := fun _ => none
  finish := fun _ _ => .ok ()

def sampleLimits : ProducerLimits where
  batchItems := 10
  flushAge := 100
  windowOverflows := fun _ _ => false
  windowFull := fun _ _ => false

/-- Next to a partition that fits, the second one publishes its Current. -/
theorem second_partition_advances :
    (producerRun sampleHost sampleLimits
      (OrdMap.ofList [(1, flagPartition (.boolean true)), (2, flagPartition (.boolean false))])
      (fun _ => none) [1, 2]).currents 2 =
    (producerRun sampleHost sampleLimits
      (OrdMap.empty.insert 2 (flagPartition (.boolean false)))
      (fun _ => none) [1, 2]).currents 2 := by
  have hfits : ∀ value, Fits sampleHost (flagPartition (.boolean value)) := by
    intro _ _ hmem
    rw [mem_singleton.mp hmem]
    exact ⟨_, rfl⟩
  refine (partitions_advance_alone sampleHost sampleLimits _ 2 _ rfl (hfits false) ?_
    (fun _ => none) [1, 2]).1
  intro _ _ hother hget
  have hfirst := (get?_eq_some_iff _ _ _).mp hget
  simp only [ofList, foldl_cons, foldl_nil, OrdMap.insert, insertEntry, empty] at hfirst
  norm_num at hfirst
  rcases hfirst with ⟨-, rfl⟩ | ⟨hsame, -⟩
  · exact hfits true
  · exact absurd hsame hother

/-- Alone the second partition has its Current after two passes; next to a partition
whose object holds a string in a boolean field it has none after any of ten. -/
theorem failing_partition_blocks_others :
    (producerRun sampleHost sampleLimits
      (OrdMap.empty.insert 2 (flagPartition (.boolean false))) (fun _ => none)
      [1, 2]).currents 2 = some 0 ∧
    (producerRun sampleHost sampleLimits
      (OrdMap.ofList [(1, flagPartition (.string "x")), (2, flagPartition (.boolean false))])
      (fun _ => none) [1, 2, 3, 4, 5, 6, 7, 8, 9, 10]).currents 2 = none := by
  constructor <;> rfl

end Samples

end Keldra.Index
