import Keldra.Foundation.ContentTree
import Keldra.Foundation.OrdMap
import Keldra.Index.Model

/-!
# The page tree of query-run references

Appends copy the right spine of an immutable page tree, and a compaction
replaces a window of runs by one run.  Pages are stored under the digest of
their bytes, so every walk takes the function that loads them; the walks follow
digests found in loaded pages, and their first argument bounds how deep they go.
-/

namespace Keldra.Index

open Foundation

/-- Most entries a page lists. -/
def queryRunPageFanout : Nat := 128

/-- One stored run and the source interval it covers. -/
structure QueryRunReference where
  hash : Digest
  encodedBytes : UInt64
  sequence : UInt64
  level : UInt8
  sourceStartOffset : UInt64
  nextOffset : UInt64
  throughAtomicPosition : UInt64
deriving DecidableEq, Repr

/-- What a page says about one of its child pages. -/
structure QueryRunChild where
  hash : Digest
  encodedBytes : UInt64
  runCount : UInt64
  firstSequence : UInt64
  lastSequence : UInt64
  sourceStartOffset : UInt64
  nextOffset : UInt64
  throughAtomicPosition : UInt64
deriving DecidableEq, Repr

abbrev QueryRunPage := Page QueryRunReference QueryRunChild

structure EncodedQueryRunPage where
  hash : Digest
  bytes : Bytes
  summary : QueryRunChild
deriving DecidableEq, Repr

/-- The root after an append or a splice, and the pages it needs in storage. -/
structure PreparedQueryRunAppend where
  root : ProjectionQueryStreamRoot
  pages : List EncodedQueryRunPage
deriving DecidableEq, Repr

abbrev PreparedQueryRunSplice := PreparedQueryRunAppend

structure QueryRunCompactionLimits where
  levelTrigger : Nat
  maximumInputRuns : Nat
deriving DecidableEq, Repr

def QueryRunCompactionLimits.validate (self : QueryRunCompactionLimits) :
    Except IndexError QueryRunCompactionLimits := do
  rejectIf (self.levelTrigger < 2 ∨ self.maximumInputRuns < self.levelTrigger ∨
    queryRunPageFanout < self.maximumInputRuns)
    (.invalidDefinition "query run compaction limits are invalid")
  pure self

/-- A window of runs to merge, with the stream it was selected from. -/
structure QueryRunCompactionPlan where
  streamRootHash : Digest
  rootNextOffset : UInt64
  rootThroughAtomicPosition : UInt64
  inputsNewestFirst : List QueryRunReference
  outputLevel : UInt8
  sourceStartOffset : UInt64
  nextOffset : UInt64
  throughAtomicPosition : UInt64
deriving DecidableEq, Repr

/-- `K1QPG001` -/
def queryRunPageMagic : Bytes := asciiBytes "K1QPG001"

def queryRunPageFormat : UInt16 := 1

def putReference (r : QueryRunReference) : Bytes :=
  putDigest r.hash ++ (putU64 r.encodedBytes ++ (putU64 r.sequence ++ ([r.level] ++
    (putU64 r.sourceStartOffset ++ (putU64 r.nextOffset ++ putU64 r.throughAtomicPosition)))))

def putChild (c : QueryRunChild) : Bytes :=
  putDigest c.hash ++ (putU64 c.encodedBytes ++ (putU64 c.runCount ++ (putU64 c.firstSequence ++
    (putU64 c.lastSequence ++ (putU64 c.sourceStartOffset ++ (putU64 c.nextOffset ++
      putU64 c.throughAtomicPosition))))))

def pageBytes : QueryRunPage → Bytes
  | .leaf runs =>
    queryRunPageMagic ++ (putU16 queryRunPageFormat ++
      ([1] ++ (putU16 (UInt16.ofNat runs.length) ++ runs.flatMap putReference)))
  | .branch children =>
    queryRunPageMagic ++ (putU16 queryRunPageFormat ++
      ([2] ++ (putU16 (UInt16.ofNat children.length) ++ children.flatMap putChild)))

def decodeReference : Decoder IndexError QueryRunReference := do
  let hash ← readDigest .integrity
  let encodedBytes ← readU64 .integrity
  let sequence ← readU64 .integrity
  let level ← readByte .integrity
  let sourceStartOffset ← readU64 .integrity
  let nextOffset ← readU64 .integrity
  let throughAtomicPosition ← readU64 .integrity
  pure { hash, encodedBytes, sequence, level, sourceStartOffset, nextOffset, throughAtomicPosition }

def decodeChild : Decoder IndexError QueryRunChild := do
  let hash ← readDigest .integrity
  let encodedBytes ← readU64 .integrity
  let runCount ← readU64 .integrity
  let firstSequence ← readU64 .integrity
  let lastSequence ← readU64 .integrity
  let sourceStartOffset ← readU64 .integrity
  let nextOffset ← readU64 .integrity
  let throughAtomicPosition ← readU64 .integrity
  pure
    { hash, encodedBytes, runCount, firstSequence, lastSequence,
      sourceStartOffset, nextOffset, throughAtomicPosition }

/-- The entries of a page of the given kind. -/
def decodeEntries (kind : UInt8) (count : Nat) : Decoder IndexError QueryRunPage :=
  if kind = 1 then
    Page.leaf <$> decodeMany decodeReference count
  else if kind = 2 then
    Page.branch <$> decodeMany decodeChild count
  else
    throw (.invalidFormat "query run page kind")

def decodePageBytes : Decoder IndexError QueryRunPage := do
  let magic ← takeBytes .integrity 8
  refuseIf (magic ≠ queryRunPageMagic) (.invalidFormat "query run page")
  let format ← readU16 .integrity
  refuseIf (format ≠ queryRunPageFormat) (.invalidFormat "query run page")
  let kind ← readByte .integrity
  let count ← readU16 .integrity
  refuseIf (count = 0 ∨ queryRunPageFanout < count.toNat) (.invalidFormat "query run page count")
  decodeEntries kind count.toNat

section

def validateReference (r : QueryRunReference) : Except IndexError Unit :=
  rejectIf (r.hash = 0 ∨ r.encodedBytes = 0 ∨ r.sequence = 0 ∨ r.nextOffset ≤ r.sourceStartOffset)
    (.invalidDefinition "query run invalid")

/-- A run directly followed by a newer one. -/
def QueryRunReference.Precedes (older newer : QueryRunReference) : Prop :=
  older.sequence < newer.sequence ∧ older.nextOffset = newer.sourceStartOffset ∧
    older.throughAtomicPosition ≤ newer.throughAtomicPosition

instance : DecidableRel QueryRunReference.Precedes := fun _ _ =>
  inferInstanceAs (Decidable (_ ∧ _ ∧ _))

/-- A child page directly followed by a newer one. -/
def QueryRunChild.Precedes (older newer : QueryRunChild) : Prop :=
  older.lastSequence < newer.firstSequence ∧ older.nextOffset = newer.sourceStartOffset ∧
    older.throughAtomicPosition ≤ newer.throughAtomicPosition

instance : DecidableRel QueryRunChild.Precedes := fun _ _ => inferInstanceAs (Decidable (_ ∧ _ ∧ _))

/-- Fields no page may list for a child. -/
def QueryRunChild.Invalid (c : QueryRunChild) : Prop :=
  c.hash = 0 ∨ c.encodedBytes = 0 ∨ c.runCount = 0 ∨ c.firstSequence = 0 ∨
    c.lastSequence < c.firstSequence ∨
    c.nextOffset ≤ c.sourceStartOffset

instance : DecidablePred QueryRunChild.Invalid := fun _ =>
  inferInstanceAs (Decidable (_ ∨ _ ∨ _ ∨ _ ∨ _ ∨ _))

def validatePage : QueryRunPage → Except IndexError Unit
  | .leaf runs => do
    rejectIf
      (runs = [] ∨ queryRunPageFanout < runs.length ∨ ¬ runs.IsChain QueryRunReference.Precedes)
      (.invalidDefinition "query runs unsorted")
    runs.forM validateReference
  | .branch children => do
    rejectIf (children = [] ∨ queryRunPageFanout < children.length ∨
      ¬ children.IsChain QueryRunChild.Precedes)
      (.invalidDefinition "query children unsorted")
    rejectIf (∃ c ∈ children, c.Invalid) (.invalidDefinition "query child invalid")

/-- Sum of counts that fails on overflow. -/
def sumCounts (counts : List UInt64) : Option UInt64 :=
  counts.foldlM checkedAddU64 0

def summarizePage (page : QueryRunPage) (hash : Digest) (encodedBytes : Nat) :
    Except IndexError QueryRunChild := do
  rejectIf (2 ^ 64 ≤ encodedBytes) .offsetOverflow
  match page with
  | .leaf runs => do
    let first ← okOr runs.head? .integrity
    let last ← okOr runs.getLast? .integrity
    pure
      { hash
        encodedBytes := UInt64.ofNat encodedBytes
        runCount := UInt64.ofNat runs.length
        firstSequence := first.sequence
        lastSequence := last.sequence
        sourceStartOffset := first.sourceStartOffset
        nextOffset := last.nextOffset
        throughAtomicPosition := last.throughAtomicPosition }
  | .branch children => do
    let first ← okOr children.head? .integrity
    let last ← okOr children.getLast? .integrity
    let runCount ← okOr (sumCounts (children.map (·.runCount))) .offsetOverflow
    pure
      { hash
        encodedBytes := UInt64.ofNat encodedBytes
        runCount
        firstSequence := first.firstSequence
        lastSequence := last.lastSequence
        sourceStartOffset := first.sourceStartOffset
        nextOffset := last.nextOffset
        throughAtomicPosition := last.throughAtomicPosition }

def decodeQueryRunPage (bytes : Bytes) : Except IndexError QueryRunPage := do
  let (page, rest) ← decodePageBytes bytes
  rejectIf (rest ≠ []) (.invalidFormat "query run page trailing")
  validatePage page
  pure page

/-- How pages are found by digest. -/
abbrev PageLoader := Digest → Except IndexError Bytes

variable (blake3 : ContentHash)

def encodePage (page : QueryRunPage) : Except IndexError EncodedQueryRunPage := do
  validatePage page
  let bytes := pageBytes page
  let hash := blake3 bytes
  let summary ← summarizePage page hash bytes.length
  pure { hash, bytes, summary }

variable (load : PageLoader)

def loadPageWithSummary (hash : Digest) : Except IndexError (QueryRunPage × QueryRunChild) := do
  let bytes ← load hash
  rejectIf (blake3 bytes ≠ hash) .integrity
  let page ← decodeQueryRunPage bytes
  let summary ← summarizePage page hash bytes.length
  pure (page, summary)

/-- The page with a digest, checked against what its parent says about it. -/
def expectPage (hash : Digest) (expected : Option QueryRunChild) :
    Except IndexError QueryRunPage := do
  let (page, actual) ← loadPageWithSummary blake3 load hash
  rejectIf (∃ child ∈ expected, child ≠ actual) .integrity
  pure page

def rootChild (root : ProjectionQueryStreamRoot) : Except IndexError QueryRunChild := do
  root.validateAt root.nextOffset root.throughAtomicPosition
  rejectIf (root.runCount = 0) (.invalidDefinition "an empty query stream has no page root")
  pure
    { hash := root.streamRootHash
      encodedBytes := root.streamRootEncodedBytes
      runCount := root.runCount
      firstSequence := root.firstSequence
      lastSequence := root.lastSequence
      sourceStartOffset := root.sourceStartOffset
      nextOffset := root.nextOffset
      throughAtomicPosition := root.throughAtomicPosition }

/-- The stream whose pages are summarized by a child. -/
def rootOf (summary : QueryRunChild) : ProjectionQueryStreamRoot :=
  { streamRootHash := summary.hash
    streamRootEncodedBytes := summary.encodedBytes
    runCount := summary.runCount
    firstSequence := summary.firstSequence
    lastSequence := summary.lastSequence
    sourceStartOffset := summary.sourceStartOffset
    nextOffset := summary.nextOffset
    throughAtomicPosition := summary.throughAtomicPosition }

/-- One page, or two when it would list more than the fanout allows; together
with the pages written, in order. -/
def encodeOrSplit {α : Type} (page : List α → QueryRunPage) (entries : List α) : Except IndexError
      ((EncodedQueryRunPage × Option EncodedQueryRunPage) × List EncodedQueryRunPage) :=
  if entries.length ≤ queryRunPageFanout then do
    let whole ← encodePage blake3 (page entries)
    pure ((whole, none), [whole])
  else do
    let left ← encodePage blake3 (page (entries.take (queryRunPageFanout / 2)))
    let right ← encodePage blake3 (page (entries.drop (queryRunPageFanout / 2)))
    pure ((left, some right), [left, right])

/-- Copy of the right spine with one more run, and the pages it consists of. -/
def appendPage : Nat → Digest → Option QueryRunChild → QueryRunReference → Except IndexError
      ((EncodedQueryRunPage × Option EncodedQueryRunPage) × List EncodedQueryRunPage)
  | 0, _, _, _ => .error .tooDeep
  | depth + 1, hash, expected, reference => do
    let page ← expectPage blake3 load hash expected
    match page with
    | .leaf runs => encodeOrSplit blake3 .leaf (runs ++ [reference])
    | .branch children => do
      let last ← okOr children.getLast? .integrity
      let ((next, split), below) ← appendPage depth last.hash (some last) reference
      let ((whole, right), here) ← encodeOrSplit blake3 .branch
        (children.dropLast ++ next.summary :: (split.map (·.summary)).toList)
      pure ((whole, right), below ++ here)

/-- A run that continues a stream without pages. -/
def firstRun (reference : QueryRunReference) :
    Except IndexError (EncodedQueryRunPage × List EncodedQueryRunPage) := do
  let page ← encodePage blake3 (.leaf [reference])
  pure (page, [page])

/-- A new root above the two halves of a split one. -/
def joinSplit (next : EncodedQueryRunPage) : Option EncodedQueryRunPage →
    Except IndexError (EncodedQueryRunPage × List EncodedQueryRunPage)
  | none => .ok (next, [])
  | some split => do
    let page ← encodePage blake3 (.branch [next.summary, split.summary])
    pure (page, [page])

/-- The top page of the extended stream and the pages written for it. -/
def appendedChild
    (depth : Nat) (previous : Option ProjectionQueryStreamRoot) (reference : QueryRunReference) :
    Except IndexError (EncodedQueryRunPage × List EncodedQueryRunPage) :=
  match previous with
  | none => firstRun blake3 reference
  | some root =>
    if root.runCount = 0 then do
      root.validateAt root.nextOffset root.throughAtomicPosition
      rejectIf (reference.sequence ≠ 1 ∨ reference.sourceStartOffset ≠ root.nextOffset ∨
        reference.throughAtomicPosition < root.throughAtomicPosition)
        (.invalidDefinition "first query run does not continue the empty root cut")
      firstRun blake3 reference
    else do
      root.validateAt root.nextOffset root.throughAtomicPosition
      let nextSequence ← okOr (checkedAddU64 root.lastSequence 1) .offsetOverflow
      rejectIf (reference.sequence ≠ nextSequence ∨ reference.sourceStartOffset ≠ root.nextOffset ∨
        reference.throughAtomicPosition < root.throughAtomicPosition)
        (.invalidDefinition "query run append is not contiguous")
      let top ← rootChild root
      let ((next, split), below) ←
        appendPage blake3 load depth root.streamRootHash (some top) reference
      let (page, above) ← joinSplit blake3 next split
      pure (page, below ++ above)

def appendQueryRunPathCopy (depth : Nat) (previous : Option ProjectionQueryStreamRoot)
    (partition : ProjectionPartitionIdentity) (catalog : Digest) (reference : QueryRunReference) :
    Except IndexError PreparedQueryRunAppend := do
  partition.validate
  validateReference reference
  rejectIf (reference.level ≠ 0) (.invalidDefinition "an appended query mini-run is not level zero")
  rejectIf (catalog = 0) (.invalidDefinition "query run catalog is zero")
  let (child, pages) ← appendedChild blake3 load depth previous reference
  let root := rootOf child.summary
  root.validateAt root.nextOffset root.throughAtomicPosition
  pure { root, pages }

variable {σ : Type}

/-- A pass over a list that a step can end. -/
def foldUntil {α : Type} (visit : σ → α → Except IndexError (σ × Bool)) :
    List α → σ → Except IndexError (σ × Bool)
  | [], state => .ok (state, false)
  | a :: rest, state => do
    let (state, stop) ← visit state a
    if stop then pure (state, true) else foldUntil visit rest state

/-- Walk over the runs of a page tree, newest first, until a visit ends it. -/
def visitPageNewestUntil (visit : σ → QueryRunReference → σ × Bool) :
    Nat → Digest → Option QueryRunChild → σ → Except IndexError (σ × Bool)
  | 0, _, _, _ => .error .tooDeep
  | depth + 1, hash, expected, state => do
    let page ← expectPage blake3 load hash expected
    match page with
    | .leaf runs => foldUntil (fun state run => .ok (visit state run)) runs.reverse state
    | .branch children =>
      foldUntil (fun state child => visitPageNewestUntil visit depth child.hash (some child) state)
        children.reverse state

/-- Walk over all the runs of a page tree, newest first. -/
def visitPageNewest (visit : σ → QueryRunReference → Except IndexError σ) :
    Nat → Digest → Option QueryRunChild → σ → Except IndexError σ
  | 0, _, _, _ => .error .tooDeep
  | depth + 1, hash, expected, state => do
    let page ← expectPage blake3 load hash expected
    match page with
    | .leaf runs => runs.reverse.foldlM visit state
    | .branch children =>
      children.reverse.foldlM
        (fun state child => visitPageNewest visit depth child.hash (some child) state)
        state

def visitQueryRunsNewest (visit : σ → QueryRunReference → Except IndexError σ)
    (depth : Nat) (root : ProjectionQueryStreamRoot) (state : σ) :
    Except IndexError σ := do
  root.validateAt root.nextOffset root.throughAtomicPosition
  if root.runCount = 0 then
    pure state
  else do
    let top ← rootChild root
    visitPageNewest blake3 load visit depth root.streamRootHash (some top) state

/-- A window being collected: its level, its runs so far and the finished one. -/
structure Selection where
  level : Option UInt8
  candidate : List QueryRunReference
  selected : Option (List QueryRunReference)
deriving DecidableEq, Repr

/-- One run seen while a window is collected; `true` once a window is finished. -/
def Selection.visit (limits : QueryRunCompactionLimits) (self : Selection)
    (reference : QueryRunReference) : Selection × Bool :=
  if self.level = some reference.level then
    if self.candidate.length < limits.maximumInputRuns then
      ({ self with candidate := self.candidate ++ [reference] }, false)
    else
      ({ self with candidate := [], selected := some self.candidate }, true)
  else if limits.levelTrigger ≤ self.candidate.length then
    ({ self with candidate := [], selected := some self.candidate }, true)
  else
    ({ self with level := some reference.level, candidate := [reference] }, false)

/-- The window a finished walk leaves. -/
def Selection.inputs (limits : QueryRunCompactionLimits) (self : Selection) :
    Option (List QueryRunReference) :=
  match self.selected with
  | some selected => some selected
  | none =>
    if limits.levelTrigger ≤ self.candidate.length then some self.candidate else none

/-- Adding one to a level, unless it is the last one. -/
def nextLevel (level : UInt8) : Option UInt8 :=
  if level = 255 then none else some (level + 1)

def validateCompactionPlan (plan : QueryRunCompactionPlan) (limits : QueryRunCompactionLimits) :
    Except IndexError Unit := do
  let limits ← limits.validate
  rejectIf (plan.streamRootHash = 0 ∨ plan.inputsNewestFirst.length < limits.levelTrigger ∨
    limits.maximumInputRuns < plan.inputsNewestFirst.length)
    (.invalidDefinition "query run compaction plan has invalid fan-in")
  let newest ← okOr plan.inputsNewestFirst.head? .integrity
  let oldest ← okOr plan.inputsNewestFirst.getLast? .integrity
  plan.inputsNewestFirst.forM validateReference
  rejectIf (¬ plan.inputsNewestFirst.IsChain
      (fun newer older => older.Precedes newer ∧ newer.level = older.level) ∨
      plan.outputLevel ≠ (nextLevel newest.level).getD 0 ∨
      plan.sourceStartOffset ≠ oldest.sourceStartOffset ∨
      plan.nextOffset ≠ newest.nextOffset ∨
      plan.throughAtomicPosition ≠ newest.throughAtomicPosition ∨
      plan.rootNextOffset < plan.nextOffset ∨
      plan.rootThroughAtomicPosition < plan.throughAtomicPosition)
    (.invalidDefinition "query run compaction plan coverage is invalid")

section

variable (previous : ProjectionQueryStreamRoot) (limits : QueryRunCompactionLimits)

/-- The plan that merges a window of runs of a stream. -/
def planOf (inputs : List QueryRunReference) : Except IndexError QueryRunCompactionPlan := do
  let newest ← okOr inputs.head? .integrity
  let oldest ← okOr inputs.getLast? .integrity
  let outputLevel ← okOr (nextLevel newest.level) .offsetOverflow
  let plan : QueryRunCompactionPlan :=
    { streamRootHash := previous.streamRootHash
      rootNextOffset := previous.nextOffset
      rootThroughAtomicPosition := previous.throughAtomicPosition
      inputsNewestFirst := inputs
      outputLevel
      sourceStartOffset := oldest.sourceStartOffset
      nextOffset := newest.nextOffset
      throughAtomicPosition := newest.throughAtomicPosition }
  validateCompactionPlan plan limits
  pure plan

/-- The plan for a collected window, if there is one. -/
def planFor : Option (List QueryRunReference) → Except IndexError (Option QueryRunCompactionPlan)
  | none => .ok none
  | some inputs => do
    let plan ← planOf previous limits inputs
    pure (some plan)

end

def selectQueryRunCompaction
    (depth : Nat) (previous : ProjectionQueryStreamRoot) (limits : QueryRunCompactionLimits) :
    Except IndexError (Option QueryRunCompactionPlan) := do
  let limits ← limits.validate
  previous.validateAt previous.nextOffset previous.throughAtomicPosition
  if previous.runCount = 0 then
    pure none
  else do
    let top ← rootChild previous
    let (selection, _) ← visitPageNewestUntil blake3 load (Selection.visit limits)
      depth previous.streamRootHash (some top) ⟨none, [], none⟩
    planFor previous limits (selection.inputs limits)

/-- The runs of a leaf after a splice, and how many selected runs were met. -/
def spliceRuns (selected : OrdMap UInt64 QueryRunReference) (output : QueryRunReference) :
    List QueryRunReference → Nat → Except IndexError (List QueryRunReference × Nat)
  | [], matched => .ok ([], matched)
  | reference :: rest, matched =>
    match selected.get? reference.sequence with
    | none => do
      let (next, matched) ← spliceRuns selected output rest matched
      pure (reference :: next, matched)
    | some expected =>
      if expected = reference then do
        let counted ← okOr (checkedAddUsize matched 1) .offsetOverflow
        let (next, matched) ← spliceRuns selected output rest counted
        pure (if reference.sequence = output.sequence then output :: next else next,
            matched)
      else
        .error .integrity

/-- Encode a rewritten page unless nothing is left on it. -/
def encodeRest {α : Type} (page : List α → QueryRunPage) (next : List α) :
    Except IndexError (Option EncodedQueryRunPage) :=
  if next.isEmpty then
    pure none
  else do
    let encoded ← encodePage blake3 (page next)
    pure (some encoded)

/-- Whether a selected sequence lies in the range of a child page. -/
def selectedWithin (selected : OrdMap UInt64 QueryRunReference) (child : QueryRunChild) : Bool :=
  selected.keys.any fun sequence => child.firstSequence ≤ sequence ∧ sequence ≤ child.lastSequence

/-- Result of rewriting a subtree: its new page, the pages written and the number
of selected runs met so far. -/
structure Spliced where
  page : Option EncodedQueryRunPage
  pages : List EncodedQueryRunPage
  matched : Nat

/-- The children of a rewritten branch so far, the pages written under it and
the number of selected runs met so far. -/
structure SplicedChildren where
  next : List QueryRunChild
  pages : List EncodedQueryRunPage
  matched : Nat

/-- Rewrite the children of a branch that hold selected runs. -/
def spliceChildren (rewrite : QueryRunChild → Nat → Except IndexError Spliced)
    (selected : OrdMap UInt64 QueryRunReference) (so : SplicedChildren) (child : QueryRunChild) :
    Except IndexError SplicedChildren :=
  if selectedWithin selected child then do
    let rewritten ← rewrite child so.matched
    pure
      { next := so.next ++ (rewritten.page.map (·.summary)).toList
        pages := so.pages ++ rewritten.pages
        matched := rewritten.matched }
  else
    pure { so with next := so.next ++ [child] }

def spliceSubtree (selected : OrdMap UInt64 QueryRunReference) (output : QueryRunReference) :
    Nat → Digest → Option QueryRunChild → Nat → Except IndexError Spliced
  | 0, _, _, _ => .error .tooDeep
  | depth + 1, hash, expected, matched => do
    let page ← expectPage blake3 load hash expected
    match page with
    | .leaf runs => do
      let (next, matched) ← spliceRuns selected output runs matched
      let encoded ← encodeRest blake3 .leaf next
      pure { page := encoded, pages := encoded.toList, matched }
    | .branch children => do
      let rewritten ← children.foldlM (spliceChildren
        (fun child matched => spliceSubtree selected output depth child.hash (some child) matched)
        selected)
        { next := [], pages := [], matched }
      let encoded ← encodeRest blake3 .branch rewritten.next
      pure
        { page := encoded
          pages := rewritten.pages ++ encoded.toList
          matched := rewritten.matched }

/-- The number of runs after a window of the given size became one run. -/
def runCountAfter (runCount : UInt64) (inputs : Nat) : Option UInt64 :=
  if inputs ≤ runCount.toNat then checkedAddU64 (UInt64.ofNat (runCount.toNat - inputs)) 1 else none

def spliceCompactedQueryRuns (depth : Nat) (previous : ProjectionQueryStreamRoot)
    (plan : QueryRunCompactionPlan) (output : QueryRunReference) :
    Except IndexError PreparedQueryRunSplice := do
  previous.validateAt previous.nextOffset previous.throughAtomicPosition
  validateCompactionPlan plan { levelTrigger := 2, maximumInputRuns := queryRunPageFanout }
  rejectIf
    (previous.streamRootHash ≠ plan.streamRootHash ∨ previous.nextOffset ≠ plan.rootNextOffset ∨
      previous.throughAtomicPosition ≠ plan.rootThroughAtomicPosition)
    .integrity
  let newest ← okOr plan.inputsNewestFirst.head? .integrity
  validateReference output
  rejectIf (output.sequence ≠ newest.sequence ∨ output.level ≠ plan.outputLevel ∨
    output.sourceStartOffset ≠ plan.sourceStartOffset ∨
    output.nextOffset ≠ plan.nextOffset ∨
    output.throughAtomicPosition ≠ plan.throughAtomicPosition)
    (.invalidDefinition "compacted query run does not exactly cover its inputs")
  let selected := OrdMap.ofList
    (plan.inputsNewestFirst.map fun reference => (reference.sequence, reference))
  rejectIf (selected.size ≠ plan.inputsNewestFirst.length)
    (.invalidDefinition "query run compaction inputs are not unique")
  let top ← rootChild previous
  let spliced ← spliceSubtree blake3 load selected output depth previous.streamRootHash (some top) 0
  let rewritten ← okOr spliced.page .integrity
  rejectIf (spliced.matched ≠ selected.size) .integrity
  let summary := rewritten.summary
  let expectedCount ← okOr (runCountAfter previous.runCount selected.size) .offsetOverflow
  rejectIf (summary.runCount ≠ expectedCount ∨ summary.nextOffset ≠ previous.nextOffset ∨
    summary.throughAtomicPosition ≠ previous.throughAtomicPosition ∨
    summary.sourceStartOffset ≠ previous.sourceStartOffset)
    .integrity
  let root := rootOf summary
  root.validateAt previous.nextOffset previous.throughAtomicPosition
  pure { root, pages := spliced.pages }

end

end Keldra.Index
