import Keldra.Index.QueryStreamTree
import Mathlib.Data.List.Induction

/-!
# The query-run stream tiles the source log

A stream is driven by appends, by selections that keep a compaction plan, and
by splices that use a plan kept earlier.  A call that fails changes nothing; one
that succeeds installs its root and stores its pages.  The invariant says that
the pages hold a list of runs in which each run continues the one before it and
which the root describes exactly.

Walks may go as deep as there are stored pages; no tree is deeper than that.
-/

namespace Keldra.Index

open Foundation List ProjectionQueryStreamRoot

section

variable (blake3 : ContentHash)

/-- A stream with its stored pages and the plans made for it so far. -/
structure QueryStreamState where
  root : Option ProjectionQueryStreamRoot
  pages : List Bytes
  plans : List QueryRunCompactionPlan

/-- Pages are found in storage by their digest. -/
def loadPage (pages : List Bytes) : PageLoader := fun hash =>
  okOr (loadContent blake3 pages hash) .integrity

inductive QueryStreamAction where
  | append (partition : ProjectionPartitionIdentity) (catalog : Digest)
      (reference : QueryRunReference)
  | select (limits : QueryRunCompactionLimits)
  | splice (plan : QueryRunCompactionPlan) (output : QueryRunReference)

namespace QueryStreamState

section

variable (s : QueryStreamState)

/-- Store the pages of a prepared root and make it the current one. -/
def install (prepared : PreparedQueryRunAppend) : QueryStreamState :=
  { s with root := some prepared.root, pages := s.pages ++ prepared.pages.map (·.bytes) }

def append (partition : ProjectionPartitionIdentity)
    (catalog : Digest) (reference : QueryRunReference) :
    Except IndexError PreparedQueryRunAppend :=
  appendQueryRunPathCopy blake3 (loadPage blake3 s.pages) s.pages.length s.root
    partition catalog reference

def select (limits : QueryRunCompactionLimits) :
    Except IndexError (Option QueryRunCompactionPlan) :=
  match s.root with
  | none => .ok none
  | some root =>
    selectQueryRunCompaction blake3 (loadPage blake3 s.pages) s.pages.length root limits

/-- Splice with a plan that was selected earlier, maybe for an older root. -/
def splice (plan : QueryRunCompactionPlan) (output : QueryRunReference) :
    Except IndexError PreparedQueryRunSplice := do
  let root ← okOr s.root .integrity
  rejectIf (plan ∉ s.plans) .integrity
  spliceCompactedQueryRuns blake3 (loadPage blake3 s.pages) s.pages.length root plan output

/-- The runs a walk over the whole stream visits, in its order. -/
def visited (depth : Nat) : Except IndexError (List QueryRunReference) :=
  match s.root with
  | none => .ok []
  | some root =>
    visitQueryRunsNewest blake3 (loadPage blake3 s.pages)
      (fun seen reference => .ok (seen ++ [reference])) depth root []

def step : QueryStreamAction → QueryStreamState
  | .append partition catalog reference =>
    match s.append blake3 partition catalog reference with
    | .ok prepared => s.install prepared
    | .error _ => s
  | .select limits =>
    match s.select blake3 limits with
    | .ok (some plan) => { s with plans := s.plans ++ [plan] }
    | _ => s
  | .splice plan output =>
    match s.splice blake3 plan output with
    | .ok prepared => s.install prepared
    | .error _ => s

end

/-- The state after a sequence of calls on a stream without pages. -/
def run (start : Option ProjectionQueryStreamRoot) (actions : List QueryStreamAction) :
    QueryStreamState :=
  actions.foldl (step blake3) { root := start, pages := [], plans := [] }

end QueryStreamState

/-- Streams begin without a root or with the empty root of a source cut. -/
inductive Opens : Option ProjectionQueryStreamRoot → Prop where
  | fresh : Opens none
  | empty {partition : ProjectionPartitionIdentity} {catalog : Digest}
      {nextOffset throughAtomicPosition : UInt64} {root : ProjectionQueryStreamRoot}
      (h : ProjectionQueryStreamRoot.empty blake3 partition catalog nextOffset
        throughAtomicPosition = .ok root) :
      Opens (some root)

/-- A run that continues the current stream. -/
def NextRun (root : Option ProjectionQueryStreamRoot) (reference : QueryRunReference) : Prop :=
  ∀ current ∈ root, reference.sequence.toNat = current.lastSequence.toNat + 1 ∧
    reference.sourceStartOffset = current.nextOffset ∧
    current.throughAtomicPosition ≤ reference.throughAtomicPosition

end

variable {s : QueryStreamState} {prepared : PreparedQueryRunAppend} {runs : List QueryRunReference}

section

variable (blake3 : ContentHash) {child : QueryRunChild}

/-- The stored pages hold these runs, oldest first, and the root describes them. -/
inductive Shows (s : QueryStreamState) : List QueryRunReference → Prop where
  | fresh
    (hroot : s.root = none) :
    Shows s []
  | empty {root : ProjectionQueryStreamRoot} (hroot : s.root = some root)
      (hcount : root.runCount = 0)
      (hvalid : root.validateAt root.nextOffset root.throughAtomicPosition = .ok ()) :
      Shows s []
  | pages {child : QueryRunChild} {runs : List QueryRunReference}
      (hroot : s.root = some (rootOf child))
      (hholds : HoldsRuns blake3 (loadPage blake3 s.pages) s.pages.length child runs) :
      Shows s runs

/-- A plan's inputs are consecutive runs of the stream it was selected from. -/
def PlanOk (s : QueryStreamState) (plan : QueryRunCompactionPlan) : Prop :=
  ∃ child runs, child.hash = plan.streamRootHash ∧
    HoldsRuns blake3 (loadPage blake3 s.pages) s.pages.length child runs ∧
    plan.inputsNewestFirst <:+: runs.reverse

/-- What holds in every state of a stream that shows these runs. -/
structure StreamInv (s : QueryStreamState) (runs : List QueryRunReference) : Prop where
  tiled : Tiled runs
  shows : Shows blake3 s runs
  encoded : ∀ bytes ∈ s.pages, ∃ page, validatePage page = .ok () ∧ bytes = pageBytes page
  plans : ∀ plan ∈ s.plans, PlanOk blake3 s plan

variable {blake3}

theorem validateAt_rootOf (h : ¬ child.Invalid) :
    (rootOf child).validateAt child.nextOffset child.throughAtomicPosition = .ok () := by
  unfold validateAt
  rw [rejectIf_eq_ok]
  rintro (hbad | hbad | hbad | ⟨hbad, -⟩ | ⟨-, hbad | hbad | hbad | hbad⟩)
  · exact h (.inl hbad)
  · exact hbad rfl
  · exact hbad rfl
  · exact h (.inr (.inr (.inl hbad)))
  · exact h (.inr (.inl hbad))
  · exact h (.inr (.inr (.inr (.inl hbad))))
  · exact h (.inr (.inr (.inr (.inr (.inl hbad)))))
  · exact h (.inr (.inr (.inr (.inr (.inr hbad)))))

theorem runCount_rootOf (h : ¬ child.Invalid) : (rootOf child).runCount ≠ 0 :=
  fun hzero => h (.inr (.inr (.inl hzero)))

theorem rootChild_rootOf (h : ¬ child.Invalid) : rootChild (rootOf child) = .ok child := by
  simp only [rootChild, ok_rules]
  exact ⟨validateAt_rootOf h, runCount_rootOf h, rfl⟩

/-- The digest of an encoded page is the one its bytes have. -/
theorem keeps_install (hencoded : AllEncoded blake3 prepared.pages)
    (hfree : CollisionFree blake3 (s.install prepared).pages) :
    Keeps (loadPage blake3 s.pages) (loadPage blake3 (s.install prepared).pages)
    prepared.pages := by
  constructor
  · intro _ _ h
    unfold loadPage at h ⊢
    rw [okOr_eq_ok] at h ⊢
    exact loadContent_append _ h
  intro encoded hmem
  obtain ⟨_, hpage⟩ := hencoded encoded hmem
  obtain ⟨-, hbytes, hhash, -⟩ := encodePage_eq_ok.mp hpage
  have hstored : encoded.bytes ∈ (s.install prepared).pages :=
    mem_append_right _ (mem_map_of_mem hmem)
  unfold loadPage
  rw [okOr_eq_ok, hhash, ← hbytes]
  exact loadContent_of_mem hfree hstored

/-- Everything known about the old pages and plans is still known after an
install; only the runs shown by the new root are to be found. -/
theorem StreamInv.install {runs' : List QueryRunReference}
    (h : StreamInv blake3 s runs)
    (hencoded : AllEncoded blake3 prepared.pages)
    (hfree : CollisionFree blake3 (s.install prepared).pages) (htiled : Tiled runs')
    (hshows : Shows blake3 (s.install prepared) runs') :
    StreamInv blake3 (s.install prepared) runs' := by
  refine ⟨htiled, hshows, ?_, ?_⟩
  · intro bytes hbytes
    rcases mem_append.mp hbytes with hold | hnew
    · exact h.encoded bytes hold
    obtain ⟨encoded, hmem, rfl⟩ := mem_map.mp hnew
    obtain ⟨page, hpage⟩ := hencoded encoded hmem
    obtain ⟨hvalid, hbytes, -, -⟩ := encodePage_eq_ok.mp hpage
    exact ⟨page, hvalid, hbytes⟩
  intro plan hplan
  obtain ⟨child, held, hhash, hholds, hinfix⟩ := h.plans plan hplan
  refine ⟨child, held, hhash, ?_, hinfix⟩
  refine Holds.deeper ((keeps_install hencoded hfree).holdsRuns hholds) ?_
  simp [QueryStreamState.install]

/-- A walk over the stream visits its runs from the newest to the oldest. -/
theorem Shows.visited {depth : Nat}
    (hnonzero : NonzeroDigests blake3) (h : Shows blake3 s runs)
    (htiled : Tiled runs) (hdepth : s.pages.length ≤ depth) :
    s.visited blake3 depth = .ok runs.reverse := by
  unfold QueryStreamState.visited
  cases h with
  | fresh hroot => simp [hroot]
  | @empty root hroot hcount hvalid =>
    simp only [hroot, visitQueryRunsNewest, hcount, if_true, ok_rules]
    exact ⟨hvalid, rfl⟩
  | @pages child _ hroot hholds =>
    have hinvalid := (describes_of_holds hnonzero hholds).not_invalid htiled
    have hcount := runCount_rootOf hinvalid
    have hfold : ∀ (seen : List QueryRunReference),
        runs.reverse.foldlM (fun seen reference => Except.ok (seen ++ [reference])) seen =
          (.ok (seen ++ runs.reverse) : Except IndexError (List QueryRunReference)) := by
      generalize runs.reverse = order
      induction order with
      | nil =>
        simp [pure, Except.pure]
      | cons r rest ih =>
        intro seen
        change rest.foldlM _ (seen ++ [r]) = _
        rw [ih, append_assoc]
        rfl
    simp only [hroot, visitQueryRunsNewest, if_neg hcount, ok_rules]
    refine ⟨validateAt_rootOf hinvalid, child, rootChild_rootOf hinvalid, ?_⟩
    have hwalk : visitPageNewest blake3 (loadPage blake3 s.pages)
        (fun seen reference => .ok (seen ++ [reference])) depth child.hash (some child) [] =
          runs.reverse.foldlM (fun seen reference => Except.ok (seen ++ [reference])) [] :=
      visitPageNewest_eq (hholds.deeper hdepth) []
    rw [hfold] at hwalk
    exact hwalk

end

section

variable {blake3 : ContentHash} {reference : QueryRunReference}
  {partition : ProjectionPartitionIdentity}

theorem tiled_singleton (h : reference.Valid) : Tiled [reference] := by
  refine ⟨List.IsChain.singleton reference, ?_⟩
  intro r hr
  rw [mem_singleton.mp hr]
  exact h

theorem tiled_snoc {last : QueryRunReference}
    (h : Tiled runs) (hlast : runs.getLast? = some last)
    (hvalid : reference.Valid) (hnext : last.Precedes reference) : Tiled (runs ++ [reference]) := by
  refine ⟨isChain_append.mpr ⟨h.chain, List.IsChain.singleton reference, ?_⟩, ?_⟩
  · intro r hr _ hr'
    rw [Option.mem_def, hlast, Option.some.injEq] at hr
    rw [Option.mem_def, head?_cons, Option.some.injEq] at hr'
    subst hr hr'
    exact hnext
  intro r hr
  rcases mem_append.mp hr with hr | hr
  · exact h.valid r hr
  rw [mem_singleton.mp hr]
  exact hvalid

/-- The runs of a stream with the next run at their end are a tiling again. -/
theorem StreamInv.tiled_next (hnonzero : NonzeroDigests blake3) (h : StreamInv blake3 s runs)
    (hvalid : reference.Valid) (hnext : NextRun s.root reference) :
    Tiled (runs ++ [reference]) := by
  cases h.shows with
  | fresh | empty => exact tiled_singleton hvalid
  | pages hroot hholds =>
    obtain ⟨_, hlast, hseq, hoff, hat⟩ := (describes_of_holds hnonzero hholds).last
    obtain ⟨hsequence, hstart, hatomic⟩ := hnext _ hroot
    refine tiled_snoc h.tiled hlast hvalid ⟨?_, ?_, ?_⟩
    · rw [UInt64.lt_iff_toNat_lt, ← hseq, hsequence]
      exact Nat.lt_succ_self _
    · rw [← hoff]
      exact hstart.symm
    rw [← hat]
    exact hatomic

/-- A page and the pages under it show these runs once they are stored. -/
def Prepares (blake3 : ContentHash) (s : QueryStreamState) (runs : List QueryRunReference)
    (page : EncodedQueryRunPage) (pages : List EncodedQueryRunPage) : Prop :=
  AllEncoded blake3 pages ∧ Describes page.summary runs ∧
    ∀ load', Keeps (loadPage blake3 s.pages) load' pages →
      HoldsRuns blake3 load' (s.pages.length + pages.length) page.summary runs

theorem firstRun_ok
    (hnonzero : NonzeroDigests blake3) (hvalid : reference.Valid) (s : QueryStreamState) :
    ∃ page pages, firstRun blake3 reference = .ok (page, pages) ∧
    Prepares blake3 s [reference] page pages := by
  obtain ⟨page, hpage, hdescribes⟩ := encodePage_leaf hnonzero (cons_ne_nil _ _)
    (by simp [queryRunPageFanout]) (tiled_singleton hvalid)
  refine ⟨page, [page], by simp [firstRun, hpage], AllEncoded.cons hpage allEncoded_nil,
    hdescribes, ?_⟩
  intro _ hkeeps
  exact holdsRuns_leaf hpage (hkeeps.new page (by simp)) s.pages.length

theorem joinSplit_ok {split : Option EncodedQueryRunPage} {below : List EncodedQueryRunPage}
    (hnonzero : NonzeroDigests blake3)
    {next : EncodedQueryRunPage} (htiled : Tiled runs)
    (h : Written blake3 (loadPage blake3 s.pages) s.pages.length runs (topsOf next split) below) :
    ∃ page above, joinSplit blake3 next split = .ok (page, above) ∧
    Prepares blake3 s runs page (below ++ above) := by
  obtain ⟨hencoded, _, rfl, hdescribes, hholds⟩ := h
  cases split with
  | none =>
    cases hdescribes with
    | @cons _ _ _ _ hpage hnil =>
      cases hnil
      refine ⟨next, [], rfl, by simpa using hencoded, by simpa using hpage, ?_⟩
      intro load' hkeeps
      rw [append_nil] at hkeeps ⊢
      cases hholds load' hkeeps with
      | cons hpart => simpa using Holds.deeper hpart (Nat.le_add_right _ _)
  | some right =>
    have hfanout : [next.summary, right.summary].length ≤ queryRunPageFanout := by
      simp [queryRunPageFanout]
    obtain ⟨page, hpage, htop⟩ := encodePage_branch hnonzero (cons_ne_nil _ _)
      hfanout hdescribes htiled
    refine ⟨page, [page], by simp [joinSplit, hpage],
      hencoded.append (AllEncoded.cons hpage allEncoded_nil), htop, ?_⟩
    intro load' hkeeps
    obtain ⟨hbelow, habove⟩ := hkeeps.of_append
    have htree := holdsRuns_branch hpage (habove.new page (by simp)) (hholds load' hbelow)
    refine Holds.deeper htree ?_
    simp

theorem lastSequence_of_empty {root : ProjectionQueryStreamRoot} (hcount : root.runCount = 0)
    (h : root.validateAt root.nextOffset root.throughAtomicPosition = .ok ()) :
    root.lastSequence = 0 := by
  by_contra hlast
  unfold validateAt at h
  rw [rejectIf_eq_ok] at h
  exact h (.inr (.inr (.inr (.inl ⟨hcount, .inr (.inr (.inl hlast))⟩))))

theorem appendedChild_ok (hnonzero : NonzeroDigests blake3) (h : StreamInv blake3 s runs)
    (hvalid : reference.Valid) (hnext : NextRun s.root reference) :
    ∃ page pages, appendedChild blake3 (loadPage blake3 s.pages) s.pages.length s.root reference =
    .ok (page, pages) ∧ Prepares blake3 s (runs ++ [reference]) page pages := by
  have htiled := h.tiled_next hnonzero hvalid hnext
  cases h.shows with
  | fresh hroot =>
    rw [hroot]
    exact firstRun_ok hnonzero hvalid s
  | @empty root hroot hcount hroot' =>
    obtain ⟨hsequence, hstart, hatomic⟩ := hnext root hroot
    obtain ⟨page, pages, hpage, hprepares⟩ := firstRun_ok hnonzero hvalid s
    refine ⟨page, pages, ?_, hprepares⟩
    have hone : reference.sequence = 1 := by
      rw [lastSequence_of_empty hcount hroot'] at hsequence
      exact UInt64.toNat_inj.mp hsequence
    simp only [hroot, appendedChild, hcount, if_true, bind_eq_ok, rejectIf_eq_ok,
      exists_unit_eq_ok, exists_const]
    refine ⟨hroot', ?_, hpage⟩
    rintro (hbad | hbad | hbad)
    · exact hbad hone
    · exact hbad hstart
    · exact absurd hbad (not_lt.mpr hatomic)
  | @pages child _ hroot hholds =>
    obtain ⟨hsequence, hstart, hatomic⟩ := hnext _ hroot
    have hinvalid := (describes_of_holds hnonzero hholds).not_invalid h.tiled
    have hcount := runCount_rootOf hinvalid
    obtain ⟨_, _, below, hbelow, hwritten⟩ := appendPage_ok hnonzero hholds htiled
    obtain ⟨page, above, habove, hprepares⟩ := joinSplit_ok hnonzero htiled hwritten
    refine ⟨page, below ++ above, ?_, hprepares⟩
    have hadd : checkedAddU64 (rootOf child).lastSequence 1 = some reference.sequence :=
      checkedAddU64_eq_some.mpr hsequence.symm
    simp only [hroot, appendedChild, if_neg hcount, bind_eq_ok, pure_eq_ok, rejectIf_eq_ok,
      okOr_eq_ok, exists_unit_eq_ok, exists_const]
    refine ⟨validateAt_rootOf hinvalid, _, hadd, ?_, child, rootChild_rootOf hinvalid,
      _, hbelow, _, habove, rfl⟩
    rintro (hbad | hbad | hbad)
    · exact hbad rfl
    · exact hbad hstart
    · exact absurd hbad (not_lt.mpr hatomic)

/-- The next run is always accepted, and the stream then shows it as its newest. -/
theorem append_ok {catalog : Digest}
    (hnonzero : NonzeroDigests blake3) (h : StreamInv blake3 s runs)
    (hpartition : partition.validate = .ok ()) (hcatalog : catalog ≠ 0)
    (hlevel : reference.level = 0) (hvalid : reference.Valid) (hnext : NextRun s.root reference) :
    ∃ prepared, s.append blake3 partition catalog reference = .ok prepared ∧
    (CollisionFree blake3 (s.install prepared).pages →
    StreamInv blake3 (s.install prepared) (runs ++ [reference])) := by
  have htiled := h.tiled_next hnonzero hvalid hnext
  obtain ⟨page, pages, hpage, hencoded, hdescribes, hholds⟩ :=
    appendedChild_ok hnonzero h hvalid hnext
  refine ⟨⟨rootOf page.summary, pages⟩, ?_, ?_⟩
  · simp only [QueryStreamState.append, appendQueryRunPathCopy, ok_rules, not_not]
    exact ⟨hpartition, validateReference_eq_ok.mpr hvalid, hlevel, hcatalog, _, hpage,
      validateAt_rootOf (hdescribes.not_invalid htiled), rfl⟩
  intro hfree
  refine h.install hencoded hfree htiled ?_
  refine Shows.pages rfl ?_
  have htree := hholds _ (keeps_install hencoded hfree)
  simpa [QueryStreamState.install] using htree

/-- Only the next run of a stream is accepted. -/
theorem append_eq_ok {catalog : Digest}
    (h : s.append blake3 partition catalog reference = .ok prepared) :
    partition.validate = .ok () ∧ catalog ≠ 0 ∧ reference.level = 0 ∧
    reference.Valid ∧ NextRun s.root reference := by
  simp only [QueryStreamState.append, appendQueryRunPathCopy, ok_rules, not_not] at h
  obtain ⟨hpartition, hvalid, hlevel, hcatalog, ⟨_, _⟩, hchild, -, -⟩ := h
  refine ⟨hpartition, hcatalog, hlevel, validateReference_eq_ok.mp hvalid, ?_⟩
  intro root hroot
  rw [hroot] at hchild
  by_cases hcount : root.runCount = 0
  · simp only [appendedChild, hcount, if_true, ok_rules, not_or, not_not, not_lt] at hchild
    obtain ⟨hroot', ⟨hsequence, hstart, hatomic⟩, -⟩ := hchild
    rw [lastSequence_of_empty hcount hroot', hsequence]
    exact ⟨rfl, hstart, hatomic⟩
  simp only [appendedChild, if_neg hcount, ok_rules, checkedAddU64_eq_some, not_or, not_not,
    not_lt] at hchild
  obtain ⟨-, _, hadd, ⟨hsequence, hstart, hatomic⟩, -⟩ := hchild
  rw [hsequence, ← hadd]
  exact ⟨rfl, hstart, hatomic⟩

end

section

variable {output newest : QueryRunReference}

/-- A finished selection keeps a window of the stream it walked over. -/
theorem planOk_of_select {limits : QueryRunCompactionLimits} {plan : QueryRunCompactionPlan}
    (hnonzero : NonzeroDigests blake3) (h : StreamInv blake3 s runs)
    (hselect : s.select blake3 limits = .ok (some plan)) :
    PlanOk blake3 s plan ∧ validateCompactionPlan plan limits = .ok () ∧
      plan.inputsNewestFirst.head?.bind (nextLevel ·.level) = some plan.outputLevel := by
  unfold QueryStreamState.select at hselect
  cases hshows : h.shows with
  | fresh hroot => simp [hroot] at hselect
  | empty hroot hcount =>
    simp only [hroot, selectQueryRunCompaction, hcount, if_true, ok_rules] at hselect
    obtain ⟨-, -, -, hnone⟩ := hselect
    cases hnone
  | @pages child _ hroot hholds =>
    have hinvalid := (describes_of_holds hnonzero hholds).not_invalid h.tiled
    have hcount := runCount_rootOf hinvalid
    simp only [hroot, selectQueryRunCompaction, if_neg hcount, ok_rules, rootChild_rootOf hinvalid,
      Except.ok.injEq, Prod.exists] at hselect
    obtain ⟨limits', hlimits, -, _, rfl, selection, stop, hwalk, hplan⟩ := hselect
    obtain rfl : limits = limits' := by
      simp only [QueryRunCompactionLimits.validate, ok_rules] at hlimits
      exact hlimits.2
    cases hinputs : selection.inputs limits with
    | none =>
      rw [hinputs] at hplan
      cases hplan
    | some inputs =>
      simp only [hinputs, planFor, planOf, ok_rules, Option.some.injEq] at hplan
      obtain ⟨_, ⟨_, hnewest, _, -, _, hlevel, hvalid, rfl⟩, rfl⟩ := hplan
      refine ⟨⟨child, runs, rfl, hholds, ?_⟩, hvalid, by rw [hnewest]; exact hlevel⟩
      have hfold : foldUntil (fun state run => .ok (Selection.visit limits state run))
          runs.reverse (⟨none, [], none⟩ : Selection) = .ok (selection, stop) := by
        rw [← visitPageNewestUntil_eq hholds]
        exact hwalk
      have hinfix : inputs <:+: [] ++ runs.reverse := inputs_isInfix rfl nil_suffix hfold hinputs
      exact hinfix

/-- A splice of a window leaves the runs on both sides of it. -/
theorem filterMap_window {older window newer : List QueryRunReference}
    {selected : OrdMap UInt64 QueryRunReference}
    (h : Tiled (older ++ (window ++ [newest]) ++ newer))
    (hselected : ∀ sequence, selected.contains sequence = true ↔
    ∃ r ∈ window ++ [newest], r.sequence = sequence)
    (hsequence : output.sequence = newest.sequence) :
    (older ++ (window ++ [newest]) ++ newer).filterMap (replaceRun selected output) =
    older ++ [output] ++ newer := by
  have hpairs := h.pairwise_sequence
  rw [pairwise_append, pairwise_append] at hpairs
  obtain ⟨⟨-, hwindow, hbefore⟩, -, hafter⟩ := hpairs
  have hkeep : ∀ runs : List QueryRunReference,
      (∀ r ∈ runs, ∀ r' ∈ window ++ [newest], r'.sequence ≠ r.sequence) →
      runs.filterMap (replaceRun selected output) = runs := by
    intro runs hruns
    calc runs.filterMap (replaceRun selected output)
      _ = runs.filterMap some := by
        refine filterMap_congr fun r hr => ?_
        have hfree : selected.contains r.sequence = false := by
          by_contra hcontains
          rw [Bool.not_eq_false, hselected] at hcontains
          obtain ⟨r', hr', hequal⟩ := hcontains
          exact hruns r hr r' hr' hequal
        simp [replaceRun, hfree]
      _ = runs := filterMap_some
  have hin : ∀ r ∈ window ++ [newest], selected.contains r.sequence = true := by
    intro r hr
    exact (hselected r.sequence).mpr ⟨r, hr, rfl⟩
  have hmiddle : (window ++ [newest]).filterMap (replaceRun selected output) = [output] := by
    have hgone : window.filterMap (replaceRun selected output) = [] := by
      rw [filterMap_eq_nil_iff]
      intro r hr
      have hne : r.sequence ≠ output.sequence := by
        rw [hsequence]
        exact ((pairwise_append.mp hwindow).2.2 r hr newest (by simp)).ne
      simp [replaceRun, hin r (mem_append_left _ hr), hne]
    have hlast : replaceRun selected output newest = some output := by
      simp [replaceRun, hin newest (by simp), hsequence]
    rw [filterMap_append, hgone, nil_append, filterMap_cons_some hlast, filterMap_nil]
  rw [filterMap_append, filterMap_append, hmiddle, hkeep older, hkeep newer]
  · exact fun r hr r' hr' => (hafter r' (mem_append_right _ hr') r hr).ne
  · exact fun r hr r' hr' => (hbefore r hr r' hr').ne'

/-- The output of a merge takes the place of its window in the tiling. -/
theorem tiled_window {older window newer : List QueryRunReference} {oldest : QueryRunReference}
    (h : Tiled (older ++ window ++ newer))
    (holdest : window.head? = some oldest) (hnewest : window.getLast? = some newest)
    (hvalid : output.Valid) (hsequence : output.sequence = newest.sequence)
    (hstart : output.sourceStartOffset = oldest.sourceStartOffset)
    (hnext : output.nextOffset = newest.nextOffset)
    (hatomic : output.throughAtomicPosition = newest.throughAtomicPosition) :
    Tiled (older ++ [output] ++ newer) := by
  have hchain := h.chain
  rw [append_assoc, isChain_append, isChain_append] at hchain
  obtain ⟨hleft, ⟨-, hright, hafter⟩, hbefore⟩ := hchain
  have hwindow : Tiled window := h.of_append.1.of_append.2
  obtain ⟨hseq, -, hat, -⟩ := hwindow.head_le_last holdest hnewest
  have hhead : (window ++ newer).head? = some oldest := by
    rw [head?_append, holdest]
    rfl
  constructor
  · rw [append_assoc, isChain_append, isChain_append]
    refine ⟨hleft, ⟨List.IsChain.singleton output, hright, ?_⟩, ?_⟩
    · intro r hr r' hr'
      rw [Option.mem_def, getLast?_singleton, Option.some.injEq] at hr
      subst hr
      obtain ⟨h1, h2, h3⟩ := hafter newest hnewest r' hr'
      exact ⟨hsequence ▸ h1, hnext ▸ h2, hatomic ▸ h3⟩
    intro r hr _ hr'
    rw [Option.mem_def, head?_append, head?_cons, Option.some_or, Option.some.injEq] at hr'
    subst hr'
    obtain ⟨h1, h2, h3⟩ := hbefore r hr oldest hhead
    refine ⟨?_, hstart ▸ h2, ?_⟩
    · rw [hsequence]
      exact h1.trans_le hseq
    rw [hatomic]
    exact h3.trans hat
  · intro r hr
    rcases mem_append.mp hr with hr | hr
    · rcases mem_append.mp hr with hr | hr
      · exact h.valid r (mem_append_left _ (mem_append_left _ hr))
      rw [mem_singleton.mp hr]
      exact hvalid
    · exact h.valid r (mem_append_right _ hr)

/-- What a plan that passes its check says about its inputs. -/
theorem validateCompactionPlan_eq_ok {plan : QueryRunCompactionPlan}
    {limits : QueryRunCompactionLimits}
    (h : validateCompactionPlan plan limits = .ok ()) :
    ∃ newest oldest, plan.inputsNewestFirst.head? = some newest ∧
    plan.inputsNewestFirst.getLast? = some oldest ∧
    plan.sourceStartOffset = oldest.sourceStartOffset ∧ plan.nextOffset = newest.nextOffset ∧
    plan.throughAtomicPosition = newest.throughAtomicPosition := by
  simp only [validateCompactionPlan, ok_rules, not_or, not_not] at h
  obtain ⟨-, -, -, newest, hnewest, oldest, holdest, -, -, -, hstart, hnext, hatomic, -⟩ := h
  exact ⟨newest, oldest, hnewest, holdest, hstart, hnext, hatomic⟩

/-- A splice replaces exactly the window of its plan by the merged run. -/
theorem splice_ok {plan : QueryRunCompactionPlan}
    (hnonzero : NonzeroDigests blake3)
    (h : StreamInv blake3 s runs) (hsplice : s.splice blake3 plan output = .ok prepared)
    (hfree : CollisionFree blake3 (s.install prepared).pages) :
    ∃ older newer, runs = older ++ plan.inputsNewestFirst.reverse ++ newer ∧
    plan.inputsNewestFirst.head?.map (·.sequence) = some output.sequence ∧
    output.level = plan.outputLevel ∧
    StreamInv blake3 (s.install prepared) (older ++ [output] ++ newer) := by
  simp only [QueryStreamState.splice, spliceCompactedQueryRuns, ok_rules, not_or,
    not_not] at hsplice
  obtain ⟨_, hroot, hplan, -, hvalidPlan, ⟨hhash, -, -⟩, newest, hnewest, houtput,
    ⟨hsequence, hlevel, hstart, hnext, hatomic⟩, -, _, htop, spliced, hspliced, _, hpage, -, _,
    -, -, -, rfl⟩ := hsplice
  obtain ⟨_, _, hnewest', _, hplanStart, hplanNext, hplanAtomic⟩ :=
    validateCompactionPlan_eq_ok hvalidPlan
  obtain rfl := Option.mem_unique hnewest hnewest'
  cases h.shows with
  | fresh hnone =>
    rw [hnone] at hroot
    cases hroot
  | empty hempty hcount =>
    obtain rfl := Option.mem_unique hempty hroot
    simp only [rootChild, ok_rules] at htop
    exact absurd hcount htop.2.1
  | @pages _ _ hpages hholds =>
    obtain rfl := Option.mem_unique hpages hroot
    have hinvalid := (describes_of_holds hnonzero hholds).not_invalid h.tiled
    rw [rootChild_rootOf hinvalid, Except.ok.injEq] at htop
    subst htop
    -- the plan was made for the tree that is spliced now
    obtain ⟨_, runs', hhash', hholds', hinfix⟩ := h.plans plan hplan
    have hsame : runs' = runs := holdsRuns_unique hholds' hholds (hhash'.trans hhash.symm)
    rw [hsame] at hinfix
    obtain ⟨newer, older, hwindow⟩ := hinfix
    have hruns : runs = older.reverse ++ plan.inputsNewestFirst.reverse ++ newer.reverse := by
      rw [← reverse_reverse runs, ← hwindow]
      simp
    refine ⟨older.reverse, newer.reverse, hruns, by simp [hnewest, hsequence], hlevel, ?_⟩
    have htiled : Tiled (older.reverse ++ plan.inputsNewestFirst.reverse ++ newer.reverse) :=
      hruns ▸ h.tiled
    have hresult : Tiled (older.reverse ++ [output] ++ newer.reverse) :=
      tiled_window htiled (by rwa [head?_reverse]) (by rwa [getLast?_reverse])
        (validateReference_eq_ok.mp houtput) hsequence (hstart.trans hplanStart)
        (hnext.trans hplanNext) (hatomic.trans hplanAtomic)
    obtain ⟨hencoded, _, hparts, _, hrewritten⟩ :=
      spliceSubtree_eq_ok hnonzero hholds h.tiled hspliced
    refine h.install hencoded hfree hresult (Shows.pages rfl ?_)
    have htree := hrewritten _ (keeps_install hencoded hfree)
    rw [hpage] at htree
    cases htree with
    | cons hpart hnil =>
      cases hnil
      obtain ⟨rest, hrest⟩ : ∃ rest, plan.inputsNewestFirst = newest :: rest :=
        head?_eq_some_iff.mp hnewest
      rw [hrest, reverse_cons] at htiled hruns
      rw [flatten_singleton, hruns, filterMap_window htiled ?_ hsequence] at hparts
      · rw [hparts] at hpart
        exact hpart.deeper (by simp [QueryStreamState.install])
      intro _
      rw [OrdMap.contains_ofList]
      have hmem : ∀ r, r ∈ rest.reverse ++ [newest] ↔ r ∈ plan.inputsNewestFirst := by
        intro r
        rw [hrest, ← reverse_cons, mem_reverse]
      simp only [mem_map, hmem]
      constructor
      · rintro ⟨_, ⟨r, hr, rfl⟩, rfl⟩
        exact ⟨r, hr, rfl⟩
      rintro ⟨r, hr, rfl⟩
      exact ⟨_, ⟨r, hr, rfl⟩, rfl⟩

end

section

/-- What a call can do to a stream. -/
theorem step_cases (blake3 : ContentHash) (s : QueryStreamState) (action : QueryStreamAction) :
    s.step blake3 action = s ∨ (∃ partition catalog reference prepared,
      s.append blake3 partition catalog reference = .ok prepared ∧
      s.step blake3 action = s.install prepared) ∨
      (∃ limits plan, s.select blake3 limits = .ok (some plan) ∧
        s.step blake3 action = { s with plans := s.plans ++ [plan] }) ∨
      ∃ plan output prepared, s.splice blake3 plan output = .ok prepared ∧
        s.step blake3 action = s.install prepared := by
  cases action with
  | append partition catalog reference =>
    cases happend : s.append blake3 partition catalog reference with
    | error e => exact .inl (by simp [QueryStreamState.step, happend])
    | ok => exact .inr (.inl ⟨_, _, _, _, happend, by simp [QueryStreamState.step, happend]⟩)
  | select limits =>
    rcases hselect : s.select blake3 limits with e | _ | _
    · exact .inl (by simp [QueryStreamState.step, hselect])
    · exact .inl (by simp [QueryStreamState.step, hselect])
    · exact .inr (.inr (.inl ⟨_, _, hselect, by simp [QueryStreamState.step, hselect]⟩))
  | splice plan output =>
    cases hsplice : s.splice blake3 plan output with
    | error e => exact .inl (by simp [QueryStreamState.step, hsplice])
    | ok => exact .inr (.inr (.inr ⟨_, _, _, hsplice, by simp [QueryStreamState.step, hsplice]⟩))

theorem Shows.keep_plan (h : Shows blake3 s runs) (plans : List QueryRunCompactionPlan) :
    Shows blake3 { s with plans := plans } runs := by
  cases h with
  | fresh hroot => exact Shows.fresh hroot
  | empty hroot hcount hvalid => exact Shows.empty hroot hcount hvalid
  | pages hroot hholds => exact Shows.pages hroot hholds

theorem StreamInv.append {partition : ProjectionPartitionIdentity} {catalog : Digest}
    {reference : QueryRunReference} (hnonzero : NonzeroDigests blake3) (h : StreamInv blake3 s runs)
    (happend : s.append blake3 partition catalog reference = .ok prepared)
    (hfree : CollisionFree blake3 (s.install prepared).pages) :
    reference.level = 0 ∧ StreamInv blake3 (s.install prepared) (runs ++ [reference]) := by
  obtain ⟨hpartition, hcatalog, hlevel, hvalid, hnext⟩ := append_eq_ok happend
  obtain ⟨_, happend', hinv⟩ := append_ok hnonzero h hpartition hcatalog hlevel hvalid hnext
  obtain rfl := Except.ok.inj (happend.symm.trans happend')
  exact ⟨hlevel, hinv hfree⟩

theorem StreamInv.select {limits : QueryRunCompactionLimits} {plan : QueryRunCompactionPlan}
    (hnonzero : NonzeroDigests blake3) (h : StreamInv blake3 s runs)
    (hselect : s.select blake3 limits = .ok (some plan)) :
    StreamInv blake3 { s with plans := s.plans ++ [plan] } runs := by
  refine ⟨h.tiled, h.shows.keep_plan _, h.encoded, fun plan' hplan' => ?_⟩
  rcases mem_append.mp hplan' with hold | hnew
  · exact h.plans plan' hold
  · rw [mem_singleton.mp hnew]
    exact (planOk_of_select hnonzero h hselect).1

/-- Every call keeps the invariant, whichever way it ends. -/
theorem streamInv_step (hnonzero : NonzeroDigests blake3) (h : StreamInv blake3 s runs)
    (action : QueryStreamAction) (hfree : CollisionFree blake3 (s.step blake3 action).pages) :
    ∃ runs', StreamInv blake3 (s.step blake3 action) runs' := by
  rcases step_cases blake3 s action with hstep | ⟨_, _, _, _,
    happend, hstep⟩ | ⟨_, plan, hselect, hstep⟩ | ⟨plan, _, _, hsplice, hstep⟩
  · rw [hstep]
    exact ⟨runs, h⟩
  · rw [hstep] at hfree ⊢
    exact ⟨_, (h.append hnonzero happend hfree).2⟩
  · rw [hstep]
    exact ⟨runs, h.select hnonzero hselect⟩
  · rw [hstep] at hfree ⊢
    obtain ⟨_, _, -, -, -, hinv⟩ := splice_ok hnonzero h hsplice hfree
    exact ⟨_, hinv⟩

/-- Pages are only ever added. -/
theorem pages_step (blake3 : ContentHash) (s : QueryStreamState) (action : QueryStreamAction) :
    ∃ more, (s.step blake3 action).pages = s.pages ++ more := by
  rcases step_cases blake3 s action with hstep | ⟨_, _, _, _, -, hstep⟩ | ⟨_, _, -, hstep⟩ |
    ⟨_, _, _, -, hstep⟩
  · exact ⟨[], by simp [hstep]⟩
  · exact ⟨_, by rw [hstep]; rfl⟩
  · exact ⟨[], by simp [hstep]⟩
  · exact ⟨_, by rw [hstep]; rfl⟩

theorem streamInv_start {start : Option ProjectionQueryStreamRoot}
    (hnonzero : NonzeroDigests blake3) (h : Opens blake3 start) :
    StreamInv blake3 { root := start, pages := [], plans := [] } [] := by
  refine ⟨⟨List.IsChain.nil, by simp⟩, ?_, by simp, by simp⟩
  cases h with
  | fresh => exact Shows.fresh rfl
  | empty hempty =>
    simp only [empty, ok_rules] at hempty
    obtain ⟨-, -, rfl⟩ := hempty
    refine Shows.empty rfl rfl ?_
    unfold validateAt
    simpa using hnonzero _

theorem streamInv_run {start : Option ProjectionQueryStreamRoot}
    (hnonzero : NonzeroDigests blake3) (hstart : Opens blake3 start)
    (actions : List QueryStreamAction)
    (hfree : CollisionFree blake3 (QueryStreamState.run blake3 start actions).pages) :
    ∃ runs, StreamInv blake3 (QueryStreamState.run blake3 start actions) runs := by
  induction actions using reverseRecOn with
  | nil => exact ⟨[], streamInv_start hnonzero hstart⟩
  | append_singleton before action ih =>
    unfold QueryStreamState.run at hfree ih ⊢
    rw [foldl_concat] at hfree ⊢
    obtain ⟨_, hmore⟩ := pages_step blake3
      (before.foldl (QueryStreamState.step blake3) ⟨start, [], []⟩) action
    rw [hmore] at hfree
    obtain ⟨_, hinv⟩ := ih hfree.of_append
    rw [← hmore] at hfree
    exact streamInv_step hnonzero hinv action hfree

end

end Keldra.Index
