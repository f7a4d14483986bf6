import Keldra.Foundation.Refusals
import Keldra.Index.QueryStreamTiling

/-!
# Compaction before a publication

The publisher appends one run with every publication.  Once the stream has the
configured number of runs it first merges a window of adjacent runs of one level, and
the publication fails when there is none.  The number counts the runs of all levels, a
window those of one: streams reach states with enough runs and no window.
-/

namespace Keldra.Index

open Foundation List

/-- The configured bounds. -/
structure LsmLimits where
  maxRunsPerLevel : UInt32
  maxUnmergedBytesPerLevel : UInt64
deriving DecidableEq

inductive IndexRuntimeConfigError where
  | zeroLsmRunsPerLevel
  | zeroLsmUnmergedBytesPerLevel
deriving DecidableEq

deriving instance DecidableEq for QueryStreamState

def withLsmLimits (runs : UInt32) (bytes : UInt64) : Except IndexRuntimeConfigError LsmLimits := do
  rejectIf (runs = 0) .zeroLsmRunsPerLevel
  rejectIf (bytes = 0) .zeroLsmUnmergedBytesPerLevel
  pure { maxRunsPerLevel := runs, maxUnmergedBytesPerLevel := bytes }

/-- Blocks a query or a merge holds at once. -/
def maximumLoadedBlocks : Nat := 16

def queryCompactionLimits (maximumRuns : Nat) : QueryRunCompactionLimits :=
  let queryFanIn := max (min (min maximumRuns queryRunPageFanout) maximumLoadedBlocks) 2
  { levelTrigger := min queryFanIn 8, maximumInputRuns := queryFanIn }

inductive PublicationError where
  | index (error : IndexError)
  | resourceExhausted (message : String)
deriving DecidableEq

def noWindow : PublicationError :=
  .resourceExhausted "v1 query LSM has no bounded compaction window"

/-- The run of a publication, and the run that merging a window gives. -/
structure Publication where
  partition : ProjectionPartitionIdentity
  catalog : Digest
  reference : QueryRunReference
  merged : QueryRunCompactionPlan → QueryRunReference

section

variable (blake3 : ContentHash) (maximumRuns : Nat)

/-- The stream that the next run is appended to. -/
def prepareCompaction (s : QueryStreamState) (merged : QueryRunCompactionPlan → QueryRunReference) :
    Except PublicationError QueryStreamState :=
  if maximumRuns ≤ (s.root.map (·.runCount.toNat)).getD 0 then
    match s.select blake3 (queryCompactionLimits maximumRuns) with
    | .error error => .error (.index error)
    | .ok none => .error noWindow
    | .ok (some plan) => do
      let selected := { s with plans := s.plans ++ [plan] }
      let spliced ← (selected.splice blake3 plan (merged plan)).mapError .index
      pure (selected.install spliced)
  else
    .ok s

def publish (s : QueryStreamState) (publication : Publication) :
    Except PublicationError QueryStreamState := do
  let base ← prepareCompaction blake3 maximumRuns s publication.merged
  let appended ← (base.append blake3 publication.partition publication.catalog
    publication.reference).mapError .index
  pure (base.install appended)

/-- A publication that fails leaves the stream as it was. -/
def afterPublication (s : QueryStreamState) (publication : Publication) : QueryStreamState :=
  match publish blake3 maximumRuns s publication with
  | .ok next => next
  | .error _ => s

/-- The stream after a sequence of publications. -/
def publishedStream (start : Option ProjectionQueryStreamRoot) (publications : List Publication) :
    QueryStreamState :=
  publications.foldl (afterPublication blake3 maximumRuns) ⟨start, [], []⟩

end

theorem validate_queryCompactionLimits (maximumRuns : Nat) :
    (queryCompactionLimits maximumRuns).validate = .ok (queryCompactionLimits maximumRuns) := by
  simp only [QueryRunCompactionLimits.validate, ok_rules, and_true]
  simp only [queryCompactionLimits, queryRunPageFanout, maximumLoadedBlocks]
  omega

section

variable {limits : QueryRunCompactionLimits} {state : Selection} {level : UInt8}

/-- Runs that can be merged. -/
def IsWindow (limits : QueryRunCompactionLimits) (inputs : List QueryRunReference) : Prop :=
  limits.levelTrigger ≤ inputs.length ∧ inputs.length ≤ limits.maximumInputRuns ∧
    ∃ level, ∀ r ∈ inputs, r.level = level

/-- A window is being collected. -/
structure Collects (limits : QueryRunCompactionLimits) (state : Selection) : Prop where
  selected : state.selected = none
  length_le : state.candidate.length ≤ limits.maximumInputRuns
  level_eq : ∃ level, state.level.getD level = level ∧ ∀ r ∈ state.candidate, r.level = level

/-- The walk over these runs ends with a window. -/
def Finds (limits : QueryRunCompactionLimits) (state : Selection)
    (runs : List QueryRunReference) : Prop :=
  ∃ after stop inputs, foldUntil (fun state run => .ok (Selection.visit limits state run)) runs
    state = .ok (after, stop) ∧ after.inputs limits = some inputs ∧ IsWindow limits inputs

theorem Collects.isWindow (h : Collects limits state)
    (henough : limits.levelTrigger ≤ state.candidate.length) : IsWindow limits state.candidate := by
  obtain ⟨level, -, hlevel⟩ := h.level_eq
  exact ⟨henough, h.length_le, level, hlevel⟩

theorem Finds.cons {next : Selection} {run : QueryRunReference} {rest : List QueryRunReference}
    (h : Finds limits next rest) (hvisit : state.visit limits run = (next, false)) :
    Finds limits state (run :: rest) := by
  obtain ⟨after, stop, inputs, hfold, hinputs⟩ := h
  exact ⟨after, stop, inputs, by rw [foldUntil, hvisit]; exact hfold, hinputs⟩

theorem Collects.finds_stop {run : QueryRunReference}
    (h : Collects limits state) (hvisit : state.visit limits run =
    ({ state with candidate := [], selected := some state.candidate }, true))
    (henough : limits.levelTrigger ≤ state.candidate.length) (rest : List QueryRunReference) :
    Finds limits state (run :: rest) :=
  ⟨_, true, _, by rw [foldUntil, hvisit]; rfl, rfl, h.isWindow henough⟩

variable (htrigger : limits.levelTrigger ≤ limits.maximumInputRuns)

include htrigger

/-- A visited run ends the walk with a window, joins the runs collected so far, or
begins anew after too few of another level. -/
theorem Collects.visit_cases (h : Collects limits state) (hpositive : 0 < limits.levelTrigger)
    (run : QueryRunReference) (rest : List QueryRunReference) :
    Finds limits state (run :: rest) ∨ ∃ next, Collects limits next ∧
    next.level = some run.level ∧ (Finds limits next rest → Finds limits state (run :: rest)) ∧
    (next.candidate = state.candidate ++ [run] ∨ state.level ≠ some run.level ∧
    next.candidate = [run] ∧ state.candidate.length < limits.levelTrigger) := by
  obtain ⟨level, hlevel, hcandidate⟩ := h.level_eq
  -- a full window or a change of level ends the collection
  by_cases hsame : state.level = some run.level
  · rw [hsame, Option.getD_some] at hlevel
    by_cases hfull : state.candidate.length < limits.maximumInputRuns
    · refine .inr ⟨{ state with candidate := state.candidate ++ [run] },
        ⟨h.selected, by simpa using hfull, level, by simp [hsame, hlevel], ?_⟩, hsame,
        fun hrest => hrest.cons (by rw [Selection.visit, if_pos hsame, if_pos hfull]), .inl rfl⟩
      intro r hr
      rcases mem_append.mp hr with hr | hr
      · exact hcandidate r hr
      · rw [mem_singleton.mp hr, hlevel]
    refine .inl (h.finds_stop ?_ (by omega) rest)
    rw [Selection.visit, if_pos hsame, if_neg hfull]
  · by_cases henough : limits.levelTrigger ≤ state.candidate.length
    · refine .inl (h.finds_stop ?_ henough rest)
      rw [Selection.visit, if_neg hsame, if_pos henough]
    refine .inr ⟨{ state with level := some run.level, candidate := [run] },
      ⟨h.selected, ?_, run.level, rfl, by simp⟩, rfl,
      fun hrest => hrest.cons (by rw [Selection.visit, if_neg hsame, if_neg henough]),
      Or.inr ⟨hsame, rfl, not_le.mp henough⟩⟩
    simp only [length_singleton]
    omega

variable (hpositive : 0 < limits.levelTrigger)

include hpositive

theorem Collects.finds_of_enough (h : Collects limits state)
    (henough : limits.levelTrigger ≤ state.candidate.length) (runs : List QueryRunReference) :
    Finds limits state runs := by
  induction runs generalizing state with
  | nil =>
    refine ⟨state, false, state.candidate, rfl, ?_, h.isWindow henough⟩
    simp [Selection.inputs, h.selected, henough]
  | cons run rest ih =>
    rcases h.visit_cases htrigger hpositive run rest with hfound |
      ⟨next, hnext, -, hcontinue, hjoined | ⟨-, -, hfew⟩⟩
    · exact hfound
    · refine hcontinue (ih hnext ?_)
      rw [hjoined, length_append]
      omega
    · omega

/-- A walk in the middle of a window. -/
theorem Collects.finds_within {window : List QueryRunReference}
    (h : Collects limits state) (hlevel : state.level = some level)
    (hwindow : ∀ r ∈ window, r.level = level)
    (henough : limits.levelTrigger ≤ state.candidate.length + window.length)
    (older : List QueryRunReference) : Finds limits state (window ++ older) := by
  induction window generalizing state with
  | nil => exact h.finds_of_enough htrigger hpositive henough older
  | cons run rest ih =>
    have hsame : run.level = level := hwindow run mem_cons_self
    rcases h.visit_cases htrigger hpositive run (rest ++ older) with hfound |
      ⟨next, hnext, hnextLevel, hcontinue, hjoined | ⟨hother, -⟩⟩
    · exact hfound
    · rw [hsame] at hnextLevel
      refine hcontinue (ih hnext hnextLevel (fun r hr => hwindow r (mem_cons_of_mem _ hr)) ?_)
      rw [hjoined, length_append, length_singleton]
      rw [length_cons] at henough
      omega
    · exact absurd (hlevel.trans (by rw [hsame])) hother

/-- A walk finds a window wherever there are enough adjacent runs of one level. -/
theorem Collects.finds {window : List QueryRunReference}
    (h : Collects limits state) (hwindow : ∀ r ∈ window, r.level = level)
    (henough : limits.levelTrigger ≤ window.length) (newer older : List QueryRunReference) :
    Finds limits state (newer ++ (window ++ older)) := by
  induction newer generalizing state with
  | nil =>
    cases window with
    | nil => exact absurd henough (by simpa using hpositive.ne')
    | cons run rest =>
      rcases h.visit_cases htrigger hpositive run (rest ++ older) with hfound |
        ⟨next, hnext, hnextLevel, hcontinue, hcandidate⟩
      · exact hfound
      rw [hwindow run mem_cons_self] at hnextLevel
      refine hcontinue (hnext.finds_within htrigger hpositive hnextLevel
        (fun r hr => hwindow r (mem_cons_of_mem _ hr)) ?_ older)
      have hone : 1 ≤ next.candidate.length := by
        rcases hcandidate with hjoined | ⟨-, hbegun, -⟩ <;> simp [*]
      rw [length_cons] at henough
      omega
  | cons run rest ih =>
    rcases h.visit_cases htrigger hpositive run (rest ++ (window ++ older)) with hfound |
      ⟨next, hnext, -, hcontinue, -⟩
    · exact hfound
    · exact hcontinue (ih hnext)

end

section

variable {blake3 : ContentHash} {s : QueryStreamState}

/-- A window of a stream makes a plan. -/
theorem planOf_eq_ok {runs : List QueryRunReference} {root : ProjectionQueryStreamRoot}
    {inputs : List QueryRunReference}
    (hlimits : limits.validate = .ok limits) (hhash : root.streamRootHash ≠ 0) (htiled : Tiled runs)
    (hlog : TilesLog root runs.reverse) (hbelow : ∀ r ∈ runs, r.level ≠ 255)
    (hinside : inputs <:+: runs.reverse) (hwindow : IsWindow limits inputs)
    (hpositive : 0 < limits.levelTrigger) : ∃ plan, planOf root limits inputs = .ok plan := by
  obtain ⟨henough, hmost, level, hlevel⟩ := hwindow
  obtain ⟨front, back, hparts⟩ := hinside
  have hmem : ∀ r ∈ inputs, r ∈ runs := by
    intro r hr
    rw [← mem_reverse, ← hparts]
    simp [hr]
  cases inputs with
  | nil => exact absurd henough (by simpa using hpositive.ne')
  | cons newest rest =>
    obtain ⟨oldest, holdest⟩ : ∃ oldest, (newest :: rest).getLast? = some oldest :=
      ⟨_, getLast?_eq_some_getLast (by simp)⟩
    have houtput : nextLevel newest.level = some (newest.level + 1) :=
      if_neg (hbelow newest (hmem newest mem_cons_self))
    have hchain : (newest :: rest).IsChain
        (fun newer older => older.Precedes newer ∧ newer.level = older.level) := by
      have hreversed : runs.reverse.IsChain (fun newer older => older.Precedes newer) :=
        isChain_reverse.mpr htiled.chain
      have hwithin := IsChain.infix hreversed ⟨front, back, hparts⟩
      refine hwithin.imp_of_mem_imp ?_
      intro newer older hnewer holder hprecedes
      exact ⟨hprecedes, (hlevel newer hnewer).trans (hlevel older holder).symm⟩
    -- the window ends at the root or before a newer run
    have hend : newest.nextOffset ≤ root.nextOffset ∧
        newest.throughAtomicPosition ≤ root.throughAtomicPosition := by
      cases front with
      | nil =>
        obtain ⟨-, hnext, hatomic⟩ := hlog.newest newest (by rw [← hparts]; rfl)
        exact ⟨hnext.ge, hatomic.ge⟩
      | cons head front =>
        obtain ⟨-, hnext, hatomic⟩ := hlog.newest head (by rw [← hparts]; rfl)
        have hhead : head ∈ runs := mem_reverse.mp (by rw [← hparts]; simp)
        have hbefore := hlog.disjoint
        have hbeforeAtomic := hlog.atomic
        rw [← hparts, append_assoc, cons_append, pairwise_cons] at hbefore hbeforeAtomic
        rw [hnext, hatomic]
        exact ⟨(hbefore.1 newest (by simp)).trans (htiled.valid head hhead).covers.le,
          hbeforeAtomic.1 newest (by simp)⟩
    simp only [planOf, validateCompactionPlan, ok_rules, not_or, not_not, not_lt, forM_eq_ok]
    exact ⟨_, newest, rfl, oldest, holdest, _, houtput, ⟨_, hlimits, ⟨hhash, henough, hmost⟩,
      newest, rfl, oldest, holdest,
      fun r hr => validateReference_eq_ok.mpr (htiled.valid r (hmem r hr)),
      hchain, by rw [houtput]; rfl, rfl, rfl, rfl, hend⟩, rfl⟩

/-- Enough adjacent runs of one level are a window that the selection finds. -/
theorem StreamInv.select_eq_ok {runs newer window older : List QueryRunReference}
    (hnonzero : NonzeroDigests blake3) (h : StreamInv blake3 s runs)
    (hlimits : limits.validate = .ok limits) (hparts : runs.reverse = newer ++ (window ++ older))
    (hwindow : ∀ r ∈ window, r.level = level) (henough : limits.levelTrigger ≤ window.length)
    (hbelow : ∀ r ∈ runs, r.level ≠ 255) : ∃ plan, s.select blake3 limits = .ok (some plan) := by
  obtain ⟨htwo, htrigger, -⟩ : 2 ≤ limits.levelTrigger ∧
      limits.levelTrigger ≤ limits.maximumInputRuns ∧ _ := by
    simpa only [QueryRunCompactionLimits.validate, ok_rules, not_or, not_lt, and_true] using hlimits
  have hnonempty : runs ≠ [] := by
    rintro rfl
    have hlength := congrArg length hparts
    simp only [reverse_nil, length_nil, length_append] at hlength
    omega
  unfold QueryStreamState.select
  cases h.shows with
  | fresh => exact absurd rfl hnonempty
  | empty => exact absurd rfl hnonempty
  | @pages child _ hroot hholds =>
    have hdescribes := describes_of_holds hnonzero hholds
    have hinvalid := hdescribes.not_invalid h.tiled
    have hcount := runCount_rootOf hinvalid
    have hstart : Collects limits ⟨none, [], none⟩ := ⟨rfl, Nat.zero_le _, 0, rfl, by simp⟩
    obtain ⟨after, stop, inputs, hfold, hinputs, hfound⟩ :=
      hstart.finds htrigger (by omega) hwindow henough newer older
    rw [← hparts] at hfold
    have hinside : inputs <:+: [] ++ runs.reverse := inputs_isInfix rfl nil_suffix hfold hinputs
    obtain ⟨plan, hplan⟩ := planOf_eq_ok hlimits hdescribes.hash_ne h.tiled
      (h.tilesLog hnonzero hroot) hbelow hinside hfound (by omega)
    refine ⟨plan, ?_⟩
    simp only [hroot, selectQueryRunCompaction, if_neg hcount, ok_rules, rootChild_rootOf hinvalid,
      Except.ok.injEq, Prod.exists]
    rw [← visitPageNewestUntil_eq hholds] at hfold
    refine ⟨limits, hlimits, validateAt_rootOf hinvalid, _, rfl, after, stop, hfold, ?_⟩
    simp only [hinputs, planFor, ok_rules]
    exact ⟨plan, hplan, rfl⟩

variable {maximumRuns : Nat}

/-- A compaction is a selection and a splice of the merged run. -/
theorem prepareCompaction_eq_ok {merged : QueryRunCompactionPlan → QueryRunReference}
    {base : QueryStreamState}
    (h : prepareCompaction blake3 maximumRuns s merged = .ok base) :
    base = s ∨ ∃ plan spliced,
      s.select blake3 (queryCompactionLimits maximumRuns) = .ok (some plan) ∧
      { s with plans := s.plans ++ [plan] }.splice blake3 plan (merged plan) = .ok spliced ∧
      base = { s with plans := s.plans ++ [plan] }.install spliced := by
  unfold prepareCompaction at h
  split at h
  · cases hselect : s.select blake3 (queryCompactionLimits maximumRuns) with
    | error => simp [hselect] at h
    | ok selected =>
      cases selected with
      | none => simp [hselect] at h
      | some plan =>
        simp only [hselect, ok_rules, mapError_eq_ok] at h
        obtain ⟨spliced, hsplice, rfl⟩ := h
        exact .inr ⟨plan, spliced, rfl, hsplice, rfl⟩
  · exact .inl (Except.ok.inj h).symm

/-- A publication stores pages and nothing is removed. -/
theorem afterPublication_pages (blake3 : ContentHash) (maximumRuns : Nat) (s : QueryStreamState)
    (publication : Publication) :
    ∃ more, (afterPublication blake3 maximumRuns s publication).pages = s.pages ++ more := by
  unfold afterPublication
  cases hpublish : publish blake3 maximumRuns s publication with
  | error => exact ⟨[], (append_nil _).symm⟩
  | ok next =>
    simp only [publish, ok_rules] at hpublish
    obtain ⟨base, hbase, appended, -, rfl⟩ := hpublish
    rcases prepareCompaction_eq_ok hbase with rfl | ⟨plan, spliced, -, -, rfl⟩
    · exact ⟨_, rfl⟩
    · exact ⟨_, append_assoc ..⟩

end

section

variable {trigger : Nat}

/-- How many publications the runs stand for at least, when every merged run has at least
`trigger` inputs. -/
def runsWeight (trigger : Nat) (runs : List QueryRunReference) : Nat :=
  (runs.map fun r => trigger ^ r.level.toNat).sum

theorem runsWeight_append (front back : List QueryRunReference) :
    runsWeight trigger (front ++ back) = runsWeight trigger front + runsWeight trigger back := by
  simp [runsWeight]

/-- A run of the next level weighs no more than the window that it replaces. -/
theorem runsWeight_merged {window : List QueryRunReference} {output : QueryRunReference}
    (hlevel : ∀ r ∈ window, r.level = level)
    (hnext : nextLevel level = some output.level) (henough : trigger ≤ window.length) :
    runsWeight trigger [output] ≤ runsWeight trigger window := by
  have hwindow : runsWeight trigger window = window.length * trigger ^ level.toNat := by
    rw [runsWeight, map_congr_left fun r hr => by rw [hlevel r hr]]
    simp
  have houtput : output.level.toNat = level.toNat + 1 := by
    unfold nextLevel at hnext
    split at hnext
    · cases hnext
    · rename_i hbelow
      rw [← Option.some.inj hnext, UInt8.toNat_add, UInt8.toNat_one]
      have hne : level.toNat ≠ 255 := fun h => hbelow (UInt8.toNat_inj.mp h)
      have hlt := level.toNat_lt
      omega
  rw [hwindow, runsWeight, map_singleton, sum_singleton, houtput, pow_succ']
  exact Nat.mul_le_mul_right _ henough

/-- Runs of a higher level weigh at least `trigger`. -/
theorem count_le_runsWeight (trigger : Nat) (runs : List QueryRunReference) :
    runs.countP (fun r => r.level = 0) + trigger * runs.countP (fun r => !decide (r.level = 0)) ≤
      runsWeight trigger runs := by
  induction runs with
  | nil => simp [runsWeight]
  | cons run rest ih =>
    have hcons : runsWeight trigger (run :: rest) =
        trigger ^ run.level.toNat + runsWeight trigger rest := by
      simp [runsWeight]
    rw [hcons, countP_cons, countP_cons]
    by_cases hzero : run.level = 0
    · simp only [hzero, decide_true, Bool.not_true, Bool.false_eq_true, if_true, if_false,
        UInt8.toNat_zero, pow_zero, add_zero]
      omega
    · have hhigher : trigger ≤ trigger ^ run.level.toNat :=
        Nat.le_self_pow (fun h => hzero (UInt8.toNat_inj.mp h)) trigger
      simp only [hzero, decide_false, Bool.not_false, Bool.false_eq_true, if_true, if_false,
        mul_add, mul_one, add_zero]
      omega

end

/-- Where few elements part many others, enough of the others are adjacent. -/
theorem exists_window {α : Type} {p : α → Bool} {trigger : Nat} (elements : List α)
    (h : (elements.countP (!p ·) + 1) * (trigger - 1) < elements.countP p) :
    ∃ newer window older, elements = newer ++ (window ++ older) ∧
      trigger ≤ window.length ∧ ∀ a ∈ window, p a := by
  induction hlength : elements.length using Nat.strong_induction_on generalizing elements with
  | _ length ih =>
  by_cases henough : trigger ≤ (elements.takeWhile p).length
  · exact ⟨[], _, _, takeWhile_append_dropWhile.symm, henough, fun a ha => mem_takeWhile_imp ha⟩
  have hsplit : elements.takeWhile p ++ elements.dropWhile p = elements :=
    takeWhile_append_dropWhile
  have hfront : (elements.takeWhile p).countP p = (elements.takeWhile p).length :=
    countP_eq_length.mpr fun a ha => mem_takeWhile_imp ha
  have hfront' : (elements.takeWhile p).countP (!p ·) = 0 :=
    countP_eq_zero.mpr fun a ha => by simp [mem_takeWhile_imp ha]
  cases hrest : elements.dropWhile p with
  | nil =>
    rw [hrest, append_nil] at hsplit
    rw [hsplit] at hfront hfront' henough
    rw [hfront, hfront', zero_add, one_mul] at h
    omega
  | cons parting rest =>
    have hparting : p parting = false := by
      have hhead := head_dropWhile_not p (show elements.dropWhile p ≠ [] by simp [hrest])
      simpa [hrest] using hhead
    rw [hrest] at hsplit
    rw [← hsplit, countP_append, countP_append, hfront, hfront', countP_cons, countP_cons,
      hparting] at h
    simp only [Bool.not_false, if_true, Bool.false_eq_true, if_false, zero_add, add_zero] at h
    have hshort : rest.length < length := by
      rw [← hlength, ← hsplit, length_append, length_cons]
      omega
    obtain ⟨newer, window, older, hparts, hwindow⟩ := ih _ hshort rest (by
      rw [add_mul] at h
      omega) rfl
    refine ⟨elements.takeWhile p ++ parting :: newer, window, older, hsplit.symm.trans ?_, hwindow⟩
    rw [hparts]
    simp

section

variable {blake3 : ContentHash} {s : QueryStreamState} {runs : List QueryRunReference}
  {maximumRuns : Nat}

/-- A publication adds at most one to the weight of the runs. -/
theorem StreamInv.publication (hnonzero : NonzeroDigests blake3) (h : StreamInv blake3 s runs)
    (publication : Publication)
    (hfree : CollisionFree blake3 (afterPublication blake3 maximumRuns s publication).pages) :
    ∃ runs', StreamInv blake3 (afterPublication blake3 maximumRuns s publication) runs' ∧
      runsWeight (queryCompactionLimits maximumRuns).levelTrigger runs' ≤
        runsWeight (queryCompactionLimits maximumRuns).levelTrigger runs + 1 := by
  unfold afterPublication at hfree ⊢
  cases hpublish : publish blake3 maximumRuns s publication with
  | error => exact ⟨runs, h, Nat.le_succ _⟩
  | ok next =>
    rw [hpublish] at hfree
    simp only [publish, ok_rules, mapError_eq_ok] at hpublish
    obtain ⟨base, hbase, appended, happend, rfl⟩ := hpublish
    obtain ⟨merged, hmerged, hweight⟩ : ∃ merged, StreamInv blake3 base merged ∧
        runsWeight (queryCompactionLimits maximumRuns).levelTrigger merged ≤
          runsWeight (queryCompactionLimits maximumRuns).levelTrigger runs := by
      rcases prepareCompaction_eq_ok hbase with rfl | ⟨plan, spliced, hselect, hsplice, rfl⟩
      · exact ⟨runs, h, le_rfl⟩
      obtain ⟨-, hvalid, hnext⟩ := planOk_of_select hnonzero h hselect
      obtain ⟨older, newer, rfl, -, hlevel, hinv⟩ :=
        splice_ok hnonzero (h.select hnonzero hselect) hsplice hfree.of_append
      refine ⟨_, hinv, ?_⟩
      simp only [validateCompactionPlan, ok_rules, not_or, not_not, not_lt] at hvalid
      obtain ⟨_, hlimits, ⟨-, henough, -⟩, newest, hnewest, _, -, -, hchain, -⟩ := hvalid
      rw [validate_queryCompactionLimits] at hlimits
      obtain rfl := Except.ok.inj hlimits
      rw [hnewest, Option.bind_some, ← hlevel] at hnext
      have hsame : ∀ r ∈ plan.inputsNewestFirst.reverse, r.level = newest.level := by
        have htrans : IsTrans QueryRunReference fun newer older => newer.level = older.level :=
          ⟨fun _ _ _ => Eq.trans⟩
        obtain ⟨rest, hrest⟩ := head?_eq_some_iff.mp hnewest
        have hpairs := isChain_iff_pairwise.mp (hchain.imp fun _ _ h => h.2)
        rw [hrest, pairwise_cons] at hpairs
        intro r hr
        rw [mem_reverse, hrest, mem_cons] at hr
        exact hr.elim (congrArg _) fun hr => (hpairs.1 r hr).symm
      rw [← length_reverse] at henough
      have hwindow := runsWeight_merged hsame hnext henough
      simp only [runsWeight_append]
      omega
    obtain ⟨hzero, hinv⟩ := hmerged.append hnonzero happend hfree
    refine ⟨_, hinv, ?_⟩
    rw [runsWeight_append]
    simpa [runsWeight, hzero] using hweight

theorem publishedStream_weight {start : Option ProjectionQueryStreamRoot}
    (hnonzero : NonzeroDigests blake3) (hstart : Opens blake3 start)
    (publications : List Publication)
    (hfree : CollisionFree blake3 (publishedStream blake3 maximumRuns start publications).pages) :
    ∃ runs, StreamInv blake3 (publishedStream blake3 maximumRuns start publications) runs ∧
      runsWeight (queryCompactionLimits maximumRuns).levelTrigger runs ≤ publications.length := by
  induction publications using reverseRecOn with
  | nil => exact ⟨[], streamInv_start hnonzero hstart, le_rfl⟩
  | append_singleton before publication ih =>
    unfold publishedStream at hfree ih ⊢
    rw [foldl_concat] at hfree ⊢
    obtain ⟨_, hmore⟩ := afterPublication_pages blake3 maximumRuns
      (before.foldl (afterPublication blake3 maximumRuns) ⟨start, [], []⟩) publication
    obtain ⟨runs, hinv, hweight⟩ := ih (by rw [hmore] at hfree; exact hfree.of_append)
    obtain ⟨runs', hinv', hweight'⟩ := hinv.publication hnonzero publication hfree
    refine ⟨runs', hinv', ?_⟩
    rw [length_append, length_singleton]
    omega

end

/-- A publication is refused for want of a window only when it compacts. -/
theorem avoids_noWindow (hselect : ∀ root, s.root = some root →
      maximumRuns ≤ root.runCount.toNat →
      ∃ plan, s.select blake3 (queryCompactionLimits maximumRuns) = .ok (some plan))
    (hpositive : 0 < maximumRuns) (publication : Publication) :
    Avoids noWindow (publish blake3 maximumRuns s publication) := by
  have hindex : ∀ error, PublicationError.index error ≠ noWindow := by simp [noWindow]
  refine Avoids.bind ?_ fun _ _ => (avoids_mapError hindex).bind fun _ _ => avoids_pure
  unfold prepareCompaction
  split
  · rename_i hfull
    cases hroot : s.root with
    | none => exact absurd hfull (by simp [hroot, hpositive.ne'])
    | some root =>
      obtain ⟨plan, hplan⟩ := hselect root hroot (by simpa [hroot] using hfull)
      rw [hplan]
      exact (avoids_mapError hindex).bind fun _ _ => avoids_pure
  · exact avoids_ok

/-- The number of publications that find a window whatever they merge. -/
def assuredPublications (maximumRuns : Nat) : Nat :=
  let trigger := (queryCompactionLimits maximumRuns).levelTrigger
  maximumRuns + (trigger - 1) * (maximumRuns / trigger)

/-- So few publications leave few merged runs, and many of level 0 between them. -/
theorem exists_window_of_weight {trigger maximumRuns count : Nat} {runs : List QueryRunReference}
    (hpositive : 0 < trigger) (hweight : runsWeight trigger runs ≤ count)
    (hcount : count < maximumRuns + (trigger - 1) * (maximumRuns / trigger))
    (hruns : maximumRuns ≤ runs.length) :
    ∃ newer window older, runs.reverse = newer ++ (window ++ older) ∧ trigger ≤ window.length ∧
      ∀ r ∈ window, r.level = 0 := by
  have hlight := count_le_runsWeight trigger runs
  have hlength : runs.length = runs.countP (fun r => r.level = 0) +
      runs.countP (fun r => !decide (r.level = 0)) := by
    rw [length_eq_countP_add_countP fun r : QueryRunReference => decide (r.level = 0)]
    simp
  have hmany : (runs.reverse.countP (fun r => !decide (r.level = 0)) + 1) * (trigger - 1) <
      runs.reverse.countP fun r => r.level = 0 := by
    rw [countP_reverse, countP_reverse]
    generalize runs.countP (fun r => r.level = 0) = zeros at *
    generalize runs.countP (fun r => !decide (r.level = 0)) = merged at *
    obtain ⟨rest, rfl⟩ := Nat.exists_eq_succ_of_ne_zero hpositive.ne'
    rw [Nat.succ_eq_add_one] at *
    rw [Nat.add_sub_cancel] at hcount ⊢
    have hfits := Nat.div_mul_le_self maximumRuns (rest + 1)
    generalize maximumRuns / (rest + 1) = windows at *
    rw [add_mul, one_mul] at hlight
    have hfewer : merged < windows := by
      refine Nat.lt_of_mul_lt_mul_left (a := rest) ?_
      omega
    have hroom : (merged + 1) * (rest + 1) ≤ windows * (rest + 1) :=
      Nat.mul_le_mul_right _ hfewer
    rw [mul_add, mul_one] at hroom
    omega
  obtain ⟨newer, window, older, hparts, henough, hwindow⟩ := exists_window runs.reverse hmany
  exact ⟨newer, window, older, hparts, henough, fun r hr => of_decide_eq_true (hwindow r hr)⟩

/-- So few publications reach no run of the last level. -/
theorem level_ne_last {trigger maximumRuns count : Nat} {runs : List QueryRunReference}
    (htwo : 2 ≤ trigger) (hmaximum : maximumRuns < 2 ^ 32)
    (hweight : runsWeight trigger runs ≤ count)
    (hcount : count < maximumRuns + (trigger - 1) * (maximumRuns / trigger))
    (r : QueryRunReference) (hr : r ∈ runs) : r.level ≠ 255 := by
  intro hlast
  have hheavy : trigger ^ r.level.toNat ≤ runsWeight trigger runs :=
    List.single_le_sum (fun _ _ => Nat.zero_le _) _ (mem_map_of_mem hr)
  have hpower : 2 ^ 255 ≤ trigger ^ r.level.toNat := by
    rw [hlast]
    exact Nat.pow_le_pow_left htwo 255
  have hfits : (trigger - 1) * (maximumRuns / trigger) ≤ maximumRuns :=
    (Nat.mul_le_mul_right _ (Nat.sub_le _ _)).trans (Nat.mul_div_le maximumRuns trigger)
  have hlarge : 2 ^ 32 + 2 ^ 32 ≤ 2 ^ 255 := by decide
  omega

/-- With every limit, the first publications find a window whenever they compact, and none of
them is refused for want of one: as many as the limit, and one less than the level trigger
more for each time that the trigger goes into the limit. -/
theorem publication_finds_window (blake3 : ContentHash) (hnonzero : NonzeroDigests blake3)
    (start : Option ProjectionQueryStreamRoot) (hstart : Opens blake3 start)
    (limits : LsmLimits) (publications : List Publication) (s : QueryStreamState)
    (hrun : s = publishedStream blake3 limits.maxRunsPerLevel.toNat start publications)
    (hfree : CollisionFree blake3 s.pages)
    (hfew : publications.length < assuredPublications limits.maxRunsPerLevel.toNat) :
    (∀ root, s.root = some root → limits.maxRunsPerLevel.toNat ≤ root.runCount.toNat →
      ∃ plan, s.select blake3 (queryCompactionLimits limits.maxRunsPerLevel.toNat) =
        .ok (some plan)) ∧
    ∀ publication,
      publish blake3 limits.maxRunsPerLevel.toNat s publication ≠ .error noWindow := by
  subst hrun
  obtain ⟨runs, hinv, hweight⟩ := publishedStream_weight hnonzero hstart publications hfree
  have hvalid := validate_queryCompactionLimits limits.maxRunsPerLevel.toNat
  have htwo : 2 ≤ (queryCompactionLimits limits.maxRunsPerLevel.toNat).levelTrigger := by
    simp only [QueryRunCompactionLimits.validate, ok_rules, not_or, not_lt] at hvalid
    exact hvalid.1.1
  have hfinds : ∀ root, (publishedStream blake3 limits.maxRunsPerLevel.toNat start
      publications).root = some root → limits.maxRunsPerLevel.toNat ≤ root.runCount.toNat →
      ∃ plan, (publishedStream blake3 limits.maxRunsPerLevel.toNat start publications).select
        blake3 (queryCompactionLimits limits.maxRunsPerLevel.toNat) = .ok (some plan) := by
    intro root hroot hfull
    rw [(hinv.tilesLog hnonzero hroot).runCount, length_reverse] at hfull
    obtain ⟨newer, window, older, hparts, henough, hwindow⟩ :=
      exists_window_of_weight (by omega) hweight hfew hfull
    exact hinv.select_eq_ok hnonzero hvalid hparts hwindow henough
      (level_ne_last htwo limits.maxRunsPerLevel.toNat_lt hweight hfew)
  refine ⟨hfinds, fun publication => avoids_noWindow hfinds ?_ publication⟩
  -- without a run no publication is assured
  by_contra hzero
  rw [assuredPublications, Nat.eq_zero_of_not_pos hzero, Nat.zero_div, mul_zero] at hfew
  omega

/-- The publication of a run over one source offset. -/
def samplePublication (sequence : UInt64) : Publication :=
  { partition := samplePartition
    catalog := 7
    reference := unitRun sequence 0 (sequence - 1)
    merged := fun plan => unitRun plan.nextOffset plan.outputLevel plan.sourceStartOffset }

theorem publication_finds_window_at_two :
    publish residueHash 2 (publishedStream residueHash 2 none
      [samplePublication 1, samplePublication 2]) (samplePublication 3) ≠ .error noWindow := by
  have hwindow := publication_finds_window residueHash nonzeroDigests_residueHash none Opens.fresh
    ⟨2, 1⟩ [samplePublication 1, samplePublication 2] _ rfl
    (by unfold CollisionFree; decide +kernel) (by decide)
  exact hwindow.2 (samplePublication 3)

/-- The root before the first publication. -/
def emptyRoot : Option ProjectionQueryStreamRoot :=
  (ProjectionQueryStreamRoot.empty residueHash samplePartition 7 0 0).toOption

/-- A merged run and a newer one are two runs, and the next publication is refused. -/
theorem publication_refused_at_two :
    (∃ limits, withLsmLimits 2 1 = .ok limits ∧ limits.maxRunsPerLevel.toNat = 2) ∧
    emptyRoot.isSome ∧ publish residueHash 2 (publishedStream residueHash 2 emptyRoot
    [samplePublication 1, samplePublication 2, samplePublication 3]) (samplePublication 4) =
    .error noWindow := by
  refine ⟨⟨⟨2, 1⟩, by decide, by decide⟩, by decide +kernel, ?_⟩
  decide +kernel

end Keldra.Index
