import Keldra.Index.QueryPages

/-!
# Appends, walks and splices on a stored page tree

Each operation is related to the list of runs its tree holds: a walk folds over
the list, newest run first; an append always succeeds on a tiling and adds one
run at its end; a splice that succeeds rewrites the list run by run.  The new
trees hold in every store that keeps the old pages and the new ones.
-/

namespace Keldra.Index

open Foundation List

variable {load' : PageLoader} {pages pages' : List EncodedQueryRunPage} {depth : Nat}
  {runs : List QueryRunReference}

section

/-- A store that still finds the old pages and also the new ones. -/
structure Keeps (load load' : PageLoader) (pages : List EncodedQueryRunPage) : Prop where
  old : ∀ hash bytes, load hash = .ok bytes → load' hash = .ok bytes
  new : ∀ page ∈ pages, load' page.hash = .ok page.bytes

theorem Keeps.of_append {load : PageLoader} (h : Keeps load load' (pages ++ pages')) :
    Keeps load load' pages ∧ Keeps load load' pages' := by
  refine ⟨⟨h.old, ?_⟩, ⟨h.old, ?_⟩⟩
  · intro page hpage
    exact h.new page (mem_append_left _ hpage)
  intro page hpage
  exact h.new page (mem_append_right _ hpage)

theorem Keeps.holdsRuns {load : PageLoader} {blake3 : ContentHash} {child : QueryRunChild}
    (hkeeps : Keeps load load' pages)
    (h : HoldsRuns blake3 load depth child runs) : HoldsRuns blake3 load' depth child runs := by
  refine h.mono ?_
  rintro _ _ ⟨encoded, hencode, hsummary, hload⟩
  exact ⟨encoded, hencode, hsummary, hkeeps.old _ _ hload⟩

end

variable {parts : List (List QueryRunReference)}

section

variable (blake3 : ContentHash) (load : PageLoader) {encoded : EncodedQueryRunPage}

/-- Pages produced by the page encoder. -/
def AllEncoded (pages : List EncodedQueryRunPage) : Prop :=
  ∀ encoded ∈ pages, ∃ page, encodePage blake3 page = .ok encoded

/-- Top pages that together hold the given runs once their pages are stored. -/
def Written (depth : Nat) (runs : List QueryRunReference) (tops : List QueryRunChild)
    (pages : List EncodedQueryRunPage) : Prop :=
  AllEncoded blake3 pages ∧ ∃ parts, parts.flatten = runs ∧ List.Forall₂ Describes tops parts ∧
    ∀ load', Keeps load load' pages → List.Forall₂ (HoldsRuns blake3 load' depth) tops parts

/-- The summaries a parent lists for a page that may have been split. -/
def topsOf (next : EncodedQueryRunPage) (split : Option EncodedQueryRunPage) : List QueryRunChild :=
  next.summary :: (split.map (·.summary)).toList

variable {blake3 load}

/-- A written leaf holds its runs as soon as it is stored. -/
theorem holdsRuns_leaf (h : encodePage blake3 (.leaf runs) = .ok encoded)
    (hload : load' encoded.hash = .ok encoded.bytes) (depth : Nat) :
    HoldsRuns blake3 load' (depth + 1) encoded.summary runs :=
  holds_leaf ⟨encoded, h, rfl, hload⟩ depth

theorem holdsRuns_branch {children : List QueryRunChild}
    (h : encodePage blake3 (.branch children) = .ok encoded)
    (hload : load' encoded.hash = .ok encoded.bytes)
    (hparts : List.Forall₂ (HoldsRuns blake3 load' depth) children parts) :
    HoldsRuns blake3 load' (depth + 1) encoded.summary parts.flatten :=
  holds_branch ⟨encoded, h, rfl, hload⟩ hparts

theorem allEncoded_nil : AllEncoded blake3 [] := by
  intro _ hencoded
  cases hencoded

theorem AllEncoded.cons {page : QueryRunPage} (h : encodePage blake3 page = .ok encoded)
    (hrest : AllEncoded blake3 pages) : AllEncoded blake3 (encoded :: pages) := by
  intro other hother
  rcases mem_cons.mp hother with rfl | hother
  · exact ⟨page, h⟩
  · exact hrest other hother

theorem AllEncoded.append (h : AllEncoded blake3 pages) (h' : AllEncoded blake3 pages') :
    AllEncoded blake3 (pages ++ pages') := by
  intro encoded hencoded
  rcases mem_append.mp hencoded with hencoded | hencoded
  · exact h encoded hencoded
  · exact h' encoded hencoded

/-- The halves of a page with one entry too many are pages. -/
theorem halves_fit {α : Type} {entries : List α} (hover : ¬ entries.length ≤ queryRunPageFanout)
    (hsize : entries.length ≤ queryRunPageFanout + 1) :
    (entries.take (queryRunPageFanout / 2) ≠ [] ∧
    (entries.take (queryRunPageFanout / 2)).length ≤ queryRunPageFanout) ∧
    entries.drop (queryRunPageFanout / 2) ≠ [] ∧
    (entries.drop (queryRunPageFanout / 2)).length ≤ queryRunPageFanout := by
  unfold queryRunPageFanout at hover hsize ⊢
  refine ⟨⟨ne_nil_of_length_pos ?_, ?_⟩, ne_nil_of_length_pos ?_, ?_⟩
  all_goals simp only [length_take, length_drop]
  all_goals omega

theorem encodeOrSplit_leaf (hnonzero : NonzeroDigests blake3) (hne : runs ≠ [])
    (hsize : runs.length ≤ queryRunPageFanout + 1) (htiled : Tiled runs) (depth : Nat) :
    ∃ next split pages, encodeOrSplit blake3 Page.leaf runs = .ok ((next, split), pages) ∧
    Written blake3 load (depth + 1) runs (topsOf next split) pages := by
  unfold encodeOrSplit
  by_cases hfits : runs.length ≤ queryRunPageFanout
  · obtain ⟨whole, hwhole, hdescribes⟩ := encodePage_leaf hnonzero hne hfits htiled
    refine ⟨whole, none, [whole], by simp [hfits, hwhole],
      AllEncoded.cons hwhole allEncoded_nil, [runs], by simp, ?_, ?_⟩
    · exact Forall₂.cons hdescribes Forall₂.nil
    intro _ hkeeps
    have hload := hkeeps.new whole (by simp)
    exact Forall₂.cons (holdsRuns_leaf hwhole hload depth) Forall₂.nil
  obtain ⟨⟨hleftNe, hleftSize⟩, hrightNe, hrightSize⟩ := halves_fit hfits hsize
  rw [← take_append_drop (queryRunPageFanout / 2) runs] at htiled
  obtain ⟨left, hleft, hleftDescribes⟩ :=
    encodePage_leaf hnonzero hleftNe hleftSize htiled.of_append.1
  obtain ⟨right, hright, hrightDescribes⟩ :=
    encodePage_leaf hnonzero hrightNe hrightSize htiled.of_append.2
  refine ⟨left, some right, [left, right], ?_,
    AllEncoded.cons hleft (AllEncoded.cons hright allEncoded_nil),
    [runs.take (queryRunPageFanout / 2), runs.drop (queryRunPageFanout / 2)],
    by simp, ?_, ?_⟩
  · rw [if_neg hfits, hleft, hright]
    rfl
  · exact Forall₂.cons hleftDescribes (Forall₂.cons hrightDescribes Forall₂.nil)
  intro _ hkeeps
  exact Forall₂.cons (holdsRuns_leaf hleft (hkeeps.new left (by simp)) depth)
    (Forall₂.cons (holdsRuns_leaf hright (hkeeps.new right (by simp)) depth) Forall₂.nil)

theorem encodeOrSplit_branch {children : List QueryRunChild} {below : List EncodedQueryRunPage}
    (hnonzero : NonzeroDigests blake3)
    (hne : children ≠ []) (hsize : children.length ≤ queryRunPageFanout + 1)
    (hdescribes : List.Forall₂ Describes children parts) (htiled : Tiled parts.flatten)
    (hbelow : AllEncoded blake3 below) (hholds : ∀ load', Keeps load load' below →
    List.Forall₂ (HoldsRuns blake3 load' depth) children parts) :
    ∃ next split here, encodeOrSplit blake3 Page.branch children = .ok ((next, split), here) ∧
    Written blake3 load (depth + 1) parts.flatten (topsOf next split) (below ++ here) := by
  unfold encodeOrSplit
  by_cases hfits : children.length ≤ queryRunPageFanout
  · obtain ⟨whole, hwhole, hwholeDescribes⟩ :=
      encodePage_branch hnonzero hne hfits hdescribes htiled
    refine ⟨whole, none, [whole], by simp [hfits, hwhole],
      hbelow.append (AllEncoded.cons hwhole allEncoded_nil), [parts.flatten],
      by simp, ?_, ?_⟩
    · exact Forall₂.cons hwholeDescribes Forall₂.nil
    intro load' hkeeps
    obtain ⟨hkept, hhere⟩ := hkeeps.of_append
    have hload := hhere.new whole (by simp)
    exact Forall₂.cons (holdsRuns_branch hwhole hload (hholds load' hkept)) Forall₂.nil
  obtain ⟨⟨hleftNe, hleftSize⟩, hrightNe, hrightSize⟩ := halves_fit hfits hsize
  have hsplit : (parts.take (queryRunPageFanout / 2)).flatten ++
      (parts.drop (queryRunPageFanout / 2)).flatten = parts.flatten := by
    rw [← flatten_append, take_append_drop]
  rw [← hsplit] at htiled
  obtain ⟨left, hleft, hleftDescribes⟩ := encodePage_branch hnonzero hleftNe hleftSize
    (forall₂_take _ hdescribes) htiled.of_append.1
  obtain ⟨right, hright, hrightDescribes⟩ := encodePage_branch hnonzero hrightNe
    hrightSize (forall₂_drop _ hdescribes) htiled.of_append.2
  refine ⟨left, some right, [left, right], ?_,
    hbelow.append (AllEncoded.cons hleft (AllEncoded.cons hright allEncoded_nil)),
    [(parts.take (queryRunPageFanout / 2)).flatten,
      (parts.drop (queryRunPageFanout / 2)).flatten], by simpa using hsplit, ?_, ?_⟩
  · rw [if_neg hfits, hleft, hright]
    rfl
  · exact Forall₂.cons hleftDescribes (Forall₂.cons hrightDescribes Forall₂.nil)
  intro load' hkeeps
  obtain ⟨hkept, hhere⟩ := hkeeps.of_append
  have hparts := hholds load' hkept
  exact Forall₂.cons (holdsRuns_branch hleft (hhere.new left (by simp)) (forall₂_take
    _ hparts)) (Forall₂.cons (holdsRuns_branch hright (hhere.new right (by simp))
    (forall₂_drop _ hparts)) Forall₂.nil)

/-- Splitting a non-empty branch before its last child. -/
theorem forall₂_snoc {α β : Type} {related : α → β → Prop} {left : List α} {right : List β}
    (h : List.Forall₂ related left right) (hne : left ≠ []) :
    ∃ last part parts, left.getLast? = some last ∧ right = parts ++ [part] ∧ related last part ∧
    List.Forall₂ related left.dropLast parts := by
  induction h with
  | nil => exact absurd rfl hne
  | @cons a b _ _ hhead hrest ih =>
    cases hrest with
    | nil => exact ⟨a, b, [], by simp, by simp, hhead, by simp⟩
    | cons =>
      obtain ⟨last, part, parts, _, hright, hrelated, hbefore⟩ := ih (by simp)
      refine ⟨last, part, b :: parts, ?_, ?_, hrelated, ?_⟩
      · rwa [getLast?_cons_cons]
      · rw [hright, cons_append]
      exact Forall₂.cons hhead hbefore

/-- Appending to a tiling always succeeds and adds the run at its end. -/
theorem appendPage_ok {child : QueryRunChild}
    (hnonzero : NonzeroDigests blake3) {reference : QueryRunReference}
    (h : HoldsRuns blake3 load depth child runs) (htiled : Tiled (runs ++ [reference])) :
    ∃ next split pages, appendPage blake3 load depth child.hash (some child) reference =
    .ok ((next, split), pages) ∧
    Written blake3 load depth (runs ++ [reference]) (topsOf next split) pages := by
  induction depth generalizing child runs with
  | zero => exact h.elim
  | succ depth ih =>
    rcases h with hstored | ⟨children, _, hstored, hparts, rfl⟩
    · obtain ⟨-, hsize, -⟩ := validatePage_leaf_eq_ok.mp hstored.valid
      have hlength : (runs ++ [reference]).length ≤ queryRunPageFanout + 1 := by simpa using hsize
      obtain ⟨next, split, pages, hencode, hwritten⟩ :=
        encodeOrSplit_leaf hnonzero (by simp) hlength htiled depth
      refine ⟨next, split, pages, ?_, hwritten⟩
      unfold appendPage
      rw [hstored.expectPage]
      exact hencode
    obtain ⟨hne, _, -, -⟩ := validatePage_branch_eq_ok.mp hstored.valid
    obtain ⟨_, part, before, hlast, rfl, hlastHolds, hbefore⟩ := forall₂_snoc hparts hne
    have hflatten : (before ++ [part]).flatten ++ [reference] =
        before.flatten ++ (part ++ [reference]) := by
      simp
    rw [hflatten] at htiled ⊢
    obtain ⟨next, split, below, hbelow, hencoded, tail, htail, htailDescribes, htailHolds⟩ :=
      ih hlastHolds htiled.of_append.2
    have hchildren : Forall₂ Describes (children.dropLast ++ topsOf next split) (before ++ tail) :=
      rel_append (hbefore.imp fun _ _ => describes_of_holds hnonzero) htailDescribes
    have hlength : (children.dropLast ++ topsOf next split).length ≤ queryRunPageFanout + 1 := by
      have hpositive := length_pos_of_ne_nil hne
      have hsplit : (split.map (·.summary)).toList.length ≤ 1 := by cases split <;> simp
      simp only [length_append, length_dropLast, topsOf, length_cons]
      omega
    have hall : (before ++ tail).flatten = before.flatten ++ (part ++ [reference]) := by
      rw [flatten_append, htail]
    rw [← hall] at htiled ⊢
    have hholds : ∀ load', Keeps load load' below → Forall₂ (HoldsRuns blake3 load' depth)
          (children.dropLast ++ topsOf next split) (before ++ tail) := by
      intro load' hkeeps
      exact rel_append (hbefore.imp fun _ _ => hkeeps.holdsRuns) (htailHolds load' hkeeps)
    obtain ⟨whole, right, here, hencode, hwritten⟩ :=
      encodeOrSplit_branch hnonzero (by simp [topsOf]) hlength hchildren htiled hencoded
        hholds
    refine ⟨whole, right, below ++ here, ?_, hwritten⟩
    unfold appendPage
    rw [hstored.expectPage]
    unfold topsOf at hencode
    simp only [bind, Except.bind, okOr, hlast, hbelow, hencode]
    rfl

end

section

variable {σ : Type}

/-- A fold over groups, each folded in its own order, is a fold over them all. -/
theorem foldlM_groups
    {α β : Type} {visit : σ → β → Except IndexError σ} {group : σ → α → Except IndexError σ}
    {keys : List α} {groups : List (List β)}
    (h : List.Forall₂ (fun key members => ∀ state, group state key =
    members.reverse.foldlM visit state) keys groups) (state : σ) :
    keys.reverse.foldlM group state = groups.flatten.reverse.foldlM visit state := by
  induction h generalizing state with
  | nil => rfl
  | cons hhead _ ih =>
    rw [reverse_cons, foldlM_append, ih, flatten_cons, reverse_append, foldlM_append]
    simp only [foldlM_cons, foldlM_nil, bind_pure, hhead]

/-- A walk visits the runs of a tree from the newest to the oldest. -/
theorem visitPageNewest_eq {child : QueryRunChild}
    {visit : σ → QueryRunReference → Except IndexError σ}
    (h : HoldsRuns blake3 load depth child runs) (state : σ) :
    visitPageNewest blake3 load visit depth child.hash (some child) state =
    runs.reverse.foldlM visit state := by
  induction depth generalizing child runs state with
  | zero => exact h.elim
  | succ depth ih =>
    unfold visitPageNewest
    rcases h with hstored | ⟨children, parts, hstored, hparts, rfl⟩
    · rw [hstored.expectPage]
      rfl
    rw [hstored.expectPage]
    exact foldlM_groups (hparts.imp fun _ _ hholds state => ih hholds state) state

theorem foldUntil_append
    {α : Type} {visit : σ → α → Except IndexError (σ × Bool)} (first second : List α) (state : σ) :
    foldUntil visit (first ++ second) state = (do
      let (state, stop) ← foldUntil visit first state
      if stop then pure (state, true) else foldUntil visit second state) := by
  induction first generalizing state with
  | nil => rfl
  | cons a _ ih =>
    simp only [cons_append, foldUntil]
    cases visit state a with
    | error e => rfl
    | ok result =>
      obtain ⟨next, stop⟩ := result
      cases stop with
      | true => rfl
      | false => exact ih next

theorem foldUntil_groups {α β : Type} {visit : σ → β → Except IndexError (σ × Bool)}
    {group : σ → α → Except IndexError (σ × Bool)} {keys : List α} {groups : List (List β)}
    (h : List.Forall₂ (fun key members => ∀ state, group state key =
    foldUntil visit members.reverse state) keys groups) (state : σ) :
    foldUntil group keys.reverse state = foldUntil visit groups.flatten.reverse state := by
  induction h generalizing state with
  | nil => rfl
  | @cons key _ _ _ hhead _ ih =>
    have hone : ∀ state, foldUntil group [key] state = group state key := by
      intro state
      unfold foldUntil
      rcases group state key with _ | ⟨_, _ | _⟩ <;> rfl
    rw [reverse_cons, foldUntil_append, ih, flatten_cons, reverse_append, foldUntil_append]
    simp only [hone, hhead]

/-- A walk that may end early visits the runs from the newest on. -/
theorem visitPageNewestUntil_eq {child : QueryRunChild} {visit : σ → QueryRunReference → σ × Bool}
    (h : HoldsRuns blake3 load depth child runs) (state : σ) :
    visitPageNewestUntil blake3 load visit depth child.hash (some child) state =
    foldUntil (fun state run => .ok (visit state run)) runs.reverse state := by
  induction depth generalizing child runs state with
  | zero => exact h.elim
  | succ depth ih =>
    unfold visitPageNewestUntil
    rcases h with hstored | ⟨children, parts, hstored, hparts, rfl⟩
    · rw [hstored.expectPage]
      rfl
    rw [hstored.expectPage]
    exact foldUntil_groups (hparts.imp fun _ _ hholds state => ih hholds state) state

/-- A visited run ends the window before it, or is the newest part of one. -/
theorem Selection.visit_cases
    (limits : QueryRunCompactionLimits) (self : Selection) (reference : QueryRunReference) :
    (∃ level candidate, self.visit limits reference = (⟨level, candidate, self.selected⟩, false) ∧
    (candidate = self.candidate ++ [reference] ∨ candidate = [reference])) ∨
    ∃ level, self.visit limits reference = (⟨level, [], some self.candidate⟩, true) := by
  unfold Selection.visit
  split
  · split
    · exact .inl ⟨_, _, rfl, .inl rfl⟩
    · exact .inr ⟨_, rfl⟩
  split
  · exact .inr ⟨_, rfl⟩
  · exact .inl ⟨_, _, rfl, .inr rfl⟩

/-- The collected window consists of runs visited one after the other. -/
theorem inputs_isInfix {stop : Bool} {limits : QueryRunCompactionLimits} {before after : Selection}
    {seen inputs : List QueryRunReference} (hnone : before.selected = none)
    (hseen : before.candidate <:+ seen)
    (h : foldUntil (fun state run => .ok (Selection.visit limits state run))
    runs before = .ok (after, stop)) (hinputs : after.inputs limits = some inputs) :
    inputs <:+: seen ++ runs := by
  induction runs generalizing before seen with
  | nil =>
    cases h
    rw [append_nil]
    simp only [Selection.inputs, hnone] at hinputs
    split at hinputs
    · cases hinputs
      exact hseen.isInfix
    · cases hinputs
  | cons run rest ih =>
    rw [foldUntil] at h
    rcases before.visit_cases limits run with
      ⟨level, candidate, hvisit, hcandidate⟩ | ⟨level, hvisit⟩
    · rw [hvisit] at h
      have hsuffix : candidate <:+ seen ++ [run] := by
        rcases hcandidate with rfl | rfl
        · obtain ⟨front, rfl⟩ := hseen
          exact ⟨front, by simp⟩
        · exact suffix_append seen [run]
      have hrest := @ih ⟨level, candidate, before.selected⟩ (seen ++ [run]) hnone hsuffix h
      rwa [append_assoc] at hrest
    -- the window ends before this run
    rw [hvisit] at h
    cases h
    cases hinputs
    exact hseen.isInfix.trans (prefix_append seen (run :: rest)).isInfix

end

section

variable (blake3 : ContentHash) (load : PageLoader)

/-- What a splice makes of one run. -/
def replaceRun (selected : OrdMap UInt64 QueryRunReference) (output reference : QueryRunReference) :
    Option QueryRunReference :=
  if selected.contains reference.sequence then
    if reference.sequence = output.sequence then some output else none
  else
    some reference

/-- Pages that hold the given runs once they are stored. -/
def Rewritten (depth : Nat) (runs : List QueryRunReference) (tops : List QueryRunChild)
    (pages : List EncodedQueryRunPage) : Prop :=
  AllEncoded blake3 pages ∧ ∃ parts, parts.flatten = runs ∧ parts.length = tops.length ∧
    ∀ load', Keeps load load' pages → List.Forall₂ (HoldsRuns blake3 load' depth) tops parts

variable {blake3 load}

theorem spliceRuns_eq_ok {selected : OrdMap UInt64 QueryRunReference} {output : QueryRunReference}
    {matched matched' : Nat} {next : List QueryRunReference}
    (h : spliceRuns selected output runs matched = .ok (next, matched')) :
    next = runs.filterMap (replaceRun selected output) := by
  induction runs generalizing next matched with
  | nil =>
    cases h
    rfl
  | cons reference _ ih =>
    rw [spliceRuns] at h
    cases hget : selected.get? reference.sequence with
    | none =>
      have hreplace : replaceRun selected output reference = some reference := by
        simp [replaceRun, OrdMap.contains, hget]
      simp only [hget, ok_rules] at h
      obtain ⟨⟨_, _⟩, hrest, rfl, rfl⟩ := h
      rw [filterMap_cons_some hreplace, ih hrest]
    | some =>
      simp only [hget] at h
      split at h
      · simp only [ok_rules] at h
        obtain ⟨_, -, ⟨_, _⟩, hrest, rfl, rfl⟩ := h
        rw [ih hrest]
        by_cases hlast : reference.sequence = output.sequence
        · have hreplace : replaceRun selected output reference = some output := by
            rw [hlast] at hget
            simp [replaceRun, OrdMap.contains, hget, hlast]
          rw [filterMap_cons_some hreplace, if_pos hlast]
        have hreplace : replaceRun selected output reference = none := by
          simp [replaceRun, OrdMap.contains, hget, hlast]
        rw [filterMap_cons_none hreplace, if_neg hlast]
      · cases h

theorem encodeRest_eq_ok {α : Type} {page : List α → QueryRunPage} {next : List α}
    {encoded : Option EncodedQueryRunPage} (h : encodeRest blake3 page next = .ok encoded) :
    (next = [] ∧ encoded = none) ∨
    ∃ top, encodePage blake3 (page next) = .ok top ∧ encoded = some top := by
  unfold encodeRest at h
  split at h
  · rename_i hempty
    cases h
    exact .inl ⟨List.isEmpty_iff.mp hempty, rfl⟩
  simp only [ok_rules] at h
  obtain ⟨top, htop, rfl⟩ := h
  exact .inr ⟨top, htop, rfl⟩

/-- The runs of a described stretch have sequences in its range. -/
theorem Describes.sequence_mem {child : QueryRunChild} {r : QueryRunReference}
    (h : Describes child runs) (htiled : Tiled runs) (hr : r ∈ runs) :
    child.firstSequence ≤ r.sequence ∧ r.sequence ≤ child.lastSequence := by
  obtain ⟨first, hfirst, hfirstSeq, -⟩ := h.first
  obtain ⟨last, hlast, hlastSeq, -⟩ := h.last
  obtain ⟨before, after, rfl⟩ := append_of_mem hr
  have hleft : Tiled (before ++ [r]) := by
    have hshape : Tiled ((before ++ [r]) ++ after) := by simpa using htiled
    exact hshape.of_append.1
  rw [hfirstSeq, hlastSeq]
  constructor
  · have hhead : (before ++ [r]).head? = some first := by
      cases before with
      | nil => simpa using hfirst
      | cons a => simpa using hfirst
    exact (hleft.head_le_last hhead (by simp)).1
  have hend : (r :: after).getLast? = some last := by
    rwa [getLast?_append_of_ne_nil _ (by simp)] at hlast
  exact (htiled.of_append.2.head_le_last (by simp) hend).1

/-- A child without a selected sequence in its range is left as it is. -/
theorem filterMap_replaceRun_of_not_selected {child : QueryRunChild}
    {selected : OrdMap UInt64 QueryRunReference} {output : QueryRunReference}
    (h : Describes child runs) (htiled : Tiled runs)
    (hnone : selectedWithin selected child = false) :
    runs.filterMap (replaceRun selected output) = runs := by
  have hkeep : ∀ r ∈ runs, replaceRun selected output r = some r := by
    intro r hr
    obtain ⟨hlow, hhigh⟩ := h.sequence_mem htiled hr
    have hfree : selected.contains r.sequence = false := by
      by_contra hcontains
      rw [Bool.not_eq_false, OrdMap.contains_iff, ← OrdMap.mem_keys_iff] at hcontains
      have hany : selectedWithin selected child = true :=
        any_eq_true.mpr ⟨r.sequence, hcontains, by simpa using ⟨hlow, hhigh⟩⟩
      rw [hnone] at hany
      exact absurd hany (by simp)
    simp [replaceRun, hfree]
  calc runs.filterMap (replaceRun selected output)
    = runs.filterMap some := filterMap_congr hkeep
    _ = runs := filterMap_some

theorem rewritten_children {children : List QueryRunChild}
    {rewrite : QueryRunChild → Nat → Except IndexError Spliced}
    {selected : OrdMap UInt64 QueryRunReference} {output : QueryRunReference}
    {done : List QueryRunReference}
    (hnonzero : NonzeroDigests blake3) {before after : SplicedChildren}
    (hparts : List.Forall₂ (HoldsRuns blake3 load depth) children parts)
    (htiled : Tiled parts.flatten)
    (hrewrite : ∀ child runs matched spliced, HoldsRuns blake3 load depth child runs → Tiled runs →
    rewrite child matched = .ok spliced →
    Rewritten blake3 load depth (runs.filterMap (replaceRun selected output))
    (spliced.page.map (·.summary)).toList spliced.pages)
    (hbefore : Rewritten blake3 load depth done before.next before.pages)
    (h : children.foldlM (spliceChildren rewrite selected) before = .ok after) :
    Rewritten blake3 load depth (done ++ parts.flatten.filterMap (replaceRun selected output))
    after.next after.pages := by
  induction hparts generalizing done before with
  | nil =>
    cases h
    simpa using hbefore
  | @cons child runs children parts hhead _ ih =>
    simp only [foldlM_cons, bind_eq_ok] at h
    obtain ⟨middle, hmiddle, hrest⟩ := h
    have hnext : Rewritten blake3 load depth (done ++ runs.filterMap (replaceRun selected output))
        middle.next middle.pages := by
      obtain ⟨hencoded, tops, htops, hlength, hdone⟩ := hbefore
      unfold spliceChildren at hmiddle
      split at hmiddle
      · simp only [ok_rules] at hmiddle
        obtain ⟨spliced, hspliced, rfl⟩ := hmiddle
        obtain ⟨hencoded', tops', htops', hlength', hhere⟩ :=
          hrewrite child runs before.matched spliced hhead htiled.of_append.1 hspliced
        refine ⟨hencoded.append hencoded', tops ++ tops', ?_, by simp [hlength, hlength'], ?_⟩
        · rw [flatten_append, htops, htops']
        intro load' hkeeps
        obtain ⟨hold, hnew⟩ := hkeeps.of_append
        exact rel_append (hdone load' hold) (hhere load' hnew)
      rename_i hnone
      rw [pure_eq_ok] at hmiddle
      subst hmiddle
      rw [Bool.not_eq_true] at hnone
      rw [filterMap_replaceRun_of_not_selected (describes_of_holds hnonzero hhead)
        htiled.of_append.1 hnone]
      refine ⟨hencoded, tops ++ [runs], ?_, by simp [hlength], ?_⟩
      · simp [htops]
      intro load' hkeeps
      exact rel_append (hdone load' hkeeps) (Forall₂.cons (hkeeps.holdsRuns hhead) Forall₂.nil)
    have hall := ih htiled.of_append.2 hnext hrest
    rwa [append_assoc, ← filterMap_append, ← flatten_cons] at hall

/-- A splice rewrites the runs of a tree one by one. -/
theorem spliceSubtree_eq_ok {child : QueryRunChild} {selected : OrdMap UInt64 QueryRunReference}
    {output : QueryRunReference} {matched : Nat}
    (hnonzero : NonzeroDigests blake3) {spliced : Spliced}
    (hholds : HoldsRuns blake3 load depth child runs) (htiled : Tiled runs)
    (h : spliceSubtree blake3 load selected output depth child.hash (some child)
    matched = .ok spliced) :
    Rewritten blake3 load depth (runs.filterMap (replaceRun selected output))
    (spliced.page.map (·.summary)).toList spliced.pages := by
  induction depth generalizing child runs matched spliced with
  | zero => exact hholds.elim
  | succ depth ih =>
    unfold spliceSubtree at h
    rcases hholds with hstored | ⟨_, _, hstored, hparts, rfl⟩
    · rw [hstored.expectPage] at h
      obtain ⟨_, hpage, h⟩ := bind_eq_ok.mp h
      cases hpage
      simp only [ok_rules] at h
      obtain ⟨⟨next, _⟩, hruns, _, hencode, rfl⟩ := h
      have hnext := spliceRuns_eq_ok hruns
      rcases encodeRest_eq_ok hencode with ⟨hempty, rfl⟩ | ⟨top, htop, rfl⟩
      · refine ⟨allEncoded_nil, [], ?_, rfl, fun load' _ => Forall₂.nil⟩
        rw [← hnext]
        exact hempty.symm
      refine ⟨AllEncoded.cons htop allEncoded_nil, [next], by simp [hnext], rfl, ?_⟩
      intro _ hkeeps
      exact Forall₂.cons (holdsRuns_leaf htop (hkeeps.new top (by simp)) depth) Forall₂.nil
    rw [hstored.expectPage] at h
    obtain ⟨_, hpage, h⟩ := bind_eq_ok.mp h
    cases hpage
    simp only [ok_rules] at h
    obtain ⟨_, hfold, _, hencode, rfl⟩ := h
    have hstart : Rewritten blake3 load depth [] [] [] :=
      ⟨allEncoded_nil, [], rfl, rfl, fun _ _ => Forall₂.nil⟩
    obtain ⟨hencoded, tops, htops, hlength, hbelow⟩ := rewritten_children hnonzero hparts htiled
      (fun _ _ _ _ hholds htiled hsplice => ih hholds htiled hsplice) hstart hfold
    rcases encodeRest_eq_ok hencode with ⟨hempty, rfl⟩ | ⟨top, htop, rfl⟩
    · rw [hempty, length_nil, length_eq_zero_iff] at hlength
      subst hlength
      exact ⟨by simpa using hencoded, [], htops, rfl, fun load' _ => Forall₂.nil⟩
    refine ⟨hencoded.append (AllEncoded.cons htop allEncoded_nil),
      [tops.flatten], by simp [htops], rfl, ?_⟩
    intro load' hkeeps
    obtain ⟨hold, hnew⟩ := hkeeps.of_append
    exact Forall₂.cons (holdsRuns_branch htop (hnew.new top (by simp)) (hbelow load' hold))
      Forall₂.nil

end

end Keldra.Index
