import Keldra.Store.Model

/-!
# Barriers of derived consumers

A barrier is a vector of source offsets together with the watermark of the
finalized programs.  The index writer, the freshness capture and the accounting
worker move from one barrier to a later one through the pages of the sources; the
watermark moves with the page that completes the vector.

A program that writes nothing appends no record.  It moves the watermark alone,
and the reader then refuses the later barrier: no source is behind, and the
barriers differ.
-/

namespace Keldra.Index

open Foundation Store OrdMap

/-- The globally replicated publication watermark of atomic programs. -/
structure AtomicProgramWatermark where
  lastCommitCursor : Option Nat
  finalizedThrough : Option Nat
  unfinalizedCommits : Nat
deriving DecidableEq

def AtomicProgramWatermark.isClear (watermark : AtomicProgramWatermark) : Bool :=
  watermark.unfinalizedCommits = 0 ∧ watermark.lastCommitCursor = watermark.finalizedThrough

/-- No cursor is below every cursor. -/
def AtomicProgramWatermark.covers (watermark captured : AtomicProgramWatermark) : Bool :=
  captured.isClear ∧ captured.finalizedThrough.all fun cursor =>
    watermark.finalizedThrough.any fun through => cursor ≤ through

structure IndexSourceCursor where
  source : SourceId
  /-- the first offset of the source that the checkpoint does not represent -/
  nextOffset : Nat
deriving DecidableEq

structure IndexBarrier where
  fence : PlacementLogId
  atomic : AtomicProgramWatermark
  sources : OrdMap Nat IndexSourceCursor
deriving DecidableEq

/-- The active sources by node, and the authority of the moment. -/
structure IndexEventPlacement where
  fence : PlacementLogId
  atomic : AtomicProgramWatermark
  sources : OrdMap Nat SourceId

inductive IndexEventError where
  | checkpointMismatch (node : Nat)
  | barrierChanged
  | incompleteSources
  | nonContiguousSource (node : Nat)
  | sourceEpochChanged (node : Nat)
deriving DecidableEq

def IndexBarrier.nextOffset (barrier : IndexBarrier) (node : Nat) : Nat :=
  (barrier.sources.get? node).elim 0 IndexSourceCursor.nextOffset

section

variable (placement : IndexEventPlacement) (start target : IndexBarrier)

def requireCompatible : Except IndexEventError Unit := do
  rejectIf (start.fence ≠ target.fence ∨ target.fence ≠ placement.fence) (.checkpointMismatch 0)
  rejectIf (¬ placement.atomic.covers target.atomic) .barrierChanged
  rejectIf (start.sources.keys ≠ placement.sources.keys ∨
      target.sources.keys ≠ placement.sources.keys ∨
      ∃ e ∈ start.sources.entries,
        (target.sources.get? e.1).map IndexSourceCursor.source ≠ some e.2.source ∨
          target.nextOffset e.1 < e.2.nextOffset)
    .incompleteSources

variable (read : Nat → Nat → Nat → Except IndexEventError Nat)

/-- The barrier behind the next page.  `read` stands for a source's page after an
offset and up to another, with every check of its content and of the source's
status: it gives the last offset that the page covers. -/
def nextPage : Except IndexEventError (Option IndexBarrier) := do
  requireCompatible placement start target
  match placement.sources.keys.find? fun node => start.nextOffset node < target.nextOffset node with
  | none =>
    rejectIf (start ≠ target) .incompleteSources
    return none
  | some node =>
    let cursor ← okOr (start.sources.get? node) .incompleteSources
    rejectIf (cursor.nextOffset = 0) (.checkpointMismatch node)
    let after := cursor.nextOffset - 1
    let targetOffset := target.nextOffset node - 1
    let through ← read node after targetOffset
    rejectIf (through < after ∨ targetOffset < through ∨ through = after ∧ after < targetOffset)
      (.nonContiguousSource node)
    let sources := start.sources.insert node { cursor with nextOffset := through + 1 }
    -- the complete vector, not a page of one source, crosses the watermark
    let complete := ∀ e ∈ sources.entries, e.2.nextOffset = target.nextOffset e.1
    return some { start with sources, atomic := if complete then target.atomic else start.atomic }

/-- A consumer takes pages until there is none, at most as many as given. -/
def advanceThrough : Nat → IndexBarrier → Except IndexEventError IndexBarrier
  | 0, through => .ok through
  | pages + 1, through => do
    match ← nextPage placement through target read with
    | none => return through
    | some next => advanceThrough pages next

end

/-- An ordinary write, or a finalized program with the sources of its path
mutations, its publisher and the number of its aliases. -/
inductive SourceEvent where
  | write (node : Nat)
  | program (commitCursor : Nat) (mutations : List Nat) (publisher aliases : Nat)

structure SourceJournals where
  tails : Nat → Nat
  finalizedThrough : Option Nat

/-- A program with nothing to publish appends no record. -/
def SourceJournals.record (journals : SourceJournals) : SourceEvent → SourceJournals
  | .write node => { journals with
      tails := Function.update journals.tails node (journals.tails node + 1) }
  | .program commitCursor mutations publisher aliases =>
    let published := if mutations = [] ∧ aliases = 0 then 0 else aliases + 1
    { tails := fun node => journals.tails node + mutations.count node +
        if node = publisher then published else 0
      finalizedThrough := some commitCursor }

def SourceJournals.run (journals : SourceJournals) (events : List SourceEvent) : SourceJournals :=
  events.foldl SourceJournals.record journals

/-- The barrier of a moment at which no program is in progress. -/
def captureBarrier (placement : IndexEventPlacement) (journals : SourceJournals) : IndexBarrier :=
  { fence := placement.fence
    atomic := ⟨journals.finalizedThrough, journals.finalizedThrough, 0⟩
    sources := placement.sources.mapValues fun source =>
      ⟨source, journals.tails source.nodeId + 1⟩ }

variable {placement : IndexEventPlacement} {through target : IndexBarrier}
  {journals : SourceJournals} {events : List SourceEvent}
  {read : Nat → Nat → Nat → Except IndexEventError Nat}

/-- A barrier on the way to a later one of the same sources; the watermark is the
later one's as soon as the offsets are. -/
structure Trails (placement : IndexEventPlacement) (through target : IndexBarrier) : Prop where
  fence : through.fence = target.fence ∧ target.fence = placement.fence
  covered : placement.atomic.covers target.atomic
  sources : through.sources.mapValues IndexSourceCursor.source = placement.sources ∧
    target.sources.mapValues IndexSourceCursor.source = placement.sources
  started : ∀ node cursor, through.sources.get? node = some cursor → 0 < cursor.nextOffset
  offsets : ∀ node, through.nextOffset node ≤ target.nextOffset node
  watermark : (∀ node, through.nextOffset node = target.nextOffset node) →
    through.atomic = target.atomic

theorem keys_mapValues (sources : OrdMap Nat IndexSourceCursor) :
    (sources.mapValues IndexSourceCursor.source).keys = sources.keys := by
  simp [keys, mapValues]

/-- The barrier has a cursor for every source and no other. -/
theorem get?_of_sources {barrier : IndexBarrier}
    (h : barrier.sources.mapValues IndexSourceCursor.source = placement.sources) (node : Nat) :
    (barrier.sources.get? node).map IndexSourceCursor.source = placement.sources.get? node := by
  rw [← h, get?_mapValues]

theorem Trails.compatible (h : Trails placement through target) :
    requireCompatible placement through target = .ok () := by
  simp only [requireCompatible, ok_rules, not_or, not_not, not_exists, not_and, not_lt]
  refine ⟨h.fence, h.covered, ?_, ?_, ?_⟩
  · rw [← h.sources.1, keys_mapValues]
  · rw [← h.sources.2, keys_mapValues]
  intro e he
  have hget := get?_of_mem he
  constructor
  · rw [get?_of_sources h.sources.2, ← get?_of_sources h.sources.1, hget]
    rfl
  have hle := h.offsets e.1
  rwa [IndexBarrier.nextOffset, hget] at hle

/-- Barriers of the same sources with the same offsets have the same vector. -/
theorem Trails.eq_target (h : Trails placement through target)
    (hoffsets : ∀ node, through.nextOffset node = target.nextOffset node) : through = target := by
  have hsources : through.sources = target.sources := by
    refine ext_get? fun node => ?_
    have hnode := hoffsets node
    have hsource := (get?_of_sources h.sources.1 node).trans (get?_of_sources h.sources.2 node).symm
    simp only [IndexBarrier.nextOffset] at hnode
    cases hthrough : through.sources.get? node with
    | none => simpa [hthrough, eq_comm] using hsource
    | some cursor =>
      cases htarget : target.sources.get? node with
      | none => simp [hthrough, htarget] at hsource
      | some goal =>
        cases cursor
        cases goal
        simp_all
  have hwatermark := h.watermark hoffsets
  have hfence := h.fence.1
  cases through
  cases target
  simp_all

/-- What is left to read. -/
def remaining (placement : IndexEventPlacement) (through target : IndexBarrier) : Nat :=
  (placement.sources.keys.map fun node => target.nextOffset node - through.nextOffset node).sum

/-- Every page of a source that is behind is read, and covers something. -/
def Progresses (read : Nat → Nat → Nat → Except IndexEventError Nat) : Prop :=
  ∀ node after last, after < last → ∃ covered, read node after last = .ok covered ∧
    after < covered ∧ covered ≤ last

theorem Trails.nextPage (h : Trails placement through target) (hread : Progresses read) :
    (through = target ∧ nextPage placement through target read = .ok none) ∨
      ∃ next, nextPage placement through target read = .ok (some next) ∧
        Trails placement next target ∧
          remaining placement next target < remaining placement through target := by
  cases hfind : placement.sources.keys.find? fun node =>
      through.nextOffset node < target.nextOffset node with
  | none =>
    have hsame : through = target := by
      refine h.eq_target fun node => ?_
      by_cases hnode : node ∈ placement.sources.keys
      · have hbehind := List.find?_eq_none.mp hfind node hnode
        exact (h.offsets node).antisymm (not_lt.mp (by simpa using hbehind))
      rw [mem_keys_iff, not_exists] at hnode
      have hnone := Option.eq_none_iff_forall_ne_some.mpr hnode
      have hthrough := (get?_of_sources h.sources.1 node).trans hnone
      have htarget := (get?_of_sources h.sources.2 node).trans hnone
      rw [Option.map_eq_none_iff] at hthrough htarget
      rw [IndexBarrier.nextOffset, IndexBarrier.nextOffset, hthrough, htarget]
    refine .inl ⟨hsame, ?_⟩
    simp only [Index.nextPage, hfind, ok_rules, not_not]
    exact ⟨h.compatible, hsame, trivial⟩
  | some node =>
    right
    have hbehind : through.nextOffset node < target.nextOffset node := by
      simpa using List.find?_some hfind
    obtain ⟨cursor, hcursor⟩ : ∃ cursor, through.sources.get? node = some cursor := by
      obtain ⟨_, hsource⟩ := (mem_keys_iff _ _).mp (List.mem_of_find?_eq_some hfind)
      rw [← get?_of_sources h.sources.1, Option.map_eq_some_iff] at hsource
      exact hsource.imp fun _ hget => hget.1
    have hstarted := h.started node cursor hcursor
    have hoffset : through.nextOffset node = cursor.nextOffset := by
      rw [IndexBarrier.nextOffset, hcursor]
      rfl
    rw [hoffset] at hbehind
    obtain ⟨covered, hcovered, hafter, hlast⟩ :=
      hread node (cursor.nextOffset - 1) (target.nextOffset node - 1) (by omega)
    let sources := through.sources.insert node { cursor with nextOffset := covered + 1 }
    have hget : ∀ other, sources.get? other = if other = node then
        some { cursor with nextOffset := covered + 1 } else through.sources.get? other :=
      fun other => get?_insert ..
    obtain ⟨atomic, hpage, hatomic⟩ : ∃ atomic, Index.nextPage placement through target read =
        .ok (some ⟨through.fence, atomic, sources⟩) ∧
          ((∀ e ∈ sources.entries, e.2.nextOffset = target.nextOffset e.1) →
            atomic = target.atomic) := by
      simp only [Index.nextPage, hfind, ok_rules, Option.some.injEq]
      exact ⟨_, ⟨h.compatible, cursor, hcursor, hstarted.ne', covered, hcovered, by omega, rfl⟩,
        fun hcomplete => if_pos hcomplete⟩
    have hnext : ∀ other, IndexBarrier.nextOffset ⟨through.fence, atomic, sources⟩ other =
        if other = node then covered + 1 else through.nextOffset other := by
      intro other
      rw [IndexBarrier.nextOffset, hget]
      split <;> rfl
    refine ⟨_, hpage, ⟨h.fence, h.covered, ⟨?_, h.sources.2⟩, ?_, ?_, ?_⟩, ?_⟩
    · refine ext_get? fun other => ?_
      rw [get?_mapValues, hget, ← get?_of_sources h.sources.1]
      split
      · rename_i hother
        rw [hother, hcursor]
        rfl
      · rfl
    · intro other found hfound
      rw [hget] at hfound
      split at hfound
      · cases hfound
        exact Nat.succ_pos covered
      · exact h.started other found hfound
    · intro other
      rw [hnext]
      split
      · rename_i hother
        rw [hother]
        omega
      · exact h.offsets other
    · intro hoffsets
      refine hatomic fun e he => ?_
      rw [← hoffsets e.1, IndexBarrier.nextOffset, get?_of_mem he]
      rfl
    refine List.sum_lt_sum _ _ (fun other _ => ?_) ⟨node, List.mem_of_find?_eq_some hfind, ?_⟩
    all_goals
      rw [hnext]
      split_ifs with hother
      all_goals
        try rw [hother]
        omega

theorem Trails.advanceThrough {pages : Nat} (h : Trails placement through target) (hread : Progresses read)
    (hpages : remaining placement through target < pages) :
    advanceThrough placement target read pages through = .ok target := by
  induction pages generalizing through with
  | zero => cases hpages
  | succ _ ih =>
    simp only [advanceThrough, bind, Except.bind]
    rcases h.nextPage hread with ⟨rfl, hpage⟩ | ⟨next, hpage, hnext, hless⟩
    · rw [hpage]
      rfl
    rw [hpage]
    exact ih hnext (by omega)

/-- A write, or a program that publishes something at an active source. -/
def SourceEvent.Appends (placement : IndexEventPlacement) : SourceEvent → Prop
  | .write _ => True
  | .program _ mutations publisher aliases => (mutations ≠ [] ∨ aliases ≠ 0) ∧
    ∃ node source, placement.sources.get? node = some source ∧ source.nodeId = publisher

/-- No source goes back, and the watermark does not move without one. -/
theorem record_moves (journals : SourceJournals) (h : ∀ event ∈ events, event.Appends placement) :
    (∀ node, journals.tails node ≤ (journals.run events).tails node) ∧
      ((journals.run events).finalizedThrough = journals.finalizedThrough ∨
        ∃ node source, placement.sources.get? node = some source ∧
          journals.tails source.nodeId <
            (journals.run events).tails source.nodeId) := by
  induction events generalizing journals with
  | nil => exact ⟨fun _ => le_rfl, .inl rfl⟩
  | cons event rest ih =>
    obtain ⟨hevent, hrest⟩ := List.forall_mem_cons.mp h
    obtain ⟨hgrow, hmove⟩ := ih (journals.record event) hrest
    change (∀ node, _ ≤ ((journals.record event).run rest).tails node) ∧ (_ ∨ _)
    cases event with
    | write written =>
      have hle : ∀ node, journals.tails node ≤ (journals.record (.write written)).tails node := by
        intro node
        by_cases hnode : node = written <;> simp [SourceJournals.record, hnode]
      refine ⟨fun node => (hle node).trans (hgrow node), hmove.imp_right ?_⟩
      rintro ⟨node, source, hget, hlt⟩
      exact ⟨node, source, hget, (hle _).trans_lt hlt⟩
    | program commitCursor mutations publisher aliases =>
      have hle : ∀ node, journals.tails node ≤
          (journals.record (.program commitCursor mutations publisher aliases)).tails node := by
        intro node
        simp only [SourceJournals.record]
        omega
      obtain ⟨hpublished, node, source, hget, rfl⟩ := hevent
      refine ⟨fun node => (hle node).trans (hgrow node), .inr ⟨node, source, hget, ?_⟩⟩
      refine lt_of_lt_of_le ?_ (hgrow _)
      simp only [SourceJournals.record, if_true]
      split_ifs with hnothing
      · rcases hpublished with hsome | hsome
        · exact absurd hnothing.1 hsome
        · exact absurd hnothing.2 hsome
      · omega

theorem trails_captureBarrier (h : ∀ event ∈ events, event.Appends placement)
    (hcovered : placement.atomic.covers
      (captureBarrier placement (journals.run events)).atomic) :
    Trails placement (captureBarrier placement journals)
      (captureBarrier placement (journals.run events)) := by
  obtain ⟨hgrow, hmove⟩ := record_moves journals h
  have hget : ∀ journals node, (captureBarrier placement journals).sources.get? node =
      (placement.sources.get? node).map fun source =>
        ⟨source, journals.tails source.nodeId + 1⟩ := fun _ _ => get?_mapValues ..
  refine ⟨⟨rfl, rfl⟩, hcovered, ⟨?_, ?_⟩, ?_, ?_, ?_⟩
  any_goals
    refine ext_get? fun node => ?_
    rw [get?_mapValues, hget]
    cases placement.sources.get? node <;> rfl
  · intro node cursor hcursor
    rw [hget] at hcursor
    obtain ⟨_, _, rfl⟩ := Option.map_eq_some_iff.mp hcursor
    exact Nat.succ_pos _
  · intro node
    simp only [IndexBarrier.nextOffset, hget]
    cases placement.sources.get? node with
    | none => exact le_rfl
    | some source => exact Nat.succ_le_succ (hgrow source.nodeId)
  · intro hoffsets
    rcases hmove with hsame | ⟨node, source, hsource, hlt⟩
    · simp only [captureBarrier, hsame]
    have hnode := hoffsets node
    simp only [IndexBarrier.nextOffset, hget, hsource, Option.map_some, Option.elim_some] at hnode
    omega

/-- One active source, at a time when the program with cursor 5 is finalized. -/
def oneSource : IndexEventPlacement :=
  ⟨⟨1, 1⟩, ⟨some 5, some 5, 0⟩, OrdMap.empty.insert 1 ⟨1, 7⟩⟩

def emptyJournals : SourceJournals :=
  ⟨fun _ => 0, none⟩

end Keldra.Index
