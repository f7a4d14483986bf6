import Keldra.Index.QueryStreamRuns

/-!
# What readers of the query-run stream see

A walk over the stream visits runs whose source intervals tile the interval of
the root, whatever appends and compactions built it.
-/

namespace Keldra.Index

open Foundation

section

variable {runs : List QueryRunReference} {root : ProjectionQueryStreamRoot}

/-- Runs listed newest first that tile the source interval of a root. -/
structure TilesLog
    (root : ProjectionQueryStreamRoot) (visited : List QueryRunReference) : Prop where
  sequences : visited.Pairwise fun newer older => older.sequence < newer.sequence
  disjoint : visited.Pairwise fun newer older => older.nextOffset ≤ newer.sourceStartOffset
  covers : ∀ offset, (∃ r ∈ visited, r.sourceStartOffset ≤ offset ∧ offset < r.nextOffset) ↔
    root.sourceStartOffset ≤ offset ∧ offset < root.nextOffset
  atomic : visited.Pairwise fun newer older =>
    older.throughAtomicPosition ≤ newer.throughAtomicPosition
  runCount : root.runCount.toNat = visited.length
  newest : ∀ r, visited.head? = some r → root.lastSequence = r.sequence ∧
    root.nextOffset = r.nextOffset ∧
    root.throughAtomicPosition = r.throughAtomicPosition
  oldest : ∀ r, visited.getLast? = some r → root.firstSequence = r.sequence ∧
    root.sourceStartOffset = r.sourceStartOffset

variable {blake3 : ContentHash}

/-- The root over a tree describes exactly the runs of the tree. -/
theorem tilesLog_rootOf {child : QueryRunChild}
    (h : Describes child runs) (htiled : Tiled runs) :
    TilesLog (rootOf child) runs.reverse := by
  obtain ⟨_, hfirst, hfirstSeq, hstart⟩ := h.first
  obtain ⟨_, hlast, hlastSeq, hnext, hatomic⟩ := h.last
  refine ⟨List.pairwise_reverse.mpr htiled.pairwise_sequence, List.pairwise_reverse.mpr
    htiled.pairwise_offsets, ?_, List.pairwise_reverse.mpr htiled.pairwise_atomic, ?_, ?_, ?_⟩
  · intro offset
    simp [htiled.covers hfirst hlast offset, rootOf, hstart, hnext]
  · rw [List.length_reverse]
    exact h.runCount
  · intro r hr
    rw [List.head?_reverse, hlast, Option.some.injEq] at hr
    subst hr
    exact ⟨hlastSeq, hnext, hatomic⟩
  intro r hr
  rw [List.getLast?_reverse, hfirst, Option.some.injEq] at hr
  subst hr
  exact ⟨hfirstSeq, hstart⟩

/-- A root without runs covers nothing. -/
theorem tilesLog_empty (hcount : root.runCount = 0)
    (h : root.validateAt root.nextOffset root.throughAtomicPosition = .ok ()) :
    TilesLog root [] := by
  have hstart : root.sourceStartOffset = root.nextOffset := by
    by_contra hne
    unfold ProjectionQueryStreamRoot.validateAt at h
    rw [rejectIf_eq_ok] at h
    exact h (.inr (.inr (.inr (.inl ⟨hcount, .inr (.inr (.inr hne))⟩))))
  refine ⟨List.Pairwise.nil, List.Pairwise.nil, ?_, List.Pairwise.nil, by simp [hcount],
    by simp, by simp⟩
  intro _
  rw [hstart]
  constructor
  · rintro ⟨r, hr, -⟩
    cases hr
  rintro ⟨hlow, hhigh⟩
  exact absurd hhigh (not_lt.mpr hlow)

theorem StreamInv.tilesLog {s : QueryStreamState}
    (hnonzero : NonzeroDigests blake3)
    (h : StreamInv blake3 s runs) (hroot : s.root = some root) : TilesLog root runs.reverse := by
  cases h.shows with
  | fresh hnone =>
    rw [hnone] at hroot
    cases hroot
  | empty hempty hcount hvalid =>
    obtain rfl := Option.mem_unique hempty hroot
    exact tilesLog_empty hcount hvalid
  | pages hpages hholds =>
    obtain rfl := Option.mem_unique hpages hroot
    exact tilesLog_rootOf (describes_of_holds hnonzero hholds) h.tiled

end

/-- In every state a stream can reach by appends and compactions, a walk from its
root visits runs that tile the source interval of the root and that the root
describes exactly; all its pages are within the fanout and read back; a splice
replaces the window of its plan by the merged run and nothing else; and the next
run is accepted and becomes the newest one. -/
theorem query_stream_tiles_source_log (blake3 : ContentHash) (hnonzero : NonzeroDigests blake3)
    (start : Option ProjectionQueryStreamRoot) (hstart : Opens blake3 start)
    (actions : List QueryStreamAction) (s : QueryStreamState)
    (hrun : s = QueryStreamState.run blake3 start actions) (hfree : CollisionFree blake3 s.pages) :
    ∃ visited, (∀ depth, s.pages.length ≤ depth → s.visited blake3 depth = .ok visited) ∧
    (∀ root, s.root = some root → TilesLog root visited) ∧
    (∀ bytes ∈ s.pages, ∃ page, decodeQueryRunPage bytes = .ok page ∧
    page.size ≤ queryRunPageFanout) ∧
    (∀ plan output prepared, s.splice blake3 plan output = .ok prepared →
    CollisionFree blake3 (s.install prepared).pages →
    ∃ newer older, visited = newer ++ plan.inputsNewestFirst ++ older ∧
    plan.inputsNewestFirst.head?.map (·.sequence) = some output.sequence ∧
    ∀ depth, (s.install prepared).pages.length ≤ depth →
    (s.install prepared).visited blake3 depth = .ok (newer ++ [output] ++ older)) ∧
    (∀ partition catalog reference, partition.validate = .ok () → catalog ≠ 0 →
    reference.Valid → reference.level = 0 → NextRun s.root reference →
    ∃ prepared, s.append blake3 partition catalog reference = .ok prepared ∧
    (CollisionFree blake3 (s.install prepared).pages →
    ∀ depth, (s.install prepared).pages.length ≤ depth →
    (s.install prepared).visited blake3 depth = .ok (reference :: visited))) := by
  subst hrun
  obtain ⟨runs, hinv⟩ := streamInv_run hnonzero hstart actions hfree
  refine ⟨runs.reverse, ?_, ?_, ?_, ?_, ?_⟩
  · intro _ hdepth
    exact hinv.shows.visited hnonzero hinv.tiled hdepth
  · intro _ hroot
    exact hinv.tilesLog hnonzero hroot
  · intro bytes hbytes
    obtain ⟨page, hvalid, rfl⟩ := hinv.encoded bytes hbytes
    exact ⟨page, decodeQueryRunPage_pageBytes hvalid, (size_of_validatePage hvalid).2⟩
  · intro _ _ _ hsplice hfree'
    obtain ⟨older, newer, hruns, hsequence, -, hinv'⟩ := splice_ok hnonzero hinv hsplice hfree'
    refine ⟨newer.reverse, older.reverse, by simp [hruns], hsequence, ?_⟩
    intro _ hdepth
    have hvisited := hinv'.shows.visited hnonzero hinv'.tiled hdepth
    simpa using hvisited
  intro _ _ _ hpartition hcatalog hvalid hlevel hnext
  obtain ⟨prepared, happend, hinv'⟩ :=
    append_ok hnonzero hinv hpartition hcatalog hlevel hvalid hnext
  refine ⟨prepared, happend, ?_⟩
  intro hfree' _ hdepth
  have hvisited := (hinv' hfree').shows.visited hnonzero (hinv' hfree').tiled hdepth
  simpa using hvisited

/-- A digest function to evaluate streams with. -/
def residueHash : ContentHash := fun bytes =>
  BitVec.ofNat 256 (1 + fromBigEndian bytes % (2 ^ 256 - 1))

theorem nonzeroDigests_residueHash : NonzeroDigests residueHash := by
  intro bytes hzero
  have hnat : (residueHash bytes).toNat = 0 := congrArg BitVec.toNat hzero
  have hsmall : 1 + fromBigEndian bytes % (2 ^ 256 - 1) < 2 ^ 256 := by
    have hmod := Nat.mod_lt (fromBigEndian bytes) (show 0 < 2 ^ 256 - 1 by decide)
    omega
  simp only [residueHash, BitVec.toNat_ofNat, Nat.mod_eq_of_lt hsmall] at hnat
  omega

/-- The run with the given sequence over one source offset. -/
def unitRun (sequence : UInt64) (level : UInt8) (sourceStartOffset : UInt64) : QueryRunReference :=
  { hash := BitVec.ofNat 256 (sequence.toNat + level.toNat * 1000)
    encodedBytes := 1
    sequence
    level
    sourceStartOffset
    nextOffset := sequence
    throughAtomicPosition := sequence }

def samplePartition : ProjectionPartitionIdentity :=
  { familyId := 1
    sourceNode := 2
    sourceEpoch := 3
    producerNode := 4
    placementTerm := 5
    placementIndex := 6 }

/-- The plan a selection over two runs makes. -/
def samplePlan : QueryRunCompactionPlan :=
  { streamRootHash := residueHash (pageBytes (.leaf [unitRun 1 0 0, unitRun 2 0 1]))
    rootNextOffset := 2
    rootThroughAtomicPosition := 2
    inputsNewestFirst := [unitRun 2 0 1, unitRun 1 0 0]
    outputLevel := 1
    sourceStartOffset := 0
    nextOffset := 2
    throughAtomicPosition := 2 }

/-- Two runs, merged into one, and a third one after the merge. -/
def mergedStream : QueryStreamState := QueryStreamState.run residueHash none
    [ .append samplePartition 7 (unitRun 1 0 0), .append samplePartition 7 (unitRun 2 0 1),
      .select { levelTrigger := 2, maximumInputRuns := 2 },
      .splice samplePlan (unitRun 2 1 0),
      .append samplePartition 7 (unitRun 3 0 2) ]

theorem query_stream_tiles_source_log_merged :
    mergedStream.visited residueHash mergedStream.pages.length =
    .ok [unitRun 3 0 2, unitRun 2 1 0] ∧
    ∀ root, mergedStream.root = some root → TilesLog root [unitRun 3 0 2, unitRun 2 1 0] := by
  have hfree : CollisionFree residueHash mergedStream.pages := by
    unfold CollisionFree
    decide +kernel
  have hvisited : mergedStream.visited residueHash mergedStream.pages.length =
      .ok [unitRun 3 0 2, unitRun 2 1 0] := by
    decide +kernel
  obtain ⟨_, hwalk, htiles, -⟩ := query_stream_tiles_source_log residueHash
    nonzeroDigests_residueHash none Opens.fresh _ mergedStream rfl hfree
  have hsame := hwalk _ le_rfl
  rw [hvisited, Except.ok.injEq] at hsame
  subst hsame
  exact ⟨hvisited, htiles⟩

end Keldra.Index
