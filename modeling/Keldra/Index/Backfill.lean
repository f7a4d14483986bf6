import Keldra.Placement.RankNodes
import Keldra.Store.Model

/-!
# Initial backfills of an index

A new index partition starts from the heads that one source has stamped, as the
node of that source finds them among the paths it coordinates now.  Writes stamp a
head with the source of the path's coordinator; a placement change moves
coordinators and leaves the stamps.
-/

namespace Keldra.Index

open Foundation Store OrdMap List
open Consensus (ClusterId)
open Placement (PlacementNode rankNodes rankNodes_perm)

section Cluster

/-- What places the paths of one bucket: the hash, the cluster, and the bucket's
stable ids. -/
structure PlacedBucket where
  blake3 : Bytes → Bytes
  clusterId : ClusterId
  tenantId : Nat
  bucketId : Nat

def PlacedBucket.objectPlacementKey (bucket : PlacedBucket) (path : String) : Bytes :=
  bigEndian 8 bucket.tenantId ++ bigEndian 8 bucket.bucketId ++ path.toUTF8.data.toList

/-- The weights of the active nodes. -/
abbrev ActiveWeights := OrdMap Nat {weight : Nat // 0 < weight}

def placementNodes (placement : ActiveWeights) : List PlacementNode :=
  placement.entries.map fun entry => ⟨entry.1, entry.2, entry.2.2⟩

/-- One bucket of a cluster at a quiet moment: every replica of a path holds its
current head and version, and every node has its journal's tail. -/
structure BackfillCluster where
  placement : ActiveWeights
  heads : OrdMap String (Head × Version)
  tail : Nat → Nat

def BackfillCluster.fresh (placement : ActiveWeights) : BackfillCluster where
  placement
  heads := OrdMap.empty
  tail := fun _ => 0

inductive HistoryStep where
  | write (path : String) (id : VersionId) (blob : Option BlobRef)
      (contentType : Option String) (committedAt : Nat) (stamp : MutationStamp)
  | place (placement : ActiveWeights)

variable (bucket : PlacedBucket) (sourceEpoch : Nat → Store.Digest)

def sourceOf (node : Nat) : SourceId :=
  { nodeId := node, sourceEpoch := sourceEpoch node }

/-- The first node of the ranking of a path. -/
def objectCoordinator (cluster : BackfillCluster) (path : String) : Option Nat :=
  (rankNodes bucket.blake3 .object bucket.clusterId (bucket.objectPlacementKey path)
    (placementNodes cluster.placement)).head?.map PlacementNode.nodeId

/-- A write or delete is journaled by the path's coordinator, which stamps the head;
a completed placement change hands the heads over as they are. -/
def historyStep (cluster : BackfillCluster) : HistoryStep → BackfillCluster
  | .write path id blob contentType committedAt stamp =>
    match objectCoordinator bucket cluster path with
    | none => cluster
    | some node =>
      { cluster with
        heads := cluster.heads.insert path
          ({ version := id
             deleted := blob.isNone
             mutationStamp := some
               { stamp with
                 sourceId := sourceOf sourceEpoch node
                 sourceJournalPosition := cluster.tail node + 1 } },
            { id
              blob
              contentType
              deleted := blob.isNone
              committedAtUnixMillis := committedAt
              protectedLinkDescriptor := false })
        tail := Function.update cluster.tail node (cluster.tail node + 1) }
  | .place placement => { cluster with placement }

def afterHistory (placement : ActiveWeights) (history : List HistoryStep) : BackfillCluster :=
  history.foldl (historyStep bucket sourceEpoch) (BackfillCluster.fresh placement)

end Cluster

section Baseline

/-- What a physical recipe selects of its bucket. -/
structure CatalogRecipe where
  pathPrefix : String
  contentType : Option String

def containsReservedKeldraSegment (path : String) : Bool :=
  (path.toList.splitOn '/').any fun segment => segment = "_keldra".toList

def pathMatchesPrefix (path pathPrefix : String) : Bool :=
  pathPrefix.toList.isEmpty ||
    if pathPrefix.toList.getLast? = some '/' then
      pathPrefix.toList.isPrefixOf path.toList
    else
      path = pathPrefix || (pathPrefix.toList ++ ['/']).isPrefixOf path.toList

structure IndexBuildObject where
  path : String
  version : VersionId
  contentType : Option String
  content : BlobRef
  committedAtUnixMillis : Nat
deriving DecidableEq

variable (bucket : PlacedBucket) (sourceEpoch : Nat → Store.Digest)
variable (recipe : CatalogRecipe) (cluster : BackfillCluster)

/-- The heads a node returns for a source snapshot. -/
def scanIncludes (node : Nat) (entry : String × Head × Version) : Bool :=
  !entry.2.1.deleted && pathMatchesPrefix entry.1 recipe.pathPrefix &&
    !containsReservedKeldraSegment entry.1 &&
      decide (objectCoordinator bucket cluster entry.1 = some node)

def baselineObject (source : SourceId) (capturedTail : Nat) (entry : String × Head × Version) :
    Except String (Option (IndexBuildObject × Nat)) :=
  if entry.2.1.deleted || containsReservedKeldraSegment entry.1 ||
    !pathMatchesPrefix entry.1 recipe.pathPrefix ||
      recipe.contentType.any fun expected => entry.2.2.contentType ≠ some expected then
    pure none
  else
    match entry.2.1.mutationStamp with
    | none => pure none
    | some stamp =>
      if stamp.sourceId ≠ source then
        pure none
      else do
        rejectIf (capturedTail < stamp.sourceJournalPosition)
          "v1 baseline head is newer than its captured source tail"
        let content ← okOr entry.2.2.blob "live v1 baseline source blob is absent"
        pure (some
          ({ path := entry.1
             version := entry.2.2.id
             contentType := entry.2.2.contentType
             content
             committedAtUnixMillis := entry.2.2.committedAtUnixMillis },
            stamp.sourceJournalPosition))

/-- The selections of a baseline, in path order. -/
def nextSelected (source : SourceId) (capturedTail : Nat) :
    Nat → List (String × Head × Version) → Except String (List (IndexBuildObject × Nat))
  | _, [] => pure []
  | taken, entry :: rest => do
    match ← baselineObject recipe source capturedTail entry with
    | none => nextSelected source capturedTail taken rest
    | some selected => do
      rejectIf (capturedTail + 1 ≤ taken + 1)
        "v1 baseline contains more current source heads than journal positions"
      let later ← nextSelected source capturedTail (taken + 1) rest
      pure (selected :: later)

def partitionBaseline (node : Nat) : Except String (List (IndexBuildObject × Nat)) :=
  nextSelected recipe (sourceOf sourceEpoch node) (cluster.tail node) 0
    (cluster.heads.entries.filter (scanIncludes bucket recipe cluster node))

/-- The baselines of the sources of a barrier, one for each active node. -/
def barrierBaselines : Except String (List (List (IndexBuildObject × Nat))) :=
  cluster.placement.keys.mapM (partitionBaseline bucket sourceEpoch recipe cluster)

/-- A live object in the scope of a recipe. -/
structure LiveInScope (path : String) (head : Head) (version : Version) : Prop where
  current : cluster.heads.get? path = some (head, version)
  live : head.deleted = false
  unreserved : containsReservedKeldraSegment path = false
  matches_path : pathMatchesPrefix path recipe.pathPrefix = true
  matches_type : recipe.contentType.any (fun expected => version.contentType ≠ some expected) =
    false

/-- The baselines succeed and hold every live object in scope once, at its version. -/
def BackfillComplete : Prop :=
  ∃ parts, barrierBaselines bucket sourceEpoch recipe cluster = .ok parts ∧
    ∀ path head version, LiveInScope recipe cluster path head version →
      (parts.flatten.filter fun selected => selected.1.path = path).map
        (fun selected => selected.1.version) = [version.id]

/-- Every live object in scope carries the stamp of the source of the node that
coordinates its path now. -/
def StampedByCoordinator : Prop :=
  ∀ path head version, LiveInScope recipe cluster path head version →
    ∃ node stamp, objectCoordinator bucket cluster path = some node ∧
      head.mutationStamp = some stamp ∧ stamp.sourceId = sourceOf sourceEpoch node

end Baseline

variable {node : Nat}

section Histories

variable {bucket : PlacedBucket} {sourceEpoch : Nat → Store.Digest}
variable {recipe : CatalogRecipe} {cluster : BackfillCluster}

/-- Heads are stamped with positions of their sources' journals, each position once. -/
structure HeadsStamped (sourceEpoch : Nat → Store.Digest) (cluster : BackfillCluster) : Prop where
  stamped : ∀ path head version, cluster.heads.get? path = some (head, version) →
    head.deleted = version.blob.isNone ∧ ∃ stamp node, head.mutationStamp = some stamp ∧
      stamp.sourceId = sourceOf sourceEpoch node ∧ 0 < stamp.sourceJournalPosition ∧
        stamp.sourceJournalPosition ≤ cluster.tail node
  once : ∀ path path' head head' version version' stamp stamp',
    cluster.heads.get? path = some (head, version) →
      cluster.heads.get? path' = some (head', version') →
        head.mutationStamp = some stamp → head'.mutationStamp = some stamp' →
          stamp.sourceId = stamp'.sourceId →
            stamp.sourceJournalPosition = stamp'.sourceJournalPosition → path = path'

theorem sourceOf_inj {node' : Nat}
    (h : sourceOf sourceEpoch node = sourceOf sourceEpoch node') : node = node' :=
  congrArg SourceId.nodeId h

theorem headsStamped_step (h : HeadsStamped sourceEpoch cluster) (step : HistoryStep) :
    HeadsStamped sourceEpoch (historyStep bucket sourceEpoch cluster step) := by
  cases step with
  | place => exact ⟨h.stamped, h.once⟩
  | write _ _ _ _ _ stamp =>
    rw [historyStep]
    split
    · exact h
    rename_i node _
    -- an older head of the same source has a position the tail has passed
    have hbelow : ∀ other head version found, cluster.heads.get? other = some (head, version) →
      head.mutationStamp = some found → found.sourceId = sourceOf sourceEpoch node →
      found.sourceJournalPosition ≠ cluster.tail node + 1 := by
      intro _ _ _ _ hget hfound hsource
      obtain ⟨-, _, _, hstamp, howner, -, _⟩ := h.stamped _ _ _ hget
      obtain rfl := Option.some.inj (hfound.symm.trans hstamp)
      obtain rfl := sourceOf_inj (howner.symm.trans hsource)
      omega
    refine ⟨fun other head version hget => ?_, ?_⟩
    · rw [get?_insert] at hget
      split at hget
      · cases hget
        refine ⟨rfl, _, node, rfl, rfl, Nat.succ_pos _, ?_⟩
        simp
      obtain ⟨hdeleted, found, owner, hfound, howner, hpos, hle⟩ := h.stamped _ _ _ hget
      refine ⟨hdeleted, found, owner, hfound, howner, hpos, ?_⟩
      dsimp only
      rw [Function.update_apply]
      split
      · rename_i hsame
        rw [← hsame]
        omega
      · exact hle
    · intro _ _ _ _ _ _ _ _ hget hget' hfound hfound' hsource hposition
      rw [get?_insert] at hget hget'
      split at hget <;> split at hget'
      · simp_all
      · cases hget
        cases hfound
        exact absurd hposition.symm (hbelow _ _ _ _ hget' hfound' hsource.symm)
      · cases hget'
        cases hfound'
        exact absurd hposition (hbelow _ _ _ _ hget hfound hsource)
      · exact h.once _ _ _ _ _ _ _ _ hget hget' hfound hfound' hsource hposition

theorem headsStamped_history (placement : ActiveWeights) (history : List HistoryStep) :
    HeadsStamped sourceEpoch (afterHistory bucket sourceEpoch placement history) := by
  rw [afterHistory]
  induction history using reverseRecOn with
  | nil =>
    constructor
    · intro _ _ _ hget
      cases hget
    intro _ _ _ _ _ _ _ _ hget
    cases hget
  | append_singleton _ step ih =>
    rw [foldl_append]
    exact headsStamped_step ih step

end Histories

variable {path : String} {head : Head} {version : Version}

section Completeness

variable {bucket : PlacedBucket} {sourceEpoch : Nat → Store.Digest}
variable {recipe : CatalogRecipe} {cluster : BackfillCluster}
variable (sourceEpoch recipe cluster) in
/-- What the baseline of a node takes of a head. -/
def taken (node : Nat) (entry : String × Head × Version) : Option (IndexBuildObject × Nat) :=
  (baselineObject recipe (sourceOf sourceEpoch node) (cluster.tail node) entry).toOption.join

theorem baselineObject_eq {entry : String × Head × Version}
    (h : HeadsStamped sourceEpoch cluster) (node : Nat)
    (hmem : entry ∈ cluster.heads.entries) :
    baselineObject recipe (sourceOf sourceEpoch node) (cluster.tail node) entry =
    .ok (taken sourceEpoch recipe cluster node entry) ∧
    ∀ selected, taken sourceEpoch recipe cluster node entry = some selected →
    selected.1.path = entry.1 ∧ selected.1.version = entry.2.2.id ∧
    ∃ stamp, entry.2.1.mutationStamp = some stamp ∧ stamp.sourceId = sourceOf sourceEpoch node ∧
    selected.2 = stamp.sourceJournalPosition := by
  obtain ⟨path, head, version⟩ := entry
  obtain ⟨hdeleted, stamp, _, hstamp, howner, -, hle⟩ :=
    h.stamped path head version (get?_of_mem hmem)
  unfold taken baselineObject
  split
  · exact ⟨rfl, by simp [Except.toOption, pure, Except.pure]⟩
  rename_i hscope
  simp only [hstamp]
  split
  · exact ⟨rfl, by simp [Except.toOption, pure, Except.pure]⟩
  rename_i hsource
  rw [ne_eq, not_not] at hsource
  obtain rfl := sourceOf_inj (howner.symm.trans hsource)
  cases hblob : version.blob with
  | none => simp [hdeleted, hblob] at hscope
  | some =>
    simp only [rejectIf, if_neg (Nat.not_lt.mpr hle), okOr, bind, Except.bind, pure,
      Except.pure, Except.toOption, Option.join_some, Option.some.injEq, true_and]
    rintro _ rfl
    exact ⟨rfl, rfl, stamp, rfl, hsource, rfl⟩

/-- A head is taken by the node that stamped it, if it is live and in scope. -/
theorem taken_isSome {stamp : MutationStamp}
    (h : HeadsStamped sourceEpoch cluster)
    (hlive : LiveInScope recipe cluster path head version)
    (hstamp : head.mutationStamp = some stamp)
    (hsource : stamp.sourceId = sourceOf sourceEpoch node) :
    (taken sourceEpoch recipe cluster node (path, head, version)).isSome := by
  obtain ⟨hdeleted, _, _, hfound, howner, -, hle⟩ := h.stamped _ _ _ hlive.current
  obtain rfl := Option.some.inj (hstamp.symm.trans hfound)
  obtain rfl := sourceOf_inj (howner.symm.trans hsource)
  obtain ⟨content, hcontent⟩ : ∃ content, version.blob = some content := by
    rw [hlive.live] at hdeleted
    exact Option.isSome_iff_exists.mp (by simpa using hdeleted.symm)
  have htype := hlive.matches_type
  simp only [ne_eq, decide_not] at htype
  simp [taken, baselineObject, hlive.live, hlive.unreserved, hlive.matches_path, htype, hstamp,
    hsource, rejectIf, Nat.not_lt.mpr hle, hcontent, okOr, bind, Except.bind, pure, Except.pure,
    Except.toOption]

/-- A baseline within its tail takes its heads one by one. -/
theorem nextSelected_eq {capturedTail : Nat}
    {source : SourceId} {select : String × Head × Version → Option _}
    {entries : List (String × Head × Version)} {count : Nat} (hselect : ∀ entry ∈ entries,
    baselineObject recipe source capturedTail entry = .ok (select entry))
    (hcount : count + (entries.filterMap select).length ≤ capturedTail) :
    nextSelected recipe source capturedTail count entries = .ok (entries.filterMap select) := by
  induction entries generalizing count with
  | nil => rfl
  | cons entry _ ih =>
    have hrest := fun later hlater => hselect later (mem_cons_of_mem _ hlater)
    rw [nextSelected, hselect entry mem_cons_self]
    cases hentry : select entry with
    | none =>
      rw [filterMap_cons_none hentry] at hcount ⊢
      exact ih hrest hcount
    | some =>
      rw [filterMap_cons_some hentry, length_cons] at hcount
      rw [filterMap_cons_some hentry]
      have hmore := ih hrest (show count + 1 + _ ≤ _ by omega)
      have hroom : ¬ capturedTail + 1 ≤ count + 1 := by omega
      simp only [bind, Except.bind, rejectIf, if_neg hroom, hmore, pure, Except.pure]

/-- The positions of the heads a source has stamped fit its journal. -/
theorem length_taken_le
    (h : HeadsStamped sourceEpoch cluster) (node : Nat) (p : String × Head × Version → Bool) :
    ((cluster.heads.entries.filter p).filterMap (taken sourceEpoch recipe cluster node)).length ≤
    cluster.tail node := by
  have hmem : ∀ entry ∈ cluster.heads.entries.filter p, entry ∈ cluster.heads.entries :=
    fun entry hentry => (mem_filter.mp hentry).1
  have hnodup : (((cluster.heads.entries.filter p).filterMap
      (taken sourceEpoch recipe cluster node)).map Prod.snd).Nodup := by
    rw [map_filterMap]
    refine List.Pairwise.filterMap _ ?_ ((cluster.heads.ascending.filter p).imp_of_mem
      fun {a b} ha hb hlt => (⟨hmem a ha, hmem b hb, hlt.ne⟩ : a ∈ cluster.heads.entries ∧
        b ∈ cluster.heads.entries ∧ a.1 ≠ b.1))
    rintro _ _ ⟨hentry, hentry', hne⟩ _ hposition _ hposition' rfl
    obtain ⟨_, hselected, rfl⟩ := Option.map_eq_some_iff.mp hposition
    obtain ⟨_, hselected', hsame⟩ := Option.map_eq_some_iff.mp hposition'
    obtain ⟨-, -, _, hstamp, hsource, heq⟩ := (baselineObject_eq h node hentry).2 _ hselected
    obtain ⟨-, -, _, hstamp', hsource', heq'⟩ :=
      (baselineObject_eq h node hentry').2 _ hselected'
    exact hne (h.once _ _ _ _ _ _ _ _ (get?_of_mem hentry) (get?_of_mem hentry')
      hstamp hstamp' (hsource.trans hsource'.symm) (heq.symm.trans (hsame.symm.trans heq')))
  have hwithin : ((cluster.heads.entries.filter p).filterMap (taken sourceEpoch recipe cluster
    node)).map Prod.snd ⊆ range' 1 (cluster.tail node) := by
    intro _ hposition
    obtain ⟨_, hselected, rfl⟩ := mem_map.mp hposition
    obtain ⟨entry, hentry, htaken⟩ := mem_filterMap.mp hselected
    obtain ⟨-, -, _, hstamp, hsource, heq⟩ :=
      (baselineObject_eq h node (hmem entry hentry)).2 _ htaken
    obtain ⟨-, _, _, hfound, howner, _, _⟩ :=
      h.stamped _ _ _ (get?_of_mem (hmem entry hentry))
    obtain rfl := Option.some.inj (hstamp.symm.trans hfound)
    obtain rfl := sourceOf_inj (howner.symm.trans hsource)
    rw [heq, mem_range'_1]
    omega
  simpa using (subperm_of_subset hnodup hwithin).length_le

theorem partitionBaseline_eq (h : HeadsStamped sourceEpoch cluster) (node : Nat) :
    partitionBaseline bucket sourceEpoch recipe cluster node =
    .ok ((cluster.heads.entries.filter (scanIncludes bucket recipe cluster node)).filterMap
    (taken sourceEpoch recipe cluster node)) := by
  refine nextSelected_eq (fun entry hentry => ?_) ?_
  · exact (baselineObject_eq h node (mem_filter.mp hentry).1).1
  rw [Nat.zero_add]
  exact length_taken_le h node _

/-- One of several lists is not empty. -/
theorem flatMap_eq_of_unique {α β : Type} {keys : List α} {f : α → List β} {key : α}
    (hnodup : keys.Nodup) (hkey : key ∈ keys) (hother : ∀ other, other ≠ key → f other = []) :
    keys.flatMap f = f key := by
  obtain ⟨_, _, rfl⟩ := append_of_mem hkey
  have hempty : ∀ {part : List α}, (∀ other ∈ part, other ≠ key) → part.flatMap f = [] :=
    fun hpart => flatMap_eq_nil_iff.mpr fun other hmem => hother other (hpart other hmem)
  rw [nodup_middle, nodup_cons, mem_append, not_or] at hnodup
  rw [flatMap_append, flatMap_cons, hempty fun other hmem heq => hnodup.1.1 (heq ▸ hmem),
    hempty fun other hmem heq => hnodup.1.2 (heq ▸ hmem), nil_append, append_nil]

/-- The selections of one path in all baselines. -/
theorem filter_baselines (h : HeadsStamped sourceEpoch cluster)
    (hcurrent : cluster.heads.get? path = some (head, version)) (node : Nat) :
    ((cluster.heads.entries.filter (scanIncludes bucket recipe cluster node)).filterMap
    (taken sourceEpoch recipe cluster node)).filter (fun selected => selected.1.path = path) =
    if scanIncludes bucket recipe cluster node (path, head, version) then
    (taken sourceEpoch recipe cluster node (path, head, version)).toList else [] := by
  have hmem := (get?_eq_some_iff _ _ _).mp hcurrent
  obtain ⟨before, after, hsplit⟩ := append_of_mem hmem
  -- only the entry of the path itself gives a selection of the path
  have hnone : ∀ part : List (String × Head × Version), (∀ entry ∈ part, entry ∈
    cluster.heads.entries ∧ entry.1 ≠ path) → ((part.filter (scanIncludes bucket recipe cluster
    node)).filterMap (taken sourceEpoch recipe cluster node)).filter (fun selected =>
    selected.1.path = path) = [] := by
    intro _ hpart
    rw [filter_eq_nil_iff]
    intro _ hselected
    obtain ⟨entry, hentry, htaken⟩ := mem_filterMap.mp hselected
    obtain ⟨hin, hne⟩ := hpart entry (mem_filter.mp hentry).1
    rw [((baselineObject_eq h node hin).2 _ htaken).1]
    simpa using hne
  have hkeys := cluster.heads.nodup_keys
  rw [OrdMap.keys, hsplit, map_append, map_cons, nodup_middle, nodup_cons,
    mem_append, not_or] at hkeys
  have hbefore := hnone before fun entry hentry =>
    ⟨by simp [hsplit, hentry], fun heq => hkeys.1.1 (mem_map.mpr ⟨entry, hentry, heq⟩)⟩
  have hafter := hnone after fun entry hentry =>
    ⟨by simp [hsplit, hentry], fun heq => hkeys.1.2 (mem_map.mpr ⟨entry, hentry, heq⟩)⟩
  rw [hsplit, filter_append, filterMap_append, filter_append, hbefore, nil_append, filter_cons]
  split
  · cases htaken : taken sourceEpoch recipe cluster node (path, head, version) with
    | none => rw [filterMap_cons_none htaken, hafter, Option.toList_none]
    | some =>
      have hpath := ((baselineObject_eq h node hmem).2 _ htaken).1
      rw [filterMap_cons_some htaken, filter_cons, if_pos (by simpa using hpath),
        hafter, Option.toList_some]
  · exact hafter

/-- After every history, the baselines of a barrier hold every live object in scope
once if and only if each is stamped by the source of its present coordinator. -/
theorem backfill_complete_iff (bucket : PlacedBucket) (sourceEpoch : Nat → Store.Digest)
    (recipe : CatalogRecipe) (placement : ActiveWeights) (history : List HistoryStep) :
    BackfillComplete bucket sourceEpoch recipe
    (afterHistory bucket sourceEpoch placement history) ↔
    StampedByCoordinator bucket sourceEpoch recipe
    (afterHistory bucket sourceEpoch placement history) := by
  have h := @headsStamped_history bucket sourceEpoch placement history
  generalize afterHistory bucket sourceEpoch placement history = cluster at h ⊢
  have hparts : barrierBaselines bucket sourceEpoch recipe cluster =
      .ok (cluster.placement.keys.map fun node =>
        (cluster.heads.entries.filter (scanIncludes bucket recipe cluster node)).filterMap
          (taken sourceEpoch recipe cluster node)) := by
    rw [barrierBaselines, funext (partitionBaseline_eq h)]
    exact mapM_pure
  -- the selections of a live path come from its coordinator's baseline alone
  have hselections : ∀ path head version, LiveInScope recipe cluster path head version →
      ∀ node, scanIncludes bucket recipe cluster node (path, head, version) =
        decide (objectCoordinator bucket cluster path = some node) := by
    intro _ _ _ hlive _
    simp [scanIncludes, hlive.live, hlive.matches_path, hlive.unreserved]
  constructor
  · rintro ⟨_, hok, hcomplete⟩ path head version hlive
    obtain rfl := Except.ok.inj (hparts.symm.trans hok)
    have honce := hcomplete path head version hlive
    obtain ⟨selected, hselected⟩ : ∃ selected, selected ∈ (cluster.placement.keys.map fun node =>
          (cluster.heads.entries.filter (scanIncludes bucket recipe cluster node)).filterMap
            (taken sourceEpoch recipe cluster node)).flatten.filter
              fun selected => selected.1.path = path := by
      refine exists_mem_of_ne_nil _ fun hempty => ?_
      rw [hempty] at honce
      cases honce
    obtain ⟨hin, hpath⟩ := mem_filter.mp hselected
    obtain ⟨_, hpart, hin⟩ := mem_flatten.mp hin
    obtain ⟨node, -, rfl⟩ := mem_map.mp hpart
    have hfound :=
      (mem_filter (p := fun selected => decide (selected.1.path = path))).mpr ⟨hin, hpath⟩
    rw [filter_baselines h hlive.current node, hselections path head version hlive] at hfound
    split at hfound
    · rename_i hcoordinator
      have hmem := (get?_eq_some_iff _ _ _).mp hlive.current
      obtain ⟨-, -, stamp, hstamp, hsource, -⟩ :=
        (baselineObject_eq h node hmem).2 selected (Option.mem_toList.mp hfound)
      exact ⟨node, stamp, of_decide_eq_true hcoordinator, hstamp, hsource⟩
    · cases hfound
  · intro hstamped
    refine ⟨_, hparts, fun path head version hlive => ?_⟩
    obtain ⟨node, _, hcoordinator, hstamp, hsource⟩ := hstamped path head version hlive
    obtain ⟨selected, hselected⟩ :=
      Option.isSome_iff_exists.mp (taken_isSome h hlive hstamp hsource)
    have hmem := (get?_eq_some_iff _ _ _).mp hlive.current
    have hactive : node ∈ cluster.placement.keys := by
      obtain ⟨_, hfirst, rfl⟩ := Option.map_eq_some_iff.mp hcoordinator
      have hranked := rankNodes_perm.mem_iff.mp (mem_of_head? hfirst)
      obtain ⟨_, hentry, rfl⟩ := mem_map.mp hranked
      exact mem_map_of_mem hentry
    rw [← flatMap_def, filter_flatMap, flatMap_eq_of_unique cluster.placement.nodup_keys hactive]
    · rw [filter_baselines h hlive.current node, hselections path head version hlive,
        if_pos (by simpa using hcoordinator), hselected]
      simp [((baselineObject_eq h node hmem).2 selected hselected).2.1]
    intro other hother
    rw [filter_baselines h hlive.current other, hselections path head version hlive, if_neg]
    rw [hcoordinator]
    simpa using Ne.symm hother

/-- A bucket whose hash ranks nodes of one weight by descending id. -/
def descendingBucket : PlacedBucket where
  blake3 input := input.drop (input.length - 8)
  clusterId := ⟨1⟩
  tenantId := 1
  bucketId := 1

/-- The first node writes an object, and a second node joins. -/
def movedHistory : List HistoryStep := [.write "a" 7 (some { hash := 1, length := 3 }) none 9
      { format := 1
        predecessorVersion := none
        programCommitCursor := none
        mutationFingerprint := 0
        activePlacementLogId := { term := 1, index := 1 }
        servingFenceTerm := 1
        sourceId := { nodeId := 1, sourceEpoch := 0 }
        sourceJournalPosition := 1 },
    .place (OrdMap.ofList [(1, ⟨1000000, by decide⟩), (2, ⟨1000000, by decide⟩)])]

/-- The new node ranks first, and the baseline of neither node has the object. -/
theorem moved_object_missing :
    ¬ BackfillComplete descendingBucket (fun _ => 1) { pathPrefix := "", contentType := none }
      (afterHistory descendingBucket (fun _ => 1) (OrdMap.ofList [(1, ⟨1000000, by decide⟩)])
        movedHistory) := by
  rintro ⟨parts, hok, hcomplete⟩
  have hnone : barrierBaselines descendingBucket (fun _ => 1)
      { pathPrefix := "", contentType := none }
      (afterHistory descendingBucket (fun _ => 1) (OrdMap.ofList [(1, ⟨1000000, by decide⟩)])
        movedHistory) = .ok [[], []] := by
    decide +kernel
  obtain rfl := Except.ok.inj (hok.symm.trans hnone)
  have hlive := hcomplete "a" _ _ ⟨rfl, rfl, by decide +kernel, by decide +kernel, rfl⟩
  cases hlive

end Completeness

end Keldra.Index
