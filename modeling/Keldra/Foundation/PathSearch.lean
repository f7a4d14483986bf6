import Mathlib

/-!
# Searching a graph along simple paths

A search graph has goal vertices and edges.  The vertices from which a goal can
be reached form the least fixed point of one expansion round.

A depth-first search that gives up at every vertex of its current path only
finds goals along paths that repeat no vertex.  `ReachesAvoiding` describes
exactly those paths, and `mem_reaching_iff_reachesAvoiding` says that nothing
is lost: a path of least length never comes back to a vertex it has left.
-/

namespace Keldra.Foundation

universe u

/-- The vertices a search looks for and the edges it may follow. -/
structure SearchGraph (V : Type u) where
  goal : V → Prop
  edge : V → V → Prop

namespace SearchGraph

variable {V : Type u} (graph : SearchGraph V)

/-- One expansion round: the goals, and the vertices with an edge into `found`. -/
def expand : Set V →o Set V where
  toFun found := {v | graph.goal v ∨ ∃ w, graph.edge v w ∧ w ∈ found}
  monotone' := by
    intro found found' hsub v hv
    rcases hv with hgoal | ⟨w, hedge, hw⟩
    · exact Or.inl hgoal
    · exact Or.inr ⟨w, hedge, hsub hw⟩

/-- The vertices from which a goal can be reached. -/
def reaching : Set V := OrderHom.lfp graph.expand

/-- A goal is reached from the vertex along exactly `n` edges. -/
def ReachesIn : Nat → V → Prop
  | 0, v => graph.goal v
  | n + 1, v => ∃ w, graph.edge v w ∧ ReachesIn n w

/-- A goal is reached from the vertex along a path that repeats no vertex and
visits none of `path`. -/
inductive ReachesAvoiding : Set V → V → Prop
  | goal {path : Set V} {v : V} (hfresh : v ∉ path)
      (hgoal : graph.goal v) :
      ReachesAvoiding path v
  | edge {path : Set V} {v w : V} (hfresh : v ∉ path) (hedge : graph.edge v w)
      (hrest : ReachesAvoiding (insert v path) w) :
      ReachesAvoiding path v

variable {graph}

theorem reaching_mono {graph' : SearchGraph V} (hgoal : ∀ v, graph.goal v → graph'.goal v)
    (hedge : ∀ v w, graph.edge v w → graph'.edge v w) : graph.reaching ⊆ graph'.reaching := by
  refine OrderHom.lfp.monotone fun found v hv => ?_
  rcases hv with hv | ⟨w, hvw, hw⟩
  · exact .inl (hgoal v hv)
  · exact .inr ⟨w, hedge v w hvw, hw⟩

theorem mem_reaching_iff {v : V} :
    v ∈ graph.reaching ↔ graph.goal v ∨ ∃ w, graph.edge v w ∧ w ∈ graph.reaching := by
  have hfixed : graph.expand graph.reaching = graph.reaching := OrderHom.map_lfp graph.expand
  conv_lhs => rw [← hfixed]
  exact Iff.rfl

theorem goal_mem_reaching {v : V}
    (hgoal : graph.goal v) : v ∈ graph.reaching :=
  mem_reaching_iff.mpr (.inl hgoal)

theorem edge_mem_reaching {v w : V}
    (hedge : graph.edge v w) (hw : w ∈ graph.reaching) :
    v ∈ graph.reaching :=
  mem_reaching_iff.mpr (.inr ⟨w, hedge, hw⟩)

theorem ReachesIn.mem_reaching {n : Nat} {v : V}
    (h : graph.ReachesIn n v) :
    v ∈ graph.reaching := by
  induction n generalizing v with
  | zero => exact goal_mem_reaching h
  | succ n ih =>
    obtain ⟨w, hedge, hw⟩ := h
    exact edge_mem_reaching hedge (ih hw)

theorem mem_reaching_iff_exists {v : V} : v ∈ graph.reaching ↔ ∃ n, graph.ReachesIn n v := by
  constructor
  · intro hv
    have hclosed : graph.expand {v | ∃ n, graph.ReachesIn n v} ≤
        {v | ∃ n, graph.ReachesIn n v} := by
      rintro x (hgoal | ⟨w, hedge, n, hw⟩)
      · exact ⟨0, hgoal⟩
      · exact ⟨n + 1, w, hedge, hw⟩
    exact OrderHom.lfp_le graph.expand hclosed hv
  rintro ⟨n, hn⟩
  exact hn.mem_reaching

theorem ReachesAvoiding.mem_reaching {path : Set V} {v : V}
    (h : graph.ReachesAvoiding path v) :
    v ∈ graph.reaching := by
  induction h with
  | goal _ hgoal => exact goal_mem_reaching hgoal
  | edge _ hedge _ ih => exact edge_mem_reaching hedge ih

theorem reachesAvoiding_iff {path : Set V} {v : V} :
    graph.ReachesAvoiding path v ↔ v ∉ path ∧ (graph.goal v ∨
    ∃ w, graph.edge v w ∧ graph.ReachesAvoiding (insert v path) w) := by
  constructor
  · intro h
    cases h with
    | goal hfresh hgoal => exact ⟨hfresh, .inl hgoal⟩
    | edge hfresh hedge hrest => exact ⟨hfresh, .inr ⟨_, hedge, hrest⟩⟩
  rintro ⟨hfresh, hgoal | ⟨w, hedge, hrest⟩⟩
  · exact ReachesAvoiding.goal hfresh hgoal
  · exact ReachesAvoiding.edge hfresh hedge hrest

/-- A path of least length avoids every vertex that lies farther from a goal
than its start. -/
theorem reachesAvoiding_of_nearest {n : Nat} {v : V} {path : Set V}
    (hreach : graph.ReachesIn n v)
    (hleast : ∀ m < n, ¬ graph.ReachesIn m v) (hfar : ∀ p ∈ path, ∀ m ≤ n, ¬ graph.ReachesIn m p) :
    graph.ReachesAvoiding path v := by
  have hfresh : v ∉ path := fun hmem => hfar v hmem n le_rfl hreach
  induction n generalizing v path with
  | zero => exact ReachesAvoiding.goal hfresh hreach
  | succ n ih =>
    obtain ⟨w, hedge, hw⟩ := hreach
    -- A shorter way from `w` would give a shorter way from `v`.
    have hleastNext : ∀ m < n, ¬ graph.ReachesIn m w := by
      intro m _ hshort
      exact hleast (m + 1) (by omega) ⟨w, hedge, hshort⟩
    have hfarNext : ∀ p ∈ insert v path, ∀ m ≤ n, ¬ graph.ReachesIn m p := by
      rintro p (rfl | hp) m _
      · exact hleast m (by omega)
      · exact hfar p hp m (by omega)
    have hfreshNext : w ∉ insert v path := fun hmem => hfarNext w hmem n le_rfl hw
    exact ReachesAvoiding.edge hfresh hedge (ih hw hleastNext hfarNext hfreshNext)

/-- Paths without repetition reach every vertex that paths reach. -/
theorem mem_reaching_iff_reachesAvoiding {v : V} :
    v ∈ graph.reaching ↔ graph.ReachesAvoiding ∅ v := by
  constructor
  · intro hv
    classical
    have hsome := mem_reaching_iff_exists.mp hv
    refine reachesAvoiding_of_nearest (Nat.find_spec hsome) ?_ ?_
    · intro m hm
      exact Nat.find_min hsome hm
    intro p hp
    cases hp
  · exact ReachesAvoiding.mem_reaching

end SearchGraph

end Keldra.Foundation
