import Keldra.Foundation.Bytes
import Keldra.Consensus.Types

/-!
# Capacity-weighted rendezvous placement

Every node gets a score from the hash of the key and its id, and the nodes are
ranked by it.  Scores are quotients of a weight and a fixed-point logarithm; they
are compared by cross multiplication, and a tie goes to the lower id.

A comparison looks at its two nodes only, so a change of one node leaves the order
of the others, and the first owners of a key differ in one node at most.
-/

namespace Keldra.Placement

open Foundation Consensus List

/-- Domains of the placement format. -/
inductive PlacementKind where
  | tenantNameClaim
  | tenantOrBucketRecord
  | object
  | zanzibarRealm
  | credential
  | smallContent
  | largeFragment
  | futurePersonalDb
  | futureIndex
  | accountingMatcher
deriving DecidableEq

def PlacementKind.wireByte : PlacementKind → UInt8
  | .tenantNameClaim => 1
  | .tenantOrBucketRecord => 2
  | .object => 3
  | .zanzibarRealm => 4
  | .credential => 5
  | .smallContent => 6
  | .largeFragment => 7
  | .futurePersonalDb => 8
  | .futureIndex => 9
  | .accountingMatcher => 10

/-- An active node and its storage capacity ratio. -/
structure PlacementNode where
  nodeId : Nat
  weightMillionths : Nat
  weight_pos : 0 < weightMillionths
deriving DecidableEq

/-- Full-width square of a 128-bit number, as little-endian 64-bit limbs. -/
def squareU128 (value : Nat) : Nat × Nat × Nat × Nat :=
  let low := value % 2 ^ 64
  let high := value / 2 ^ 64
  let lowSquare := low * low
  let cross := low * high
  let highSquare := high * high
  let middle := lowSquare / 2 ^ 64 + cross % 2 ^ 64 * 2
  let upper := cross / 2 ^ 64 * 2 + highSquare % 2 ^ 64 + middle / 2 ^ 64
  (lowSquare % 2 ^ 64, middle % 2 ^ 64, upper % 2 ^ 64,
    (highSquare / 2 ^ 64 + upper / 2 ^ 64) % 2 ^ 64)

/-- The low 128 bits of a product shifted by 126 or 127. -/
def shiftProductRight (product : Nat × Nat × Nat × Nat) (shift : Nat) : Nat :=
  let withinLimb := shift - 64
  let low := product.2.1 >>> withinLimb ||| product.2.2.1 <<< (64 - withinLimb) % 2 ^ 64
  let high := product.2.2.1 >>> withinLimb ||| product.2.2.2 <<< (64 - withinLimb) % 2 ^ 64
  high <<< 64 ||| low

/-- The rounds of the logarithm for the bits that are left. -/
def logRounds : Nat → Nat → Nat → Nat
  | 0, _, fractional => fractional
  | outputBit + 1, normalized, fractional =>
    let square := squareU128 normalized
    if square.2.2.2.testBit 61 then
      logRounds outputBit (shiftProductRight square 127) (fractional ||| 2 ^ outputBit)
    else
      logRounds outputBit (shiftProductRight square 126) fractional

/-- `-log2 ((2 r + 1) / 2 ^ 65)` with 64 fractional bits. -/
def negativeLog2Q64 (r : Nat) : Nat :=
  let numerator := r <<< 1 ||| 1
  let significantBits := numerator.log2 + 1
  let integerExponent := 66 - significantBits
  let fractional := logRounds 64 (numerator <<< (127 - significantBits)) 0
  let roundedUp := integerExponent <<< 64 - fractional
  let roundedDown := if numerator = 1 then roundedUp else roundedUp - 1
  max roundedDown 1

section

-- The hash under the context `keldra.storage/weighted-hrw/v1`.
variable (blake3 : Bytes → Bytes) (kind : PlacementKind) (clusterId : ClusterId) (key : Bytes)

def hashMidpoint (nodeId : Nat) : Nat :=
  fromBigEndian ((blake3 (kind.wireByte :: bigEndian 16 clusterId.bytes.toNat ++
    bigEndian 8 key.length ++ key ++ bigEndian 8 nodeId)).take 8)

def scoreDenominator (nodeId : Nat) : Nat :=
  negativeLog2Q64 (hashMidpoint blake3 kind clusterId key nodeId)

structure ScoredNode where
  node : PlacementNode
  denominator : Nat
  denominator_pos : 0 < denominator

/-- Weights over denominators, compared without division. -/
def compareScore (left right : ScoredNode) : Ordering :=
  let leftCross := left.node.weightMillionths * right.denominator
  let rightCross := right.node.weightMillionths * left.denominator
  (compare rightCross leftCross).then (compare left.node.nodeId right.node.nodeId)

def scored (node : PlacementNode) : ScoredNode :=
  { node
    denominator := scoreDenominator blake3 kind clusterId key node.nodeId
    denominator_pos := Nat.le_max_right .. }

/-- The nodes by descending score. -/
def rankNodes (nodes : List PlacementNode) : List PlacementNode :=
  ((nodes.map (scored blake3 kind clusterId key)).insertionSort
    fun left right => compareScore left right ≠ .gt).map ScoredNode.node

/-- One node is ranked before another. -/
def RanksBefore (a b : PlacementNode) : Prop :=
  compareScore (scored blake3 kind clusterId key a) (scored blake3 kind clusterId key b) = .lt

/-- The ids of the first owners of a key. -/
def owners (nodes : List PlacementNode) (count : Nat) : Finset Nat :=
  (((rankNodes blake3 kind clusterId key nodes).take count).map PlacementNode.nodeId).toFinset

end

/-- What the comparison orders by: the quotient, descending, then the id. -/
def ScoredNode.place (scored : ScoredNode) : ℚ ×ₗ ℕ :=
  toLex (-(scored.node.weightMillionths / scored.denominator : ℚ), scored.node.nodeId)

theorem compareScore_eq_lt {left right : ScoredNode} :
    compareScore left right = .lt ↔ left.place < right.place := by
  have hleft : (0 : ℚ) < left.denominator := Nat.cast_pos.mpr left.denominator_pos
  have hright : (0 : ℚ) < right.denominator := Nat.cast_pos.mpr right.denominator_pos
  rw [ScoredNode.place, ScoredNode.place, Prod.Lex.toLex_lt_toLex, neg_lt_neg_iff, neg_inj,
    div_lt_div_iff₀ hright hleft, div_eq_div_iff hleft.ne' hright.ne']
  simp only [compareScore, Ordering.then_eq_lt, compare_lt_iff_lt, compare_eq_iff_eq]
  norm_cast
  rw [@eq_comm _ (right.node.weightMillionths * left.denominator)]

theorem compareScore_ne_gt {left right : ScoredNode} :
    compareScore left right ≠ .gt ↔ left.place ≤ right.place := by
  have hswap : (compareScore left right).swap = compareScore right left := by
    simp only [compareScore, Ordering.swap_then, Nat.compare_swap]
  rw [← not_lt, ← compareScore_eq_lt, ← hswap, Ordering.swap_eq_lt]

instance : Std.Total (fun left right => compareScore left right ≠ .gt) where
  total left right := by
    simp only [compareScore_ne_gt]
    exact le_total left.place right.place

instance : IsTrans ScoredNode (fun left right => compareScore left right ≠ .gt) where
  trans _ _ _ := by
    simp only [compareScore_ne_gt]
    exact le_trans

section

variable {nodes before after : List PlacementNode}

theorem ranksBefore_iff {a b : PlacementNode} : RanksBefore blake3 kind clusterId key a b ↔
    (scored blake3 kind clusterId key a).place < (scored blake3 kind clusterId key b).place :=
  compareScore_eq_lt

theorem ranksBefore_or {a b : PlacementNode}
    (h : a.nodeId ≠ b.nodeId) :
    RanksBefore blake3 kind clusterId key a b ∨ RanksBefore blake3 kind clusterId key b a := by
  rw [ranksBefore_iff, ranksBefore_iff]
  refine lt_or_gt_of_ne fun heq => h ?_
  exact congrArg (fun place => (ofLex place).2) heq

theorem rankNodes_perm : (rankNodes blake3 kind clusterId key nodes).Perm nodes := by
  have hperm := (perm_insertionSort (fun left right => compareScore left right ≠ .gt)
    (nodes.map (scored blake3 kind clusterId key))).map ScoredNode.node
  rw [map_map] at hperm
  exact hperm.trans (Perm.of_eq (map_id nodes))

/-- With distinct ids the ranking is strict. -/
theorem rankNodes_pairwise (hids : (nodes.map PlacementNode.nodeId).Nodup) :
    (rankNodes blake3 kind clusterId key nodes).Pairwise
    (RanksBefore blake3 kind clusterId key) := by
  have hperm := perm_insertionSort (fun left right => compareScore left right ≠ .gt)
    (nodes.map (scored blake3 kind clusterId key))
  have hsorted := pairwise_insertionSort (fun left right => compareScore left right ≠ .gt)
    (nodes.map (scored blake3 kind clusterId key))
  have hdistinct := (hperm.map fun found => found.node.nodeId).nodup_iff.mpr
    (by rw [map_map]; exact hids)
  rw [rankNodes, pairwise_map]
  refine (hsorted.and (pairwise_map.mp hdistinct)).imp_of_mem fun ha hb h => ?_
  obtain ⟨a, -, rfl⟩ := mem_map.mp (hperm.mem_iff.mp ha)
  obtain ⟨b, -, rfl⟩ := mem_map.mp (hperm.mem_iff.mp hb)
  rw [ranksBefore_iff]
  refine lt_of_le_of_ne (compareScore_ne_gt.mp h.1) fun heq => h.2 ?_
  exact congrArg (fun place => (ofLex place).2) heq

/-- The ranking of a list is determined by its nodes. -/
theorem rankNodes_eq {ranked : List PlacementNode}
    (hids : (before.map PlacementNode.nodeId).Nodup)
    (h : before.Perm ranked) (hranked : ranked.Pairwise (RanksBefore blake3 kind clusterId key)) :
    rankNodes blake3 kind clusterId key before = ranked := by
  refine (rankNodes_perm.trans h).eq_of_pairwise ?_ (rankNodes_pairwise hids) hranked
  intro a b _ _ hab hba
  rw [ranksBefore_iff] at hab hba
  exact absurd hab hba.asymm

/-- Leaving a node out keeps the order of the others. -/
theorem rankNodes_filter {changed : Nat}
    (hids : (nodes.map PlacementNode.nodeId).Nodup) :
    rankNodes blake3 kind clusterId key (nodes.filter fun node => node.nodeId ≠ changed) =
    (rankNodes blake3 kind clusterId key nodes).filter fun node => node.nodeId ≠ changed :=
  rankNodes_eq (hids.sublist (filter_sublist.map _)) (rankNodes_perm.symm.filter _)
    ((rankNodes_pairwise hids).filter _)

end

section

variable {α : Type} [DecidableEq α] {list other : List α} {count : Nat}

theorem filter_ne_eq {x : α}
    (h : x ∉ list) : list.filter (· ≠ x) = list := by
  refine filter_eq_self.mpr fun b hb => decide_eq_true ?_
  rintro rfl
  exact h hb

theorem take_filter_subset {x : α}
    (hlist : list.Nodup) :
    (list.filter (· ≠ x)).take count ⊆ list.take (count + 1) := by
  induction list generalizing count with
  | nil => simp
  | cons a rest ih =>
    obtain ⟨hnot, hrest⟩ := nodup_cons.mp hlist
    by_cases ha : a = x
    · subst ha
      rw [filter_cons_of_neg (by simp), filter_ne_eq hnot, take_succ_cons]
      exact subset_cons_self ..
    rw [filter_cons_of_pos (by simpa using ha)]
    cases count with
    | zero => simp
    | succ count =>
      exact cons_subset_cons _ (ih hrest)

theorem mem_take_filter {a x : α}
    (hmem : a ∈ list.take count) (ha : a ≠ x) :
    a ∈ (list.filter (· ≠ x)).take count := by
  induction list generalizing count with
  | nil => simp at hmem
  | cons b rest ih =>
    cases count with
    | zero => simp at hmem
    | succ count =>
      by_cases hb : b = x
      · rw [filter_cons_of_neg (by simp [hb])]
        refine take_subset_take_left _ (Nat.le_succ count) (ih ?_)
        exact (mem_cons.mp hmem).resolve_left fun heq => ha (heq.trans hb)
      rw [filter_cons_of_pos (by simpa using hb), take_succ_cons, mem_cons]
      exact (mem_cons.mp hmem).imp_right ih

/-- Lists that agree up to one element have firsts that differ in one. -/
theorem card_take_sdiff {x : α}
    (hlist : list.Nodup) (hother : other.Nodup)
    (h : list.filter (· ≠ x) = other.filter (· ≠ x)) (count : Nat) :
    ((list.take count).toFinset \ (other.take count).toFinset).card ≤ 1 := by
  induction count generalizing list other with
  | zero => simp
  | succ count ih =>
    cases list with
    | nil => simp
    | cons a rest =>
      obtain ⟨ha, hnodup⟩ := nodup_cons.mp hlist
      by_cases hax : a = x
      · -- Only the changed element can be lost.
        subst hax
        rw [filter_cons_of_neg (by simp), filter_ne_eq ha] at h
        refine (Finset.card_le_card fun b hb => ?_).trans (Finset.card_singleton a).le
        rw [Finset.mem_sdiff, mem_toFinset, mem_toFinset] at hb
        refine Finset.mem_singleton.mpr ((mem_cons.mp hb.1).resolve_right fun hlost => hb.2 ?_)
        exact take_filter_subset hother (h ▸ hlost)
      rw [filter_cons_of_pos (by simpa using hax)] at h
      cases other with
      | nil => simp at h
      | cons b later =>
        obtain ⟨hb, hlater⟩ := nodup_cons.mp hother
        by_cases hbx : b = x
        · -- The changed element pushes out the last of the others.
          subst hbx
          rw [filter_cons_of_neg (by simp), filter_ne_eq hb] at h
          refine (Finset.card_le_card (t := later[count]?.toList.toFinset) fun c hc => ?_).trans
            ((toFinset_card_le _).trans Option.length_toList_le)
          rw [Finset.mem_sdiff, mem_toFinset, mem_toFinset] at hc
          obtain ⟨hin, hout⟩ := hc
          rw [take_succ_cons, mem_cons, not_or] at hout
          have hkept := mem_take_filter hin hout.1
          rw [filter_cons_of_pos (by simpa using hax), h, take_add_one, mem_append] at hkept
          exact mem_toFinset.mpr (hkept.resolve_left hout.2)
        rw [filter_cons_of_pos (by simpa using hbx)] at h
        obtain ⟨rfl, htails⟩ := cons.inj h
        refine (Finset.card_le_card fun c hc => ?_).trans (ih hnodup hlater htails)
        simp only [take_succ_cons, toFinset_cons, Finset.mem_sdiff, Finset.mem_insert,
          not_or] at hc ⊢
        exact ⟨hc.1.resolve_left hc.2.1, hc.2.2⟩

end

/--
The ranking is a strict total order of the nodes.  It does not depend on the order
they are given in.  When one node is added, removed or weighted anew, the others
keep their relative order, and of the first owners at most one is replaced.
-/
theorem placement_moves_one_node
    (blake3 : Bytes → Bytes)
    (kind : PlacementKind)
    (clusterId : ClusterId)
    (key : Bytes) :
    IsStrictOrder PlacementNode (RanksBefore blake3 kind clusterId key) ∧
    (∀ a b, a.nodeId ≠ b.nodeId →
      RanksBefore blake3 kind clusterId key a b ∨
      RanksBefore blake3 kind clusterId key b a) ∧
    (∀ nodes, (nodes.map PlacementNode.nodeId).Nodup →
      (rankNodes blake3 kind clusterId key nodes).Perm nodes ∧
      (rankNodes blake3 kind clusterId key nodes).Pairwise
        (RanksBefore blake3 kind clusterId key) ∧
      ∀ reordered, nodes.Perm reordered →
        rankNodes blake3 kind clusterId key reordered =
          rankNodes blake3 kind clusterId key nodes) ∧
    ∀ before after changed,
      (before.map PlacementNode.nodeId).Nodup →
      (after.map PlacementNode.nodeId).Nodup →
      (before.filter fun node => node.nodeId ≠ changed).Perm
        (after.filter fun node => node.nodeId ≠ changed) →
      (rankNodes blake3 kind clusterId key before).filter (fun node => node.nodeId ≠ changed) =
        (rankNodes blake3 kind clusterId key after).filter (fun node => node.nodeId ≠ changed) ∧
      ∀ count,
        (owners blake3 kind clusterId key before count \
          owners blake3 kind clusterId key after count).card ≤ 1 := by
  refine ⟨{ irrefl := ?_, trans := ?_ }, fun a b => ranksBefore_or, ?_, ?_⟩
  · intro a hbefore
    exact lt_irrefl _ (ranksBefore_iff.mp hbefore)
  · intro a b c hab hbc
    exact ranksBefore_iff.mpr ((ranksBefore_iff.mp hab).trans (ranksBefore_iff.mp hbc))
  · intro nodes hids
    refine ⟨rankNodes_perm, rankNodes_pairwise hids, fun reordered hreordered => ?_⟩
    exact rankNodes_eq ((hreordered.map _).nodup_iff.mp hids)
      (hreordered.symm.trans rankNodes_perm.symm) (rankNodes_pairwise hids)
  intro before after changed hbefore hafter hothers
  have hsame : (rankNodes blake3 kind clusterId key before).filter
      (fun node => node.nodeId ≠ changed) =
        (rankNodes blake3 kind clusterId key after).filter fun node => node.nodeId ≠ changed := by
    rw [← rankNodes_filter hbefore, ← rankNodes_filter hafter]
    exact rankNodes_eq (hbefore.sublist (filter_sublist.map _)) (hothers.trans
      rankNodes_perm.symm) (rankNodes_pairwise (hafter.sublist (filter_sublist.map _)))
  refine ⟨hsame, fun count => ?_⟩
  have hids := congrArg (map PlacementNode.nodeId) hsame
  rw [owners, owners, map_take, map_take]
  refine card_take_sdiff ((rankNodes_perm.map _).nodup_iff.mpr hbefore)
    ((rankNodes_perm.map _).nodup_iff.mpr hafter) (x := changed) ?_ count
  rw [filter_map, filter_map]
  exact hids

end Keldra.Placement
