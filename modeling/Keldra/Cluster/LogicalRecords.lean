import Keldra.Cluster.QuorumRead
import Keldra.Foundation.Checks

/-!
# Replica groups of logical records

A logical record is selected from the answers of a quorum by its predecessor
links: an exact quorum anchors the selection and linked successors of it are
kept.  Repairs write the selected record without comparing what they find, so
one that takes effect late can hide a newer acknowledged mutation.
-/

namespace Keldra.Cluster

open Foundation List

universe u

variable {child current winner : LogicalCandidate} {retained : List LogicalCandidate} {steps : Nat}

inductive LogicalRecordPredecessor where
  | absent
  | baselineHash (hash : Nat)
  | versionId (version : Nat)
  deriving DecidableEq

/-- How a replica came to its record. -/
inductive LogicalChange where
  | baseline (hash : Nat)
  | versioned (recordVersion : Nat) (predecessor : LogicalRecordPredecessor)
  deriving DecidableEq

/-- A version names one mutation, so the chain of a candidate stands for its identity. -/
abbrev LogicalCandidate := List LogicalChange

/-- What the next mutation names as its predecessor. -/
def candidateIdentity : LogicalCandidate → LogicalRecordPredecessor
  | [] => .absent
  | .baseline hash :: _ => .baselineHash hash
  | .versioned version _ :: _ => .versionId version

/-- The candidate that a versioned one was written on. -/
def candidatePredecessor : LogicalCandidate → Option LogicalCandidate
  | .versioned _ _ :: rest => some rest
  | _ => none

def candidateIsOlder (candidate anchor : LogicalCandidate) : Bool :=
  match candidateIdentity candidate, candidateIdentity anchor with
  | .absent, .baselineHash _ => true
  | .absent, .versionId _ => true
  | .baselineHash _, .versionId _ => true
  | .versionId version, .versionId other => version < other
  | _, _ => false

/-- The candidates from the current one up its linked successors, newest first, in a given
number of steps; `linkedChain_enough` says how many are enough. -/
def linkedChain (retained : List LogicalCandidate) :
    Nat → LogicalCandidate → Except String (List LogicalCandidate)
  | steps, current =>
    match retained.filter (candidatePredecessor · = some current), steps with
    | [], _ => .ok [current]
    | [child], steps + 1 => do
      let above ← linkedChain retained steps child
      pure (above ++ [current])
    | _, _ => .error "logical record has an unresolved predecessor branch"

def selectFromQuorumCandidate (retained : List LogicalCandidate) (anchor : LogicalCandidate) :
    Except String LogicalCandidate := do
  let selected ← linkedChain retained retained.length anchor
  rejectIf (∃ c ∈ retained, c ∉ selected ∧ ¬ candidateIsOlder c anchor)
    "logical record has a higher state with missing predecessor evidence"
  pure (selected.headD anchor)

def selectLinkedCandidateChain
    (retained : List LogicalCandidate) : Except String LogicalCandidate :=
  let disconnected := "logical record has missing predecessor evidence or disconnected states"
  match retained.filter fun c => ∀ p ∈ candidatePredecessor c, p ∉ retained with
  | [root] => do
    let visited ← linkedChain retained retained.length root
    rejectIf (visited.length ≠ retained.length) disconnected
    pure (visited.headD root)
  | _ => .error disconnected

/-- The candidates written on the same predecessor. -/
def siblings (evidence : List LogicalCandidate) (c : LogicalCandidate) : List LogicalCandidate :=
  evidence.filter fun d => candidatePredecessor c ≠ none ∧
    candidatePredecessor d = candidatePredecessor c

def highestValidCandidate
    (observed : List LogicalCandidate) (required : Nat) : Except String LogicalCandidate := do
  rejectIf (required = 0 ∨ observed.length < required)
    "logical record did not provide its required read quorum"
  let evidence := observed.reverse.dedup.reverse
  let proven := fun c => decide (required ≤ observed.countP (· = c))
  rejectIf (∃ c ∈ evidence, 1 < (siblings evidence c).length ∧
    ((siblings evidence c).filter proven).length ≠ 1)
    "logical record has contradictory siblings without one quorum-proven successor"
  let retained := evidence.filter fun c => (siblings evidence c).length ≤ 1 ∨ proven c
  match retained.filter proven with
  | [] => selectLinkedCandidateChain retained
  | [anchor] => selectFromQuorumCandidate retained anchor
  | _ => .error "logical record has contradictory quorum-proven states"

theorem eq_cons_of_candidatePredecessor (h : candidatePredecessor child = some current) :
    ∃ c, child = c :: current := by
  match child, h with
  | .versioned version predecessor :: _, rfl => exact ⟨.versioned version predecessor, rfl⟩

theorem child_of_filter (h : retained.filter (candidatePredecessor · = some current) = [child]) :
    child ∈ retained ∧ ∃ c, child = c :: current := by
  obtain ⟨hmem, hlink⟩ := mem_filter.mp (h ▸ mem_singleton_self child)
  exact ⟨hmem, eq_cons_of_candidatePredecessor (of_decide_eq_true hlink)⟩

/-- A child is longer than the candidate it follows and not longer than itself. -/
theorem countP_child_lt (h : retained.filter (candidatePredecessor · = some current) = [child]) :
    retained.countP (child.length < ·.length) < retained.countP (current.length < ·.length) := by
  obtain ⟨hmem, c, rfl⟩ := child_of_filter h
  have hlonger : retained.filter ((c :: current).length < ·.length) =
      (retained.filter (current.length < ·.length)).filter ((c :: current).length < ·.length) := by
    rw [filter_filter]
    refine filter_congr fun d _ => ?_
    simp only [length_cons, ← Bool.decide_and, decide_eq_decide]
    omega
  rw [countP_eq_length_filter, countP_eq_length_filter, hlonger]
  refine length_filter_lt_length_iff_exists.mpr ⟨c :: current, ?_, by simp⟩
  exact mem_filter.mpr ⟨hmem, by simp⟩

/-- Once there are as many steps as longer candidates, more steps change nothing. -/
theorem linkedChain_succ (h : retained.countP (current.length < ·.length) ≤ steps) :
    linkedChain retained (steps + 1) current = linkedChain retained steps current := by
  induction steps generalizing current with
  | zero =>
    unfold linkedChain
    rcases hchildren : retained.filter (candidatePredecessor · = some current) with
      _ | ⟨_, _ | ⟨_⟩⟩
    · rfl
    · exact absurd (countP_child_lt hchildren) (by omega)
    · rfl
  | succ steps ih =>
    unfold linkedChain
    rcases hchildren : retained.filter (candidatePredecessor · = some current) with
      _ | ⟨child, _ | ⟨_⟩⟩
    · rfl
    · have hfewer := countP_child_lt hchildren
      have hsame : linkedChain retained (steps + 1) child = linkedChain retained steps child :=
        ih (by omega)
      exact congrArg (fun above => above >>= fun chain => pure (chain ++ [current])) hsame
    · rfl

/-- As many steps as candidates are enough. -/
theorem linkedChain_enough
    (retained : List LogicalCandidate) (current : LogicalCandidate) (more : Nat) :
    linkedChain retained (retained.length + more) current =
    linkedChain retained retained.length current := by
  induction more with
  | zero => rfl
  | succ _ ih =>
    rw [← Nat.add_assoc, linkedChain_succ, ih]
    exact Nat.le_add_right_of_le countP_le_length

/-- The head of a linked chain has the changes of all of it. -/
theorem linkedChain_spec {visited : List LogicalCandidate}
    (h : linkedChain retained steps current = .ok visited) (fallback : LogicalCandidate) :
    current ∈ visited ∧ visited.Nodup ∧ ∀ c ∈ visited, (c = current ∨ c ∈ retained) ∧
    current.length ≤ c.length ∧ ∀ x ∈ c, x ∈ visited.headD fallback := by
  induction steps generalizing current visited with
  | zero =>
    unfold linkedChain at h
    split at h
    · cases h
      simp
    · rename_i heq
      cases heq
    · cases h
  | succ _ ih =>
    unfold linkedChain at h
    split at h
    · cases h
      simp
    · rename_i child _ hchildren heq
      cases heq
      simp only [ok_rules] at h
      obtain ⟨above, habove, rfl⟩ := h
      obtain ⟨hchild, hnodup, hall⟩ := ih habove
      obtain ⟨hmem, c, rfl⟩ := child_of_filter hchildren
      have hhead : (above ++ [current]).headD fallback = above.headD fallback := by
        cases above with
        | nil => cases hchild
        | cons => rfl
      refine ⟨by simp, ?_, ?_⟩
      · -- everything above the current candidate is longer
        rw [nodup_append]
        refine ⟨hnodup, by simp, ?_⟩
        rintro d hd _ hcurrent rfl
        have hlonger := (hall d hd).2.1
        rw [mem_singleton.mp hcurrent, length_cons] at hlonger
        omega
      intro d hd
      rw [hhead]
      rcases mem_append.mp hd with hd | hd
      · obtain ⟨hfrom, hlonger, hchanges⟩ := hall d hd
        rw [length_cons] at hlonger
        exact ⟨Or.inr (hfrom.elim (· ▸ hmem) id), by omega, hchanges⟩
      obtain rfl := mem_singleton.mp hd
      refine ⟨Or.inl rfl, le_refl _, fun x hx => ?_⟩
      exact (hall _ hchild).2.2 x (mem_cons_of_mem c hx)
    · cases h

theorem selectFromQuorumCandidate_eq_ok {anchor : LogicalCandidate}
    (h : selectFromQuorumCandidate retained anchor = .ok winner) : ∀ x ∈ anchor, x ∈ winner := by
  simp only [selectFromQuorumCandidate, ok_rules] at h
  obtain ⟨_, hchain, -, -, rfl⟩ := h
  obtain ⟨hanchor, -, hall⟩ := linkedChain_spec hchain anchor
  exact (hall anchor hanchor).2.2

/-- Without an anchor every candidate is on the chain of the selected one. -/
theorem selectLinkedCandidateChain_eq_ok (h : selectLinkedCandidateChain retained = .ok winner) :
    ∀ c ∈ retained, ∀ x ∈ c, x ∈ winner := by
  dsimp only [selectLinkedCandidateChain] at h
  split at h
  · rename_i root hroots
    simp only [bind_eq_ok, pure_eq_ok, rejectIf_eq_ok, not_not] at h
    obtain ⟨visited, hchain, -, hlength, rfl⟩ := h
    have hroot := (mem_filter.mp (hroots ▸ mem_singleton_self root)).1
    obtain ⟨-, hnodup, hall⟩ := linkedChain_spec hchain root
    have hvisited : visited ⊆ retained := fun c hc => (hall c hc).1.elim (· ▸ hroot) id
    have hperm := (subperm_of_subset hnodup hvisited).perm_of_length_le hlength.ge
    exact fun c hc => (hall c (hperm.mem_iff.mpr hc)).2.2
  · cases h

theorem highestValidCandidate_sound {N : Type u} [DecidableEq N] (group : ReplicaGroup N) :
    group.Sound fun observed => highestValidCandidate (observed.map Prod.snd) group.required := by
  intro observed _ hnodup hmembers hselect m hack hseen
  simp only [highestValidCandidate, ok_rules, not_or, not_lt, length_map] at hselect
  obtain ⟨⟨-, hlength⟩, hsiblings, hselect⟩ := hselect
  split at hselect
  · rename_i hnone
    -- a candidate is left out only beside a proven sibling
    obtain ⟨o, ho, -, hdurable⟩ := group.exists_durable (fun _ => true) hnodup hmembers
      (by simpa using hlength) hack
    refine selectLinkedCandidateChain_eq_ok hselect o.2 ?_ _ (hseen o ho hdurable)
    have hmem : o.2 ∈ (observed.map Prod.snd).reverse.dedup.reverse := by simpa using ⟨o.1, ho⟩
    refine mem_filter.mpr ⟨hmem, decide_eq_true ?_⟩
    by_contra hleft
    rw [not_or, not_le] at hleft
    obtain ⟨q, hq⟩ := length_eq_one_iff.mp
      (not_not.mp fun hne => hsiblings ⟨o.2, hmem, hleft.1, hne⟩)
    obtain ⟨hsibling, hproven⟩ := mem_filter.mp (hq ▸ mem_singleton_self q)
    refine filter_eq_nil_iff.mp hnone q ?_ hproven
    exact mem_filter.mpr ⟨(mem_filter.mp hsibling).1, decide_eq_true (Or.inr hproven)⟩
  · rename_i anchor hproven
    have hanchor := (mem_filter.mp (hproven ▸ mem_singleton_self anchor)).2
    exact selectFromQuorumCandidate_eq_ok hselect _ (group.change_mem_of_agreement hnodup hmembers
      (of_decide_eq_true hanchor) hack hseen)
  · cases hselect

section

variable {N : Type u} [DecidableEq N]

/-- A mutation names the record it was constructed on; a mutation to the selected value is
acknowledged as it is; a repair of a replica that answered overwrites the record it finds. -/
def logicalRecordProtocol (group : ReplicaGroup N) (coordinator : N) : Protocol N LogicalChange :=
  { group with
    coordinator := coordinator
    follows := fun c record =>
      match c with
      | .baseline _ => false
      | .versioned _ predecessor => predecessor = candidateIdentity record
    select := fun observed => highestValidCandidate (observed.map Prod.snd) group.required
    admits := fun expected _ => expected.isSome
    confirms := fun c winner => winner.any fun record =>
      record.head? = some c ∧ (candidatePredecessor record).isSome
    answersLocally := false
    sound := highestValidCandidate_sound group }

/-- While repairs keep what is in flight or acknowledged, and a mutation to the selected value
finds it on a quorum, no acknowledged mutation is missed. -/
theorem acknowledged_record_read
    (group : ReplicaGroup N) (coordinator idle : N) (records : N → List LogicalChange)
    (actions : List (ReplicaAction N LogicalChange))
    (hkeep : RunKeeps (logicalRecordProtocol group coordinator) (.initial idle records)
    actions) :
    ∀ answer ∈ (replicaRun (logicalRecordProtocol group coordinator) (.initial idle records)
    actions).answers, ∀ m ∈ answer.known, m.change ∈ answer.record :=
  ((ReplicaInvariant.initial idle records).replicaRun hkeep).answers

def firstPolicy : LogicalChange := .versioned 1 .absent
def secondPolicy : LogicalChange := .versioned 2 (.versionId 1)

/-- The first policy is on two replicas; the third has missed it. -/
def laggingThird (node : Nat) : List LogicalChange :=
  if node = 2 then [] else [firstPolicy]

/-- Two reads select the first policy, which the coordinator is asked for again, and repair
the third replica, which then applies the second one.  Its acknowledgement leaves the second
replica behind. -/
def repairedThird : List (ReplicaAction Nat LogicalChange) :=
  [.start 0 0, .observe 0 0, .observe 0 1, .observe 0 2, .choose 0, .confirm 0 firstPolicy,
    .start 1 0, .observe 1 0, .observe 1 1, .observe 1 2, .choose 1, .answer 1,
    .repair ⟨2, some [], [firstPolicy]⟩, .commit secondPolicy, .apply 2 secondPolicy,
    .acknowledge ⟨secondPolicy, [2, 0]⟩]

/-- A read by the second replica. -/
def laterRead : List (ReplicaAction Nat LogicalChange) :=
  [.start 2 1, .observe 2 1, .observe 2 2, .choose 2, .answer 2]

theorem later_read_finds_successor :
    RunKeeps (logicalRecordProtocol threeReplicas 0) (.initial 0 laggingThird)
    (repairedThird ++ laterRead) ∧
    (∀ answer ∈ (replicaRun (logicalRecordProtocol threeReplicas 0) (.initial 0 laggingThird)
    (repairedThird ++ laterRead)).answers, ∀ m ∈ answer.known, m.change ∈ answer.record) ∧
    (replicaRun (logicalRecordProtocol threeReplicas 0) (.initial 0 laggingThird)
    (repairedThird ++ laterRead)).answers.head? =
    some ⟨[⟨secondPolicy, [2, 0]⟩, ⟨firstPolicy, [0, 1]⟩], [secondPolicy, firstPolicy]⟩ :=
  ⟨by decide, acknowledged_record_read threeReplicas 0 0 laggingThird
    (repairedThird ++ laterRead) (by decide), by decide⟩

/-- The repair of the other read takes effect after the acknowledgement. -/
theorem late_repair_hides_record :
    ∃ answer ∈ (replicaRun (logicalRecordProtocol threeReplicas 0) (.initial 0 laggingThird)
    (repairedThird ++ .repair ⟨2, some [], [firstPolicy]⟩ :: laterRead)).answers,
    ∃ m ∈ answer.known, m.change ∉ answer.record := by
  decide

end

end Keldra.Cluster
