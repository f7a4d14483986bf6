import Keldra.Consensus.ClusterRuns
import Keldra.Consensus.Peer

/-!
# Reading the membership checks

Each check of a restored machine, of a command and of a proposal is a scan
over a finite map.  This module states what a successful scan establishes.
-/

namespace Keldra.Consensus

open Foundation OrdMap List OrdSet

section

variable {entries : List (NodeId × String)}

theorem isActiveNode_iff {c : ClusterControlState} {n : NodeId} :
    isActiveNode c n = true ↔ HasState c.nodes n .active := by
  unfold isActiveNode HasState
  cases c.nodes.get? n <;> simp

theorem validateVoters_eq_ok {membership : Membership} {decisions : StateMachine} {expected : Nat} :
    validateVoters membership decisions expected = .ok () ↔ membership.voterIds.size = expected ∧
    ∀ v, membership.voterIds.contains v = true →
    HasState decisions.clusterControl.nodes v .active := by
  simp only [validateVoters, ok_rules, not_not]
  refine and_congr_right (fun _ => ?_)
  simp only [← isActiveNode_iff, contains_iff_mem_keys]
  cases hfind : membership.voterIds.keys.find?
    (fun voter => !isActiveNode decisions.clusterControl voter) with
  | none => simpa using hfind
  | some voter =>
    have hmem := mem_of_find?_eq_some hfind
    have hnot := find?_some hfind
    simp only [reduceCtorEq, false_iff, not_forall]
    exact ⟨voter, hmem, by simpa using hnot⟩

theorem validateMembers_eq_ok {c : ClusterControlState} :
    MachineState.validateMembers c entries = .ok () ↔ ∀ e ∈ entries,
    ∃ d, c.nodes.get? e.1 = some d ∧ d.peerAddress.value = e.2 := by
  induction entries with
  | nil => simp [MachineState.validateMembers]
  | cons e _ ih =>
    simp only [MachineState.validateMembers, ok_rules, not_not, ih, forall_mem_cons]
    constructor
    · rintro ⟨d, hget, haddress, hrest⟩
      exact ⟨⟨d, hget, haddress⟩, hrest⟩
    rintro ⟨⟨d, hget, haddress⟩, hrest⟩
    exact ⟨d, hget, haddress, hrest⟩

theorem validateDescriptors_eq_ok {c : ClusterControlState} {membership : Membership}
    {entries : List (NodeId × NodeDescriptor)} :
    MachineState.validateDescriptors c membership entries = .ok () ↔ ∀ e ∈ entries,
    e.2.nodeId = e.1 ∧ c.usedNodeIds.contains e.1 = true ∧ (membership.getNode e.1 = none →
    MachineState.membershipOptional c e.1 e.2 = true) ∧
    (e.2.state = .joining → MachineState.transitionKind c e.1 = some .add) := by
  induction entries with
  | nil => simp [MachineState.validateDescriptors]
  | cons e _ ih =>
    simp only [MachineState.validateDescriptors, ok_rules, not_not, not_and, ih,
      forall_mem_cons, Bool.not_eq_false, and_assoc]

theorem admissionConflict_eq_ok {decisions : StateMachine} {d : NodeDescriptor} :
    admissionConflict decisions d entries = .ok () ↔ ∀ e ∈ entries,
    (e.1 = d.nodeId → e.2 = d.peerAddress.value) ∧ (e.1 ≠ d.nodeId →
    decisions.clusterControl.nodes.contains e.1 = true) := by
  induction entries with
  | nil => simp [admissionConflict]
  | cons e _ ih =>
    unfold admissionConflict
    by_cases h : e.1 = d.nodeId
    · simp [h, ih]
    · simp [h, ih]

end

namespace Membership

variable {m : Membership}

theorem contains_voterIds {v : NodeId} :
    m.voterIds.contains v = true ↔ ∃ config ∈ m.configs, config.contains v = true := by
  rw [voterIds, contains_ofKeys, mem_flatMap]
  simp only [contains_iff_mem_keys]

/-- A single configuration is its own set of voters. -/
theorem voterIds_singleton {config : OrdSet NodeId}
    (h : m.configs = [config]) : m.voterIds = config := by
  apply ext_contains
  intro v
  rw [contains_voterIds, h]
  simp

theorem last_subset_voterIds {last : OrdSet NodeId} {v : NodeId}
    (hlast : m.configs.getLast? = some last) (hv : last.contains v = true) :
    m.voterIds.contains v = true :=
  contains_voterIds.mpr ⟨last, mem_of_getLast? hlast, hv⟩

/-- A last configuration as large as the voters is all of them. -/
theorem uniform_of_size {last : OrdSet NodeId}
    (hlast : m.configs.getLast? = some last) (hsize : last.size = m.voterIds.size) : m.Uniform := by
  have hsub : last.keys ⊆ m.voterIds.keys := by
    intro v hv
    rw [← contains_iff_mem_keys] at hv ⊢
    exact last_subset_voterIds hlast hv
  have hperm : last.keys.Perm m.voterIds.keys := by
    refine (subperm_of_subset last.nodup_keys hsub).perm_of_length_le ?_
    simp only [OrdMap.keys, length_map]
    exact hsize.ge
  have heq : last = m.voterIds := by
    apply ext_contains
    intro v
    rw [contains_iff_mem_keys, contains_iff_mem_keys]
    exact hperm.mem_iff
  rw [Uniform, hlast, heq]

end Membership

end Keldra.Consensus
