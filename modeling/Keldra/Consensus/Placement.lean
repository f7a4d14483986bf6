import Keldra.Consensus.ClusterRuns

/-!
# Identity of the active placement

Serving leases and routed writes are fenced by `activePlacementLogId`.  The
map from ACTIVE nodes to storage weights is what that identity stands for: a
command changes the map exactly when it stores its own log identity, so along
a run equal identities mean equal maps and a later identity is a larger one.
-/

namespace Keldra.Consensus

open Foundation StateMachine

/-- What a descriptor contributes to the placement. -/
def NodeDescriptor.placedWeight (d : NodeDescriptor) : Option Nat :=
  if d.state = .active then some d.storageWeightMillionths else none

open NodeDescriptor

/-- The map from ACTIVE node identities to storage weights. -/
def activeWeights (cluster : ClusterControlState) : OrdMap NodeId Nat :=
  (cluster.nodes.filter (fun e => e.2.state = .active)).mapValues (·.storageWeightMillionths)

theorem get?_activeWeights (cluster : ClusterControlState) (n : NodeId) :
    (activeWeights cluster).get? n = (cluster.nodes.get? n).bind placedWeight := by
  rw [activeWeights, OrdMap.get?_mapValues, OrdMap.get?_filter]
  cases cluster.nodes.get? n with
  | none => rfl
  | some d =>
    by_cases h : d.state = .active <;>
      simp [placedWeight, h]

section

variable {c c' : ClusterControlState} {n : NodeId} {d : NodeDescriptor}

theorem activeWeights_congr (hnodes : c'.nodes = c.nodes) : activeWeights c' = activeWeights c := by
  unfold activeWeights
  rw [hnodes]

/-- Storing a descriptor with the same contribution keeps the placement. -/
theorem activeWeights_insert_eq (hnodes : c'.nodes = c.nodes.insert n d) (hsame :
    (c.nodes.get? n).bind placedWeight = d.placedWeight) :
    activeWeights c' = activeWeights c := by
  apply OrdMap.ext_get?
  intro m
  rw [get?_activeWeights, get?_activeWeights, hnodes, OrdMap.get?_insert]
  by_cases hm : m = n
  · rw [if_pos hm, hm, hsame]
    rfl
  · rw [if_neg hm]

/-- A node whose contribution differs changes the placement. -/
theorem activeWeights_ne (hdiffer : (c'.nodes.get? n).bind placedWeight ≠
    (c.nodes.get? n).bind placedWeight) : activeWeights c' ≠ activeWeights c := by
  intro hsame
  apply hdiffer
  rw [← get?_activeWeights, ← get?_activeWeights, hsame]

end

variable {s : StateMachine}

/--
One step either changes the placement and stores its own log identity, or
changes neither.
-/
theorem placement_step {activated : Bool} {command : Command} {t : StateMachine}
    {outcome : Except ApplyError ApplyResult} {id : LogId} (hinv : ClusterInv activated s)
    (hstep : Step s id command t outcome) :
    (activeWeights t.clusterControl ≠ activeWeights s.clusterControl ∧
    t.clusterControl.activePlacementLogId = some id) ∨
    (activeWeights t.clusterControl = activeWeights s.clusterControl ∧
    t.clusterControl.activePlacementLogId = s.clusterControl.activePlacementLogId) := by
  obtain ⟨hd, ht⟩ := hinv
  cases hstep with
  | rejected => exact .inr ⟨rfl, rfl⟩
  | decision hdecision =>
    obtain ⟨hcontrol, _⟩ := decisionStep_clusterControl hdecision
    rw [hcontrol]
    exact .inr ⟨rfl, rfl⟩
  | cluster hcluster =>
    cases hcluster with
    | addBegun version d transition htransition hvalid hjoining hnone hunused
      hunique =>
      -- an unused identity has no descriptor yet
      have habsent : s.clusterControl.nodes.get? d.nodeId = none := by
        cases hget : s.clusterControl.nodes.get? d.nodeId with
        | none => rfl
        | some e =>
          rw [hd.used _ e hget] at hunused
          cases hunused
      refine .inr ⟨activeWeights_insert_eq rfl ?_, rfl⟩
      rw [habsent]
      simp [placedWeight, hjoining]
    | activated _ transition d _ _ hget _ hjoining =>
      refine .inl ⟨activeWeights_ne (n := transition.nodeId) ?_, rfl⟩
      simp [setActivePlacement, putDescriptor,
        hget, placedWeight, hjoining]
    | removed _ transition d _ _ hget hactive =>
      refine .inl ⟨activeWeights_ne (n := transition.nodeId) ?_, rfl⟩
      simp [setActivePlacement, setTransition,
        removeDescriptor, OrdMap.get?_erase, hget,
        placedWeight, hactive]
    | reweighted _ transition d _ hsome hkind hweight hget hactive =>
      obtain ⟨_, hget', _, hreweight⟩ := ht.target transition hsome
      obtain rfl := Option.mem_unique hget hget'
      obtain ⟨w, hw, _, hdiffer⟩ := hreweight hkind
      obtain rfl := Option.mem_unique hweight hw
      refine .inl ⟨activeWeights_ne (n := transition.nodeId) ?_, rfl⟩
      simpa [setActivePlacement, setTransition,
        putDescriptor, hget, placedWeight, hactive] using hdiffer.symm
    | refreshed _ _ _ _ _ _ _ hget =>
      refine .inr ⟨activeWeights_insert_eq rfl ?_, rfl⟩
      simp [hget, placedWeight]
    | overlapStaged _ n d _ hget | overlapPromoted _ n d _ hget | overlapCleared _ n d hget =>
      refine .inr ⟨activeWeights_insert_eq rfl ?_, rfl⟩
      simp [hget, placedWeight]
    | _ => exact .inr ⟨activeWeights_congr rfl, rfl⟩

variable {maxCommitEntries maxCommitBytes : Nat}

section

variable (hnew : StateMachine.new maxCommitEntries maxCommitBytes = .ok s)

include hnew

theorem placement_at (log : List LogEntry) (entry : LogEntry) :
    (activeWeights (applyEntry (applyAll s log) entry).1.clusterControl ≠
    activeWeights (applyAll s log).clusterControl ∧
    (applyEntry (applyAll s log) entry).1.clusterControl.activePlacementLogId = some entry.1) ∨
    (activeWeights (applyEntry (applyAll s log) entry).1.clusterControl =
    activeWeights (applyAll s log).clusterControl ∧
    (applyEntry (applyAll s log) entry).1.clusterControl.activePlacementLogId =
    (applyAll s log).clusterControl.activePlacementLogId) :=
  placement_step (clusterInv_applyAll hnew log) (apply_step rfl)

/-- The stored identity is the identity of an entry of the log. -/
theorem placement_mem_log (log : List LogEntry) :
    ∀ id, (applyAll s log).clusterControl.activePlacementLogId = some id →
    ∃ entry ∈ log, entry.1 = id := by
  refine runFrom_induction (motive := fun done (t : StateMachine) =>
      ∀ id, t.clusterControl.activePlacementLogId = some id → ∃ entry ∈ done, entry.1 = id)
    prefixClosed_true ?_ ?_ log trivial
  · intro _ hsome
    rw [new_eq_ok hnew] at hsome
    cases hsome
  intro done entry _ ih id hsome
  rcases placement_at hnew done entry with ⟨_, hown⟩ | ⟨_, hsame⟩
  · refine ⟨entry, by simp, ?_⟩
    exact Option.some.inj (hown.symm.trans hsome)
  obtain ⟨earlier, hmem, hid⟩ := ih id (hsame.symm.trans hsome)
  exact ⟨earlier, List.mem_append_left _ hmem, hid⟩

/-- Between two points of a run the placement is kept, or a later entry set it. -/
theorem placement_between (before after : List LogEntry) :
    (activeWeights (applyAll s (before ++ after)).clusterControl =
    activeWeights (applyAll s before).clusterControl ∧
    (applyAll s (before ++ after)).clusterControl.activePlacementLogId =
    (applyAll s before).clusterControl.activePlacementLogId) ∨
    ∃ entry ∈ after, (applyAll s (before ++ after)).clusterControl.activePlacementLogId =
    some entry.1 := by
  rw [applyAll_append]
  refine runFrom_induction (motive := fun done (t : StateMachine) =>
      (activeWeights t.clusterControl = activeWeights (applyAll s before).clusterControl ∧
        t.clusterControl.activePlacementLogId =
          (applyAll s before).clusterControl.activePlacementLogId) ∨
        ∃ entry ∈ done, t.clusterControl.activePlacementLogId = some entry.1)
    prefixClosed_true (.inl ⟨rfl, rfl⟩) ?_ after trivial
  intro done entry _ ih
  have hat := placement_at hnew (before ++ done) entry
  rw [applyAll_append] at hat
  rcases hat with ⟨_, hown⟩ | ⟨hweights, hsame⟩
  · exact .inr ⟨entry, by simp, hown⟩
  rcases ih with ⟨hweights', hsame'⟩ | ⟨setter, hmem, hset⟩
  · exact .inl ⟨hweights.trans hweights', hsame.trans hsame'⟩
  · exact .inr ⟨setter, List.mem_append_left _ hmem, hsame.trans hset⟩

end

/--
The active placement identity.  In every run at increasing log indexes each
entry changes the ACTIVE node weights exactly when it stores its own log
identity and otherwise keeps the stored one; two states of the run with the
same identity have the same weights; and a later different identity has a
larger log index.
-/
theorem active_placement_identity {maxCommitEntries maxCommitBytes : Nat} {s : StateMachine}
    (hnew : StateMachine.new maxCommitEntries maxCommitBytes = .ok s) {log : List LogEntry}
    (hlog : IncreasingLog log) :
    (∀ before entry after, log = before ++ entry :: after → (activeWeights
    (applyEntry (applyAll s before) entry).1.clusterControl ≠
    activeWeights (applyAll s before).clusterControl ↔
    (applyEntry (applyAll s before) entry).1.clusterControl.activePlacementLogId = some entry.1) ∧
    ((applyEntry (applyAll s before) entry).1.clusterControl.activePlacementLogId ≠ some entry.1 →
    (applyEntry (applyAll s before) entry).1.clusterControl.activePlacementLogId =
    (applyAll s before).clusterControl.activePlacementLogId)) ∧
    (∀ before between after, log = before ++ between ++ after →
    ((applyAll s before).clusterControl.activePlacementLogId =
    (applyAll s (before ++ between)).clusterControl.activePlacementLogId →
    activeWeights (applyAll s before).clusterControl =
    activeWeights (applyAll s (before ++ between)).clusterControl) ∧
    ((applyAll s before).clusterControl.activePlacementLogId ≠
    (applyAll s (before ++ between)).clusterControl.activePlacementLogId →
    ∃ later, (applyAll s (before ++ between)).clusterControl.activePlacementLogId = some later ∧
    ∀ earlier, (applyAll s before).clusterControl.activePlacementLogId = some earlier →
    earlier.index < later.index)) := by
  refine ⟨?_, ?_⟩
  · rintro before entry _ rfl
    have hbelow : ∀ e ∈ before, e.1.index < entry.1.index := by
      intro e he
      exact (List.pairwise_append.mp hlog).2.2 e he entry (by simp)
    rcases placement_at hnew before entry with
      ⟨hchanged, hown⟩ | ⟨hkept, hsame⟩
    · exact ⟨⟨fun _ => hown, fun _ => hchanged⟩, fun hne => absurd hown hne⟩
    refine ⟨⟨fun hne => absurd hkept hne, ?_⟩, fun _ => hsame⟩
    -- the own identity cannot already be stored: it would be in the prefix
    intro hown
    obtain ⟨e, he, hid⟩ := placement_mem_log hnew before entry.1 (hsame.symm.trans hown)
    have hlt := hbelow e he
    rw [hid] at hlt
    exact absurd hlt (lt_irrefl _)
  rintro before between _ rfl
  have habove : ∀ e ∈ before, ∀ e' ∈ between, e.1.index < e'.1.index := by
    have hprefix := (List.pairwise_append.mp hlog).1
    exact (List.pairwise_append.mp hprefix).2.2
  rcases placement_between hnew before between with
    ⟨hweights, hsame⟩ | ⟨setter, hmem, hset⟩
  · exact ⟨fun _ => hweights.symm, fun hne => absurd hsame.symm hne⟩
  have hlarger : ∀ earlier, (applyAll s before).clusterControl.activePlacementLogId = some
    earlier → earlier.index < setter.1.index := by
    intro earlier hearlier
    obtain ⟨e, he, rfl⟩ := placement_mem_log hnew before earlier hearlier
    exact habove e he setter hmem
  refine ⟨?_, fun _ => ⟨setter.1, hset, hlarger⟩⟩
  intro hequal
  have hlt := hlarger setter.1 (hequal.trans hset)
  exact absurd hlt (lt_irrefl _)

/-- The activation in the sample log is an entry that changes the weights. -/
theorem active_placement_identity_admissionLog : (applyAll (.initial 4 65536)
    (admissionLog.take 3)).clusterControl.activePlacementLogId = some (sampleLogId 3) ∧
    (activeWeights (applyEntry (applyAll (.initial 4 65536) (admissionLog.take 2))
    (sampleLogId 3, .completeMembershipTransition 1 2)).1.clusterControl ≠
    activeWeights (applyAll (.initial 4 65536) (admissionLog.take 2)).clusterControl ↔
    (applyEntry (applyAll (.initial 4 65536) (admissionLog.take 2))
    (sampleLogId 3, .completeMembershipTransition 1 2)).1.clusterControl.activePlacementLogId =
    some (sampleLogId 3)) :=
  ⟨by decide +kernel, ((active_placement_identity
    (rfl : StateMachine.new 4 65536 = .ok (.initial 4 65536))
    (by decide : IncreasingLog admissionLog)).1
    (admissionLog.take 2) (sampleLogId 3, .completeMembershipTransition 1 2)
    _ rfl).1⟩

end Keldra.Consensus
