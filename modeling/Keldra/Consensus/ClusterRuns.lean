import Keldra.Consensus.ReplayWindow
import Keldra.Consensus.ClusterInvariant

/-!
# Cluster state along a run

The step lemmas of the cluster invariant, its consequences for every run of
commands, and the identity of the active placement: the log identity stored
with the ACTIVE nodes and their weights changes exactly when these do.
-/

namespace Keldra.Consensus

open Foundation NodeDescriptor StateMachine MembershipTransitionKind TransitionInv

variable {s : StateMachine} {activated : Bool} {t : StateMachine} {command : Command} {id : LogId}
  {maxCommitEntries maxCommitBytes : Nat} {outcome : Except ApplyError ApplyResult}

/-- Both halves of the invariant of the cluster-control state. -/
structure ClusterInv (activated : Bool) (s : StateMachine) : Prop where
  descriptors : DescriptorInv s.clusterControl.nodes s.clusterControl.usedNodeIds
  transitions : TransitionInv activated s.clusterControl

theorem clusterInv_initial (maxCommitEntries maxCommitBytes : Nat) :
    ClusterInv false (.initial maxCommitEntries maxCommitBytes) := by
  have hempty : ∀ n d, (initial maxCommitEntries
        maxCommitBytes).clusterControl.nodes.get? n ≠ some d := by
    simp [initial, ClusterControlState.default]
  refine ⟨?_, finish rfl ?_⟩
  · constructor
    · intro n d h
      exact absurd h (hempty n d)
    · intro n d h
      exact absurd h (hempty n d)
    · intro n d h
      exact absurd h (hempty n d)
    · intro n m d e h
      exact absurd h (hempty n d)
    · intro n m d e _ h
      exact absurd h (hempty n d)
    intro n m d e _ h
    exact absurd h (hempty n d)
  · rintro m ⟨d, h, _⟩
    exact hempty m d h

/-- Each cluster-control effect keeps the invariant. -/
theorem clusterInv_clusterStep {result : ApplyResult}
    (h : ClusterInv activated s)
    (hstep : ClusterStep s id command t result) :
    ClusterInv (activatedAfter activated (.ok result)) t := by
  obtain ⟨hd, ht⟩ := h
  cases hstep with
  | kept _ result hresult =>
    have hsame : activatedAfter activated (.ok result) = activated := by
      cases result <;> first | rfl | simp [ApplyResult.isRetry] at hresult
    rw [hsame]
    exact ⟨hd, ht⟩
  | initialized | jwtBound | profileBound => exact ⟨hd, ht.congr rfl rfl⟩
  | addBegun _ d _ htransition hvalid hjoining hnone hunused hunique =>
    refine ⟨?_, ?_⟩
    · exact hd.admitNode (validateDescriptor_eq_ok.mp hvalid) hjoining hunique
    refine ht.beginAdd hnone rfl rfl ?_ ?_ hjoining
    · rw [htransition]
    · rw [htransition]
  | removeBegun _ n d _ htransition hnone hget hactive hcount =>
    subst htransition
    refine ⟨hd, ht.beginOther hnone rfl rfl ?_ hget hactive ?_ ?_⟩
    · exact noConfusion
    · exact fun hkind => noConfusion hkind
    · exact fun _ => exists_other_active hget hactive hcount
  | reweightBegun version n d weight transition htransition hnone hget hactive
    hpositive hchanged =>
    subst htransition
    refine ⟨hd, ht.beginOther hnone rfl rfl ?_ hget hactive ?_ ?_⟩
    · exact noConfusion
    · exact fun _ => ⟨weight, rfl, hpositive, hchanged⟩
    · exact fun hkind => noConfusion hkind
  | activated _ _ d hsome hkind hget =>
    have hok := hd.valid _ _ hget
    refine ⟨?_, ?_⟩
    · refine hd.put_same hget rfl rfl ?_ (fun _ hpin => hpin) ?_
      · exact
          { hok with joining := fun hstate => NodeState.noConfusion hstate, active := fun _ => rfl }
      intro _ hnone
      cases hnone
    · exact ht.activate hsome hkind rfl rfl rfl
  | addFinished _ _ d hsome _ hget hactive =>
    refine ⟨hd, finish rfl ?_⟩
    intro m hjoining
    obtain ⟨_, hsome', _, rfl, _⟩ := (ht.joining m).mp hjoining
    obtain rfl := Option.mem_unique hsome hsome'
    have hstate := (hasState_unique hget).mp hjoining
    rw [hactive] at hstate
    cases hstate
  | removed _ transition d hsome hkind =>
    refine ⟨hd.remove transition.nodeId, finish rfl ?_⟩
    intro m hjoining
    have hold := (hasState_erase.mp hjoining).2
    refine ht.no_joining ?_ m hold
    intro _ hsome' hadd
    rw [hsome, Option.some.injEq] at hsome'
    rw [← hsome', hkind] at hadd
    cases hadd
  | reweighted _ transition d weight hsome hkind hweight hget hactive =>
    obtain ⟨_, hget', _, hreweight⟩ := ht.target transition hsome
    obtain ⟨w, hw, hpositive, _⟩ := hreweight hkind
    obtain rfl := Option.mem_unique hweight hw
    have hok := hd.valid _ _ hget
    refine ⟨?_, finish rfl ?_⟩
    · exact hd.put_same hget rfl rfl { hok with weight := hpositive }
        (fun _ hpin => hpin) (fun _ hcap => hcap)
    intro m hjoining
    rcases hasState_insert.mp hjoining with ⟨_, hstate⟩ | ⟨_, hold⟩
    · have hjoining' : d.state = .joining := hstate
      rw [hactive] at hjoining'
      cases hjoining'
    refine ht.no_joining ?_ m hold
    intro _ hsome' hadd
    rw [hsome, Option.some.injEq] at hsome'
    rw [← hsome', hkind] at hadd
    cases hadd
  | refreshed command transition d pin capability hsome hkind hget hjoining hoverlap
    hpin hcapability hpinUnique hcapabilityUnique =>
    have hok := hd.valid _ _ hget
    refine ⟨?_, ht.put_same hget rfl rfl rfl rfl⟩
    refine hd.put hget rfl rfl ?_ ?_ ?_
    · exact
        { hok with
          current := hpin
          overlap := by
            intro other hsome'
            rw [show d.overlapPeerSpkiSha256 = some other from hsome'] at hoverlap
            cases hoverlap
          joining := fun _ => ⟨⟨capability, rfl, hcapability⟩, hoverlap⟩
          active := fun hactive => absurd (hjoining.symm.trans hactive) (by simp) }
    · intro m e other hold hne hmem
      have hother : other = pin := by simpa [pins, hoverlap] using hmem
      rw [hother]
      exact ensurePinUnique_eq_ok.mp hpinUnique m e hold hne
    · intro m e _ hold hne hsome'
      obtain rfl := Option.some.inj hsome'
      exact ensureJoinCapabilityUnique_eq_ok.mp hcapabilityUnique m e hold hne
  | overlapStaged _ n d overlap hget hactive hpin hdiffer hunique =>
    have hok := hd.valid _ _ hget
    refine ⟨?_, ht.put_same hget rfl rfl rfl rfl⟩
    refine hd.put hget rfl rfl ?_ ?_ ?_
    · exact
        { hok with
          overlap := by
            intro _ hsome
            obtain rfl := Option.some.inj hsome
            exact ⟨hpin, hdiffer.symm⟩
          joining := fun hjoining => absurd (hactive.symm.trans hjoining) (by simp) }
    · intro m e other hold hne hmem
      rcases mem_pins.mp hmem with hcurrent | hoverlap
      · intro hmem'
        refine hne (hd.pins m n e d other hold hget hmem' ?_)
        exact mem_pins.mpr (.inl hcurrent)
      obtain rfl := Option.some.inj hoverlap
      exact ensurePinUnique_eq_ok.mp hunique m e hold hne
    · intro m e capability _ _ hsome
      have hnone := hok.active hactive
      rw [show d.joinCapabilityHash = some capability from hsome] at hnone
      cases hnone
  | overlapPromoted _ n d overlap hget hactive hoverlap =>
    have hok := hd.valid _ _ hget
    obtain ⟨hpin, hdiffer⟩ := hok.overlap overlap hoverlap
    refine ⟨?_, ht.put_same hget rfl rfl rfl rfl⟩
    refine hd.put_same hget rfl rfl ?_ ?_ (fun _ hcap => hcap)
    · exact
        { hok with
          current := hpin
          overlap := by
            intro _ hsome
            obtain rfl := Option.some.inj hsome
            exact ⟨hok.current, hdiffer.symm⟩
          joining := fun hjoining => absurd (hactive.symm.trans hjoining) (by simp) }
    · intro _ hmem
      rcases mem_pins.mp hmem with hcurrent | hprevious
      · exact mem_pins.mpr (.inr (hoverlap.trans (congrArg some hcurrent)))
      · exact mem_pins.mpr (.inl (Option.some.inj hprevious))
  | overlapCleared _ n d hget =>
    have hok := hd.valid _ _ hget
    refine ⟨?_, ht.put_same hget rfl rfl rfl rfl⟩
    refine hd.put_same hget rfl rfl ?_ ?_ (fun _ hcap => hcap)
    · exact
        { hok with
          overlap := by
            intro _ hsome
            cases hsome
          joining := fun hjoining => ⟨(hok.joining hjoining).1, rfl⟩ }
    intro _ hmem
    rcases mem_pins.mp hmem with hcurrent | hnone
    · exact mem_pins.mpr (.inl hcurrent)
    · cases hnone

/-- The batch and executor commands leave the cluster state alone. -/
theorem decisionStep_clusterControl {index : Nat} (h : DecisionStep s index command t outcome) :
    t.clusterControl = s.clusterControl ∧
    ∀ activated, activatedAfter activated outcome = activated := by
  have hpruned :
      ∀ {p proposalAt r}, s.pruneCommittedInvocations (s.expiredFinalizedCursors proposalAt) =
        (p, r) →
        p.clusterControl = s.clusterControl := by
    intro p _ r hprune
    rw [(pruneCommittedInvocations_pruned hprune).frame]
  cases h with
  | pruningFailed _ p _ _ hprune => exact ⟨hpruned hprune, fun _ => rfl⟩
  | begun _ p t _ _ hprune hsettle =>
    have hp : p.clusterControl = s.clusterControl := hpruned hprune
    rcases replayOrPrepare_cases hsettle with
      ⟨rfl, ⟨_, rfl⟩ | ⟨_, rfl⟩⟩ | ⟨rfl, rfl, _⟩
    · exact ⟨hp, fun _ => rfl⟩
    · exact ⟨hp, fun _ => rfl⟩
    · exact ⟨hp, fun _ => rfl⟩
  | _ => exact ⟨rfl, fun _ => rfl⟩

theorem clusterInv_step (h : ClusterInv activated s) (hstep : Step s id command t outcome) :
    ClusterInv (activatedAfter activated outcome) t := by
  cases hstep with
  | rejected => exact h
  | cluster hcluster => exact clusterInv_clusterStep h hcluster
  | decision hdecision =>
    obtain ⟨hcontrol, hactivated⟩ := decisionStep_clusterControl hdecision
    rw [hactivated]
    constructor
    · rw [hcontrol]
      exact h.descriptors
    rw [hcontrol]
    exact h.transitions

/-- Whether the current transition of a run has activated its node. -/
def activatedOf (s : StateMachine) (log : List LogEntry) : Bool :=
  (outcomesOf s log).foldl activatedAfter false

theorem activatedOf_snoc (s : StateMachine) (log : List LogEntry) (entry : LogEntry) :
    activatedOf s (log ++ [entry]) = activatedAfter (activatedOf s log)
    (applyEntry (applyAll s log) entry).2 := by
  unfold activatedOf outcomesOf
  rw [outputsFrom_snoc, List.foldl_append]
  rfl

theorem new_eq_ok (h : new maxCommitEntries maxCommitBytes = .ok s) :
    s = .initial maxCommitEntries maxCommitBytes := by
  simp only [new, ok_rules] at h
  exact h.2.2.symm

/-- The invariant holds after every log. -/
theorem clusterInv_applyAll
    (hnew : new maxCommitEntries maxCommitBytes = .ok s) (log : List LogEntry) :
    ClusterInv (activatedOf s log) (applyAll s log) := by
  obtain rfl := new_eq_ok hnew
  refine runFrom_induction (motive := fun done t => ClusterInv (activatedOf _ done) t)
    prefixClosed_true (clusterInv_initial _ _) ?_ log trivial
  intro _ _ _ hinv
  rw [activatedOf_snoc]
  exact clusterInv_step hinv (apply_step rfl)

/-- The four ways a step can treat the admitted descriptors. -/
inductive NodesChange (before after : ClusterControlState) : Prop
  | same (hnodes : after.nodes = before.nodes) (hused : after.usedNodeIds = before.usedNodeIds)
  | edited (n : NodeId) (d d' : NodeDescriptor) (hget : before.nodes.get? n = some d)
      (hnodes : after.nodes = before.nodes.insert n d')
      (hused : after.usedNodeIds = before.usedNodeIds)
      (hstate : d.state = .active → d'.state = .active)
  | admitted (d : NodeDescriptor) (hrange : d.nodeId < 1024)
      (hunused : before.usedNodeIds.contains d.nodeId = false)
      (hnodes : after.nodes = before.nodes.insert d.nodeId d)
      (hused : after.usedNodeIds = before.usedNodeIds.insert d.nodeId)
  | removed (transition : MembershipTransition) (hsome : before.transition = some transition)
      (hkind : transition.kind = .remove)
      (hnodes : after.nodes = before.nodes.erase transition.nodeId)
      (hused : after.usedNodeIds = before.usedNodeIds)

theorem nodesChange_of_step (h : Step s id command t outcome) :
    NodesChange s.clusterControl t.clusterControl := by
  cases h with
  | rejected => exact .same rfl rfl
  | decision hdecision =>
    obtain ⟨hcontrol, _⟩ := decisionStep_clusterControl hdecision
    rw [hcontrol]
    exact .same rfl rfl
  | cluster hcluster =>
    cases hcluster with
    | addBegun version d transition htransition hvalid hjoining hnone hunused
      hunique =>
      have hrange := validateNodeId_eq_ok.mp (validateDescriptor_eq_ok.mp hvalid).nodeId
      exact .admitted d (Nat.lt_succ_of_le hrange.2) hunused rfl rfl
    | activated _ transition d _ _ hget =>
      exact .edited transition.nodeId d _ hget rfl rfl (fun _ => rfl)
    | removed _ transition d hsome hkind => exact .removed transition hsome hkind rfl rfl
    | reweighted _ transition d _ _ _ _ hget =>
      exact .edited transition.nodeId d _ hget rfl rfl (fun h => h)
    | refreshed command transition d pin capability hsome hkind hget hjoining
      hoverlap hpin hcapability hpinUnique hcapabilityUnique =>
      exact .edited transition.nodeId d _ hget rfl rfl (fun h => h)
    | overlapStaged _ n d _ hget => exact .edited n d _ hget rfl rfl (fun h => h)
    | overlapPromoted _ n d _ hget => exact .edited n d _ hget rfl rfl (fun h => h)
    | overlapCleared _ n d hget => exact .edited n d _ hget rfl rfl (fun h => h)
    | _ => exact .same rfl rfl

variable {n : NodeId}

section

variable {before after : ClusterControlState}

theorem NodesChange.used_mono
    (h : NodesChange before after) (hused : before.usedNodeIds.contains n = true) :
    after.usedNodeIds.contains n = true := by
  cases h with
  | same _ hsame => rwa [hsame]
  | edited _ _ _ _ _ hsame => rwa [hsame]
  | admitted d hrange _ _ hinsert =>
    rw [hinsert, UsedNodeIds.contains_insert _ hrange, hused]
    rfl
  | removed _ _ _ _ hsame => rwa [hsame]

/-- Only an identity that was never used is newly admitted. -/
theorem NodesChange.unused_of_admitted {d : NodeDescriptor}
    (h : NodesChange before after)
    (hbefore : before.nodes.get? n = none) (hafter : after.nodes.get? n = some d) :
    before.usedNodeIds.contains n = false := by
  cases h with
  | same hnodes =>
    rw [hnodes, hbefore] at hafter
    cases hafter
  | edited m e _ hget hnodes =>
    rw [hnodes, OrdMap.get?_insert] at hafter
    by_cases hm : n = m
    · rw [hm, hget] at hbefore
      cases hbefore
    rw [if_neg hm, hbefore] at hafter
    cases hafter
  | admitted e _ hunused hnodes =>
    rw [hnodes, OrdMap.get?_insert] at hafter
    by_cases hm : n = e.nodeId
    · rw [hm]
      exact hunused
    rw [if_neg hm, hbefore] at hafter
    cases hafter
  | removed _ _ _ hnodes =>
    rw [hnodes, OrdMap.get?_erase, hbefore] at hafter
    simp at hafter

/-- Some ACTIVE node survives every step. -/
theorem NodesChange.active_stays (h : NodesChange before after)
    (hd : DescriptorInv before.nodes before.usedNodeIds) (ht : TransitionInv activated before)
    (hsome : ∃ n, HasState before.nodes n .active) : ∃ n, HasState after.nodes n .active := by
  obtain ⟨n, hn⟩ := hsome
  cases h with
  | same hnodes =>
    rw [hnodes]
    exact ⟨n, hn⟩
  | edited m e _ hget hnodes _ hstate =>
    refine ⟨n, ?_⟩
    rw [hnodes, hasState_insert]
    by_cases hm : n = m
    · subst hm
      exact .inl ⟨rfl, hstate ((hasState_unique hget).mp hn)⟩
    · exact .inr ⟨hm, hn⟩
  | admitted e _ hunused hnodes =>
    have hne : n ≠ e.nodeId := by
      rintro rfl
      obtain ⟨d, hget, _⟩ := hn
      rw [hd.used _ d hget] at hunused
      cases hunused
    refine ⟨n, ?_⟩
    rw [hnodes, hasState_insert]
    exact .inr ⟨hne, hn⟩
  | removed transition hsome hkind hnodes =>
    obtain ⟨m, hne, hactive⟩ := ht.remaining transition hsome hkind
    refine ⟨m, ?_⟩
    rw [hnodes, hasState_erase]
    exact ⟨hne, hactive⟩

end

/-- An entry admits a node that was not admitted before it. -/
def AdmittedBy (s : StateMachine) (entry : LogEntry) (n : NodeId) : Prop :=
  s.clusterControl.nodes.get? n = none ∧
    ((applyEntry s entry).1.clusterControl.nodes.get? n).isSome = true

theorem applyAll_used_mono (t : StateMachine) (log : List LogEntry)
    (h : t.clusterControl.usedNodeIds.contains n = true) :
    (applyAll t log).clusterControl.usedNodeIds.contains n = true := by
  refine runFrom_invariant (motive := fun t : StateMachine =>
      t.clusterControl.usedNodeIds.contains n = true)
    h ?_ log
  intro t entry hused
  have hstep : Step t entry.1 entry.2 _ _ := apply_step rfl
  exact (nodesChange_of_step hstep).used_mono hused

/-- No identity is admitted by two entries of one run. -/
theorem not_admitted_twice (hnew : new maxCommitEntries maxCommitBytes = .ok s)
    (before between : List LogEntry) (first second : LogEntry) (n : NodeId)
    (hfirst : AdmittedBy (applyAll s before) first n) :
    ¬ AdmittedBy (applyAll s (before ++ first :: between)) second n := by
  rintro ⟨hnone, hsome⟩
  have hsplit :
      applyAll s (before ++ first :: between) =
        applyAll (applyAll s (before ++ [first])) between := by
    rw [← applyAll_append]
    simp
  have hused : (applyAll s (before ++ [first])).clusterControl.usedNodeIds.contains n = true := by
    obtain ⟨d, hd⟩ := Option.isSome_iff_exists.mp hfirst.2
    have hinv := clusterInv_applyAll hnew (before ++ [first])
    refine hinv.descriptors.used n d ?_
    rw [applyAll_snoc]
    exact hd
  have hstill := applyAll_used_mono _ between hused
  rw [← hsplit] at hstill
  obtain ⟨d, hd⟩ := Option.isSome_iff_exists.mp hsome
  have hstep : Step (applyAll s (before ++ first :: between)) second.1 second.2 _ _ :=
    apply_step rfl
  rw [(nodesChange_of_step hstep).unused_of_admitted hnone hd] at hstill
  cases hstill

/-- Once a run has an ACTIVE node it keeps one. -/
theorem active_stays
    (hnew : new maxCommitEntries maxCommitBytes = .ok s) (before after : List LogEntry)
    (h : ∃ n, HasState (applyAll s before).clusterControl.nodes n .active) :
    ∃ n, HasState (applyAll s (before ++ after)).clusterControl.nodes n .active := by
  rw [applyAll_append]
  refine runFrom_induction (motive := fun done (t : StateMachine) =>
      ∃ n, HasState t.clusterControl.nodes n .active)
    prefixClosed_true h ?_ after trivial
  intro done entry _ hactive
  have hinv := clusterInv_applyAll hnew (before ++ done)
  rw [applyAll_append] at hinv
  have hstep : Step (applyAll (applyAll s before) done) entry.1 entry.2 _ _ := apply_step rfl
  exact (nodesChange_of_step hstep).active_stays hinv.descriptors hinv.transitions hactive

/--
The cluster-control invariant, for every sequence of commands from a fresh
state: descriptors are stored under their own valid identity; identities once
used stay used and are admitted at most once; addresses, pins and join
capabilities are distinct; a node is JOINING exactly as the target of the ADD
transition that has not activated it; a REMOVE or REWEIGHT target is ACTIVE;
and an ACTIVE node remains once there is one.
-/
theorem cluster_control_invariant {maxCommitEntries maxCommitBytes : Nat} {s : StateMachine}
    (hnew : StateMachine.new maxCommitEntries maxCommitBytes = .ok s) (log : List LogEntry) :
    (∀ n d, (applyAll s log).clusterControl.nodes.get? n = some d →
    d.nodeId = n ∧ 1 ≤ n ∧ n ≤ 1023 ∧ validateDescriptor d = .ok ()) ∧
    (∀ n d, (applyAll s log).clusterControl.nodes.get? n = some d →
    (applyAll s log).clusterControl.usedNodeIds.contains n = true) ∧
    (∀ before after n, log = before ++ after →
    (applyAll s before).clusterControl.usedNodeIds.contains n = true →
    (applyAll s log).clusterControl.usedNodeIds.contains n = true) ∧
    (∀ before first between second after n, log = before ++ first :: between ++ second :: after →
    AdmittedBy (applyAll s before) first n →
    ¬ AdmittedBy (applyAll s (before ++ first :: between)) second n) ∧
    (∀ n m d e, (applyAll s log).clusterControl.nodes.get? n = some d →
    (applyAll s log).clusterControl.nodes.get? m = some e → n ≠ m →
    d.peerAddress ≠ e.peerAddress ∧ List.Disjoint d.pins e.pins ∧
    (d.joinCapabilityHash.isSome = true → d.joinCapabilityHash ≠ e.joinCapabilityHash)) ∧
    (∀ n d, (applyAll s log).clusterControl.nodes.get? n = some d →
    d.overlapPeerSpkiSha256 ≠ some d.currentPeerSpkiSha256) ∧
    (∀ n, HasState (applyAll s log).clusterControl.nodes n .joining ↔ ∃ t,
    (applyAll s log).clusterControl.transition = some t ∧
    t.kind = .add ∧ t.nodeId = n ∧ activatedOf s log = false) ∧
    (∀ t, (applyAll s log).clusterControl.transition = some t → t.kind ≠ .add →
    HasState (applyAll s log).clusterControl.nodes t.nodeId .active) ∧
    (∀ before after, log = before ++ after → (∃ n,
    HasState (applyAll s before).clusterControl.nodes n .active) →
    ∃ n, HasState (applyAll s log).clusterControl.nodes n .active) := by
  have hinv := clusterInv_applyAll hnew log
  obtain ⟨hd, ht⟩ := hinv
  refine ⟨?_, hd.used, ?_, ?_, ?_, ?_, ht.joining, ?_, ?_⟩
  · intro n d hget
    have hvalid := hd.valid n d hget
    have hrange := validateNodeId_eq_ok.mp hvalid.nodeId
    rw [hd.keyed n d hget] at hrange
    exact ⟨hd.keyed n d hget, hrange.1, hrange.2, validateDescriptor_eq_ok.mpr hvalid⟩
  · rintro _ after n rfl hused
    rw [applyAll_append]
    exact applyAll_used_mono _ after hused
  · intro before first between second _ n _ hfirst
    exact not_admitted_twice hnew before between first second n hfirst
  · intro n m d e hget hget' hne
    refine ⟨?_, ?_, ?_⟩
    · intro hsame
      exact hne (hd.addresses n m d e hget hget' hsame)
    · intro pin hpin hpin'
      exact hne (hd.pins n m d e pin hget hget' hpin hpin')
    intro hsome hsame
    obtain ⟨capability, hcap⟩ := Option.isSome_iff_exists.mp hsome
    exact hne (hd.capabilities n m d e capability hget hget' hcap (hsame ▸ hcap))
  · intro n d hget hsame
    exact ((hd.valid n d hget).overlap _ hsame).2 rfl
  · intro t hsome hkind
    obtain ⟨d, hget, hactive, _⟩ := ht.target t hsome
    exact ⟨d, hget, hactive hkind⟩
  · rintro before after rfl hactive
    exact active_stays hnew before after hactive

/-- A descriptor of a node that is being admitted. -/
def sampleDescriptor (n : Nat) (address : String) : NodeDescriptor where
  nodeId := n
  peerAddress := ⟨address⟩
  storageWeightMillionths := 1000000
  state := .joining
  currentPeerSpkiSha256 := ⟨BitVec.ofNat 256 n⟩
  overlapPeerSpkiSha256 := none
  joinCapabilityHash := some ⟨BitVec.ofNat 256 n⟩
  supportedProtocol := ⟨1, 1⟩
  supportedStorageFormat := ⟨1, 1⟩

/-- The first node admitted and activated, and a second one begun. -/
def admissionLog : List LogEntry := [(sampleLogId 1, .initializeCluster ⟨5⟩),
    (sampleLogId 2, .beginAddNode 1 (sampleDescriptor 1 "a:1")),
    (sampleLogId 3, .completeMembershipTransition 1 2),
    (sampleLogId 4, .completeMembershipTransition 1 2),
    (sampleLogId 5, .beginAddNode 1 (sampleDescriptor 2 "b:1"))]

/-- After the sample log the second node is JOINING under its ADD. -/
theorem cluster_control_invariant_admissionLog :
    (applyAll (.initial 4 65536) admissionLog).clusterControl.nodes.size = 2 ∧ (HasState
    (applyAll (.initial 4 65536) admissionLog).clusterControl.nodes 2 .joining ↔
    ∃ t, (applyAll (.initial 4 65536) admissionLog).clusterControl.transition = some t ∧
    t.kind = .add ∧ t.nodeId = 2 ∧ activatedOf (.initial 4 65536) admissionLog = false) :=
  ⟨by decide +kernel, (cluster_control_invariant
    (rfl : StateMachine.new 4 65536 = .ok (.initial 4 65536))
    admissionLog).2.2.2.2.2.2.1 2⟩

end Keldra.Consensus
