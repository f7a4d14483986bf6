import Keldra.Consensus.MembershipInvariant
import Keldra.Consensus.Journal

/-!
# Restart from the applied journal

Every log a group can commit, from the genesis entry on, with the commands and
the membership entries that are proposed from an applied state.  A proposal checks
that state and then waits for its entry, so other entries may come between.  A restart
replays such a log to the state that applied it; what is in question is whether
the cross-check of that state against its membership passes.
-/

namespace Keldra.Consensus

open Foundation OrdMap List MachineState Consensus.Membership DurableStore
open MembershipTransitionKind Option

variable {s : StateMachine} {activated : Bool} {target : Nat} {c : ClusterControlState}

section

variable {stored : StoredMembership} {id : LogId} {command : Command} {version : Nat}
  {transition : MembershipTransition}

theorem validateMembershipCommand_add {d : NodeDescriptor}
    (h :
    validateMembershipCommand stored s (.beginAddNode version d) = .ok ()) :
    ∀ n a, stored.membership.getNode n = some a → (n = d.nodeId → a = d.peerAddress.value) ∧
    (n ≠ d.nodeId → s.clusterControl.nodes.contains n = true) := by
  simp only [validateMembershipCommand, ok_rules, admissionConflict_eq_ok] at h
  intro n a hmember
  exact h.1 (n, a) ((get?_eq_some_iff _ _ _).mp hmember)

theorem votersAre_of_check {m : Membership}
    (h : liftVoters (validateVoters m s target) = .ok ()) :
    VotersAre s.clusterControl m target :=
  validateVoters_eq_ok.mp (mapError_eq_ok.mp h)

/-- What the check of a completion established, by kind of transition. -/
theorem validateCompletion_facts {m : Membership} {d : NodeDescriptor}
    (h : validateCompletion m s transition.startedLogIndex = .ok ())
    (hsome : s.clusterControl.transition = some transition)
    (hget : s.clusterControl.nodes.get? transition.nodeId = some d) :
    (transition.kind = .add → m.getNode transition.nodeId ≠ none ∧ (d.state = .active →
    VotersAre s.clusterControl m s.clusterControl.voterTarget)) ∧
    (transition.kind = .reweight → m.getNode transition.nodeId ≠ none) ∧
    (transition.kind = .remove → m.getNode transition.nodeId = none ∧ VotersAre s.clusterControl m
    (removalVoterTarget s.clusterControl)) := by
  simp only [validateCompletion, ok_rules] at h
  obtain ⟨_, hcurrent, _, h⟩ := h
  obtain rfl := mem_unique hsome hcurrent
  refine ⟨?_, ?_, ?_⟩
  · intro hkind
    simp only [hkind, ok_rules] at h
    obtain ⟨hmember, e, he, hvoters⟩ := h
    obtain rfl := mem_unique hget he
    refine ⟨hmember, ?_⟩
    intro hactive
    rw [if_pos hactive] at hvoters
    exact votersAre_of_check hvoters
  · intro hkind
    simp only [hkind, ok_rules] at h
    exact h.1
  intro hkind
  simp only [hkind, ok_rules, not_not] at h
  exact ⟨h.1, votersAre_of_check h.2⟩

variable (hcluster : ClusterInv activated s) (h : MembershipInv s.clusterControl stored.membership)
  (hvalid : validateMembershipCommand stored s command = .ok ())

include hcluster h hvalid

/-- Each accepted cluster-control command keeps the agreement. -/
theorem membershipInv_clusterStep {t : StateMachine} {result : ApplyResult}
    (hstep : ClusterStep s id command t result) :
    MembershipInv t.clusterControl stored.membership := by
  cases hstep with
  | kept => exact h
  | initialized | jwtBound | profileBound => exact h.congr rfl rfl
  | addBegun version d transition htransition hdescriptor hjoining hnone
    hunused hunique =>
    have hfresh : s.clusterControl.nodes.get? d.nodeId = none := by
      cases hget : s.clusterControl.nodes.get? d.nodeId with
      | none => rfl
      | some e =>
        have hused := hcluster.descriptors.used _ _ hget
        rw [hunused] at hused
        cases hused
    refine h.beginAdd hnone rfl rfl ?_ ?_ hjoining hfresh (validateMembershipCommand_add hvalid)
    · rw [htransition]
    · rw [htransition]
  | removeBegun _ n d _ htransition hnone hget =>
    refine h.beginRemove hnone rfl rfl ?_ (MembershipInv.nonempty_of_get? hget)
    rw [htransition]
  | reweightBegun version n d weight transition htransition hnone hget hactive
    hpositive hchanged =>
    refine h.keepVoters rfl (settlingTarget_idle hnone) ?_ ?_
    · refine settlingTarget_reweight rfl ?_
      rw [htransition]
    intro k e hk
    refine h.isMember hk ?_
    intro _ ht'
    rw [hnone] at ht'
    cases ht'
  | activated _ _ d hsome hkind hget _ hjoining =>
    have hfacts := validateCompletion_facts hvalid hsome hget
    exact h.activate hsome hkind hget hjoining rfl rfl rfl rfl (hfacts.1 hkind).1
  | addFinished _ _ d hsome hkind hget hactive =>
    have hfacts := validateCompletion_facts hvalid hsome hget
    obtain ⟨hmember, hvoters⟩ := hfacts.1 hkind
    exact h.finishAdd hsome hkind ⟨d, hget, hactive⟩ rfl rfl hmember (hvoters hactive)
  | removed _ _ d hsome hkind hget hactive =>
    have hfacts := validateCompletion_facts hvalid hsome hget
    obtain ⟨hgone, hvoters⟩ := hfacts.2.2 hkind
    exact h.finishRemove hsome hkind hget hactive rfl rfl hgone hvoters
  | reweighted _ transition d weight hsome hkind _ hget =>
    have hfacts := validateCompletion_facts hvalid hsome hget
    have hshape : (s.putDescriptor transition.nodeId
          { d with storageWeightMillionths := weight }).clusterControl.shape =
          s.clusterControl.shape :=
      shape_insert_same hget rfl rfl rfl
    refine h.keepVoters hshape (settlingTarget_reweight hsome hkind) (settlingTarget_idle rfl) ?_
    intro k e hk
    obtain ⟨e', hk', _⟩ := get?_of_shape_eq hshape hk
    exact h.isMember_of_target hsome (hfacts.2.1 hkind) hk'
  | refreshed _ _ d _ _ _ _ hget | overlapStaged _ n d _ hget | overlapPromoted _ n d _ hget
  | overlapCleared _ n d hget => exact h.congr (shape_insert_same hget rfl rfl rfl) rfl

/-- Every applied command keeps the agreement. -/
theorem membershipInv_step {t : StateMachine} {outcome : Except ApplyError ApplyResult}
    (hstep : Step s id command t outcome) :
    MembershipInv t.clusterControl stored.membership := by
  cases hstep with
  | rejected => exact h
  | cluster hcontrol => exact membershipInv_clusterStep hcluster h hvalid hcontrol
  | decision hdecision =>
    rw [(decisionStep_clusterControl hdecision).1]
    exact h

end

variable {m : MachineState} {membership : Membership}

/-- The first node is admitted and no node is ACTIVE yet. -/
def GenesisWindow (c : ClusterControlState) : Prop :=
  c.nodes.isEmpty = false ∧ c.activeNodeCount = 0

instance (c : ClusterControlState) : Decidable (GenesisWindow c) :=
  inferInstanceAs (Decidable (_ ∧ _))

theorem transition_eq_none_of_empty (hcluster : ClusterInv activated m.decisions)
    (hempty : m.decisions.clusterControl.nodes.isEmpty = true) :
    m.decisions.clusterControl.transition = none := by
  cases htransition : m.decisions.clusterControl.transition with
  | none => rfl
  | some t =>
    obtain ⟨d, hget, _⟩ := hcluster.transitions.target t htransition
    rw [(OrdMap.isEmpty_iff _).mp hempty] at hget
    cases hget

/-- A settling change has an ACTIVE node. -/
theorem settlingTarget_of_window (hcluster : ClusterInv activated s)
    (hwindow : s.clusterControl.activeNodeCount = 0) : settlingTarget s.clusterControl = none := by
  have hnone := activeNodeCount_eq_zero_iff.mp hwindow
  cases htransition : s.clusterControl.transition with
  | none => exact settlingTarget_idle htransition
  | some t =>
    obtain ⟨d, hget, hother, _⟩ := hcluster.transitions.target t htransition
    cases hkind : t.kind with
    | reweight => exact settlingTarget_reweight htransition hkind
    | remove =>
      refine absurd ⟨d, hget, hother ?_⟩ (hnone t.nodeId)
      rw [hkind]
      exact noConfusion
    | add =>
      cases hstate : d.state with
      | joining => exact settlingTarget_joining htransition hkind ⟨d, hget, hstate⟩
      | active => exact absurd ⟨d, hget, hstate⟩ (hnone t.nodeId)

/-- Some node votes. -/
theorem MembershipInv.voterIds_nonempty (h : MembershipInv c membership) :
    membership.voterIds.size ≠ 0 := by
  obtain ⟨config, hconfig⟩ := exists_mem_of_ne_nil _ h.configured
  have hnonempty := h.valid.1 config hconfig
  obtain ⟨v, hv⟩ := exists_contains hnonempty
  have hvoter := contains_voterIds.mpr ⟨config, hconfig, hv⟩
  intro hsize
  rw [OrdSet.contains_iff_mem_keys] at hvoter
  simp [OrdMap.keys, length_eq_zero_iff.mp hsize] at hvoter

/-- The three scans of the cross-check, once some node is admitted. -/
theorem validateClusterMembership_admitted
    (hempty : m.decisions.clusterControl.nodes.isEmpty = false) (htarget :
    ∀ t, m.decisions.clusterControl.transition = some t →
    m.decisions.clusterControl.nodes.contains t.nodeId = true) :
    m.validateClusterMembership = .ok () ↔ MachineState.validateMembers m.decisions.clusterControl
    m.membership.membership.nodes.entries = .ok () ∧
    MachineState.validateDescriptors m.decisions.clusterControl m.membership.membership
    m.decisions.clusterControl.nodes.entries = .ok () ∧
    MachineState.validateTransitionVoters m.decisions.clusterControl
    m.membership.membership m.decisions = .ok () := by
  unfold validateClusterMembership
  simp only [hempty, Bool.false_eq_true, if_false, ok_rules]
  cases htransition : m.decisions.clusterControl.transition with
  | none => simp
  | some t => simp [htarget t htransition]

/-- The cross-check passes exactly outside the window of the first admission. -/
theorem validateClusterMembership_iff (hcluster : ClusterInv activated m.decisions)
    (h : MembershipInv m.decisions.clusterControl m.membership.membership) :
    m.validateClusterMembership = .ok () ↔ ¬ GenesisWindow m.decisions.clusterControl := by
  cases hempty : m.decisions.clusterControl.nodes.isEmpty with
  | true =>
    have hidle := transition_eq_none_of_empty hcluster hempty
    simp [validateClusterMembership, GenesisWindow, hempty, hidle]
  | false =>
    have hmembers : validateMembers m.decisions.clusterControl
          m.membership.membership.nodes.entries = .ok () := by
      refine validateMembers_eq_ok.mpr ?_
      intro e he
      exact h.address hempty e.1 e.2 (get?_of_mem he)
    have hdescriptors : validateDescriptors m.decisions.clusterControl
      m.membership.membership m.decisions.clusterControl.nodes.entries = .ok () := by
      refine validateDescriptors_eq_ok.mpr ?_
      intro e he
      have hget := get?_of_mem he
      refine ⟨hcluster.descriptors.keyed _ _ hget,
        hcluster.descriptors.used _ _ hget, h.member _ _ hget, ?_⟩
      intro hjoining
      obtain ⟨t, ht, hkind, hn, _⟩ := (hcluster.transitions.joining e.1).mp ⟨e.2, hget, hjoining⟩
      exact transitionKind_eq_some.mpr ⟨t, ht, hn, hkind⟩
    have htarget : ∀ t, m.decisions.clusterControl.transition = some t →
          m.decisions.clusterControl.nodes.contains t.nodeId = true := by
      intro t htransition
      obtain ⟨d, hget, _⟩ := hcluster.transitions.target t htransition
      exact (OrdMap.contains_iff _ _).mpr ⟨d, hget⟩
    rw [validateClusterMembership_admitted hempty htarget]
    simp only [hmembers, hdescriptors, true_and,
      validateTransitionVoters_eq_ok, GenesisWindow, hempty]
    constructor
    · intro hvoters hwindow
      have hsettling := settlingTarget_of_window hcluster hwindow
      have hsize := (validateVoters_eq_ok.mp (hvoters hsettling)).1
      apply h.voterIds_nonempty
      rw [hsize, ClusterControlState.voterTarget, hwindow]
      rfl
    intro hwindow hsettling
    exact validateVoters_eq_ok.mpr (h.fixed hwindow hsettling)

variable {next : Membership} {n : NodeId}

section

variable {library : RaftLibrary} {change : ChangeMembers} {retain : Bool} {voters : OrdSet NodeId}

/-- The changes that are asked for with checks that pass on a state.  The library leaves a
joint configuration on its own. -/
inductive Requests (checked : MachineState) : ChangeMembers → Prop
  | learnerAdded (n : NodeId) (address : String) (change : ChangeMembers)
      (h : addLearner checked n address = .ok change) :
      Requests checked change
  | votersChanged (voters : OrdSet NodeId) (retain : Bool) (change : ChangeMembers)
      (h : changeMembership checked voters retain = .ok change) :
      Requests checked change
  | learnerRemoved (n : NodeId) (change : ChangeMembers)
      (h : removeLearner checked n = .ok change) :
      Requests checked change
  | jointLeft
    (retain : Bool) :
    Requests checked (.leaveJoint retain)

/-- What can be committed on top of an applied state when a membership entry's checks were
made on the first state given. -/
inductive Proposal (library : RaftLibrary) (checked m : MachineState) : EntryPayload → Prop
  | blank :
    Proposal library checked m .blank
  | command
    (command : Command) :
    Proposal library checked m (.normal command)
  | membership (change : ChangeMembers) (next : Membership)
      (hrequest : Requests checked change)
      (hchange : library.change m.membership.membership change = some next) :
      Proposal library checked m (.membership next)

/--
A membership entry that drops an admitted member only if that member is the one
under REMOVE.
-/
def DropsOnlyRemoved (m : MachineState) (payload : EntryPayload) : Prop :=
  ∀ next, payload = .membership next → ∀ n, m.decisions.clusterControl.nodes.contains n = true →
    m.membership.membership.getNode n ≠ none →
    next.getNode n = none →
    MachineState.transitionKind m.decisions.clusterControl n = some .remove

/-- The checks of a membership entry still pass in the state right before it, and it drops no
other member. -/
def EntryHolds (library : RaftLibrary) (m : MachineState) (payload : EntryPayload) : Prop :=
  DropsOnlyRemoved m payload ∧ Proposal library m m payload

/-- The condition, as the cross-check needs it. -/
theorem DropsOnlyRemoved.member
    (hdrops : DropsOnlyRemoved m (.membership next)) (hcluster : ClusterInv activated m.decisions)
    (h : MembershipInv m.decisions.clusterControl m.membership.membership)
    (n : NodeId) (d : NodeDescriptor) (hget : m.decisions.clusterControl.nodes.get? n = some d)
    (hnone : next.getNode n = none) :
    MachineState.membershipOptional m.decisions.clusterControl n d = true := by
  cases hmember : m.membership.membership.getNode n with
  | none => exact h.member n d hget hmember
  | some a =>
    have hkind := hdrops next rfl n ((OrdMap.contains_iff _ _).mpr ⟨d, hget⟩)
        (by simp [hmember]) hnone
    obtain ⟨t, ht, rfl, hremove⟩ := transitionKind_eq_some.mp hkind
    obtain ⟨e, he, hactive, _⟩ := hcluster.transitions.target t ht
    obtain rfl := mem_unique hget he
    refine membershipOptional_eq_true.mpr (Or.inr ⟨hkind, hactive ?_⟩)
    rw [hremove]
    exact noConfusion

theorem membershipInv_addLearner {address : String}
    (hcluster : ClusterInv activated m.decisions)
    (h : MembershipInv m.decisions.clusterControl m.membership.membership)
    (hadd : addLearner m n address = .ok change)
    (hchange : library.change m.membership.membership change = some next) :
    MembershipInv m.decisions.clusterControl next := by
  simp only [Consensus.addLearner, ok_rules] at hadd
  obtain ⟨_, hcheck, rfl⟩ := hadd
  unfold checkLearnerAddition at hcheck
  cases hempty : m.decisions.clusterControl.nodes.isEmpty with
  | true =>
    refine MembershipInv.ofEmpty hempty (transition_eq_none_of_empty hcluster hempty)
      (library.wellFormed hchange) ?_
    rw [(library.addNode hchange).1]
    exact h.configured
  | false =>
    simp only [hempty, Bool.false_eq_true, if_false, ok_rules, not_not] at hcheck
    obtain ⟨t, _, _, d, hget, _, haddress⟩ := hcheck
    exact h.addLearner hchange hget haddress

theorem changeMembership_eq_ok (h : changeMembership m voters retain = .ok change) :
    checkVoterChange m.decisions.clusterControl voters = .ok () ∧
      change = .replaceAllVoters voters retain := by
  simp only [changeMembership, bind_eq_ok, rejectIf_eq_ok, exists_const] at h
  obtain ⟨_, h⟩ := h
  split at h
  · simp at h
  simp only [bind_eq_ok, exists_unit_eq_ok, pure_eq_ok] at h
  obtain ⟨_, _, hcheck, hchange⟩ := h
  exact ⟨hcheck, hchange.symm⟩

/-- Voters change only towards the target of a settling transition. -/
theorem settlingTarget_of_expectedVoters (h : expectedVoters c = .ok target) :
    settlingTarget c = some target := by
  simp only [expectedVoters, ok_rules] at h
  obtain ⟨t, ht, h⟩ := h
  cases hkind : t.kind with
  | add =>
    simp only [hkind, ok_rules, not_not] at h
    obtain ⟨d, hget, hactive, rfl⟩ := h
    exact settlingTarget_activated ht hkind ⟨d, hget, hactive⟩
  | remove =>
    simp only [hkind, pure_eq_ok] at h
    subst h
    exact settlingTarget_remove ht hkind
  | reweight => simp [hkind] at h

section

variable (hcluster : ClusterInv activated m.decisions)

include hcluster

variable (h : MembershipInv m.decisions.clusterControl m.membership.membership)

include h

theorem membershipInv_changeMembership (hdrops : DropsOnlyRemoved m (.membership next))
    (hchanged : changeMembership m voters retain = .ok change)
    (hchange : library.change m.membership.membership change = some next) :
    MembershipInv m.decisions.clusterControl next := by
  obtain ⟨hcheck, rfl⟩ := changeMembership_eq_ok hchanged
  unfold checkVoterChange at hcheck
  cases hempty : m.decisions.clusterControl.nodes.isEmpty with
  | true =>
    refine MembershipInv.ofEmpty hempty (transition_eq_none_of_empty hcluster hempty)
      (library.wellFormed hchange) ?_
    intro hnil
    have hlast := (library.replaceAllVoters hchange).1
    rw [hnil] at hlast
    cases hlast
  | false =>
    simp only [hempty, Bool.false_eq_true, if_false, ok_rules, not_not] at hcheck
    obtain ⟨_, htarget, hsize, _⟩ := hcheck
    refine h.changeVoters hchange ?_ (hdrops.member hcluster h)
    rw [hsize]
    exact settlingTarget_of_expectedVoters htarget

theorem membershipInv_removeLearner (hremoved : removeLearner m n = .ok change)
    (hchange : library.change m.membership.membership change = some next) :
    MembershipInv m.decisions.clusterControl next := by
  simp only [Consensus.removeLearner, ok_rules, not_or, not_not] at hremoved
  obtain ⟨_, t, ht, ⟨hkind, rfl⟩, rfl⟩ := hremoved
  obtain ⟨d, hget, hactive, _⟩ := hcluster.transitions.target t ht
  refine h.removeLearner hchange ht hkind hget (hactive ?_)
  rw [hkind]
  exact noConfusion

/-- Every membership entry whose checks hold keeps the agreement. -/
theorem membershipInv_proposal (hentry : EntryHolds library m (.membership next)) :
    MembershipInv m.decisions.clusterControl next := by
  obtain ⟨hdrops, hproposal⟩ := hentry
  cases hproposal with
  | membership change _ hrequest hchange =>
    cases hrequest with
    | learnerAdded _ _ _ hadd => exact membershipInv_addLearner hcluster h hadd hchange
    | votersChanged _ _ _ hchanged =>
      exact membershipInv_changeMembership hcluster h hdrops hchanged hchange
    | learnerRemoved _ _ hremoved => exact membershipInv_removeLearner hcluster h hremoved hchange
    | jointLeft => exact h.leaveJoint hchange (hdrops.member hcluster h)

end

end

section

variable {library : RaftLibrary} {config : StorageConfig}
  {allowed : MachineState → EntryPayload → Prop}
  {log : List RaftEntry} {m : MachineState}

/-- The first entry of a group, written once on a pristine node. -/
inductive GenesisEntry (localNode : NodeId) : Membership → Prop
  | one :
    GenesisEntry localNode (ensureOneNode localNode)
  | members (members : OrdMap NodeId String) (membership : Membership)
      (h : initializeGenesis localNode members = .ok membership) :
      GenesisEntry localNode membership

/--
The committed logs and the states they lead to: nothing, the genesis entry, or
one more allowed entry at the next index, proposed on the state of some prefix.
-/
inductive CommittedLog (library : RaftLibrary) (config : StorageConfig)
    (allowed : MachineState → EntryPayload → Prop) : List RaftEntry → MachineState → Prop
  | pristine (start : MachineState)
      (hstart : MachineState.new config = .ok start) :
      CommittedLog library config allowed [] start
  | genesis (start : MachineState) (localNode : NodeId) (membership : Membership) (logId : LogId)
      (hstart : MachineState.new config = .ok start)
      (hgenesis : GenesisEntry localNode membership)
      (hindex : logId.index = 0) :
      CommittedLog library config allowed [⟨logId, .membership membership⟩]
        (start.advance ⟨logId, .membership membership⟩).1
  | entry (log earlier : List RaftEntry) (m checked : MachineState) (last : LogId)
      (entry : RaftEntry)
      (h : CommittedLog library config allowed log m)
      (hchecked : CommittedLog library config allowed earlier checked)
      (hearlier : earlier <+: log)
      (hlast : m.lastAppliedLogId = some last)
      (hindex : entry.logId.index = last.index + 1)
      (hbound : entry.logId.index ≤ u64Max)
      (hproposal : Proposal library checked m entry.payload)
      (hallowed : allowed m entry.payload) :
      CommittedLog library config allowed (log ++ [entry]) (m.advance entry).1

section

variable (h : CommittedLog library config allowed log m)

include h

/-- The log is sorted by index and the state contains all of it. -/
theorem CommittedLog.sorted :
    (log.map (·.logId.index)).Pairwise (· < ·) ∧ ∀ e ∈ log, e.logId.index < m.nextIndex := by
  induction h with
  | pristine => exact ⟨List.Pairwise.nil, fun e he => absurd he not_mem_nil⟩
  | genesis =>
    refine ⟨pairwise_singleton _ _, ?_⟩
    intro e he
    rw [nextIndex_advance, mem_singleton.mp he]
    exact Nat.lt_succ_self _
  | entry _ _ m _ _ entry h _ _ hlast hindex _ _ _ ih =>
    obtain ⟨hsorted, hcontained⟩ := ih
    have hnext : m.nextIndex = entry.logId.index := by rw [nextIndex, hlast, hindex]
    rw [nextIndex_advance]
    refine ⟨?_, ?_⟩
    · rw [map_append, pairwise_append]
      refine ⟨hsorted, pairwise_singleton _ _, ?_⟩
      intro i hi j hj
      obtain ⟨e, he, rfl⟩ := mem_map.mp hi
      rw [mem_singleton.mp hj]
      change e.logId.index < entry.logId.index
      rw [← hnext]
      exact hcontained e he
    intro e he
    rcases mem_append.mp he with hold | hnew
    · have := hcontained e hold
      omega
    rw [mem_singleton.mp hnew]
    exact Nat.lt_succ_self _

/-- Replaying a committed log from the initial state rebuilds its state. -/
theorem CommittedLog.replay :
    ∃ start, MachineState.new config = .ok start ∧ start.replayJournal log = .ok m := by
  induction h with
  | pristine start hstart => exact ⟨start, hstart, rfl⟩
  | genesis start _ _ _ hstart _ hindex =>
    refine ⟨start, hstart, ?_⟩
    have hnext : start.nextIndex = 0 := by
      simp only [MachineState.new, ok_rules] at hstart
      obtain ⟨_, _, rfl⟩ := hstart
      rfl
    rw [replayJournal_next (hindex.trans hnext.symm) (hindex.trans_le (Nat.zero_le _))]
    rfl
  | entry _ _ m _ _ entry h _ _ hlast hindex hbound _ _ ih =>
    obtain ⟨start, hstart, hreplay⟩ := ih
    refine ⟨start, hstart, ?_⟩
    have hnext : entry.logId.index = m.nextIndex := by rw [nextIndex, hlast, hindex]
    rw [replayJournal_append, hreplay]
    exact replayJournal_next hnext hbound

theorem CommittedLog.configured : m.Configured config := by
  induction h with
  | pristine _ hstart => exact configured_new hstart
  | genesis _ _ _ _ hstart => exact (configured_new hstart).advance _
  | entry _ _ m _ _ entry h _ _ _ _ _ _ _ ih => exact ih.advance entry

end

theorem genesisMembership_valid {members : OrdMap NodeId String}
    (h : members.isEmpty = false) :
    (genesisMembership members).WellFormed := by
  refine ⟨?_, ?_⟩
  · intro _ hconfig
    rw [mem_singleton.mp hconfig]
    obtain ⟨n, hn⟩ := exists_contains h
    cases hempty : (OrdSet.ofKeys members.keys).isEmpty with
    | false => rfl
    | true =>
      have hmem := (mem_keys_iff _ _).mpr ((OrdMap.contains_iff _ _).mp hn)
      have hcontains := (OrdSet.contains_ofKeys members.keys n).mpr hmem
      obtain ⟨_, hget⟩ := (OrdMap.contains_iff _ _).mp hcontains
      rw [(OrdMap.isEmpty_iff _).mp hempty n] at hget
      cases hget
  · intro v hv
    rw [voterIds_singleton rfl, OrdSet.contains_ofKeys] at hv
    exact (OrdMap.contains_iff _ _).mpr ((mem_keys_iff _ _).mp hv)

theorem GenesisEntry.valid {localNode : NodeId}
    (h : GenesisEntry localNode membership) :
    membership.WellFormed ∧ membership.configs ≠ [] := by
  cases h with
  | one => exact ⟨genesisMembership_valid rfl, cons_ne_nil _ _⟩
  | members _ _ h =>
    simp only [initializeGenesis, ok_rules] at h
    obtain ⟨hmembers, _, rfl⟩ := h
    simp only [validateGenesisMembers, ok_rules, Bool.not_eq_true] at hmembers
    obtain ⟨hnonempty, _⟩ := hmembers
    exact ⟨genesisMembership_valid hnonempty, cons_ne_nil _ _⟩

/-- Agreement holds after every committed entry that drops no other node. -/
theorem CommittedLog.membershipInv (h : CommittedLog library config (EntryHolds library) log m) :
    ∃ activated, ClusterInv activated m.decisions ∧ (m.lastAppliedLogId ≠ none →
    MembershipInv m.decisions.clusterControl m.membership.membership) ∧
    (m.lastAppliedLogId = none → m.decisions.clusterControl = ClusterControlState.default) := by
  have hnew : ∀ start, MachineState.new config = .ok start → ClusterInv false start.decisions ∧
        start.decisions.clusterControl = ClusterControlState.default := by
    intro _ hstart
    simp only [MachineState.new, ok_rules] at hstart
    obtain ⟨_, hdecisions, rfl⟩ := hstart
    obtain rfl := new_eq_ok hdecisions
    exact ⟨clusterInv_initial _ _, rfl⟩
  induction h with
  | pristine start hstart =>
    obtain ⟨hcluster, hcontrol⟩ := hnew start hstart
    refine ⟨false, hcluster, ?_, fun _ => hcontrol⟩
    intro hlast
    simp only [MachineState.new, ok_rules] at hstart
    obtain ⟨_, _, rfl⟩ := hstart
    exact absurd rfl hlast
  | genesis start _ _ _ hstart hgenesis =>
    obtain ⟨hcluster, hcontrol⟩ := hnew start hstart
    obtain ⟨hvalid, hconfigured⟩ := hgenesis.valid
    refine ⟨false, hcluster, fun _ => ?_, fun hnone => ?_⟩
    · refine MembershipInv.ofEmpty ?_ ?_ hvalid hconfigured
      · change start.decisions.clusterControl.nodes.isEmpty = true
        rw [hcontrol]
        rfl
      change start.decisions.clusterControl.transition = none
      rw [hcontrol]
      rfl
    cases hnone
  | entry _ _ m _ _ entry h _ _ hlast _ _ _ hallowed ih =>
    obtain ⟨activated, hcluster, hinv, _⟩ := ih
    have hmember := hinv (by simp [hlast])
    have heffect := advance_effect m entry
    have hlast' := advance_lastAppliedLogId m entry
    generalize (m.advance entry).1 = after at heffect hlast'
    have happlied : after.lastAppliedLogId ≠ none := by simp [hlast']
    cases heffect with
    | kept => exact ⟨activated, hcluster, fun _ => hmember, fun hnone => absurd hnone happlied⟩
    | membership _ hpayload =>
      rw [hpayload] at hallowed
      have hnext := membershipInv_proposal hcluster hmember hallowed
      exact ⟨activated, hcluster, fun _ => hnext, fun hnone => absurd hnone happlied⟩
    | command _ _ _ _ hvalid hstep =>
      have hnext := membershipInv_step hcluster hmember hvalid hstep
      exact ⟨_, clusterInv_step hcluster hstep, fun _ => hnext, fun hnone => absurd hnone happlied⟩

theorem CommittedLog.mono {allowed' : MachineState → EntryPayload → Prop}
    (hmono : ∀ m payload, allowed m payload → allowed' m payload)
    (h : CommittedLog library config allowed log m) :
    CommittedLog library config allowed' log m := by
  induction h with
  | pristine start hstart => exact .pristine start hstart
  | genesis start localNode membership logId hstart hgenesis hindex =>
    exact .genesis start localNode membership logId hstart hgenesis hindex
  | entry log earlier m checked last entry h hchecked hearlier hlast hindex hbound hproposal
    hallowed ih ihchecked =>
    exact .entry log earlier m checked last entry ih ihchecked hearlier hlast hindex hbound
      hproposal (hmono m entry.payload hallowed)

/-- A restart on a committed log comes down to the cross-check of its state. -/
theorem CommittedLog.loadMachine_eq (h : CommittedLog library config allowed log m) :
    loadMachine ((create config).appendApplied log) =
    (m.validateClusterMembership.mapError .storage >>= fun _ => .ok m) := by
  obtain ⟨start, hstart, hreplay⟩ := h.replay
  have hscan : ((create config).appendApplied log).scanApplied = log := by
    refine scanApplied_appendApplied h.sorted.1 ?_
    intro e he
    cases he
  have hbase : restoreBase ((create config).appendApplied log) = .ok start := by
    simp [restoreBase, create, appendApplied, hstart, Except.mapError]
  unfold loadMachine
  rw [hbase, hscan]
  change (start.replayJournal log >>= _) = _
  rw [hreplay]
  rfl

theorem CommittedLog.loadMachine_eq_ok (h : CommittedLog library config allowed log m) :
    loadMachine ((create config).appendApplied log) = .ok m ↔
    m.validateClusterMembership = .ok () := by
  rw [h.loadMachine_eq, bind_eq_ok, exists_unit_eq_ok, mapError_eq_ok]
  exact and_iff_left rfl

/-- The cross-check of the state of a committed log. -/
theorem CommittedLog.validate_iff (h : CommittedLog library config (EntryHolds library) log m) :
    m.validateClusterMembership = .ok () ↔ ¬ GenesisWindow m.decisions.clusterControl := by
  obtain ⟨_, hcluster, hinv, hpristine⟩ := h.membershipInv
  by_cases hlast : m.lastAppliedLogId = none
  · have hcontrol := hpristine hlast
    simp [validateClusterMembership, GenesisWindow, hcontrol,
      ClusterControlState.default, OrdMap.isEmpty, empty]
  · exact validateClusterMembership_iff hcluster (hinv hlast)

/-- No proposal takes a JOINING node out of the membership. -/
theorem Proposal.keeps_joining {a : String} {t : MembershipTransition}
    (h : MembershipInv m.decisions.clusterControl m.membership.membership)
    (hproposal : Proposal library m m (.membership next))
    (ht : m.decisions.clusterControl.transition = some t) (hkind : t.kind = .add)
    (hjoining : HasState m.decisions.clusterControl.nodes t.nodeId .joining)
    (hmember : m.membership.membership.getNode n = some a) : next.getNode n = some a := by
  obtain ⟨d, hget, hstate⟩ := hjoining
  have hnonempty := MembershipInv.nonempty_of_get? hget
  cases hproposal with
  | membership change _ hrequest hchange =>
    cases hrequest with
    | learnerAdded _ _ _ hadd =>
      simp only [Consensus.addLearner, ok_rules] at hadd
      obtain ⟨_, _, rfl⟩ := hadd
      exact (library.addNode hchange).2.1 n a hmember
    | votersChanged _ _ _ hchanged =>
      -- a JOINING node cannot participate in a voter change
      exfalso
      have hcheck := (changeMembership_eq_ok hchanged).1
      simp only [checkVoterChange, hnonempty, Bool.false_eq_true, if_false, bind_eq_ok] at hcheck
      obtain ⟨_, htarget, _⟩ := hcheck
      have hsome := settlingTarget_of_expectedVoters htarget
      rw [settlingTarget_joining ht hkind ⟨d, hget, hstate⟩] at hsome
      cases hsome
    | jointLeft =>
      have huniform := h.uniform hnonempty (settlingTarget_joining ht hkind ⟨d, hget, hstate⟩)
      exact library.leaveUniform huniform hchange n a hmember
    | learnerRemoved _ _ hremoved =>
      exfalso
      simp only [Consensus.removeLearner, ok_rules, not_or, not_not] at hremoved
      obtain ⟨_, _, ht', ⟨hkind', _⟩, _⟩ := hremoved
      rw [ht, some.injEq] at ht'
      rw [← ht', hkind] at hkind'
      cases hkind'

/-- An entry that drops another admitted node leaves a state that fails. -/
theorem Proposal.drops_fails {logId : LogId}
    (hcluster : ClusterInv activated m.decisions)
    (h : MembershipInv m.decisions.clusterControl m.membership.membership)
    (hproposal : Proposal library m m (.membership next))
    (hdrops : ¬ DropsOnlyRemoved m (.membership next)) :
    (m.advance ⟨logId, .membership next⟩).1.validateClusterMembership ≠ .ok () := by
  simp only [DropsOnlyRemoved, not_forall] at hdrops
  obtain ⟨_, heq, n, hcontains, hmember, hnone, hother⟩ := hdrops
  obtain rfl := EntryPayload.membership.inj heq
  obtain ⟨d, hget⟩ := (OrdMap.contains_iff _ _).mp hcontains
  obtain ⟨a, ha⟩ := ne_none_iff_exists'.mp hmember
  have htarget : ∀ t, m.decisions.clusterControl.transition = some t →
        m.decisions.clusterControl.nodes.contains t.nodeId = true := by
    intro t ht
    obtain ⟨e, he, _⟩ := hcluster.transitions.target t ht
    exact (OrdMap.contains_iff _ _).mpr ⟨e, he⟩
  intro hvalid
  have hscans := (validateClusterMembership_admitted (m := (m.advance ⟨logId, .membership next⟩).1)
      (MembershipInv.nonempty_of_get? hget) htarget).mp hvalid
  have hentry := validateDescriptors_eq_ok.mp hscans.2.1 (n, d) ((get?_eq_some_iff _ _ _).mp hget)
  have hoptional := hentry.2.2.1 hnone
  rcases membershipOptional_eq_true.mp hoptional with
    ⟨hadd, hjoining⟩ | ⟨hremove, _⟩
  · obtain ⟨t, ht, hn, hkind⟩ := transitionKind_eq_some.mp hadd
    subst hn
    have hkept := hproposal.keeps_joining h ht hkind ⟨d, hget, hjoining⟩ ha
    rw [hnone] at hkept
    cases hkept
  · exact hother hremove

/--
A node restarts from the journal of a committed log exactly outside the window
of the first admission, and the same state can be built into a snapshot and
installed exactly then.  This is for logs whose membership entries pass their checks
in the state right before them and drop no admitted node but the one under REMOVE; an
entry that drops another one prevents the restart.
-/
theorem restart_iff_outside_genesis_window
    (h : CommittedLog library config (EntryHolds library) log m) :
    (loadMachine ((DurableStore.create config).appendApplied log) = .ok m ↔
    ¬ GenesisWindow m.decisions.clusterControl) ∧
    ((∃ snapshot, m.captureSnapshot.toSnapshot = .ok snapshot) ↔
    ¬ GenesisWindow m.decisions.clusterControl) ∧
    (∀ store header, store.config = config → header.lastLogId = m.lastAppliedLogId →
    header.lastMembership = m.membership →
    ((∃ installed, installSnapshot store header m = .ok installed) ↔
    ¬ GenesisWindow m.decisions.clusterControl)) ∧
    ∀ last entry, m.lastAppliedLogId = some last → entry.logId.index = last.index + 1 →
    entry.logId.index ≤ u64Max → Proposal library m m entry.payload →
    ¬ DropsOnlyRemoved m entry.payload →
    ∃ text, loadMachine ((DurableStore.create config).appendApplied (log ++ [entry])) =
    .error (.storage text) := by
  have hvalidate := h.validate_iff
  refine ⟨h.loadMachine_eq_ok.trans hvalidate, ?_, ?_, ?_⟩
  · rw [← hvalidate, ← (captureSnapshot_same m).validate]
    exact exists_toSnapshot_iff
  · intro _ _ hconfig hlog hmembership
    rw [← hvalidate]
    simp only [installSnapshot_eq_ok]
    constructor
    · rintro ⟨_, _, hvalid, _⟩
      exact hvalid
    intro hvalid
    exact ⟨_, ⟨hlog.symm, hmembership.symm, hconfig ▸ h.configured⟩, hvalid, rfl⟩
  intro last entry hlast hindex hbound hproposal hdrops
  obtain ⟨_, hcluster, hinv, _⟩ := h.membershipInv
  have hany : CommittedLog library config (fun _ _ => True) log m := h.mono fun _ _ _ => trivial
  have hrun : CommittedLog library config (fun _ _ => True) (log ++ [entry]) (m.advance entry).1 :=
    .entry log log m m last entry hany hany (prefix_refl log) hlast hindex hbound hproposal trivial
  have hfails : (m.advance entry).1.validateClusterMembership ≠ .ok () := by
    obtain ⟨_, payload⟩ := entry
    cases payload with
    | membership => exact hproposal.drops_fails hcluster (hinv (by simp [hlast])) hdrops
    | blank | normal => exact absurd (fun _ hpayload => by cases hpayload) hdrops
  rw [hrun.loadMachine_eq]
  cases hcheck : (m.advance entry).1.validateClusterMembership with
  | error text => exact ⟨text, rfl⟩
  | ok => exact absurd hcheck hfails

/-- A one-node group up to the admission of its first node. -/
def firstAdmissionLog : List RaftEntry := [⟨sampleLogId 0, .membership (ensureOneNode 1)⟩,
    ⟨sampleLogId 1, .normal (.initializeCluster ⟨5⟩)⟩,
    ⟨sampleLogId 2, .normal (.beginAddNode 1 (sampleDescriptor 1 "keldra-local://1"))⟩]

/-- The state a log leads to from the initial one. -/
def sampleStateAfter (log : List RaftEntry) : MachineState :=
  log.foldl (fun m entry => (m.advance entry).1)
    ⟨.initial 4 65536, none, StoredMembership.default, 0⟩

instance (membership : Membership) : Decidable membership.WellFormed :=
  decidable_of_iff (membership.configs.all (!·.isEmpty) ∧
      membership.voterIds.keys.all fun v => membership.nodes.contains v)
    (by simp [WellFormed, OrdSet.contains_iff_mem_keys])

/-- A library that adds new learners and refuses every other change. -/
def learnersOnly : RaftLibrary where
  change m request := match request with
    | .addNode n address =>
      if m.WellFormed ∧ m.getNode n = none then some { m with nodes := m.nodes.insert n address }
      else none
    | _ => none
  wellFormed {m next request} h := by
    cases request with
    | addNode n address =>
      obtain ⟨⟨hvalid, -⟩, hnext⟩ := Option.ite_none_right_eq_some.mp h
      obtain rfl := Option.some.inj hnext
      refine ⟨hvalid.1, fun v hv => ?_⟩
      have hmember := hvalid.2 v hv
      rw [OrdMap.contains_iff] at hmember ⊢
      by_cases hsame : v = n
      · exact ⟨address, by rw [hsame, get?_insert_self]⟩
      · exact hmember.imp fun a ha => (get?_insert_of_ne _ _ hsame).trans ha
    | _ => cases h
  addNode {m next n address} h := by
    obtain ⟨⟨-, hnew⟩, hnext⟩ := Option.ite_none_right_eq_some.mp h
    obtain rfl := Option.some.inj hnext
    refine ⟨rfl, fun k a hmember => ?_, fun k a hmember => ?_⟩
    · have hne : k ≠ n := by
        rintro rfl
        cases hnew.symm.trans hmember
      exact (get?_insert_of_ne _ _ hne).trans hmember
    · by_cases hsame : k = n
      · subst hsame
        exact .inr ⟨rfl, (Option.some.inj ((get?_insert_self _ _ _).symm.trans hmember)).symm⟩
      · exact .inl ((get?_insert_of_ne _ _ hsame).symm.trans hmember)
  removeNode h := by cases h
  replaceAllVoters h := by cases h
  leaveJoint _ h := by cases h
  leaveUniform _ h := by cases h

/-- The sample group with a learner, before the first admission. -/
def learnerLog : List RaftEntry := firstAdmissionLog.take 2 ++ [⟨sampleLogId 2,
  .membership { ensureOneNode 1 with
    nodes := (ensureOneNode 1).nodes.insert 2 "keldra-local://2" }⟩]

theorem committedLog_firstAdmission (hallowed : ∀ m command, allowed m (.normal command)) :
    CommittedLog learnersOnly ⟨4, 65536⟩ allowed (firstAdmissionLog.take 1)
      (sampleStateAfter (firstAdmissionLog.take 1)) ∧
    CommittedLog learnersOnly ⟨4, 65536⟩ allowed (firstAdmissionLog.take 2)
      (sampleStateAfter (firstAdmissionLog.take 2)) ∧
    CommittedLog learnersOnly ⟨4, 65536⟩ allowed firstAdmissionLog
      (sampleStateAfter firstAdmissionLog) := by
  have hgenesis : CommittedLog learnersOnly ⟨4, 65536⟩ allowed (firstAdmissionLog.take 1)
        (sampleStateAfter (firstAdmissionLog.take 1)) :=
    .genesis _ 1 _ _ rfl .one rfl
  have hcluster : CommittedLog learnersOnly ⟨4, 65536⟩ allowed (firstAdmissionLog.take 2)
        (sampleStateAfter (firstAdmissionLog.take 2)) :=
    .entry _ _ _ _ _ _ hgenesis hgenesis (prefix_refl _) rfl rfl (by decide) (.command _)
      (hallowed _ _)
  exact ⟨hgenesis, hcluster, .entry _ _ _ _ _ _ hcluster hcluster (prefix_refl _) rfl rfl
    (by decide) (.command _) (hallowed _ _)⟩

/-- Before the first admission the sample group restarts; its learner was checked before the
cluster was initialized. -/
theorem restart_iff_outside_genesis_window_firstAdmission :
    ¬ GenesisWindow (sampleStateAfter learnerLog).decisions.clusterControl ∧
      loadMachine ((DurableStore.create ⟨4, 65536⟩).appendApplied learnerLog) =
        .ok (sampleStateAfter learnerLog) := by
  have houtside : ¬ GenesisWindow (sampleStateAfter learnerLog).decisions.clusterControl := by
    decide +kernel
  have hempty : (sampleStateAfter (firstAdmissionLog.take 2)).decisions.clusterControl.nodes =
      OrdMap.empty := by
    decide +kernel
  have hcommand : ∀ m command, EntryHolds learnersOnly m (.normal command) := by
    intro m command
    exact ⟨fun _ hpayload => (by cases hpayload), .command command⟩
  obtain ⟨hgenesis, hcluster, -⟩ := committedLog_firstAdmission hcommand
  have hdrops : ∀ payload, DropsOnlyRemoved (sampleStateAfter (firstAdmissionLog.take 2))
      payload := by
    intro _ _ _ n hn
    rw [hempty] at hn
    cases hn
  have hlearner : ∀ checked, addLearner checked 2 "keldra-local://2" =
      .ok (.addNode 2 "keldra-local://2") →
      Proposal learnersOnly checked (sampleStateAfter (firstAdmissionLog.take 2))
        (learnerLog.getLast (by decide)).payload := by
    intro checked hcheck
    exact .membership _ _ (.learnerAdded _ _ _ hcheck) (by decide +kernel)
  have hrun : CommittedLog learnersOnly ⟨4, 65536⟩ (EntryHolds learnersOnly) learnerLog
      (sampleStateAfter learnerLog) := by
    refine .entry _ _ _ _ _ _ hcluster hgenesis ⟨[_], rfl⟩ rfl rfl (by decide)
      (hlearner _ (by decide +kernel)) ⟨hdrops _, hlearner _ (by decide +kernel)⟩
  exact ⟨houtside, (restart_iff_outside_genesis_window hrun).1.mpr houtside⟩

/-- After the first admission it does not: no node may vote, and one does. -/
theorem restart_fails_in_genesis_window :
    CommittedLog learnersOnly ⟨4, 65536⟩ (fun _ _ => True) firstAdmissionLog
      (sampleStateAfter firstAdmissionLog) ∧
    loadMachine ((DurableStore.create ⟨4, 65536⟩).appendApplied firstAdmissionLog) =
      .error (.storage "Raft voter target requires 0 voters, not 1") :=
  ⟨(committedLog_firstAdmission (fun _ _ => trivial)).2.2, by decide +kernel⟩

end

end Keldra.Consensus
