import Keldra.Consensus.MembershipFacts

/-!
# Agreement of the membership with the admitted nodes

What every applied entry preserves between the cluster-control state and the
Raft membership.  While no voter change is settling the voters are those the
admitted ACTIVE nodes require; while one is settling, the last configuration
already has the size the transition asks for.  The one exception is the first
admission: its node is the only voter before it is ACTIVE.
-/

namespace Keldra.Consensus

open Foundation OrdMap Consensus.Membership Option

/-- The state and address of every admitted node. -/
def ClusterControlState.shape (c : ClusterControlState) : OrdMap NodeId (NodeState × PeerAddress) :=
  c.nodes.mapValues (fun d => (d.state, d.peerAddress))

open ClusterControlState

variable {c c' : ClusterControlState} {n : NodeId} {d d' : NodeDescriptor}

theorem get?_of_shape_eq (hshape : c'.shape = c.shape) (hget : c'.nodes.get? n = some d) :
    ∃ e, c.nodes.get? n = some e ∧ e.state = d.state ∧ e.peerAddress = d.peerAddress := by
  have hn := congrArg (fun m => m.get? n) hshape
  simp only [shape, get?_mapValues, hget, map_some] at hn
  obtain ⟨e, he, hpair⟩ := map_eq_some_iff.mp hn.symm
  exact ⟨e, he, congrArg Prod.fst hpair, congrArg Prod.snd hpair⟩

theorem hasState_of_shape_eq {state : NodeState}
    (hshape : c'.shape = c.shape) :
    HasState c'.nodes n state ↔ HasState c.nodes n state := by
  constructor
  · rintro ⟨d, hget, hstate⟩
    obtain ⟨e, he, hsame, _⟩ := get?_of_shape_eq hshape hget
    exact ⟨e, he, hsame.trans hstate⟩
  rintro ⟨d, hget, hstate⟩
  obtain ⟨e, he, hsame, _⟩ := get?_of_shape_eq hshape.symm hget
  exact ⟨e, he, hsame.trans hstate⟩

theorem activeNodeCount_of_shape_eq (hshape : c'.shape = c.shape) :
    c'.activeNodeCount = c.activeNodeCount := by
  have hcount : ∀ x : ClusterControlState, x.activeNodeCount = (x.shape.entries.map
        (fun e => if e.2.1 = .active then 1 else 0)).sum := by
    intro x
    rw [activeNodeCount_eq_sum]
    simp [shape, mapValues, List.map_map, Function.comp_def]
  rw [hcount, hcount, hshape]

/-- An edit that keeps the state and the address keeps the shape. -/
theorem shape_insert_same (hget : c.nodes.get? n = some d) (hnodes : c'.nodes = c.nodes.insert n d')
    (hstate : d'.state = d.state) (haddress : d'.peerAddress = d.peerAddress) :
    c'.shape = c.shape := by
  apply ext_get?
  intro k
  simp only [shape, get?_mapValues, hnodes, get?_insert]
  by_cases hk : k = n
  · rw [if_pos hk, hk, hget]
    simp [hstate, haddress]
  · rw [if_neg hk]

variable {t : MembershipTransition}

theorem transitionKind_eq_some {kind : MembershipTransitionKind} :
    MachineState.transitionKind c n = some kind ↔
    ∃ t, c.transition = some t ∧ t.nodeId = n ∧ t.kind = kind := by
  unfold MachineState.transitionKind
  cases htransition : c.transition with
  | none => simp
  | some t =>
    by_cases hn : t.nodeId = n
    · simp [hn]
    · simp [hn]

theorem membershipOptional_eq_true : MachineState.membershipOptional c n d = true ↔
    (MachineState.transitionKind c n = some .add ∧ d.state = .joining) ∨
    (MachineState.transitionKind c n = some .remove ∧ d.state = .active) := by
  unfold MachineState.membershipOptional
  split <;> simp_all

/-- Only the node of the transition may be missing from the membership. -/
theorem transition_of_membershipOptional (h : MachineState.membershipOptional c n d = true) :
    ∃ t, c.transition = some t ∧ t.nodeId = n := by
  rcases membershipOptional_eq_true.mp h with ⟨hkind, _⟩ | ⟨hkind, _⟩
  · obtain ⟨t, ht, hn, _⟩ := transitionKind_eq_some.mp hkind
    exact ⟨t, ht, hn⟩
  obtain ⟨t, ht, hn, _⟩ := transitionKind_eq_some.mp hkind
  exact ⟨t, ht, hn⟩

/-- How many voters the change in progress settles on, if one is in progress. -/
def settlingTarget (c : ClusterControlState) : Option Nat :=
  match c.transition with
  | none => none
  | some t =>
    match t.kind with
    | .reweight => none
    | .add =>
      if (c.nodes.get? t.nodeId).any (fun d => d.state = .joining) then none else some c.voterTarget
    | .remove => some (removalVoterTarget c)

theorem settlingTarget_idle (h : c.transition = none) : settlingTarget c = none := by
  simp [settlingTarget, h]

section

variable (h : c.transition = some t)

include h

theorem settlingTarget_joining (hkind : t.kind = .add)
    (hjoining : HasState c.nodes t.nodeId .joining) : settlingTarget c = none := by
  obtain ⟨d, hget, hstate⟩ := hjoining
  simp [settlingTarget, h, hkind, hget, hstate]

theorem settlingTarget_activated (hkind : t.kind = .add)
    (hactive : HasState c.nodes t.nodeId .active) : settlingTarget c = some c.voterTarget := by
  obtain ⟨d, hget, hstate⟩ := hactive
  simp [settlingTarget, h, hkind, hget, hstate]

theorem settlingTarget_remove (hkind : t.kind = .remove) :
    settlingTarget c = some (removalVoterTarget c) := by
  simp [settlingTarget, h, hkind]

theorem settlingTarget_reweight (hkind : t.kind = .reweight) : settlingTarget c = none := by
  simp [settlingTarget, h, hkind]

end

theorem validateTransitionVoters_eq_ok {membership : Membership} {decisions : StateMachine} :
    MachineState.validateTransitionVoters c membership decisions = .ok () ↔
    (settlingTarget c = none → validateFixedVoters membership decisions = .ok ()) := by
  unfold MachineState.validateTransitionVoters settlingTarget
  cases htransition : c.transition with
  | none => simp [mapError_eq_ok]
  | some t =>
    cases hkind : t.kind with
    | reweight => simp [mapError_eq_ok, hkind]
    | remove => simp [hkind]
    | add =>
      by_cases hjoining : (c.nodes.get? t.nodeId).any (fun d => d.state = .joining) = true
      · simp [mapError_eq_ok, hkind, hjoining]
      · simp [hkind, hjoining]

/-- The voters are this many ACTIVE nodes. -/
def VotersAre (c : ClusterControlState) (m : Membership) (target : Nat) : Prop :=
  m.voterIds.size = target ∧ ∀ v, m.voterIds.contains v = true → HasState c.nodes v .active

/-- The membership and the admitted nodes agree at every applied position. -/
structure MembershipInv (c : ClusterControlState) (m : Membership) : Prop where
  valid : m.WellFormed
  configured : m.configs ≠ []
  address : c.nodes.isEmpty = false →
    ∀ n a, m.getNode n = some a → ∃ d, c.nodes.get? n = some d ∧ d.peerAddress.value = a
  member : ∀ n d, c.nodes.get? n = some d → m.getNode n = none →
      MachineState.membershipOptional c n d = true
  uniform : c.nodes.isEmpty = false → settlingTarget c = none → m.Uniform
  fixed : c.activeNodeCount ≠ 0 → settlingTarget c = none → VotersAre c m c.voterTarget
  settling : ∀ target, settlingTarget c = some target → m.Uniform ∨ ∃ last,
      m.configs.getLast? = some last ∧ last.size = target

variable {library : RaftLibrary} {m : Membership} {retain : Bool}

namespace MembershipInv

section

variable {target : Nat}

/-- A node that no transition concerns is a member. -/
theorem isMember (h : MembershipInv c m) (hget : c.nodes.get? n = some d)
    (hother : ∀ t, c.transition = some t → t.nodeId ≠ n) : m.getNode n ≠ none := by
  intro hnone
  obtain ⟨t, ht, hn⟩ := transition_of_membershipOptional (h.member n d hget hnone)
  exact hother t ht hn

/-- A node other than the transition's is a member. -/
theorem isMember_of_ne (h : MembershipInv c m) (hsome : c.transition = some t)
    (hget : c.nodes.get? n = some d) (hne : n ≠ t.nodeId) : m.getNode n ≠ none := by
  refine h.isMember hget ?_
  intro _ ht' heq
  rw [hsome, some.injEq] at ht'
  exact hne (ht' ▸ heq.symm)

theorem isMember_of_target (h : MembershipInv c m) (hsome : c.transition = some t)
    (hmember : m.getNode t.nodeId ≠ none) (hget : c.nodes.get? n = some d) :
    m.getNode n ≠ none := by
  by_cases hn : n = t.nodeId
  · exact hn ▸ hmember
  · exact h.isMember_of_ne hsome hget hn

/-- Every voter is a member. -/
theorem voter_isMember {v : NodeId}
    (h : MembershipInv c m) (hv : m.voterIds.contains v = true) :
    m.getNode v ≠ none := by
  have hmember := h.valid.2 v hv
  unfold OrdMap.contains at hmember
  unfold getNode
  intro hnone
  rw [hnone] at hmember
  cases hmember

theorem nonempty_of_get? (hget : c.nodes.get? n = some d) : c.nodes.isEmpty = false := by
  cases hempty : c.nodes.isEmpty with
  | false => rfl
  | true =>
    rw [OrdMap.isEmpty_iff] at hempty
    rw [hempty n] at hget
    cases hget

theorem nonempty_of_active (hactive : c.activeNodeCount ≠ 0) : c.nodes.isEmpty = false := by
  cases hempty : c.nodes.isEmpty with
  | false => rfl
  | true =>
    refine absurd (activeNodeCount_eq_zero_iff.mpr ?_) hactive
    rintro n ⟨d, hget, _⟩
    rw [OrdMap.isEmpty_iff] at hempty
    rw [hempty n] at hget
    cases hget

theorem isEmpty_of_shape_eq (hshape : c'.shape = c.shape) :
    c'.nodes.isEmpty = false ↔ c.nodes.isEmpty = false := by
  have hsize : ∀ x : ClusterControlState, x.nodes.isEmpty = x.shape.isEmpty := by
    simp [shape, mapValues, OrdMap.isEmpty]
  rw [hsize, hsize, hshape]

/-- Addresses depend on the shape alone. -/
theorem address_of_shape_eq
    (h : MembershipInv c m) (hshape : c'.shape = c.shape) (hnonempty : c'.nodes.isEmpty = false)
    (n : NodeId) (a : String) (hmember : m.getNode n = some a) :
    ∃ d, c'.nodes.get? n = some d ∧ d.peerAddress.value = a := by
  obtain ⟨d, hget, haddress⟩ := h.address ((isEmpty_of_shape_eq hshape).mp hnonempty) n a hmember
  obtain ⟨e, he, _, hsame⟩ := get?_of_shape_eq hshape.symm hget
  exact ⟨e, he, hsame ▸ haddress⟩

theorem votersAre_of_shape_eq (hshape : c'.shape = c.shape) (h : VotersAre c m target) :
    VotersAre c' m target :=
  ⟨h.1, fun v hv => (hasState_of_shape_eq hshape).mpr (h.2 v hv)⟩

theorem voterTarget_of_shape_eq (hshape : c'.shape = c.shape) : c'.voterTarget = c.voterTarget := by
  unfold voterTarget
  rw [activeNodeCount_of_shape_eq hshape]

section

variable (h : MembershipInv c m)

include h

/-- A change that asks for no voter keeps the agreement. -/
theorem keepVoters (hshape : c'.shape = c.shape) (hbefore : settlingTarget c = none)
    (hafter : settlingTarget c' = none) (hmember :
    ∀ n d, c'.nodes.get? n = some d → m.getNode n ≠ none) : MembershipInv c' m :=
  { h with
    address := h.address_of_shape_eq hshape
    member n d hget hnone := absurd hnone (hmember n d hget)
    uniform hnonempty _ := h.uniform ((isEmpty_of_shape_eq hshape).mp hnonempty) hbefore
    fixed hactive _ := by
      rw [activeNodeCount_of_shape_eq hshape] at hactive
      rw [voterTarget_of_shape_eq hshape]
      exact votersAre_of_shape_eq hshape (h.fixed hactive hbefore)
    settling target hsome := by
      rw [hafter] at hsome
      cases hsome }

/-- Edits of descriptors that keep states, addresses and the transition. -/
theorem congr (hshape : c'.shape = c.shape) (htransition : c'.transition = c.transition) :
    MembershipInv c' m := by
  have hkind : ∀ n, MachineState.transitionKind c' n = MachineState.transitionKind c n := by
    intro n
    unfold MachineState.transitionKind
    rw [htransition]
  have hjoining : ∀ n, (c'.nodes.get? n).any (fun d => d.state = .joining) =
        (c.nodes.get? n).any (fun d => d.state = .joining) := by
    intro n
    have hiff : HasState c'.nodes n .joining ↔ HasState c.nodes n .joining :=
      hasState_of_shape_eq hshape
    apply Bool.eq_iff_iff.mpr
    simp only [any_eq_true, decide_eq_true_eq]
    exact hiff
  have hsettling : settlingTarget c' = settlingTarget c := by
    unfold settlingTarget removalVoterTarget
    rw [htransition, voterTarget_of_shape_eq hshape, activeNodeCount_of_shape_eq hshape]
    simp only [hjoining]
  constructor
  · exact h.valid
  · exact h.configured
  · exact h.address_of_shape_eq hshape
  · intro n d hget hnone
    obtain ⟨e, he, hstate, _⟩ := get?_of_shape_eq hshape hget
    have hold := membershipOptional_eq_true.mp (h.member n e he hnone)
    rw [membershipOptional_eq_true, hkind, ← hstate]
    exact hold
  · rw [hsettling]
    exact fun hnonempty => h.uniform ((isEmpty_of_shape_eq hshape).mp hnonempty)
  · rw [hsettling, activeNodeCount_of_shape_eq hshape, voterTarget_of_shape_eq hshape]
    exact fun hactive hnone => votersAre_of_shape_eq hshape (h.fixed hactive hnone)
  rw [hsettling]
  exact h.settling

/-- With one possible member every configuration is that member alone. -/
theorem uniform_of_single (hsingle : ∀ k a, m.getNode k = some a → k = n) : m.Uniform := by
  have hnonempty := h.valid.1
  have hvoter : ∀ v, m.voterIds.contains v = true → v = n := by
    intro v hv
    obtain ⟨a, ha⟩ := ne_none_iff_exists'.mp (h.voter_isMember hv)
    exact hsingle v a ha
  cases hlast : m.configs.getLast? with
  | none => exact absurd (List.getLast?_eq_none_iff.mp hlast) h.configured
  | some last =>
    have hlastn : last.contains n = true := by
      have hne := hnonempty last (List.mem_of_getLast? hlast)
      obtain ⟨v, hv⟩ := exists_contains hne
      have heq := hvoter v (last_subset_voterIds hlast hv)
      exact heq ▸ hv
    have heq : last = m.voterIds := by
      apply OrdSet.ext_contains
      intro v
      constructor
      · exact last_subset_voterIds hlast
      intro hv
      rw [hvoter v hv]
      exact hlastn
    rw [Uniform, hlast, heq]

/-- Admission: the members were checked against the new descriptor. -/
theorem beginAdd (hidle : c.transition = none) (hnodes : c'.nodes = c.nodes.insert n d)
    (htransition : c'.transition = some t) (hkind : t.kind = .add) (hnode : t.nodeId = n)
    (hjoining : d.state = .joining) (hfresh : c.nodes.get? n = none) (hmembers :
    ∀ k a, m.getNode k = some a → (k = n → a = d.peerAddress.value) ∧
    (k ≠ n → c.nodes.contains k = true)) : MembershipInv c' m := by
  have hget : c'.nodes.get? n = some d := by rw [hnodes, get?_insert_self]
  have hbefore : settlingTarget c = none := settlingTarget_idle hidle
  have hafter : settlingTarget c' = none :=
    settlingTarget_joining htransition hkind (hnode ▸ ⟨d, hget, hjoining⟩)
  have hcount : c'.activeNodeCount = c.activeNodeCount := by
    rw [activeNodeCount_eq_sum, activeNodeCount_eq_sum, hnodes,
      c.nodes.sum_map_insert, c.nodes.erase_eq_self hfresh]
    simp [hjoining]
  constructor
  · exact h.valid
  · exact h.configured
  · intro _ k a hmember
    obtain ⟨hsame, hother⟩ := hmembers k a hmember
    by_cases hk : k = n
    · subst hk
      exact ⟨d, hget, (hsame rfl).symm⟩
    have hcontains := hother hk
    obtain ⟨e, he⟩ := (OrdMap.contains_iff _ _).mp hcontains
    obtain ⟨e', he', haddress⟩ := h.address (nonempty_of_get? he) k a hmember
    refine ⟨e', ?_, haddress⟩
    rw [hnodes, get?_insert_of_ne _ _ hk]
    exact he'
  · intro k e he hnone
    by_cases hk : k = n
    · subst hk
      obtain rfl := mem_unique hget he
      refine membershipOptional_eq_true.mpr (.inl ⟨?_, hjoining⟩)
      exact transitionKind_eq_some.mpr ⟨t, htransition, hnode, hkind⟩
    rw [hnodes, get?_insert_of_ne _ _ hk] at he
    refine absurd hnone (h.isMember he ?_)
    intro _ ht'
    rw [hidle] at ht'
    cases ht'
  · intro _ _
    cases hempty : c.nodes.isEmpty with
    | false => exact h.uniform hempty hbefore
    | true =>
      -- the first admission: its node is the only member there can be
      exact h.uniform_of_single (fun k a hmember => by
        by_contra hk
        have hcontains := (hmembers k a hmember).2 hk
        obtain ⟨e, he⟩ := (OrdMap.contains_iff _ _).mp hcontains
        rw [(OrdMap.isEmpty_iff _).mp hempty k] at he
        cases he)
  · intro hactive _
    rw [hcount] at hactive
    obtain ⟨hsize, hvoters⟩ := h.fixed hactive hbefore
    refine ⟨?_, ?_⟩
    · unfold voterTarget at hsize ⊢
      rw [hcount]
      exact hsize
    intro v hv
    have hold := hvoters v hv
    have hne : v ≠ n := by
      rintro rfl
      obtain ⟨e, he, _⟩ := hold
      rw [hfresh] at he
      cases he
    rw [hnodes]
    exact hasState_insert.mpr (.inr ⟨hne, hold⟩)
  · intro _ hsome
    rw [hafter] at hsome
    cases hsome

/-- The start of a removal leaves the voters as they are. -/
theorem beginRemove (hidle : c.transition = none) (hnodes : c'.nodes = c.nodes)
    (htransition : c'.transition = some t) (hkind : t.kind = .remove)
    (hnonempty : c.nodes.isEmpty = false) : MembershipInv c' m := by
  have hafter : settlingTarget c' = some (removalVoterTarget c') :=
    settlingTarget_remove htransition hkind
  constructor
  · exact h.valid
  · exact h.configured
  · rw [hnodes]
    exact h.address
  · intro n d hget hnone
    rw [hnodes] at hget
    refine absurd hnone (h.isMember hget ?_)
    intro _ ht'
    rw [hidle] at ht'
    cases ht'
  · intro _ hnone
    rw [hafter] at hnone
    cases hnone
  · intro _ hnone
    rw [hafter] at hnone
    cases hnone
  intro _ _
  exact .inl (h.uniform hnonempty (settlingTarget_idle hidle))

/-- Activation of a node that is already a member. -/
theorem activate (hsome : c.transition = some t) (hkind : t.kind = .add)
    (hget : c.nodes.get? t.nodeId = some d) (hjoining : d.state = .joining)
    (hnodes : c'.nodes = c.nodes.insert t.nodeId d') (htransition : c'.transition = c.transition)
    (hactive : d'.state = .active) (haddress : d'.peerAddress = d.peerAddress)
    (hmember : m.getNode t.nodeId ≠ none) : MembershipInv c' m := by
  have hget' : c'.nodes.get? t.nodeId = some d' := by rw [hnodes, get?_insert_self]
  have hafter : settlingTarget c' = some c'.voterTarget :=
    settlingTarget_activated (htransition.trans hsome) hkind ⟨d', hget', hactive⟩
  constructor
  · exact h.valid
  · exact h.configured
  · intro _ n a hn
    obtain ⟨e, he, hsame⟩ := h.address (nonempty_of_get? hget) n a hn
    by_cases hk : n = t.nodeId
    · subst hk
      obtain rfl := mem_unique hget he
      exact ⟨d', hget', haddress ▸ hsame⟩
    refine ⟨e, ?_, hsame⟩
    rw [hnodes, get?_insert_of_ne _ _ hk]
    exact he
  · intro n e he hnone
    by_cases hk : n = t.nodeId
    · exact absurd (hk ▸ hnone) hmember
    rw [hnodes, get?_insert_of_ne _ _ hk] at he
    exact absurd hnone (h.isMember_of_ne hsome he hk)
  · intro _ hnone
    rw [hafter] at hnone
    cases hnone
  · intro _ hnone
    rw [hafter] at hnone
    cases hnone
  · intro _ _
    refine .inl (h.uniform (nonempty_of_get? hget) ?_)
    exact settlingTarget_joining hsome hkind ⟨d, hget, hjoining⟩

/-- Voters of the settled size are the last configuration. -/
theorem uniform_of_settled (hsettling : settlingTarget c = some target)
    (hsize : m.voterIds.size = target) : m.Uniform := by
  rcases h.settling target hsettling with huniform | ⟨_, hlast, htarget⟩
  · exact huniform
  · exact uniform_of_size hlast (htarget.trans hsize.symm)

/-- The end of an addition whose voters were checked. -/
theorem finishAdd (hsome : c.transition = some t) (hkind : t.kind = .add)
    (hactive : HasState c.nodes t.nodeId .active) (hnodes : c'.nodes = c.nodes)
    (htransition : c'.transition = none) (hmember : m.getNode t.nodeId ≠ none)
    (hvoters : VotersAre c m c.voterTarget) : MembershipInv c' m := by
  have hsettling : settlingTarget c = some c.voterTarget :=
    settlingTarget_activated hsome hkind hactive
  have hshape : c'.shape = c.shape := by
    unfold shape
    rw [hnodes]
  constructor
  · exact h.valid
  · exact h.configured
  · exact h.address_of_shape_eq hshape
  · intro n d hget hnone
    rw [hnodes] at hget
    exact absurd hnone (h.isMember_of_target hsome hmember hget)
  · intro _ _
    exact h.uniform_of_settled hsettling hvoters.1
  · intro _ _
    rw [voterTarget_of_shape_eq hshape]
    exact votersAre_of_shape_eq hshape hvoters
  · intro _ hnone
    rw [settlingTarget_idle htransition] at hnone
    cases hnone

/-- The end of a removal whose voters were checked. -/
theorem finishRemove (hsome : c.transition = some t) (hkind : t.kind = .remove)
    (hget : c.nodes.get? t.nodeId = some d) (hactive : d.state = .active)
    (hnodes : c'.nodes = c.nodes.erase t.nodeId) (htransition : c'.transition = none)
    (hgone : m.getNode t.nodeId = none) (hvoters : VotersAre c m (removalVoterTarget c)) :
    MembershipInv c' m := by
  have hsettling : settlingTarget c = some (removalVoterTarget c) :=
    settlingTarget_remove hsome hkind
  have htarget : removalVoterTarget c = c'.voterTarget := by
    unfold removalVoterTarget voterTarget
    rw [activeNodeCount_erase hget hactive hnodes, Nat.add_sub_cancel_left]
  constructor
  · exact h.valid
  · exact h.configured
  · intro _ n a hn
    obtain ⟨e, he, hsame⟩ := h.address (nonempty_of_get? hget) n a hn
    have hne : n ≠ t.nodeId := by
      rintro rfl
      rw [hgone] at hn
      cases hn
    refine ⟨e, ?_, hsame⟩
    rw [hnodes, get?_erase, if_neg hne]
    exact he
  · intro n e he hnone
    rw [hnodes, get?_erase] at he
    by_cases hn : n = t.nodeId
    · rw [if_pos hn] at he
      cases he
    rw [if_neg hn] at he
    exact absurd hnone (h.isMember_of_ne hsome he hn)
  · intro _ _
    exact h.uniform_of_settled hsettling hvoters.1
  · intro _ _
    rw [← htarget]
    refine ⟨hvoters.1, ?_⟩
    intro v hv
    rw [hnodes]
    refine hasState_erase.mpr ⟨?_, hvoters.2 v hv⟩
    rintro rfl
    exact h.voter_isMember hv hgone
  · intro _ hnone
    rw [settlingTarget_idle htransition] at hnone
    cases hnone

end

end

section

variable {next : Membership}

/-- Without descriptors the membership has nothing to agree with. -/
theorem ofEmpty (hempty : c.nodes.isEmpty = true) (hidle : c.transition = none)
    (hvalid : next.WellFormed) (hconfigured : next.configs ≠ []) :
    MembershipInv c next where
  valid := hvalid
  configured := hconfigured
  address hnonempty := by
    rw [hempty] at hnonempty
    cases hnonempty
  member n d hget := by
    rw [(OrdMap.isEmpty_iff _).mp hempty n] at hget
    cases hget
  uniform hnonempty := by
    rw [hempty] at hnonempty
    cases hnonempty
  fixed hactive := by
    have hnonempty := nonempty_of_active hactive
    rw [hempty] at hnonempty
    cases hnonempty
  settling target hsome := by
    rw [settlingTarget_idle hidle] at hsome
    cases hsome

section

variable (h : MembershipInv c m)

include h

/-- A change of members alone: the configurations stay. -/
theorem changeMembers (hvalid : next.WellFormed) (hconfigs : next.configs = m.configs)
    (haddress : c.nodes.isEmpty = false →
    ∀ n a, next.getNode n = some a → ∃ d, c.nodes.get? n = some d ∧ d.peerAddress.value = a)
    (hmember : ∀ n d, c.nodes.get? n = some d → next.getNode n = none →
    MachineState.membershipOptional c n d = true) : MembershipInv c next := by
  have hvoters : next.voterIds = m.voterIds := by
    unfold voterIds
    rw [hconfigs]
  constructor
  · exact hvalid
  · rw [hconfigs]
    exact h.configured
  · exact haddress
  · exact hmember
  · unfold Uniform
    rw [hconfigs, hvoters]
    exact h.uniform
  · unfold VotersAre
    rw [hvoters]
    exact h.fixed
  unfold Uniform
  rw [hconfigs, hvoters]
  exact h.settling

/-- A learner joins under the ADD transition that admitted it. -/
theorem addLearner {address : String} (hchange : library.change m (.addNode n address) = some next)
    (hget : c.nodes.get? n = some d) (haddress : d.peerAddress.value = address) :
    MembershipInv c next := by
  obtain ⟨hconfigs, hkeep, honly⟩ := library.addNode hchange
  refine h.changeMembers (library.wellFormed hchange) hconfigs ?_ ?_
  · intro hnonempty k a hmember
    rcases honly k a hmember with hold | ⟨rfl, rfl⟩
    · exact h.address hnonempty k a hold
    · exact ⟨d, hget, haddress⟩
  intro k e he hnone
  refine h.member k e he ?_
  cases hold : m.getNode k with
  | none => rfl
  | some a =>
    rw [hkeep k a hold] at hnone
    cases hnone

/-- The node under REMOVE leaves once it no longer votes. -/
theorem removeLearner (hchange : library.change m (.removeNode t.nodeId) = some next)
    (hsome : c.transition = some t) (hkind : t.kind = .remove)
    (hget : c.nodes.get? t.nodeId = some d) (hactive : d.state = .active) :
    MembershipInv c next := by
  obtain ⟨hconfigs, hnodes⟩ := library.removeNode hchange
  refine h.changeMembers (library.wellFormed hchange) hconfigs ?_ ?_
  · intro hnonempty k a hmember
    rw [hnodes] at hmember
    by_cases hk : k = t.nodeId
    · rw [if_pos hk] at hmember
      cases hmember
    rw [if_neg hk] at hmember
    exact h.address hnonempty k a hmember
  intro k e he hnone
  by_cases hk : k = t.nodeId
  · subst hk
    obtain rfl := mem_unique hget he
    refine membershipOptional_eq_true.mpr (.inr ⟨?_, hactive⟩)
    exact transitionKind_eq_some.mpr ⟨t, hsome, rfl, hkind⟩
  rw [hnodes, if_neg hk] at hnone
  exact h.member k e he hnone

/-- A voter change that drops no admitted node but the one under REMOVE. -/
theorem changeVoters {voters : OrdSet NodeId}
    (hchange : library.change m (.replaceAllVoters voters retain) = some next)
    (hsettling : settlingTarget c = some voters.size) (hmember :
    ∀ n d, c.nodes.get? n = some d → next.getNode n = none →
    MachineState.membershipOptional c n d = true) : MembershipInv c next := by
  obtain ⟨hlast, honly⟩ := library.replaceAllVoters hchange
  constructor
  · exact library.wellFormed hchange
  · intro hnil
    rw [hnil] at hlast
    cases hlast
  · intro hnonempty n a hn
    exact h.address hnonempty n a (honly n a hn)
  · exact hmember
  · intro _ hnone
    rw [hsettling] at hnone
    cases hnone
  · intro _ hnone
    rw [hsettling] at hnone
    cases hnone
  intro _ htarget
  rw [hsettling, some.injEq] at htarget
  exact .inr ⟨voters, hlast, htarget⟩

/-- Leaving the joint configuration, under the same condition. -/
theorem leaveJoint (hchange : library.change m (.leaveJoint retain) = some next) (hmember :
    ∀ n d, c.nodes.get? n = some d → next.getNode n = none →
    MachineState.membershipOptional c n d = true) : MembershipInv c next := by
  obtain ⟨last, hlast⟩ := ne_none_iff_exists'.mp
      (fun hnone => h.configured (List.getLast?_eq_none_iff.mp hnone))
  obtain ⟨hconfigs, honly⟩ := library.leaveJoint hlast hchange
  have hvoters : next.voterIds = last := voterIds_singleton hconfigs
  have huniform : next.Uniform := by
    rw [Uniform, hconfigs, hvoters]
    rfl
  constructor
  · exact library.wellFormed hchange
  · rw [hconfigs]
    exact List.cons_ne_nil last []
  · intro hnonempty n a hn
    exact h.address hnonempty n a (honly n a hn)
  · exact hmember
  · exact fun _ _ => huniform
  · intro hactive hnone
    have hold := h.uniform (nonempty_of_active hactive) hnone
    rw [Uniform, hlast, some.injEq] at hold
    unfold VotersAre
    rw [hvoters, hold]
    exact h.fixed hactive hnone
  · exact fun _ _ => .inl huniform

end

end

end MembershipInv

end Keldra.Consensus
