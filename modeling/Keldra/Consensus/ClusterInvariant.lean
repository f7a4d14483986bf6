import Keldra.Consensus.DecisionSteps

/-!
# Invariant of the admitted nodes

The descriptors of a reachable state are well formed, stored under their own
identity and pairwise distinct in every identity they carry.  The transition
record and the node states agree.  Both halves are preserved by each effect
listed in `ClusterStep`.
-/

namespace Keldra.Consensus

open Foundation OrdMap List

variable {d : NodeDescriptor} {nodes : OrdMap NodeId NodeDescriptor} {n : NodeId} {m : NodeId}
  {state : NodeState}

namespace UsedNodeIds

/-- Masking a word with one bit gives zero exactly when the bit is clear. -/
theorem mask_eq_zero_iff {k : Nat}
    (word : BitVec 64) (hk : k < 64) :
    word &&& (1#64 <<< k) = 0 ↔ word.getLsbD k = false := by
  constructor
  · intro hzero
    have hbit := congrArg (fun masked => masked.getLsbD k) hzero
    simpa [hk] using hbit
  intro hclear
  apply BitVec.eq_of_getLsbD_eq
  intro i _
  by_cases hik : i = k
  · simp [hik, hclear]
  have hbit : (1#64 <<< k).getLsbD i = false := by
    simp
    omega
  simp [hbit]

theorem contains_eq (used : UsedNodeIds) (nodeId : NodeId) :
    used.contains nodeId = used.words[nodeId / 64]?.any
    (fun word => word.getLsbD (nodeId % 64)) := by
  unfold contains
  cases used.words[nodeId / 64]? with
  | none => rfl
  | some word =>
    have hmask := mask_eq_zero_iff word (Nat.mod_lt nodeId (by decide : 0 < 64))
    cases hbit : word.getLsbD (nodeId % 64) with
    | false => simp [hmask.mpr hbit, hbit]
    | true =>
      have hne : word &&& (1#64 <<< (nodeId % 64)) ≠ 0 := by
        rw [Ne, hmask, hbit]
        simp
      simpa [hbit] using hne

/-- Recording an identity adds it and keeps every other one. -/
theorem contains_insert (used : UsedNodeIds) {nodeId : Nat} (h : nodeId < 1024) (other : Nat) :
    (used.insert nodeId).contains other = (used.contains other || decide (other = nodeId)) := by
  have hword : nodeId / 64 < 16 := by omega
  have hbit : ∀ k, k < 64 → (1#64 <<< (nodeId % 64)).getLsbD k = decide (k = nodeId % 64) := by
    intro k _
    rw [← BitVec.twoPow_eq, BitVec.getLsbD_twoPow]
    simp only [eq_comm (a := k), Bool.and_eq_right_iff_imp, decide_eq_true_eq]
    omega
  rw [contains_eq, contains_eq]
  simp only [insert]
  rw [Vector.getElem?_setIfInBounds]
  by_cases hsame : nodeId / 64 = other / 64
  · have hget : used.words[other / 64]? = some (used.words.getD (nodeId / 64) 0) := by
      rw [← hsame, Vector.getElem?_eq_getElem hword]
      simp [Vector.getD, hword]
    rw [if_pos hsame, if_pos hword, hget]
    simp only [Option.any_some, BitVec.getLsbD_or]
    rw [hbit _ (Nat.mod_lt _ (by decide))]
    congr 1
    simp only [decide_eq_decide]
    omega
  · have hne : other ≠ nodeId := by
      rintro rfl
      exact hsame rfl
    rw [if_neg hsame]
    simp [hne]

end UsedNodeIds

/-- A node identity passes validation exactly in its range. -/
theorem validateNodeId_eq_ok {nodeId : NodeId} :
    validateNodeId nodeId = .ok () ↔ 1 ≤ nodeId ∧ nodeId ≤ maxRaftNodeId := by
  simp [validateNodeId, rejectIf_eq_ok]

/-- What a successful descriptor validation establishes. -/
structure DescriptorOk (d : NodeDescriptor) : Prop where
  nodeId : validateNodeId d.nodeId = .ok ()
  address : validatePeerAddress d.peerAddress = .ok ()
  weight : d.storageWeightMillionths ≠ 0
  current : validatePin d.currentPeerSpkiSha256 = .ok ()
  overlap : ∀ pin, d.overlapPeerSpkiSha256 = some pin →
      validatePin pin = .ok () ∧ pin ≠ d.currentPeerSpkiSha256
  protocol : validateCapabilityRange d.supportedProtocol = .ok ()
  format : validateCapabilityRange d.supportedStorageFormat = .ok ()
  joining : d.state = .joining → (∃ capability, d.joinCapabilityHash = some capability ∧
      validateJoinCapability capability = .ok ()) ∧
      d.overlapPeerSpkiSha256 = none
  active : d.state = .active → d.joinCapabilityHash = none

theorem validateOverlapPin_eq_ok :
    validateOverlapPin d = .ok () ↔ ∀ pin, d.overlapPeerSpkiSha256 = some pin →
    validatePin pin = .ok () ∧ pin ≠ d.currentPeerSpkiSha256 := by
  unfold validateOverlapPin
  cases d.overlapPeerSpkiSha256 with
  | none => simp
  | some => simp only [ok_rules, Option.some.injEq, forall_eq', ne_eq]

theorem validateStateFields_eq_ok :
    validateStateFields d = .ok () ↔ (d.state = .joining → (∃ capability,
    d.joinCapabilityHash = some capability ∧ validateJoinCapability capability = .ok ()) ∧
    d.overlapPeerSpkiSha256 = none) ∧ (d.state = .active → d.joinCapabilityHash = none) := by
  unfold validateStateFields
  cases d.state with
  | joining =>
    simp only [ok_rules, Option.not_isSome_iff_eq_none, reduceCtorEq, forall_const,
      IsEmpty.forall_iff, and_true]
    constructor
    · rintro ⟨capability, hsome, hvalid, hnone⟩
      exact ⟨⟨capability, hsome, hvalid⟩, hnone⟩
    rintro ⟨⟨capability, hsome, hvalid⟩, hnone⟩
    exact ⟨capability, hsome, hvalid, hnone⟩
  | active => simp

theorem validateDescriptor_eq_ok : validateDescriptor d = .ok () ↔ DescriptorOk d := by
  simp only [validateDescriptor, ok_rules, validateOverlapPin_eq_ok, validateStateFields_eq_ok]
  constructor
  · rintro ⟨hid, haddress, hweight, hcurrent, hoverlap, hprotocol, hformat, hjoining, hactive⟩
    exact ⟨hid, haddress, hweight, hcurrent, hoverlap, hprotocol, hformat, hjoining, hactive⟩
  rintro ⟨hid, haddress, hweight, hcurrent, hoverlap, hprotocol, hformat, hjoining, hactive⟩
  exact ⟨hid, haddress, hweight, hcurrent, hoverlap, hprotocol, hformat, hjoining, hactive⟩

/-- The peer pins a node is reachable under. -/
def NodeDescriptor.pins (d : NodeDescriptor) : List PeerSpkiSha256 :=
  d.currentPeerSpkiSha256 :: d.overlapPeerSpkiSha256.toList

variable {pin : PeerSpkiSha256}

theorem NodeDescriptor.mem_pins :
    pin ∈ d.pins ↔ d.currentPeerSpkiSha256 = pin ∨ d.overlapPeerSpkiSha256 = some pin := by
  simp [pins, eq_comm]

/-- Admitted descriptors are well formed and distinct in every identity. -/
structure DescriptorInv (nodes : OrdMap NodeId NodeDescriptor) (used : UsedNodeIds) : Prop where
  keyed : ∀ n d, nodes.get? n = some d → d.nodeId = n
  valid : ∀ n d, nodes.get? n = some d → DescriptorOk d
  used : ∀ n d, nodes.get? n = some d → used.contains n = true
  addresses :
    ∀ n m d e, nodes.get? n = some d → nodes.get? m = some e → d.peerAddress = e.peerAddress → n = m
  pins :
    ∀ n m d e pin, nodes.get? n = some d → nodes.get? m = some e → pin ∈ d.pins → pin ∈ e.pins →
      n = m
  capabilities : ∀ n m d e capability, nodes.get? n = some d → nodes.get? m = some e →
      d.joinCapabilityHash = some capability →
      e.joinCapabilityHash = some capability →
      n = m

variable {d' : NodeDescriptor}

section

variable {used : UsedNodeIds}

theorem ensurePinUnique_eq_ok :
    ensurePinUnique nodes n pin = .ok () ↔ ∀ m e, nodes.get? m = some e → m ≠ n → pin ∉ e.pins := by
  simp [ensurePinUnique, rejectIf_eq_ok, get?_eq_some_iff, NodeDescriptor.mem_pins]

theorem ensureJoinCapabilityUnique_eq_ok {capability : JoinCapabilityHash} :
    ensureJoinCapabilityUnique nodes n capability = .ok () ↔ ∀ m e, nodes.get? m = some e → m ≠ n →
    e.joinCapabilityHash ≠ some capability := by
  simp [ensureJoinCapabilityUnique, rejectIf_eq_ok, get?_eq_some_iff]

theorem ensureDescriptorUnique_ok (h : ensureDescriptorUnique nodes d = .ok ()) :
    ∀ m e, nodes.get? m = some e → e.peerAddress ≠ d.peerAddress ∧
    d.currentPeerSpkiSha256 ∉ e.pins ∧ (∀ capability, d.joinCapabilityHash = some capability →
    e.joinCapabilityHash ≠ some capability) := by
  have hscan : ∀ descriptors : List NodeDescriptor, ensureDescriptorUniqueAmong d descriptors = .ok
    () → ∀ e ∈ descriptors, e.peerAddress ≠ d.peerAddress ∧ d.currentPeerSpkiSha256 ∉ e.pins ∧ (∀
    capability, d.joinCapabilityHash = some capability → e.joinCapabilityHash ≠ some capability) :=
    by
    intro descriptors
    induction descriptors with
    | nil => simp
    | cons _ _ ih =>
      intro hok e he
      simp only [ensureDescriptorUniqueAmong, ok_rules, not_and] at hok
      obtain ⟨haddress, _, hcapability, hrest⟩ := hok
      rcases mem_cons.mp he with rfl | he
      · refine ⟨haddress, ?_, ?_⟩
        · rwa [NodeDescriptor.mem_pins]
        intro _ hsome hsame
        exact hcapability (by simp [hsome]) (hsome.trans hsame.symm)
      · exact ih hrest e he
  intro m e hget
  have hmem : (m, e) ∈ nodes.entries := (nodes.get?_eq_some_iff m e).mp hget
  exact hscan nodes.values h e (mem_map.mpr ⟨(m, e), hmem, rfl⟩)

theorem get?_insert_cases {e : NodeDescriptor}
    (h : (nodes.insert n d').get? m = some e) :
    (m = n ∧ e = d') ∨ (m ≠ n ∧ nodes.get? m = some e) := by
  rw [get?_insert] at h
  split at h
  · rename_i heq
    exact .inl ⟨heq, (Option.some.inj h).symm⟩
  rename_i hne
  exact .inr ⟨hne, h⟩

/-- What no two nodes share, and no node with the inserted one, stays unshared. -/
theorem unshared_insert {e : NodeDescriptor} {m' : NodeId} {e' : NodeDescriptor}
    {r : NodeDescriptor → NodeDescriptor → Prop}
    (hnew : ∀ m e, nodes.get? m = some e → m ≠ n → ¬ r e d' ∧ ¬ r d' e)
    (h : ∀ m m' e e', nodes.get? m = some e → nodes.get? m' = some e' → r e e' → m = m')
    (hsome : (nodes.insert n d').get? m = some e) (hsome' : (nodes.insert n d').get? m' = some e')
    (hshare : r e e') : m = m' := by
  rcases get?_insert_cases hsome with ⟨rfl, rfl⟩ | ⟨hne, hold⟩
  · rcases get?_insert_cases hsome' with ⟨rfl, rfl⟩ | ⟨hne', hold'⟩
    · rfl
    · exact absurd hshare (hnew m' e' hold' hne').2
  rcases get?_insert_cases hsome' with ⟨rfl, rfl⟩ | ⟨_, hold'⟩
  · exact absurd hshare (hnew m e hold hne).1
  · exact h m m' e e' hold hold' hshare

section

variable (h : DescriptorInv nodes used)

include h

/-- A well-formed descriptor that shares no address, pin or join capability with
another node can be put on a used identity. -/
theorem DescriptorInv.insert {used' : UsedNodeIds}
    (hkeyed : d'.nodeId = n) (hvalid : DescriptorOk d')
    (hused : used'.contains n = true)
    (hmore : ∀ m, used.contains m = true → used'.contains m = true)
    (hother : ∀ m e, nodes.get? m = some e → m ≠ n → e.peerAddress ≠ d'.peerAddress ∧
    (∀ pin ∈ d'.pins, pin ∉ e.pins) ∧ ∀ capability, d'.joinCapabilityHash = some capability →
    e.joinCapabilityHash ≠ some capability) : DescriptorInv (nodes.insert n d') used' := by
  constructor
  · intro m e hsome
    rcases get?_insert_cases hsome with ⟨rfl, rfl⟩ | ⟨_, hold⟩
    · exact hkeyed
    · exact h.keyed m e hold
  · intro m e hsome
    rcases get?_insert_cases hsome with ⟨rfl, rfl⟩ | ⟨_, hold⟩
    · exact hvalid
    · exact h.valid m e hold
  · intro m e hsome
    rcases get?_insert_cases hsome with ⟨rfl, rfl⟩ | ⟨_, hold⟩
    · exact hused
    · exact hmore m (h.used m e hold)
  · intro m m' e e' hsome hsome'
    refine unshared_insert (fun m e hold hne => ?_) h.addresses hsome hsome'
    exact ⟨(hother m e hold hne).1, (hother m e hold hne).1.symm⟩
  · intro m m' e e' pin hsome hsome' hpin hpin'
    refine unshared_insert (r := fun e e' => pin ∈ e.pins ∧ pin ∈ e'.pins) (fun m e hold hne => ?_)
      (fun m m' e e' hold hold' hboth => h.pins m m' e e' pin hold hold' hboth.1 hboth.2)
      hsome hsome' ⟨hpin, hpin'⟩
    have hfree := (hother m e hold hne).2.1 pin
    exact ⟨fun hboth => hfree hboth.2 hboth.1, fun hboth => hfree hboth.1 hboth.2⟩
  intro m m' e e' capability hsome hsome' hcap hcap'
  refine unshared_insert (r := fun e e' => e.joinCapabilityHash = some capability ∧
    e'.joinCapabilityHash = some capability) (fun m e hold hne => ?_)
      (fun m m' e e' hold hold' hboth =>
        h.capabilities m m' e e' capability hold hold' hboth.1 hboth.2) hsome hsome' ⟨hcap, hcap'⟩
  have hfree := (hother m e hold hne).2.2 capability
  exact ⟨fun hboth => hfree hboth.2 hboth.1, fun hboth => hfree hboth.1 hboth.2⟩

section

variable (hget : nodes.get? n = some d) (hid : d'.nodeId = d.nodeId)
  (haddress : d'.peerAddress = d.peerAddress) (hvalid : DescriptorOk d')

include hget hid haddress hvalid

/--
Replacing the descriptor of an admitted node keeps the invariant when the new
descriptor is well formed, stays at its address, and shares no pin and no join
capability with another node.
-/
theorem DescriptorInv.put (hpins :
    ∀ m e pin, nodes.get? m = some e → m ≠ n → pin ∈ d'.pins → pin ∉ e.pins) (hcapabilities :
    ∀ m e capability, nodes.get? m = some e → m ≠ n → d'.joinCapabilityHash = some capability →
    e.joinCapabilityHash ≠ some capability) : DescriptorInv (nodes.insert n d') used := by
  refine h.insert (hid.trans (h.keyed n d hget)) hvalid (h.used n d hget) (fun _ hm => hm) ?_
  intro m e hold hne
  refine ⟨fun hsame => hne ?_, fun pin => hpins m e pin hold hne,
    fun c => hcapabilities m e c hold hne⟩
  exact h.addresses m n e d hold hget (hsame.trans haddress)

/-- A replacement that keeps every identity of the node. -/
theorem DescriptorInv.put_same (hpins : ∀ pin ∈ d'.pins, pin ∈ d.pins) (hcapability :
    ∀ capability, d'.joinCapabilityHash = some capability →
    d.joinCapabilityHash = some capability) : DescriptorInv (nodes.insert n d') used := by
  refine h.put hget hid haddress hvalid ?_ ?_
  · intro m e pin hold hne hpin hpin'
    exact hne (h.pins m n e d pin hold hget hpin' (hpins pin hpin))
  intro m e capability hold hne hcap hcap'
  exact hne (h.capabilities m n e d capability hold hget hcap' (hcapability capability hcap))

end

/-- Admission of a new identity. -/
theorem DescriptorInv.admitNode (hvalid : DescriptorOk d) (hjoining : d.state = .joining)
    (hunique : ensureDescriptorUnique nodes d = .ok ()) :
    DescriptorInv (nodes.insert d.nodeId d) (used.insert d.nodeId) := by
  have hrange := validateNodeId_eq_ok.mp hvalid.nodeId
  have hlt : d.nodeId < 1024 := Nat.lt_succ_of_le hrange.2
  have hfree := ensureDescriptorUnique_ok hunique
  have hpins : d.pins = [d.currentPeerSpkiSha256] := by
    simp [NodeDescriptor.pins, (hvalid.joining hjoining).2]
  refine h.insert rfl hvalid ?_ ?_ ?_
  · simp [UsedNodeIds.contains_insert used hlt]
  · intro m hm
    simp [UsedNodeIds.contains_insert used hlt, hm]
  intro m e hold _
  obtain ⟨haddress, hpin, hcapability⟩ := hfree m e hold
  refine ⟨haddress, ?_, hcapability⟩
  intro pin hmem
  rw [hpins, mem_singleton] at hmem
  rwa [hmem]

/-- Removing a node keeps the invariant of the others. -/
theorem DescriptorInv.remove (n : NodeId) : DescriptorInv (nodes.erase n) used := by
  have hold : ∀ m e, (nodes.erase n).get? m = some e → nodes.get? m = some e := by
    intro m e hsome
    rw [get?_erase] at hsome
    split at hsome
    · cases hsome
    · exact hsome
  constructor
  · intro m e hsome
    exact h.keyed m e (hold m e hsome)
  · intro m e hsome
    exact h.valid m e (hold m e hsome)
  · intro m e hsome
    exact h.used m e (hold m e hsome)
  · intro m m' e e' hsome hsome'
    exact h.addresses m m' e e' (hold m e hsome) (hold m' e' hsome')
  · intro m m' e e' pin hsome hsome'
    exact h.pins m m' e e' pin (hold m e hsome) (hold m' e' hsome')
  intro m m' e e' capability hsome hsome'
  exact h.capabilities m m' e e' capability (hold m e hsome) (hold m' e' hsome')

end

end

/-- A node is admitted in the given state. -/
def HasState (nodes : OrdMap NodeId NodeDescriptor) (n : NodeId) (state : NodeState) : Prop :=
  ∃ d, nodes.get? n = some d ∧ d.state = state

theorem hasState_insert : HasState (nodes.insert n d) m state ↔
    (m = n ∧ d.state = state) ∨ (m ≠ n ∧ HasState nodes m state) := by
  unfold HasState
  rw [get?_insert]
  by_cases h : m = n <;> simp [h]

theorem hasState_erase : HasState (nodes.erase n) m state ↔ m ≠ n ∧ HasState nodes m state := by
  unfold HasState
  rw [get?_erase]
  by_cases h : m = n <;> simp [h]

theorem hasState_unique (hget : nodes.get? n = some d) :
    HasState nodes n state ↔ d.state = state := by
  simp [HasState, hget]

/--
Whether the node of the current transition was activated: set when an
activation is reported, cleared when the transition finishes.
-/
def activatedAfter (activated : Bool) : Except ApplyError ApplyResult → Bool
  | .ok (.membershipTransitionAdvanced _) => true
  | .ok (.membershipTransitionFinished _) => false
  | _ => activated

/-- The transition record and the node states agree. -/
structure TransitionInv (activated : Bool) (cluster : ClusterControlState) : Prop where
  joining : ∀ n, HasState cluster.nodes n .joining ↔ ∃ t, cluster.transition = some t ∧
      t.kind = .add ∧ t.nodeId = n ∧ activated = false
  target : ∀ t, cluster.transition = some t → ∃ d, cluster.nodes.get? t.nodeId = some d ∧
      (t.kind ≠ .add → d.state = .active) ∧
      (t.kind = .reweight → ∃ w, t.targetWeightMillionths = some w ∧
        w ≠ 0 ∧ d.storageWeightMillionths ≠ w)
  idle : cluster.transition = none → activated = false
  remaining : ∀ t, cluster.transition = some t → t.kind = .remove →
      ∃ m, m ≠ t.nodeId ∧ HasState cluster.nodes m .active

variable {c c' : ClusterControlState}

section

variable {activated : Bool} {t : MembershipTransition}

section

variable (h : TransitionInv activated c)

include h

/-- With no ADD before activation in progress, no node is JOINING. -/
theorem TransitionInv.no_joining (hnot :
    ∀ t, c.transition = some t → t.kind = .add → activated = true) (n : NodeId) :
    ¬ HasState c.nodes n .joining := by
  intro hjoining
  obtain ⟨t, hsome, hkind, _, hfalse⟩ := (h.joining n).mp hjoining
  rw [hnot t hsome hkind] at hfalse
  cases hfalse

/-- An edit that keeps node states, weights and the transition. -/
theorem TransitionInv.put_same (hget : c.nodes.get? n = some d)
    (hnodes : c'.nodes = c.nodes.insert n d') (htransition : c'.transition = c.transition)
    (hstate : d'.state = d.state)
    (hweight : d'.storageWeightMillionths = d.storageWeightMillionths) :
    TransitionInv activated c' := by
  have hhas : ∀ m state, HasState c'.nodes m state ↔ HasState c.nodes m state := by
    intro m _
    rw [hnodes, hasState_insert]
    by_cases hm : m = n
    · subst hm
      rw [hasState_unique hget]
      simp [hstate]
    · simp [hm]
  constructor
  · intro m
    rw [hhas, htransition]
    exact h.joining m
  · intro t hsome
    rw [htransition] at hsome
    obtain ⟨e, hgetT, hactive, hreweight⟩ := h.target t hsome
    rw [hnodes, get?_insert]
    by_cases hm : t.nodeId = n
    · rw [hm, hget, Option.some.injEq] at hgetT
      subst hgetT
      refine ⟨d', by simp [hm], ?_, ?_⟩
      · rw [hstate]
        exact hactive
      rw [hweight]
      exact hreweight
    · exact ⟨e, by simp [hm, hgetT], hactive, hreweight⟩
  · rw [htransition]
    exact h.idle
  · intro t hsome hkind
    rw [htransition] at hsome
    obtain ⟨m, hne, hactive⟩ := h.remaining t hsome hkind
    exact ⟨m, hne, (hhas m .active).mpr hactive⟩

theorem TransitionInv.congr (hnodes : c'.nodes = c.nodes)
    (htransition : c'.transition = c.transition) : TransitionInv activated c' := by
  constructor
  · rw [hnodes, htransition]
    exact h.joining
  · rw [hnodes, htransition]
    exact h.target
  · rw [htransition]
    exact h.idle
  rw [hnodes, htransition]
  exact h.remaining

/-- A begun REMOVE or REWEIGHT of an admitted ACTIVE node. -/
theorem TransitionInv.beginOther (hnone : c.transition = none) (hnodes : c'.nodes = c.nodes)
    (htransition : c'.transition = some t) (hkind : t.kind ≠ .add)
    (hget : c.nodes.get? t.nodeId = some d) (hactive : d.state = .active) (hreweight :
    t.kind = .reweight →
    ∃ w, t.targetWeightMillionths = some w ∧ w ≠ 0 ∧ d.storageWeightMillionths ≠ w)
    (hremaining : t.kind = .remove → ∃ m, m ≠ t.nodeId ∧ HasState c.nodes m .active) :
    TransitionInv activated c' := by
  constructor
  · intro m
    have hnot : ¬ HasState c.nodes m .joining := h.no_joining (by simp [hnone]) m
    rw [hnodes, htransition]
    constructor
    · intro hjoining
      exact absurd hjoining hnot
    rintro ⟨_, hsome, hadd, _⟩
    obtain rfl := Option.some.inj hsome
    exact absurd hadd hkind
  · intro _ hsome
    rw [htransition] at hsome
    obtain rfl := Option.some.inj hsome
    rw [hnodes]
    exact ⟨d, hget, fun _ => hactive, hreweight⟩
  · intro hnone'
    rw [htransition] at hnone'
    cases hnone'
  · intro _ hsome hremove
    rw [htransition] at hsome
    obtain rfl := Option.some.inj hsome
    rw [hnodes]
    exact hremaining hremove

/-- A begun ADD of a new JOINING node. -/
theorem TransitionInv.beginAdd (hnone : c.transition = none)
    (hnodes : c'.nodes = c.nodes.insert n d) (htransition : c'.transition = some t)
    (hkind : t.kind = .add) (hnode : t.nodeId = n) (hjoining : d.state = .joining) :
    TransitionInv activated c' := by
  constructor
  · intro m
    have hnot : ¬ HasState c.nodes m .joining := h.no_joining (by simp [hnone]) m
    rw [hnodes, htransition, hasState_insert]
    constructor
    · rintro (⟨rfl, _⟩ | ⟨_, hold⟩)
      · exact ⟨t, rfl, hkind, hnode, h.idle hnone⟩
      · exact absurd hold hnot
    rintro ⟨_, hsome, _, rfl, _⟩
    obtain rfl := Option.some.inj hsome
    exact .inl ⟨hnode, hjoining⟩
  · intro _ hsome
    rw [htransition] at hsome
    obtain rfl := Option.some.inj hsome
    rw [hnodes, hnode]
    refine ⟨d, by simp, fun hne => absurd hkind hne, ?_⟩
    intro hreweight
    rw [hkind] at hreweight
    cases hreweight
  · intro hnone'
    rw [htransition] at hnone'
    cases hnone'
  · intro _ hsome hremove
    rw [htransition] at hsome
    obtain rfl := Option.some.inj hsome
    rw [hkind] at hremove
    cases hremove

/-- Activation of the node under an ADD transition. -/
theorem TransitionInv.activate (hsome : c.transition = some t) (hkind : t.kind = .add)
    (hactive : d'.state = .active) (hnodes : c'.nodes = c.nodes.insert t.nodeId d')
    (htransition : c'.transition = c.transition) : TransitionInv true c' := by
  constructor
  · intro m
    rw [hnodes, hasState_insert]
    constructor
    · rintro (⟨_, hjoining⟩ | ⟨hne, hold⟩)
      · rw [hactive] at hjoining
        cases hjoining
      obtain ⟨_, hsome', _, hnode, _⟩ := (h.joining m).mp hold
      rw [hsome, Option.some.injEq] at hsome'
      exact absurd (hsome' ▸ hnode).symm hne
    rintro ⟨_, _, _, _, hfalse⟩
    cases hfalse
  · intro _ hsome'
    rw [htransition, hsome, Option.some.injEq] at hsome'
    subst hsome'
    rw [hnodes]
    refine ⟨d', by simp, fun hne => absurd hkind hne, ?_⟩
    intro hreweight
    rw [hkind] at hreweight
    cases hreweight
  · intro hnone
    rw [htransition, hsome] at hnone
    cases hnone
  · intro _ hsome' hremove
    rw [htransition, hsome, Option.some.injEq] at hsome'
    subst hsome'
    rw [hkind] at hremove
    cases hremove

end

/-- The end of a transition after which no node is JOINING. -/
theorem TransitionInv.finish
    (hnone : c'.transition = none) (hnot : ∀ m, ¬ HasState c'.nodes m .joining) :
    TransitionInv false c' := by
  constructor
  · intro m
    rw [hnone]
    constructor
    · intro hjoining
      exact absurd hjoining (hnot m)
    rintro ⟨_, hsome, _⟩
    cases hsome
  · intro t hsome
    rw [hnone] at hsome
    cases hsome
  · exact fun _ => rfl
  intro t hsome
  rw [hnone] at hsome
  cases hsome

end

/-- Number of ACTIVE nodes as a sum over the entries. -/
theorem activeNodeCount_eq_sum (c : ClusterControlState) : c.activeNodeCount = (c.nodes.entries.map
    (fun e => if e.2.state = .active then 1 else 0)).sum := by
  unfold ClusterControlState.activeNodeCount values
  induction c.nodes.entries with
  | nil => rfl
  | cons e _ ih =>
    rw [map_cons, filter_cons]
    by_cases h : e.2.state = .active
    · simp only [h, decide_true, if_true, length_cons, map_cons, sum_cons, ih]
      omega
    · simp [h, ih]

theorem activeNodeCount_eq_zero_iff :
    c.activeNodeCount = 0 ↔ ∀ n, ¬ HasState c.nodes n .active := by
  unfold ClusterControlState.activeNodeCount values
  rw [length_eq_zero_iff, filter_eq_nil_iff]
  constructor
  · rintro h n ⟨d, hget, hactive⟩
    have hmem : (n, d) ∈ c.nodes.entries := (c.nodes.get?_eq_some_iff n d).mp hget
    exact h d (mem_map.mpr ⟨(n, d), hmem, rfl⟩) (by simp [hactive])
  intro h d hd hactive
  obtain ⟨e, hmem, rfl⟩ := mem_map.mp hd
  exact h e.1 ⟨e.2, get?_of_mem hmem, by simpa using hactive⟩

/-- Taking an ACTIVE node away leaves one fewer. -/
theorem activeNodeCount_erase (hget : c.nodes.get? n = some d) (hactive : d.state = .active)
    (hnodes : c'.nodes = c.nodes.erase n) : c.activeNodeCount = 1 + c'.activeNodeCount := by
  rw [activeNodeCount_eq_sum, activeNodeCount_eq_sum, hnodes, c.nodes.sum_map_erase _ hget]
  simp [hactive]

/-- A count other than one leaves a second ACTIVE node. -/
theorem exists_other_active (hget : c.nodes.get? n = some d) (hactive : d.state = .active)
    (hcount : c.activeNodeCount ≠ 1) : ∃ m, m ≠ n ∧ HasState c.nodes m .active := by
  let rest : ClusterControlState := { c with nodes := c.nodes.erase n }
  have hsplit : c.activeNodeCount = 1 + rest.activeNodeCount :=
    activeNodeCount_erase hget hactive rfl
  have hpositive : rest.activeNodeCount ≠ 0 := by omega
  rw [Ne, activeNodeCount_eq_zero_iff] at hpositive
  push Not at hpositive
  obtain ⟨m, hm⟩ := hpositive
  exact ⟨m, hasState_erase.mp hm⟩

end Keldra.Consensus
