import Keldra.Consensus.ServingLeaseProtocol

/-!
# Exclusion of serving leases

Every lease a node holds is a grant in the sense of the general argument, with
the lifetime, the proof age and the cutover wait of this protocol.  The facts a
call, a cached proof, a cutover slot or a lease carries are stable under what
the rest of the cluster does, so each step has to establish only its own.
-/

namespace Keldra.Consensus

open Foundation List LeaseHistory Option

/-- The timeline without the placements' identities. -/
def Timeline.history (τ : Timeline) : LeaseHistory NodeId where
  elected := τ.elected
  committed := τ.committed.map (fun c => ⟨c.term, c.time⟩)
  applied := τ.appliedAt

/-- The placement committed at a position. -/
def AtPosition (τ : Timeline) (position : Nat) (logId : LogId) : Prop :=
  ∃ c, τ.committed[position]? = some c ∧ c.logId = logId

structure TimelineInv (τ : Timeline) : Prop where
  wellFormed : τ.history.WellFormed τ.now
  committedLe : ∀ c ∈ τ.committed, c.time ≤ τ.now
  distinct : (τ.committed.map (·.logId)).Nodup

/-- A later timeline of the same cluster. -/
structure Timeline.Grows (τ τ' : Timeline) : Prop where
  history : τ.history.Extends τ.now τ'.history
  now : τ.now ≤ τ'.now
  committed :
    ∀ (i : Nat) (c : PlacementCommit), τ.committed[i]? = some c → τ'.committed[i]? = some c

variable {τ τ' : Timeline} {logId : LogId} {duration term position i : Nat}

section

theorem AtPosition.grow (h : AtPosition τ position logId) (hgrows : τ.Grows τ') :
    AtPosition τ' position logId := by
  obtain ⟨c, hc, hid⟩ := h
  exact ⟨c, hgrows.committed position c hc, hid⟩

section

variable (h : TimelineInv τ)

include h

/-- A placement is committed at one position. -/
theorem AtPosition.unique {j : Nat}
    (hi : AtPosition τ i logId) (hj : AtPosition τ j logId) : i = j := by
  obtain ⟨c, hc, hcid⟩ := hi
  obtain ⟨d, hd, hdid⟩ := hj
  have hlt : i < (τ.committed.map (·.logId)).length := by
    rw [length_map]
    exact (List.getElem?_eq_some_iff.mp hc).1
  refine (getElem?_inj hlt h.distinct).mp ?_
  rw [getElem?_map, getElem?_map, hc, hd]
  simp [hcid, hdid]

theorem timelineInv_tick : TimelineInv { τ with now := τ.now + duration } := by
  refine ⟨?_, fun c hc => ?_, h.distinct⟩
  · exact h.wellFormed.later (Nat.le_add_right _ _)
  · exact Nat.le_trans (h.committedLe c hc) (Nat.le_add_right _ _)

theorem timelineInv_elect {node : NodeId}
    (hfresh : ∀ e ∈ τ.elected, e.term ≠ term) : TimelineInv
    { τ with elected := ⟨term, node, τ.now⟩ :: τ.elected } := by
  refine ⟨?_, h.committedLe, h.distinct⟩
  constructor
  · intro e he f hf hterm
    rcases mem_cons.mp he with rfl | he
    · rcases mem_cons.mp hf with rfl | hf
      · rfl
      · exact absurd hterm.symm (hfresh f hf)
    rcases mem_cons.mp hf with rfl | hf
    · exact absurd hterm (hfresh e he)
    · exact h.wellFormed.oneLeader e he f hf hterm
  · intro e he
    rcases mem_cons.mp he with rfl | he
    · exact Nat.le_refl _
    · exact h.wellFormed.electedLe e he
  · intro c hc
    obtain ⟨e, he, hfacts⟩ := h.wellFormed.committedBy c hc
    exact ⟨e, mem_cons_of_mem _ he, hfacts⟩
  · exact h.wellFormed.appliedAfter

theorem timelineInv_commit (hleader : ∃ e ∈ τ.elected, e.term = term)
    (hfresh : ∀ c ∈ τ.committed, c.logId ≠ logId) : TimelineInv
    { τ with committed := τ.committed ++ [⟨logId, term, τ.now⟩] } := by
  constructor
  · constructor
    · exact h.wellFormed.oneLeader
    · exact h.wellFormed.electedLe
    · intro c hc
      obtain ⟨p, hp, rfl⟩ := mem_map.mp hc
      rcases mem_append.mp hp with hold | hnew
      · exact h.wellFormed.committedBy _ (mem_map.mpr ⟨p, hold, rfl⟩)
      rw [mem_singleton.mp hnew]
      obtain ⟨e, he, hterm⟩ := hleader
      exact ⟨e, he, hterm, h.wellFormed.electedLe e he⟩
    intro n i t ht
    obtain ⟨hle, c, hc, hafter⟩ := h.wellFormed.appliedAfter n i t ht
    refine ⟨hle, c, ?_, hafter⟩
    change (map _ (τ.committed ++ [_]))[i]? = some c
    rw [map_append]
    exact getElem?_snoc_of_old hc
  · intro c hc
    rcases mem_append.mp hc with hold | hnew
    · exact h.committedLe c hold
    · rw [mem_singleton.mp hnew]
  · rw [map_append]
    refine h.distinct.append (nodup_singleton _) ?_
    intro _ hold hnew
    obtain ⟨c, hc, rfl⟩ := mem_map.mp hold
    exact hfresh c hc (mem_singleton.mp hnew)

theorem timelineInv_applyNext {node : NodeId}
    (hbehind : (τ.appliedAt node).length < τ.committed.length) :
    TimelineInv
      { τ with
        appliedAt := fun k =>
          if k = node then τ.appliedAt node ++ [τ.now] else τ.appliedAt k } := by
  refine ⟨?_, h.committedLe, h.distinct⟩
  constructor
  · exact h.wellFormed.oneLeader
  · exact h.wellFormed.electedLe
  · exact h.wellFormed.committedBy
  intro n i t ht
  change (if n = node then τ.appliedAt node ++ [τ.now]
    else τ.appliedAt n)[i]? = some t at ht
  by_cases hn : n = node
  · rw [if_pos hn] at ht
    rcases Nat.lt_or_ge i (τ.appliedAt node).length with hlt | hge
    · rw [getElem?_append_left hlt] at ht
      exact h.wellFormed.appliedAfter node i t ht
    rw [getElem?_append_right hge] at ht
    have hi : i = (τ.appliedAt node).length := by
      have hlt := (List.getElem?_eq_some_iff.mp ht).1
      simp only [length_singleton] at hlt
      omega
    obtain rfl := mem_singleton.mp (mem_of_getElem? ht)
    obtain ⟨c, hc⟩ : ∃ c, τ.committed[i]? = some c :=
      ⟨_, getElem?_eq_getElem (hi ▸ hbehind)⟩
    refine ⟨Nat.le_refl _, ⟨c.term, c.time⟩, ?_, ?_⟩
    · change (map _ τ.committed)[i]? = _
      rw [getElem?_map, hc]
      rfl
    · exact h.committedLe c (mem_of_getElem? hc)
  · rw [if_neg hn] at ht
    exact h.wellFormed.appliedAfter n i t ht

end

theorem grows_tick : τ.Grows { τ with now := τ.now + duration } where
  history := .rfl
  now := Nat.le_add_right _ _
  committed _ _ hc := hc

theorem grows_elect {node : NodeId} :
    τ.Grows { τ with elected := ⟨term, node, τ.now⟩ :: τ.elected } where
  history :=
    { Extends.rfl with
      electedNew := by
        intro e he
        rcases mem_cons.mp he with rfl | he
        · exact .inr (Nat.le_refl _)
        · exact .inl he
      electedOld := fun e he => mem_cons_of_mem _ he }
  now := Nat.le_refl _
  committed _ _ hc := hc

theorem grows_commit : τ.Grows
      { τ with committed := τ.committed ++ [⟨logId, term, τ.now⟩] } where
  history :=
    { Extends.rfl with
      committedNew := by
        intro i c hc
        change (map _ (τ.committed ++ [_]))[i]? = some c at hc
        rw [map_append] at hc
        rcases getElem?_snoc hc with hold | rfl
        · exact .inl hold
        · exact .inr (Nat.le_refl _)
      committedOld := by
        intro i c hc
        change (map _ (τ.committed ++ [_]))[i]? = some c
        rw [map_append]
        exact getElem?_snoc_of_old hc }
  now := Nat.le_refl _
  committed _ _ hc := getElem?_snoc_of_old hc

theorem grows_applyNext {node : NodeId} : τ.Grows
      { τ with
        appliedAt := fun k =>
          if k = node then τ.appliedAt node ++ [τ.now] else τ.appliedAt k } where
  history :=
    { Extends.rfl with
      appliedNew := by
        intro n i t ht
        change (if n = node then τ.appliedAt node ++ [τ.now]
          else τ.appliedAt n)[i]? = some t at ht
        by_cases hn : n = node
        · rw [if_pos hn] at ht
          rcases getElem?_snoc ht with hold | rfl
          · exact .inl (hn ▸ hold)
          · exact .inr (Nat.le_refl _)
        rw [if_neg hn] at ht
        exact .inl ht
      appliedOld := by
        intro n i t ht
        change (if n = node then τ.appliedAt node ++ [τ.now]
          else τ.appliedAt n)[i]? = some t
        by_cases hn : n = node
        · rw [if_pos hn]
          exact getElem?_snoc_of_old (hn ▸ ht)
        rw [if_neg hn]
        exact ht }
  now := Nat.le_refl _
  committed _ _ hc := hc

/-- Consensus only adds to the timeline. -/
theorem timeline_step {action : ConsensusAction}
    (h : TimelineInv τ) (hstep : τ.step action = some τ') :
    TimelineInv τ' ∧ τ.Grows τ' := by
  cases action with
  | tick =>
    obtain rfl := some.inj hstep
    exact ⟨timelineInv_tick h, grows_tick⟩
  | elect =>
    obtain ⟨hfresh, hnext⟩ := ite_none_right_eq_some.mp hstep
    obtain rfl := some.inj hnext
    exact ⟨timelineInv_elect h hfresh, grows_elect⟩
  | commit =>
    obtain ⟨⟨hleader, hfresh⟩, hnext⟩ := ite_none_right_eq_some.mp hstep
    obtain rfl := some.inj hnext
    exact ⟨timelineInv_commit h hleader hfresh, grows_commit⟩
  | applyNext =>
    obtain ⟨hbehind, hnext⟩ := ite_none_right_eq_some.mp hstep
    obtain rfl := some.inj hnext
    exact ⟨timelineInv_applyNext h hbehind, grows_applyNext⟩

end

/-- A lease for a placement that ends by the given instant was granted. -/
def LeaseBacked (τ : Timeline) (logId : LogId) (expiresAt : Nat) : Prop :=
  ∃ g : LeaseRecord NodeId, Granted τ.history τ.now leaderQuorumProofMaxAge
    servingLeaseCutoverWait g ∧ AtPosition τ g.position logId ∧
      expiresAt ≤ g.requestedAt + servingLeaseMaxLifetime

/-- What the volatile state of a node process carries. -/
structure NodeOk (τ : Timeline) (n : NodeId) (node : LeaseNode) : Prop where
  proof : ∀ p, node.proof = some p → Confirmed τ.history τ.now n p.raftTerm p.confirmedAt
  cutover :
    ∀ identity readyAt, node.cutover.observed = some (identity, readyAt) → ∃ position observedAt,
      AtPosition τ position identity.activePlacementLogId ∧
        Observed τ.history n identity.raftTerm position observedAt ∧
        readyAt = observedAt + servingLeaseCutoverWait
  lease : ∀ state lease, node.lease = some state → state.current = some lease →
      LeaseBacked τ lease.activePlacementLogId lease.expiresAt

/-- The leader read the granted placement for a request under a fresh proof. -/
def GrantRead (τ : Timeline) (leader : NodeId) (requestedAt : Nat)
    (grant : ServingLeaseGrant) (position provedAt : Nat) : Prop :=
  AtPosition τ position grant.activePlacementLogId ∧
    ReadAt τ.history τ.now leader grant.raftTerm provedAt requestedAt position ∧
    requestedAt ≤ provedAt + leaderQuorumProofMaxAge ∧
    grant.maximumLocalLifetime = servingLeaseMaxLifetime

/-- What a call carries at each stage of its handler. -/
def StageOk (τ : Timeline) (leader : NodeId) (requestedAt : Nat) : GrantStage → Prop
  | .sent => True
  | .confirming startedAt => startedAt ≤ τ.now
  | .proved proof => Confirmed τ.history τ.now leader proof.raftTerm proof.confirmedAt
  | .targeted proof target =>
    ∃ position, AtPosition τ position target.activePlacementLogId ∧
      ReadAt τ.history τ.now leader proof.raftTerm proof.confirmedAt requestedAt position
  | .formed grant => ∃ position provedAt, GrantRead τ leader requestedAt grant position provedAt
  | .timed grant readAt =>
    readAt ≤ τ.now ∧ ∃ position provedAt, GrantRead τ leader requestedAt grant position provedAt ∧
      Observed τ.history leader grant.raftTerm position readAt
  | .answered grant =>
    LeaseBacked τ grant.activePlacementLogId (requestedAt + grant.maximumLocalLifetime)

structure CallOk (τ : Timeline) (call : LeaseCall) : Prop where
  requested : call.pending.requestedAt ≤ τ.now
  stage : StageOk τ call.leader call.pending.requestedAt call.stage

structure LeaseInv (w : LeaseWorld) : Prop where
  timeline : TimelineInv w.timeline
  nodes : ∀ n, NodeOk w.timeline n (w.nodes n)
  calls : ∀ call ∈ w.calls, CallOk w.timeline call

variable {n leader : NodeId} {call : LeaseCall}

theorem LeaseBacked.grow {expiresAt : Nat}
    (h : LeaseBacked τ logId expiresAt) (hgrows : τ.Grows τ') :
    LeaseBacked τ' logId expiresAt := by
  obtain ⟨g, hg, hposition, hexpires⟩ := h
  exact ⟨g, hg.extend hgrows.history hgrows.now, hposition.grow hgrows, hexpires⟩

theorem NodeOk.grow {node : LeaseNode}
    (h : NodeOk τ n node) (hgrows : τ.Grows τ') : NodeOk τ' n node where
  proof p hp := (h.proof p hp).extend hgrows.history hgrows.now
  cutover identity readyAt hobserved := by
    obtain ⟨position, observedAt, hposition, hseen, hready⟩ := h.cutover identity readyAt hobserved
    exact ⟨position, observedAt, hposition.grow hgrows, hseen.extend hgrows.history, hready⟩
  lease state lease hstate hcurrent := (h.lease state lease hstate hcurrent).grow hgrows

theorem GrantRead.grow {requestedAt : Nat} {grant : ServingLeaseGrant} {provedAt : Nat}
    (h : GrantRead τ leader requestedAt grant position provedAt) (hgrows : τ.Grows τ') :
    GrantRead τ' leader requestedAt grant position provedAt := by
  obtain ⟨hposition, hread, hfresh, hlifetime⟩ := h
  exact ⟨hposition.grow hgrows, hread.extend hgrows.history hgrows.now, hfresh, hlifetime⟩

theorem CallOk.grow (h : CallOk τ call) (hgrows : τ.Grows τ') : CallOk τ' call := by
  refine ⟨Nat.le_trans h.requested hgrows.now, ?_⟩
  have hstage := h.stage
  cases hcase : call.stage with
  | sent => trivial
  | confirming =>
    rw [hcase] at hstage
    exact Nat.le_trans hstage hgrows.now
  | proved =>
    rw [hcase] at hstage
    exact hstage.extend hgrows.history hgrows.now
  | targeted =>
    rw [hcase] at hstage
    obtain ⟨position, hposition, hread⟩ := hstage
    exact ⟨position, hposition.grow hgrows, hread.extend hgrows.history hgrows.now⟩
  | formed =>
    rw [hcase] at hstage
    obtain ⟨position, provedAt, hread⟩ := hstage
    exact ⟨position, provedAt, hread.grow hgrows⟩
  | timed =>
    rw [hcase] at hstage
    obtain ⟨hle, position, provedAt, hread, hseen⟩ := hstage
    exact ⟨Nat.le_trans hle hgrows.now, position, provedAt,
      hread.grow hgrows, hseen.extend hgrows.history⟩
  | answered =>
    rw [hcase] at hstage
    exact LeaseBacked.grow hstage hgrows

variable {lease : ServingLease}

section

variable {proof : LeaderQuorumProof} {cutover : ServingLeaseCutover} {state : ServingLeaseState}

theorem isFresh_iff {now : Nat} : proof.isFresh now = true ↔ proof.confirmedAt ≤ now ∧
    now ≤ proof.confirmedAt + leaderQuorumProofMaxAge := by
  simp only [LeaderQuorumProof.isFresh, Bool.and_eq_true, decide_eq_true_eq]
  constructor
  · rintro ⟨hle, _⟩
    exact ⟨hle, by omega⟩
  rintro ⟨hle, _⟩
  exact ⟨hle, by omega⟩

/-- A completed round is a confirmation. -/
theorem Timeline.Confirms.confirmed {startedAt : Nat}
    (h : τ.Confirms leader term startedAt)
    (hle : startedAt ≤ τ.now) :
    Confirmed τ.history τ.now leader term startedAt where
  provedLe := hle
  elected := h.1
  highest := h.2.1
  caughtUp i c hc hterm _ := by
    by_contra hlength
    have hc : (map _ τ.committed)[i]? = some c := hc
    rw [getElem?_map] at hc
    obtain ⟨p, hp, rfl⟩ := map_eq_some_iff.mp hc
    have hge : (τ.appliedAt leader).length ≤ i := Nat.le_of_not_lt hlength
    have hmem : p ∈ τ.committed.drop (τ.appliedAt leader).length := by
      refine mem_of_getElem? (i := i - (τ.appliedAt leader).length) ?_
      rw [getElem?_drop, Nat.add_sub_cancel' hge]
      exact hp
    have hterms := h.2.2 p hmem
    have hterm : p.term < term := hterm
    omega

theorem activePlacement_eq_some (h : τ.activePlacement leader = some logId) :
    ∃ position, (τ.appliedAt leader).length = position + 1 ∧ AtPosition τ position logId := by
  unfold Timeline.activePlacement at h
  split at h
  · cases h
  rename_i position hlength
  obtain ⟨c, hc, hid⟩ := map_eq_some_iff.mp h
  exact ⟨position, hlength, c, hc, hid⟩

theorem checkServingRequest_eq_ok {clusterId : Option ClusterId} {placement : Option LogId}
    {request target : ServingLeaseRequest}
    (h : checkServingRequest clusterId placement request = .ok target) :
    placement = some target.activePlacementLogId := by
  simp only [checkServingRequest, ok_rules] at h
  obtain ⟨_, _, _, hplacement, _, rfl⟩ := h
  exact hplacement

theorem grantFromProof_eq_ok {now : Nat} {target : ServingLeaseRequest} {grant : ServingLeaseGrant}
    (h : grantFromProof now proof target = .ok grant) :
    proof.isFresh now = true ∧ grant.raftTerm = proof.raftTerm ∧
    grant.activePlacementLogId = target.activePlacementLogId ∧
    grant.maximumLocalLifetime = servingLeaseMaxLifetime := by
  simp only [grantFromProof, ok_rules, Bool.not_eq_false] at h
  obtain ⟨hfresh, rfl⟩ := h
  exact ⟨hfresh, rfl, rfl, rfl⟩

theorem checkedAddDuration_eq_some
    {instant sum : Nat} (h : checkedAddDuration instant duration = some sum) :
    sum = instant + duration := by
  obtain ⟨_, hsum⟩ := ite_none_right_eq_some.mp h
  exact (some.inj hsum).symm

theorem startWait_observed {identity : ServingLeaseIssuerIdentity} {now : Nat}
    {observed : ServingLeaseIssuerIdentity} {readyAt : Nat}
    (h :
    (cutover.startWait identity now).1.observed = some (observed, readyAt)) :
    cutover.observed = some (observed, readyAt) ∨
    (observed = identity ∧ readyAt = now + servingLeaseCutoverWait) := by
  unfold ServingLeaseCutover.startWait at h
  cases hsum : checkedAddDuration now servingLeaseCutoverWait with
  | none =>
    rw [hsum] at h
    exact .inl h
  | some =>
    rw [hsum] at h
    obtain ⟨hidentity, hready⟩ := Prod.mk.inj (some.inj h)
    rw [← hready]
    exact .inr ⟨hidentity.symm, checkedAddDuration_eq_some hsum⟩

theorem startWait_ne_true {identity : ServingLeaseIssuerIdentity} {now : Nat} :
    (cutover.startWait identity now).2 ≠ .ok true := by
  unfold ServingLeaseCutover.startWait
  cases checkedAddDuration now servingLeaseCutoverWait with
  | none | some => exact fun hverdict => by cases hverdict

/-- The guard keeps its slot, or takes the identity with a new wait. -/
theorem permits_observed {identity : ServingLeaseIssuerIdentity} {now : Nat}
    {observed : ServingLeaseIssuerIdentity} {readyAt : Nat}
    (h :
    (cutover.permits identity now).1.observed = some (observed, readyAt)) :
    cutover.observed = some (observed, readyAt) ∨
    (observed = identity ∧ readyAt = now + servingLeaseCutoverWait) := by
  unfold ServingLeaseCutover.permits at h
  split at h
  · split at h
    · exact .inl h
    · exact startWait_observed h
  · exact startWait_observed h

theorem permits_eq_true {identity : ServingLeaseIssuerIdentity} {now : Nat}
    (h : (cutover.permits identity now).2 = .ok true) :
    ∃ readyAt, cutover.observed = some (identity, readyAt) ∧ readyAt ≤ now := by
  unfold ServingLeaseCutover.permits at h
  split at h
  · rename_i observed readyAt hslot
    split at h
    · rename_i hsame
      rw [Except.ok.injEq, decide_eq_true_eq] at h
      exact ⟨readyAt, hsame ▸ hslot, h⟩
    · exact absurd h startWait_ne_true
  · exact absurd h startWait_ne_true

theorem installLease_current {candidate : ServingLease}
    (h : (state.installLease candidate).1.current = some lease) :
    state.current = some lease ∨ candidate = lease := by
  unfold ServingLeaseState.installLease at h
  rw [some.injEq] at h
  split at h
  · rename_i current hcurrent
    split at h
    · exact .inl (hcurrent.trans (congrArg some h))
    · exact .inr h
  · exact .inr h

/-- An accepted grant installs its own lease or keeps the one there was. -/
theorem acceptGrant_current {now : Nat} {pending : PendingServingLeaseRequest}
    {grant : ServingLeaseGrant}
    (h : (state.acceptGrant now pending grant).1.current = some lease) :
    state.current = some lease ∨ (lease.activePlacementLogId = grant.activePlacementLogId ∧
    lease.expiresAt = pending.requestedAt + grant.maximumLocalLifetime) := by
  have hraise : (state.raiseTerm grant.raftTerm).current = some lease →
      state.current = some lease := by
    unfold ServingLeaseState.raiseTerm
    split
    · intro hnone
      cases hnone
    · exact id
  unfold ServingLeaseState.acceptGrant at h
  split at h
  · exact .inl h
  cases hsum : checkedAddDuration pending.requestedAt
    grant.maximumLocalLifetime with
  | none =>
    rw [hsum] at h
    exact .inl (hraise h)
  | some _ =>
    have hexpires := checkedAddDuration_eq_some hsum
    rw [hsum] at h
    dsimp only at h
    split at h
    · exact .inl (hraise h)
    rcases installLease_current h with hold | hnew
    · exact .inl (hraise hold)
    · exact .inr (hnew ▸ ⟨rfl, hexpires⟩)

theorem setActivePlacement_current {placement : LogId}
    (h : (state.setActivePlacement placement).current = some lease) :
    state.current = some lease := by
  unfold ServingLeaseState.setActivePlacement at h
  split at h
  · cases h
  · exact h

end

variable {w : LeaseWorld} {actions : List LeaseAction}

namespace LeaseInv

theorem start (clusterId : ClusterId) : LeaseInv (LeaseWorld.start clusterId) := by
  have hnone : ∀ {α : Type} {i : Nat} {a : α}, ([] : List α)[i]? ≠ some a := by
    intro α i a h
    cases h
  constructor
  · refine ⟨?_, fun c hc => absurd hc not_mem_nil, nodup_nil⟩
    constructor
    · intro e he
      exact absurd he not_mem_nil
    · intro e he
      exact absurd he not_mem_nil
    · intro c hc
      exact absurd hc not_mem_nil
    intro n i t ht
    exact absurd ht hnone
  · intro n
    constructor
    · intro p hp
      cases hp
    · intro _ _ hobserved
      cases hobserved
    intro _ _ hstate
    cases hstate
  · intro _ hcall
    exact absurd hcall not_mem_nil

theorem setNode {node : LeaseNode}
    (h : LeaseInv w) (hnode : NodeOk w.timeline n node) :
    LeaseInv (w.setNode n node) := by
  refine ⟨h.timeline, ?_, h.calls⟩
  intro k
  change NodeOk w.timeline k (if k = n then node else w.nodes k)
  by_cases hk : k = n
  · rw [if_pos hk, hk]
    exact hnode
  rw [if_neg hk]
  exact h.nodes k

theorem setStage {stage : GrantStage}
    (h : LeaseInv w) (hrequested : call.pending.requestedAt ≤ w.timeline.now)
    (hstage : StageOk w.timeline call.leader call.pending.requestedAt stage) :
    LeaseInv (w.setStage i call stage) := by
  refine ⟨h.timeline, h.nodes, ?_⟩
  intro other hother
  rcases mem_or_eq_of_mem_set hother with hold | rfl
  · exact h.calls other hold
  · exact ⟨hrequested, hstage⟩

theorem removeCall (h : LeaseInv w) (i : Nat) : LeaseInv (w.removeCall i) :=
  ⟨h.timeline, h.nodes, fun call hcall => h.calls call (mem_of_mem_eraseIdx hcall)⟩

theorem stepProcess {action : ProcessAction} {w' : LeaseWorld}
    (h : LeaseInv w) (hstep : w.stepProcess n action = some w') : LeaseInv w' := by
  have hn := h.nodes n
  cases action with
  | lead =>
    obtain ⟨_, hnext⟩ := ite_none_right_eq_some.mp hstep
    obtain rfl := some.inj hnext
    exact h.setNode ⟨hn.proof, hn.cutover, hn.lease⟩
  | stepDown =>
    obtain rfl := some.inj hstep
    exact h.setNode ⟨hn.proof, hn.cutover, hn.lease⟩
  | serve =>
    obtain rfl := some.inj hstep
    refine h.setNode ⟨hn.proof, hn.cutover, ?_⟩
    intro _ _ hstate hcurrent
    obtain rfl := some.inj hstate
    cases hcurrent
  | setActivePlacement =>
    obtain rfl := some.inj hstep
    refine h.setNode ⟨hn.proof, hn.cutover, ?_⟩
    intro _ lease hstate hcurrent
    obtain ⟨old, hold, rfl⟩ := map_eq_some_iff.mp hstate
    exact hn.lease old lease hold (setActivePlacement_current hcurrent)
  | beginRequest =>
    obtain ⟨_, _, rfl⟩ := map_eq_some_iff.mp hstep
    refine ⟨h.timeline, h.nodes, ?_⟩
    intro call hcall
    rcases mem_append.mp hcall with hold | hnew
    · exact h.calls call hold
    rw [mem_singleton.mp hnew]
    exact ⟨Nat.le_refl _, trivial⟩
  | restart =>
    obtain rfl := some.inj hstep
    have hreset : NodeOk w.timeline n LeaseNode.restarted := by
      constructor
      · intro p hp
        cases hp
      · intro _ _ hobserved
        cases hobserved
      intro _ _ hstate
      cases hstate
    have hnodes := (h.setNode hreset).nodes
    exact ⟨h.timeline, hnodes, fun call hcall => h.calls call (mem_filter.mp hcall).1⟩

/-- The cutover guard of a node after a check. -/
theorem checkedNode {requestedAt : Nat} {grant : ServingLeaseGrant} {provedAt readAt : Nat}
    (hnode : NodeOk w.timeline n (w.nodes n)) (hread :
    GrantRead w.timeline n requestedAt grant position provedAt)
    (hseen : Observed w.timeline.history n grant.raftTerm position readAt) : NodeOk w.timeline n
    { w.nodes n with cutover := ((w.nodes n).cutover.permits grant.identity readAt).1 } := by
  refine ⟨hnode.proof, ?_, hnode.lease⟩
  intro identity readyAt hobserved
  rcases permits_observed hobserved with hold | ⟨rfl, rfl⟩
  · exact hnode.cutover identity readyAt hold
  · exact ⟨position, readAt, hread.1, hseen, rfl⟩

/-- A grant that passed the guard is backed. -/
theorem permitted {requestedAt : Nat} {grant : ServingLeaseGrant} {provedAt readAt : Nat}
    (h : LeaseInv w) (hread :
    GrantRead w.timeline n requestedAt grant position provedAt)
    (hle : readAt ≤ w.timeline.now) (hpermits :
    ((w.nodes n).cutover.permits grant.identity readAt).2 = .ok true) :
    LeaseBacked w.timeline grant.activePlacementLogId
    (requestedAt + grant.maximumLocalLifetime) := by
  obtain ⟨readyAt, hslot, _⟩ := permits_eq_true hpermits
  obtain ⟨_, observedAt, hplace, hseen, _⟩ :=
    (h.nodes n).cutover grant.identity readyAt hslot
  obtain ⟨hposition, hreadAt, hfresh, hlifetime⟩ := hread
  obtain rfl := AtPosition.unique h.timeline hposition hplace
  refine ⟨⟨n, grant.raftTerm, position, requestedAt, provedAt, observedAt⟩,
    ⟨hreadAt, hseen, hfresh, ?_⟩, hposition, ?_⟩
  · change observedAt + servingLeaseCutoverWait ≤ w.timeline.now
    omega
  · rw [hlifetime]

theorem stepCall {action : CallAction} {w' : LeaseWorld}
    (h : LeaseInv w) (hcall : CallOk w.timeline call)
    (hstep : w.stepCall i call action = some w') : LeaseInv w' := by
  obtain ⟨hrequested, hstage⟩ := hcall
  have hleader := h.nodes call.leader
  cases action with
  | reuseProof =>
    simp only [LeaseWorld.stepCall] at hstep
    split at hstep
    · rename_i proof hsent hreusable
      obtain rfl := some.inj hstep
      obtain ⟨hcached, _⟩ := filter_eq_some_iff.mp hreusable
      exact h.setStage hrequested (hleader.proof proof hcached)
    · cases hstep
  | startRound =>
    simp only [LeaseWorld.stepCall] at hstep
    split at hstep
    · obtain rfl := some.inj hstep
      have hnode : NodeOk w.timeline call.leader
            { w.nodes call.leader with proof := none } := by
        refine ⟨?_, hleader.cutover, hleader.lease⟩
        intro p hp
        cases hp
      exact (h.setNode hnode).setStage hrequested (Nat.le_refl _)
    · cases hstep
  | finishRound =>
    simp only [LeaseWorld.stepCall] at hstep
    split at hstep
    · rename_i startedAt term hconfirming hterm
      obtain ⟨⟨hconfirms, _⟩, hnext⟩ := ite_none_right_eq_some.mp hstep
      obtain rfl := some.inj hnext
      rw [hconfirming] at hstage
      have hconfirmed := hconfirms.confirmed hstage
      have hnode : NodeOk w.timeline call.leader
            { w.nodes call.leader with proof := some ⟨term, startedAt⟩ } := by
        refine ⟨?_, hleader.cutover, hleader.lease⟩
        intro p hp
        obtain rfl := some.inj hp
        exact hconfirmed
      exact (h.setNode hnode).setStage hrequested hconfirmed
    · cases hstep
  | readState =>
    simp only [LeaseWorld.stepCall] at hstep
    split at hstep
    · rename_i proof target hproved hchecked
      obtain rfl := some.inj hstep
      rw [hproved] at hstage
      obtain ⟨position, hlength, hposition⟩ :=
        activePlacement_eq_some (checkServingRequest_eq_ok hchecked)
      refine h.setStage hrequested ⟨position, hposition, ?_⟩
      exact hstage.read hrequested hlength
    · cases hstep
  | formGrant =>
    simp only [LeaseWorld.stepCall] at hstep
    split at hstep
    · rename_i proof target htargeted
      split at hstep
      · rename_i grant hgrant
        obtain rfl := some.inj hstep
        rw [htargeted] at hstage
        obtain ⟨position, hposition, hread⟩ := hstage
        obtain ⟨hfresh, hterm, hplacement, hlifetime⟩ := grantFromProof_eq_ok hgrant
        have hage := (isFresh_iff.mp hfresh).2
        refine h.setStage hrequested ⟨position, proof.confirmedAt, ?_, ?_, ?_, hlifetime⟩
        · rw [hplacement]
          exact hposition
        · rw [hterm]
          exact hread
        · omega
      · cases hstep
    · cases hstep
  | readClock =>
    simp only [LeaseWorld.stepCall] at hstep
    split at hstep
    · rename_i grant hformed
      obtain rfl := some.inj hstep
      rw [hformed] at hstage
      obtain ⟨position, provedAt, hread⟩ := hstage
      refine h.setStage hrequested ⟨Nat.le_refl _, position, provedAt, hread, ?_⟩
      exact hread.2.1.observe h.timeline.wellFormed
    · cases hstep
  | checkCutover =>
    simp only [LeaseWorld.stepCall] at hstep
    split at hstep
    · rename_i grant readAt htimed
      rw [htimed] at hstage
      obtain ⟨hle, _, _, hread, hseen⟩ := hstage
      have hnode := checkedNode hleader hread hseen
      split at hstep
      · rename_i hpermits
        obtain rfl := some.inj hstep
        exact (h.setNode hnode).setStage hrequested (h.permitted hread hle hpermits)
      obtain rfl := some.inj hstep
      exact (h.setNode hnode).removeCall i
    · cases hstep
  | acceptGrant =>
    simp only [LeaseWorld.stepCall] at hstep
    split at hstep
    · rename_i grant state hanswered hlease
      obtain rfl := some.inj hstep
      rw [hanswered] at hstage
      have hrequester := h.nodes call.requester
      have hnode : NodeOk w.timeline call.requester
            { w.nodes call.requester with
              lease := some (state.acceptGrant w.timeline.now call.pending
                grant).1 } := by
        refine ⟨hrequester.proof, hrequester.cutover, ?_⟩
        intro _ lease haccepted hcurrent
        obtain rfl := some.inj haccepted
        rcases acceptGrant_current hcurrent with
          hold | ⟨hplacement, hexpires⟩
        · exact hrequester.lease state lease hlease hold
        rw [hplacement, hexpires]
        exact hstage
      exact (h.setNode hnode).removeCall i
    · cases hstep
  | drop =>
    obtain rfl := some.inj hstep
    exact h.removeCall i

/-- Every step keeps what leases, guards, proofs and calls carry. -/
theorem step {action : LeaseAction} {w' : LeaseWorld}
    (h : LeaseInv w) (hstep : w.step action = some w') : LeaseInv w' := by
  cases action with
  | consensus =>
    obtain ⟨τ, hτ, rfl⟩ := map_eq_some_iff.mp hstep
    obtain ⟨htimeline, hgrows⟩ := timeline_step h.timeline hτ
    exact ⟨htimeline, fun n => (h.nodes n).grow hgrows,
      fun call hcall => (h.calls call hcall).grow hgrows⟩
  | process n => exact h.stepProcess hstep
  | call i =>
    obtain ⟨call, hcall, hnext⟩ := bind_eq_some_iff.mp hstep
    exact h.stepCall (h.calls call (mem_of_getElem? hcall)) hnext

theorem run {w' : LeaseWorld}
    (h : LeaseInv w) (hrun : w.run actions = some w') : LeaseInv w' := by
  induction actions generalizing w with
  | nil => exact some.inj hrun ▸ h
  | cons _ _ ih =>
    obtain ⟨_, hstep, hrest⟩ := bind_eq_some_iff.mp hrun
    exact ih (h.step hstep) hrest

/-- A lease a node can serve under is a live grant. -/
theorem validLease (h : LeaseInv w) (hvalid : w.validLease n = some lease) :
    LeaseBacked w.timeline lease.activePlacementLogId lease.expiresAt ∧
    w.timeline.now < lease.expiresAt := by
  obtain ⟨state, hstate, hlease⟩ := bind_eq_some_iff.mp hvalid
  obtain ⟨hcurrent, hlive⟩ := filter_eq_some_iff.mp hlease
  rw [decide_eq_true_eq] at hlive
  exact ⟨(h.nodes n).lease state lease hstate hcurrent, hlive.2.2⟩

end LeaseInv

/--
In every run, at every instant, all nodes that hold a valid lease hold it for
one and the same active placement.
-/
theorem serving_lease_exclusion {clusterId : ClusterId} {actions : List LeaseAction}
    {w : LeaseWorld} (hrun : (LeaseWorld.start clusterId).run actions = some w) (n m : NodeId)
    (lease other : ServingLease) (hlease : w.validLease n = some lease)
    (hother : w.validLease m = some other) :
    lease.activePlacementLogId = other.activePlacementLogId := by
  have h := (LeaseInv.start clusterId).run hrun
  obtain ⟨⟨g, hg, hplace, _⟩, _⟩ := h.validLease hlease
  obtain ⟨⟨g', hg', hplace', _⟩, _⟩ := h.validLease hother
  have hbudget : servingLeaseMaxLifetime + leaderQuorumProofMaxAge ≤ servingLeaseCutoverWait := by
    decide
  have hposition : g.position = g'.position :=
    hg.position_eq h.timeline.wellFormed hbudget hg' (by omega) (by omega)
  obtain ⟨c, hc, hid⟩ := hplace
  obtain ⟨_, hc', hid'⟩ := hplace'
  rw [hposition, hc', Option.some.injEq] at hc
  rw [← hid, ← hid', hc]

/-- The placement of the sample run. -/
def samplePlacement : LogId := ⟨⟨1, 1⟩, 3⟩

/-- The handler of one call from its proof to the cutover check. -/
def sampleHandler (i : Nat) (confirm : List CallAction) : List LeaseAction :=
  let handler : List CallAction := confirm ++ [.readState, .formGrant, .readClock, .checkCutover]
  handler.map (.call i)

/--
One leader and one placement: a first request starts the cutover wait, and
after it two nodes are granted leases, the second from the cached proof.
-/
def twoLeaseRun : List LeaseAction := [.consensus (.elect 1 1), .process 1 (.lead 1),
      .consensus (.commit samplePlacement 1), .consensus (.applyNext 1),
      .process 1 (.serve samplePlacement),
      .process 2 (.serve samplePlacement), .process 1 (.beginRequest 1)] ++
    sampleHandler 0 [.startRound, .finishRound] ++
    [.consensus (.tick servingLeaseCutoverWait),
      .process 1 (.beginRequest 1), .process 2 (.beginRequest 1)] ++
    sampleHandler 0 [.startRound, .finishRound] ++
    sampleHandler 1 [.reuseProof] ++
    [.call 0 .acceptGrant, .call 0 .acceptGrant]

theorem twoLeaseRun_runs : ((LeaseWorld.start ⟨5⟩).run twoLeaseRun).isSome = true := by
  decide +kernel

def twoLeaseWorld : LeaseWorld := ((LeaseWorld.start ⟨5⟩).run twoLeaseRun).get twoLeaseRun_runs

/-- Both nodes of the sample run hold a valid lease, for one placement. -/
theorem serving_lease_exclusion_twoLeaseRun :
    ∃ lease other, twoLeaseWorld.validLease 1 = some lease ∧
    twoLeaseWorld.validLease 2 = some other ∧
    lease.activePlacementLogId = other.activePlacementLogId := by
  have hfirst :
      twoLeaseWorld.validLease 1 = some ⟨⟨5⟩, 1, samplePlacement, 5 * nanosPerSecond⟩ := by
    decide +kernel
  have hsecond :
      twoLeaseWorld.validLease 2 = some ⟨⟨5⟩, 1, samplePlacement, 5 * nanosPerSecond⟩ := by
    decide +kernel
  exact ⟨_, _, hfirst, hsecond,
    serving_lease_exclusion (Option.some_get twoLeaseRun_runs).symm 1 2 _ _ hfirst hsecond⟩

end Keldra.Consensus
