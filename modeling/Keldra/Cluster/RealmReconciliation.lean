import Keldra.Cluster.QuorumRead
import Keldra.Foundation.Checks

/-!
# Interrupted changes of an authorization realm

The coordinator of a realm reconciles the replicas, commits a change and only then
sends it to the others.  A reconciliation needs a quorum of replicas with exactly
the same realm.

A change that stays with the coordinator of two replicas leaves two realms.  No
reconciliation succeeds from then on, and since each change begins with one, the
change cannot be sent again either.  In a group of three a change that reaches no
other replica does no harm: the next reconciliation takes it back.  What wedges a
realm is a change that splits the replicas of the reconciled realm so that neither
those that take it nor those that do not are a quorum.
-/

namespace Keldra.Cluster

open Foundation

variable {N : Type} [DecidableEq N]

/-- The replicas' realms, and the applies that are still on their way. -/
structure RealmReplicas (N : Type) where
  realms : N → List AuthzChange
  delayed : List (N × AuthzChange)

/-- What a call meets: the replicas that answer its reconciliation, that install the
winner, and that the change reaches at once or late; everything else is lost. -/
inductive RealmAction (N : Type) where
  | mutate (c : AuthzChange) (answered installed reached late : List N)
  | deliver (n : N) (c : AuthzChange)
  | reconcile (reader : N) (answered installed : List N)

section

variable (group : ReplicaGroup N) (coordinator : N)

/-- The reader must install the winner; elsewhere an install may fail. -/
def reconcile (reader : N) (answered installed : List N) (realms : N → List AuthzChange) :
    Except String (N → List AuthzChange) := do
  let winner ← reconcileWinner ((group.members.filter (· ∈ answered)).map realms) group.required
  return fun n => if n ∈ group.members ∧ (n = reader ∨ n ∈ installed) then winner else realms n

/-- A replica that refuses the change stays as it is. -/
def replicate (c : AuthzChange) (reached : List N) (realms : N → List AuthzChange) (n : N) :
    List AuthzChange :=
  if n ∈ reached then
    ((authzProtocol group coordinator).applyRecord c (realms n)).getD (realms n)
  else realms n

/-- A change that the coordinator has already is sent again. -/
def realmStep (s : RealmReplicas N) : RealmAction N → RealmReplicas N
  | .mutate c answered installed reached late =>
    match reconcile group coordinator answered installed s.realms with
    | .error _ => s
    | .ok realms =>
      match (authzProtocol group coordinator).applyRecord c (realms coordinator) with
      | none => { s with realms }
      | some _ => ⟨replicate group coordinator c (coordinator :: reached) realms,
          late.map (·, c) ++ s.delayed⟩
  | .deliver n c =>
    if (n, c) ∈ s.delayed then
      ⟨replicate group coordinator c [n] s.realms, s.delayed.erase (n, c)⟩
    else s
  | .reconcile reader answered installed =>
    match reconcile group reader answered installed s.realms with
    | .error _ => s
    | .ok realms => { s with realms }

def realmRun (s : RealmReplicas N) (actions : List (RealmAction N)) : RealmReplicas N :=
  actions.foldl (realmStep group coordinator) s

/-- A quorum of replicas has the realm. -/
def HeldByQuorum (realms : N → List AuthzChange) (realm : List AuthzChange) : Prop :=
  group.required ≤ group.members.countP fun n => realms n = realm

instance (realms : N → List AuthzChange) (realm : List AuthzChange) :
    Decidable (HeldByQuorum group realms realm) :=
  inferInstanceAs (Decidable (_ ≤ _))

/-- Of the replicas with the given realm, a quorum has the change once those reached have
taken it, or a quorum is not reached. -/
def TakenOrLeft (c : AuthzChange) (reached : List N) (realms : N → List AuthzChange)
    (realm : List AuthzChange) : Prop :=
  group.required ≤ group.members.countP (fun n =>
      realms n = c :: realm ∨ n ∈ reached ∧ realms n = realm) ∨
    group.required ≤ group.members.countP (fun n => n ∉ reached ∧ realms n = realm)

instance (c : AuthzChange) (reached : List N) (realms : N → List AuthzChange)
    (realm : List AuthzChange) : Decidable (TakenOrLeft group c reached realms realm) :=
  inferInstanceAs (Decidable (_ ∨ _))

/-- A new change does not split the replicas of the realm that its call has reconciled; nor
does a late one split those of a realm that a quorum has. -/
def StepReaches (s : RealmReplicas N) : RealmAction N → Prop
  | .mutate c answered installed reached _ =>
    ∀ realms, reconcile group coordinator answered installed s.realms = .ok realms →
      c ∉ realms coordinator →
        TakenOrLeft group c (coordinator :: reached) realms (realms coordinator)
  | .deliver n c => HeldByQuorum group s.realms (s.realms n) → c ∉ s.realms n →
      TakenOrLeft group c [n] s.realms (s.realms n)
  | .reconcile .. => True

def ChangesReach (s : RealmReplicas N) : List (RealmAction N) → Prop
  | [] => True
  | action :: rest =>
    StepReaches group coordinator s action ∧
      ChangesReach (realmStep group coordinator s action) rest

end

variable {group : ReplicaGroup N} {coordinator : N} {s : RealmReplicas N}
  {realms next : N → List AuthzChange} {answered installed : List N} {realm : List AuthzChange}

omit [DecidableEq N] in
theorem HeldByQuorum.mono (h : HeldByQuorum group realms realm)
    (hkeeps : ∀ n, realms n = realm → next n = realm) : HeldByQuorum group next realm := by
  refine Nat.le_trans h (List.countP_mono_left fun n _ hn => ?_)
  exact decide_eq_true (hkeeps n (of_decide_eq_true hn))

/-- Two quorums share a replica. -/
theorem HeldByQuorum.winner_eq {winner : List AuthzChange} (h : HeldByQuorum group realms realm)
    (hwinner : reconcileWinner ((group.members.filter (· ∈ answered)).map realms)
      group.required = .ok winner) :
    winner = realm := by
  have hquorum := reconcileWinner_eq_ok hwinner
  rw [List.countP_map, List.countP_filter] at hquorum
  have hmajority := group.majority
  obtain ⟨n, -, hwinner, hheld⟩ := exists_mem_of_length_lt_countP
    (hmajority.trans_le ((two_mul _).le.trans (Nat.add_le_add hquorum h)))
  simp only [Function.comp, Bool.and_eq_true, decide_eq_true_eq] at hwinner hheld
  exact hwinner.1.symm.trans hheld

/-- A reconciliation gives the quorum's realm to its reader and to others. -/
theorem HeldByQuorum.reconcile_spec {reader : N} (h : HeldByQuorum group realms realm)
    (hok : reconcile group reader answered installed realms = .ok next) :
    (∀ n, realms n = realm → next n = realm) ∧ (reader ∈ group.members → next reader = realm) := by
  simp only [reconcile, ok_rules] at hok
  obtain ⟨_, hwinner, rfl⟩ := hok
  refine ⟨fun n hn => ?_, fun hreader => ?_⟩
  · dsimp only
    split
    · exact h.winner_eq hwinner
    · exact hn
  · exact (if_pos ⟨hreader, .inl rfl⟩).trans (h.winner_eq hwinner)

/-- A change that does not split the replicas of a quorum's realm leaves a quorum. -/
theorem TakenOrLeft.exists_quorum {c : AuthzChange} {reached : List N}
    (h : TakenOrLeft group c reached realms realm)
    (hfollows : (authzProtocol group coordinator).applyRecord c realm = some (c :: realm)) :
    ∃ realm', HeldByQuorum group (replicate group coordinator c reached realms) realm' := by
  rcases h with htaken | hleft
  · refine ⟨c :: realm, Nat.le_trans htaken (List.countP_mono_left fun n _ hn => ?_)⟩
    rw [decide_eq_true_eq] at hn ⊢
    unfold replicate
    rcases hn with hhas | ⟨hreached, htakes⟩
    · have hagain : (authzProtocol group coordinator).applyRecord c (c :: realm) =
          some (c :: realm) := if_pos List.mem_cons_self
      rw [hhas, hagain]
      split <;> rfl
    · rw [if_pos hreached, htakes, hfollows]
      rfl
  · refine ⟨realm, Nat.le_trans hleft (List.countP_mono_left fun n _ hn => ?_)⟩
    rw [decide_eq_true_eq] at hn ⊢
    exact (if_neg hn.1).trans hn.2

/-- A change that a realm has already is not put on it again. -/
theorem HeldByQuorum.replicate_of_mem {c : AuthzChange} (h : HeldByQuorum group realms realm)
    (hc : c ∈ realm) (reached : List N) :
    HeldByQuorum group (replicate group coordinator c reached realms) realm := by
  refine h.mono fun n hn => ?_
  have hagain : (authzProtocol group coordinator).applyRecord c realm = some realm := if_pos hc
  rw [replicate, hn, hagain]
  split <;> rfl

/-- Replicas that refuse a change stay as they are. -/
theorem HeldByQuorum.replicate_of_refused {c : AuthzChange} {reached : List N}
    (h : HeldByQuorum group realms realm)
    (hrefused : ∀ n ∈ reached, realms n = realm →
      (authzProtocol group coordinator).applyRecord c realm = none) :
    HeldByQuorum group (replicate group coordinator c reached realms) realm := by
  refine h.mono fun n hn => ?_
  unfold replicate
  split
  · rename_i hreached
    rw [hn, hrefused n hreached hn]
    rfl
  · exact hn

theorem applyRecord_of_not_mem {c : AuthzChange} {applied : List AuthzChange} (hc : c ∉ realm)
    (h : (authzProtocol group coordinator).applyRecord c realm = some applied) :
    applied = c :: realm := by
  unfold Protocol.applyRecord at h
  rw [if_neg hc] at h
  split at h <;> cases h
  rfl

theorem exists_quorum_step {action : RealmAction N} (hmember : coordinator ∈ group.members)
    (h : ∃ realm, HeldByQuorum group s.realms realm)
    (hreaches : StepReaches group coordinator s action) :
    ∃ realm, HeldByQuorum group (realmStep group coordinator s action).realms realm := by
  obtain ⟨realm, h⟩ := h
  cases action with
  | mutate c answered installed reached late =>
    simp only [realmStep]
    split
    · exact ⟨realm, h⟩
    rename_i realms hreconciled
    obtain ⟨hkeeps, hwinner⟩ := h.reconcile_spec hreconciled
    replace hwinner := hwinner hmember
    split
    · exact ⟨realm, h.mono hkeeps⟩
    rename_i applied happlied
    by_cases hc : c ∈ realm
    · exact ⟨realm, (h.mono hkeeps).replicate_of_mem hc _⟩
    rw [hwinner] at happlied
    obtain rfl := applyRecord_of_not_mem hc happlied
    have hsplit := hreaches realms hreconciled (hwinner ▸ hc)
    rw [hwinner] at hsplit
    exact hsplit.exists_quorum happlied
  | deliver n c =>
    simp only [realmStep]
    split
    · by_cases hc : c ∈ realm
      · exact ⟨realm, h.replicate_of_mem hc _⟩
      cases happlied : (authzProtocol group coordinator).applyRecord c realm with
      | none => exact ⟨realm, h.replicate_of_refused fun _ _ _ => happlied⟩
      | some applied =>
        by_cases hn : s.realms n = realm
        · subst hn
          obtain rfl := applyRecord_of_not_mem hc happlied
          exact (hreaches h hc).exists_quorum happlied
        · -- the replica is none of the quorum
          refine ⟨realm, h.replicate_of_refused fun other hother hheld => absurd hheld ?_⟩
          rwa [List.mem_singleton.mp hother]
    · exact ⟨realm, h⟩
  | reconcile reader answered installed =>
    simp only [realmStep]
    split
    · exact ⟨realm, h⟩
    · exact ⟨realm, h.mono (h.reconcile_spec ‹_›).1⟩

theorem exists_quorum_run {actions : List (RealmAction N)} (hmember : coordinator ∈ group.members)
    (h : ∃ realm, HeldByQuorum group s.realms realm)
    (hreaches : ChangesReach group coordinator s actions) :
    ∃ realm, HeldByQuorum group (realmRun group coordinator s actions).realms realm := by
  induction actions generalizing s with
  | nil => exact h
  | cons _ _ ih => exact ih (exists_quorum_step hmember h hreaches.1) hreaches.2

/-- A reconciliation that every replica answers gives all the quorum's realm. -/
theorem HeldByQuorum.reconcile_all (h : HeldByQuorum group realms realm) (reader : N) :
    ∃ next, reconcile group reader group.members group.members realms = .ok next ∧
      ∀ n ∈ group.members, next n = realm := by
  have hanswered : group.members.filter (· ∈ group.members) = group.members :=
    List.filter_eq_self.mpr fun _ hn => decide_eq_true hn
  obtain ⟨winner, hwinner⟩ : ∃ winner, reconcileWinner
      ((group.members.filter (· ∈ group.members)).map realms) group.required = .ok winner := by
    rw [hanswered]
    have hlength := Nat.le_trans h List.countP_le_length
    unfold reconcileWinner exactQuorumCandidate
    rw [if_neg (by simpa using hlength)]
    cases hfind : (group.members.map realms).find? fun candidate =>
        group.required ≤ (group.members.map realms).countP (· = candidate) with
    | some winner => exact ⟨winner, rfl⟩
    | none =>
      have hmajority := group.majority
      obtain ⟨n, hn, hheld⟩ := List.countP_pos_iff.mp (Nat.lt_of_lt_of_le (by omega) h)
      have hless := List.find?_eq_none.mp hfind _ (List.mem_map_of_mem hn)
      rw [of_decide_eq_true hheld, List.countP_map, decide_eq_true_eq] at hless
      exact absurd h hless
  refine ⟨_, by simp only [reconcile, hwinner]; rfl, fun n hn => ?_⟩
  rw [if_pos ⟨hn, .inr hn⟩]
  exact h.winner_eq hwinner

/-- Of three replicas none but the coordinator gets the revocation; the first reconciliation
takes it back, and it is sent again. -/
def recoveredRevocation : List (RealmAction Nat) :=
  [.mutate revocation [0, 1, 2] [] [] [2], .reconcile 1 [0, 1, 2] [0, 2],
    .mutate revocation [0, 1, 2] [] [1] [], .deliver 2 revocation]

def twoReplicas : ReplicaGroup Nat where
  members := [0, 1]
  required := 2
  majority := by decide

end Keldra.Cluster
