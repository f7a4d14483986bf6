import Mathlib.Tactic.Common

/-!
# Leases from a replicated leader

A general argument about leases that an elected leader grants for a position of
a replicated log.  The leader proves its leadership by a quorum round, reads
the last position it has applied, and grants a position only a fixed wait after
it first saw itself at that position in that term.  If the lifetime of a lease
plus the reuse age of a proof is at most the wait, then two live leases are for
the same position, whatever the order of elections, commits and applications.
-/

namespace Keldra.Foundation

universe u

structure Election (ν : Type u) where
  term : Nat
  node : ν
  time : Nat

structure Commit where
  term : Nat
  time : Nat

/-- Who was elected when, what was committed when, and who applied it when. -/
structure LeaseHistory (ν : Type u) where
  elected : List (Election ν)
  committed : List Commit
  applied : ν → List Nat

variable {now now' i : Nat}

namespace LeaseHistory

variable {ν : Type u}

structure WellFormed (h : LeaseHistory ν) (now : Nat) : Prop where
  oneLeader : ∀ e ∈ h.elected, ∀ f ∈ h.elected, e.term = f.term → e.node = f.node
  electedLe : ∀ e ∈ h.elected, e.time ≤ now
  committedBy : ∀ c ∈ h.committed, ∃ e ∈ h.elected, e.term = c.term ∧ e.time ≤ c.time
  appliedAfter : ∀ (n : ν) (i t : Nat), (h.applied n)[i]? = some t →
      t ≤ now ∧ ∃ c : Commit, h.committed[i]? = some c ∧ c.time ≤ t

theorem WellFormed.later {h : LeaseHistory ν} (hwf : h.WellFormed now) (hle : now ≤ now') :
    h.WellFormed now' where
  oneLeader := hwf.oneLeader
  electedLe e he := Nat.le_trans (hwf.electedLe e he) hle
  committedBy := hwf.committedBy
  appliedAfter n i t ht := by
    obtain ⟨htime, hcommitted⟩ := hwf.appliedAfter n i t ht
    exact ⟨Nat.le_trans htime hle, hcommitted⟩

/-- Nothing is lost, and whatever is new is not before the given time. -/
structure Extends (now : Nat) (h h' : LeaseHistory ν) : Prop where
  electedNew : ∀ e ∈ h'.elected, e ∈ h.elected ∨ now ≤ e.time
  electedOld : ∀ e ∈ h.elected, e ∈ h'.elected
  committedNew :
    ∀ (i : Nat) (c : Commit), h'.committed[i]? = some c → h.committed[i]? = some c ∨ now ≤ c.time
  committedOld : ∀ (i : Nat) (c : Commit), h.committed[i]? = some c → h'.committed[i]? = some c
  appliedNew :
    ∀ (n : ν) (i t : Nat), (h'.applied n)[i]? = some t → (h.applied n)[i]? = some t ∨ now ≤ t
  appliedOld : ∀ (n : ν) (i t : Nat), (h.applied n)[i]? = some t → (h'.applied n)[i]? = some t

theorem Extends.rfl : Extends now h h where
  electedNew _ he := Or.inl he
  electedOld _ he := he
  committedNew _ _ hc := Or.inl hc
  committedOld _ _ hc := hc
  appliedNew _ _ _ ht := Or.inl ht
  appliedOld _ _ _ ht := ht

/-- Lookups in an appended list are old, or are the appended value. -/
theorem getElem?_snoc (h : (xs ++ [x])[i]? = some y) :
    xs[i]? = some y ∨ y = x := by
  rcases Nat.lt_or_ge i xs.length with hlt | hge
  · rw [List.getElem?_append_left hlt] at h
    exact Or.inl h
  rw [List.getElem?_append_right hge] at h
  exact Or.inr (List.mem_singleton.mp (List.mem_of_getElem? h))

theorem getElem?_snoc_of_old (h : xs[i]? = some y) : (xs ++ [x])[i]? = some y := by
  obtain ⟨hlt, _⟩ := List.getElem?_eq_some_iff.mp h
  rw [List.getElem?_append_left hlt]
  exact h

end LeaseHistory

variable {maxAge wait : Nat}

section

variable {ν : Type u}

/-- A quorum round of the leader that started at `provedAt` has completed. -/
structure Confirmed (h : LeaseHistory ν) (now : Nat) (leader : ν) (term provedAt : Nat) : Prop where
  provedLe : provedAt ≤ now
  elected : ∃ e ∈ h.elected, e.term = term ∧ e.node = leader
  highest : ∀ e ∈ h.elected, e.time < provedAt → e.term ≤ term
  caughtUp :
    ∀ (i : Nat) (c : Commit), h.committed[i]? = some c → c.term < term → c.time < provedAt →
      i < (h.applied leader).length

/-- With such a proof, the leader read `position` after the request was made. -/
structure ReadAt (h : LeaseHistory ν) (now : Nat)
    (leader : ν) (term provedAt requestedAt position : Nat) : Prop where
  provedLe : provedAt ≤ now
  requestedLe : requestedAt ≤ now
  elected : ∃ e ∈ h.elected, e.term = term ∧ e.node = leader
  highest : ∀ e ∈ h.elected, e.time < provedAt → e.term ≤ term
  applied : ∃ t, (h.applied leader)[position]? = some t
  coversCommitted :
    ∀ (i : Nat) (c : Commit), h.committed[i]? = some c → c.term < term → c.time < provedAt →
      i ≤ position
  coversApplied : ∀ i t : Nat, (h.applied leader)[i]? = some t → t < requestedAt → i ≤ position

/-- The leader saw itself at this position and in this term at `observedAt`. -/
structure Observed (h : LeaseHistory ν) (leader : ν) (term position observedAt : Nat) : Prop where
  elected : ∃ e ∈ h.elected, e.term = term ∧ e.node = leader ∧ e.time ≤ observedAt
  applied : ∃ t, (h.applied leader)[position]? = some t ∧ t ≤ observedAt

/-- A granted lease: who granted it for what, and its four times. -/
structure LeaseRecord (ν : Type u) where
  leader : ν
  term : Nat
  position : Nat
  requestedAt : Nat
  provedAt : Nat
  observedAt : Nat

/-- What holds of a lease from the moment it is granted. -/
structure Granted (h : LeaseHistory ν) (now maxAge wait : Nat) (g : LeaseRecord ν) : Prop where
  read : ReadAt h now g.leader g.term g.provedAt g.requestedAt g.position
  observed : Observed h g.leader g.term g.position g.observedAt
  fresh : g.requestedAt ≤ g.provedAt + maxAge
  waited : g.observedAt + wait ≤ now

section

theorem Confirmed.extend
    (hc : Confirmed h now leader term provedAt) (hext : h.Extends now h') (hnow : now ≤ now') :
    Confirmed h' now' leader term provedAt := by
  have hle := hc.provedLe
  constructor
  · omega
  · obtain ⟨e, he, hterm, hnode⟩ := hc.elected
    exact ⟨e, hext.electedOld e he, hterm, hnode⟩
  · intro e he htime
    rcases hext.electedNew e he with hold | _
    · exact hc.highest e hold htime
    · omega
  intro i c hi hterm htime
  rcases hext.committedNew i c hi with hold | _
  · have hlt := hc.caughtUp i c hold hterm htime
    obtain ⟨t, ht⟩ : ∃ t, (h.applied leader)[i]? = some t := ⟨_, List.getElem?_eq_getElem hlt⟩
    exact (List.getElem?_eq_some_iff.mp (hext.appliedOld leader i t ht)).1
  · omega

theorem ReadAt.extend (hr : ReadAt h now leader term provedAt requestedAt position)
    (hext : h.Extends now h') (hnow : now ≤ now') :
    ReadAt h' now' leader term provedAt requestedAt position := by
  have hproved := hr.provedLe
  have hrequested := hr.requestedLe
  constructor
  · omega
  · omega
  · obtain ⟨e, he, hterm, hnode⟩ := hr.elected
    exact ⟨e, hext.electedOld e he, hterm, hnode⟩
  · intro e he htime
    rcases hext.electedNew e he with hold | _
    · exact hr.highest e hold htime
    · omega
  · obtain ⟨t, ht⟩ := hr.applied
    exact ⟨t, hext.appliedOld leader position t ht⟩
  · intro i c hi hterm htime
    rcases hext.committedNew i c hi with hold | _
    · exact hr.coversCommitted i c hold hterm htime
    · omega
  intro i t hi htime
  rcases hext.appliedNew leader i t hi with hold | _
  · exact hr.coversApplied i t hold htime
  · omega

theorem Observed.extend
    (ho : Observed h leader term position observedAt) (hext : h.Extends now h') :
    Observed h' leader term position observedAt := by
  constructor
  · obtain ⟨e, he, hfacts⟩ := ho.elected
    exact ⟨e, hext.electedOld e he, hfacts⟩
  obtain ⟨t, ht, hle⟩ := ho.applied
  exact ⟨t, hext.appliedOld leader position t ht, hle⟩

theorem Granted.extend (hg : Granted h now maxAge wait g)
    (hext : h.Extends now h') (hnow : now ≤ now') :
    Granted h' now' maxAge wait g where
  read := hg.read.extend hext hnow
  observed := hg.observed.extend hext
  fresh := hg.fresh
  waited := Nat.le_trans hg.waited hnow

/-- The last applied position is read while the proof holds. -/
theorem Confirmed.read (hc : Confirmed h now leader term provedAt) (hrequested : requestedAt ≤ now)
    (hlast : (h.applied leader).length = position + 1) :
    ReadAt h now leader term provedAt requestedAt position :=
  { hc with
    requestedLe := hrequested
    applied := by
      have hlt : position < (h.applied leader).length := by omega
      exact ⟨_, List.getElem?_eq_getElem hlt⟩
    coversCommitted i c hi hterm htime := by
      have hlt := hc.caughtUp i c hi hterm htime
      omega
    coversApplied i t hi _ := by
      have hlt := (List.getElem?_eq_some_iff.mp hi).1
      omega }

/-- A position that was read is a position the leader sees itself at now. -/
theorem ReadAt.observe
    (hr : ReadAt h now leader term provedAt requestedAt position) (hwf : h.WellFormed now) :
    Observed h leader term position now := by
  constructor
  · obtain ⟨e, he, hterm, hnode⟩ := hr.elected
    exact ⟨e, he, hterm, hnode, hwf.electedLe e he⟩
  obtain ⟨t, ht⟩ := hr.applied
  exact ⟨t, ht, (hwf.appliedAfter leader position t ht).1⟩

end

section

variable {h : LeaseHistory ν} {lifetime : Nat} {g g' : LeaseRecord ν}

variable (hwf : h.WellFormed now) (hbudget : lifetime + maxAge ≤ wait)
  (hg : Granted h now maxAge wait g) (hg' : Granted h now maxAge wait g')
  (hlive : now < g.requestedAt + lifetime) (hlive' : now < g'.requestedAt + lifetime)

include hwf hbudget hg hg' hlive hlive'

/-- A live lease is not behind a position that was granted. -/
theorem Granted.position_le : g'.position ≤ g.position := by
  have hfresh := hg.fresh
  have hfresh' := hg'.fresh
  have hwaited := hg'.waited
  -- both proofs started after the other side was first observed
  have hafter : g'.observedAt < g.provedAt := by omega
  have hafter' : g'.observedAt < g'.provedAt := by omega
  have hrequested : g'.observedAt < g.requestedAt := by omega
  obtain ⟨e, he, hterm, hnode, _⟩ := hg'.observed.elected
  obtain ⟨t, ht, _⟩ := hg'.observed.applied
  have hterms : g'.term ≤ g.term := by
    rw [← hterm]
    exact hg.read.highest e he (by omega)
  rcases Nat.lt_or_eq_of_le hterms with _ | _
  · -- a later term: the position was committed in an earlier one
    obtain ⟨_, c, hc, _⟩ := hwf.appliedAfter g'.leader g'.position t ht
    obtain ⟨f, hf, hfterm, _⟩ := hwf.committedBy c (List.mem_of_getElem? hc)
    have hcterm : c.term ≤ g'.term := by
      rw [← hfterm]
      exact hg'.read.highest f hf (by omega)
    exact hg.read.coversCommitted g'.position c hc (by omega) (by omega)
  -- the same term, hence the same leader
  obtain ⟨f, hf, _, hfnode⟩ := hg.read.elected
  have hsame : g'.leader = g.leader := by
    rw [← hnode, ← hfnode]
    exact hwf.oneLeader e he f hf (by omega)
  rw [hsame] at ht
  exact hg.read.coversApplied g'.position t ht (by omega)

/-- Two live leases are for one position. -/
theorem Granted.position_eq : g.position = g'.position :=
  Nat.le_antisymm (hg'.position_le hwf hbudget hg hlive' hlive)
    (hg.position_le hwf hbudget hg' hlive hlive')

end

end

end Keldra.Foundation
