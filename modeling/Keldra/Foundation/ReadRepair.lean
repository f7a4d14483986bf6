import Mathlib.Data.List.Nodup
import Mathlib.Data.List.Perm.Subperm
import Mathlib.Logic.Function.Basic
import Mathlib.Tactic.Common

/-!
# Majority groups with read repair

A record is the list of its changes, newest first.  One node commits changes
and sends them to the other members; a change is acknowledged when enough
members have it.  A command that is repeated sends its change again, without
writing it, or is acknowledged at once.  A reader collects the members' records at
different moments, selects one and sends it as a repair to the members that answered
otherwise.
Every message may be delayed or lost.

The module defines this machine over an arbitrary selection and an arbitrary
repair guard.  If no repair takes a change in flight or acknowledged from its
target, and a repeated command still finds its change where it counts it, then
every later answer has the acknowledged changes.
-/

namespace Keldra.Foundation

open List Function

universe u v

section

variable {N : Type u} {C : Type v} [DecidableEq N] [DecidableEq C]

/-- The members of a group, of which any two quorums share one. -/
structure ReplicaGroup (N : Type u) where
  members : List N
  required : Nat
  majority : members.length < 2 * required

/-- Duplicates and nodes outside the group do not count. -/
def ReplicaGroup.isAcknowledgedBy (group : ReplicaGroup N) (durable : List N) : Bool :=
  group.required ≤ group.members.countP (· ∈ durable)

/-- A change with the members known to have it. -/
structure Mutation (N : Type u) (C : Type v) where
  change : C
  durable : List N
  deriving DecidableEq

structure Read (N : Type u) (C : Type v) where
  reader : N
  /-- what was acknowledged when the read started -/
  known : List (Mutation N C)
  observed : List (N × List C)
  winner : Option (List C)
  settled : Bool

structure Repair (N : Type u) (C : Type v) where
  target : N
  expected : Option (List C)
  winner : List C
  deriving DecidableEq

structure Answer (N : Type u) (C : Type v) where
  known : List (Mutation N C)
  record : List C
  deriving DecidableEq

/-- What a selection has to keep: a change in the answers of one quorum. -/
def ReplicaGroup.Sound
    (group : ReplicaGroup N) (select : List (N × List C) → Except String (List C)) : Prop :=
  ∀ observed winner, (observed.map Prod.fst).Nodup → (∀ o ∈ observed, o.1 ∈ group.members) →
    select observed = .ok winner → ∀ m : Mutation N C, group.isAcknowledgedBy m.durable →
      (∀ o ∈ observed, o.1 ∈ m.durable → m.change ∈ o.2) → m.change ∈ winner

structure Protocol (N : Type u) (C : Type v) [DecidableEq N] extends ReplicaGroup N where
  coordinator : N
  /-- whether a change may be put on a record -/
  follows : C → List C → Bool
  select : List (N × List C) → Except String (List C)
  /-- whether a repair decided on an observation may replace the current record -/
  admits : Option (List C) → List C → Bool
  /-- whether a repeated change is acknowledged without being sent, by what a read selected -/
  confirms : C → Option (List C) → Bool
  /-- whether a read answers from its own node's record, once that is the winner -/
  answersLocally : Bool
  sound : toReplicaGroup.Sound select

structure Replicas (N : Type u) (C : Type v) where
  records : N → List C
  applies : List (N × C)
  inFlight : List (Mutation N C)
  acknowledged : List (Mutation N C)
  reads : Nat → Read N C
  repairs : List (Repair N C)
  answers : List (Answer N C)

/-- Nothing is in flight; every read number stands for an idle reader. -/
def Replicas.initial (idle : N) (records : N → List C) : Replicas N C :=
  ⟨records, [], [], [], fun _ => ⟨idle, [], [], none, false⟩, [], []⟩

inductive ReplicaAction (N : Type u) (C : Type v) where
  | commit (c : C)
  | apply (n : N) (c : C)
  | acknowledge (m : Mutation N C)
  | abandon (m : Mutation N C)
  | resend (c : C)
  | confirm (i : Nat) (c : C)
  | start (i : Nat) (reader : N)
  | observe (i : Nat) (n : N)
  | choose (i : Nat)
  | repair (r : Repair N C)
  | settle (i : Nat)
  | answer (i : Nat)

/-- One more member that has the change. -/
def Mutation.count (n : N) (c : C) (m : Mutation N C) : Mutation N C :=
  if m.change = c then ⟨m.change, n :: m.durable⟩ else m

variable (p : Protocol N C)

/-- A member that has the change already says so again. -/
def Protocol.applyRecord (c : C) (record : List C) : Option (List C) :=
  if c ∈ record then some record else if p.follows c record then some (c :: record) else none

/-- The coordinator counts itself and sends the change to the others. -/
def Protocol.send (c : C) (s : Replicas N C) : Replicas N C :=
  { s with
    applies := (p.members.filter (· ≠ p.coordinator)).map (·, c) ++ s.applies
    inFlight := ⟨c, [p.coordinator]⟩ :: s.inFlight }

/-- One step; an action that is not enabled changes nothing. -/
def replicaStep (s : Replicas N C) : ReplicaAction N C → Replicas N C
  | .commit c =>
    if p.follows c (s.records p.coordinator) then
      p.send c { s with
        records := Function.update s.records p.coordinator (c :: s.records p.coordinator) }
    else s
  | .apply n c =>
    if (n, c) ∈ s.applies then
      match p.applyRecord c (s.records n) with
      | none => s
      | some record =>
        { s with
          records := Function.update s.records n record
          applies := s.applies.erase (n, c)
          inFlight := s.inFlight.map (Mutation.count n c) }
    else s
  | .acknowledge m =>
    if m ∈ s.inFlight ∧ p.isAcknowledgedBy m.durable then
      { s with inFlight := s.inFlight.erase m, acknowledged := m :: s.acknowledged }
    else s
  | .abandon m => { s with inFlight := s.inFlight.erase m }
  -- the coordinator has recorded the command; its record may have been repaired since then
  | .resend c => p.send c s
  | .confirm i c =>
    if p.confirms c (s.reads i).winner then
      { s with acknowledged := ⟨c, p.members.filter (c ∈ s.records ·)⟩ :: s.acknowledged }
    else s
  | .start i reader =>
    { s with reads := Function.update s.reads i ⟨reader, s.acknowledged, [], none, false⟩ }
  | .observe i n =>
    let r := s.reads i
    if n ∈ p.members ∧ n ∉ r.observed.map Prod.fst then
      { s with
        reads := Function.update s.reads i { r with observed := r.observed ++ [(n, s.records n)] } }
    else s
  | .choose i =>
    let r := s.reads i
    match p.select r.observed with
    | .error _ => s
    | .ok winner =>
      { s with
        reads := Function.update s.reads i { r with winner := some winner, settled := false }
        repairs := (p.members.filter fun n => (n, winner) ∉ r.observed).map
          (fun n => ⟨n, r.observed.lookup n, winner⟩) ++ s.repairs }
  | .repair r =>
    if r ∈ s.repairs ∧ p.admits r.expected (s.records r.target) then
      { s with
        records := Function.update s.records r.target r.winner
        repairs := s.repairs.erase r }
    else s
  | .settle i =>
    let r := s.reads i
    if ∃ winner ∈ r.winner, (r.reader, winner) ∈ r.observed ∨ s.records r.reader = winner then
      { s with reads := Function.update s.reads i { r with settled := true } }
    else s
  | .answer i =>
    let r := s.reads i
    match r.winner with
    | none => s
    | some winner =>
      if p.answersLocally then
        if r.settled ∧ winner ≠ [] then
          { s with answers := ⟨r.known, s.records r.reader⟩ :: s.answers }
        else s
      else { s with answers := ⟨r.known, winner⟩ :: s.answers }

def replicaRun (s : Replicas N C) : List (ReplicaAction N C) → Replicas N C
  | [] => s
  | a :: rest => replicaRun (replicaStep p s a) rest

/-- A repair takes no change in flight or acknowledged from its target; a change that is
sent again is on the coordinator, and one acknowledged without being sent on a quorum. -/
def StepKeeps (s : Replicas N C) : ReplicaAction N C → Prop
  | .repair r => p.admits r.expected (s.records r.target) →
    ∀ m ∈ s.inFlight ++ s.acknowledged, m.change ∈ s.records r.target → m.change ∈ r.winner
  | .resend c => c ∈ s.records p.coordinator
  | .confirm i c => p.confirms c (s.reads i).winner →
    p.isAcknowledgedBy (p.members.filter (c ∈ s.records ·))
  | _ => True

def RunKeeps (s : Replicas N C) : List (ReplicaAction N C) → Prop
  | [] => True
  | a :: rest => StepKeeps p s a ∧ RunKeeps (replicaStep p s a) rest

instance decidableStepKeeps
    (s : Replicas N C) (a : ReplicaAction N C) : Decidable (StepKeeps p s a) := by
  cases a <;> unfold StepKeeps <;> infer_instance

instance decidableRunKeeps
    (s : Replicas N C) : (actions : List (ReplicaAction N C)) → Decidable (RunKeeps p s actions)
  | [] => isTrue trivial
  | a :: rest =>
    have := decidableRunKeeps (replicaStep p s a) rest
    inferInstanceAs (Decidable (_ ∧ _))

/-- What a read has seen of the changes acknowledged when it started. -/
structure ReadSound (s : Replicas N C) (r : Read N C) : Prop where
  nodup : (r.observed.map Prod.fst).Nodup
  members : ∀ o ∈ r.observed, o.1 ∈ p.members
  known : ∀ m ∈ r.known, m ∈ s.acknowledged
  observed : ∀ m ∈ r.known, ∀ o ∈ r.observed, o.1 ∈ m.durable → m.change ∈ o.2
  current : ∀ m ∈ r.known, ∀ o ∈ r.observed, m.change ∈ o.2 → m.change ∈ s.records o.1
  winner : ∀ m ∈ r.known, ∀ w ∈ r.winner, m.change ∈ w
  settled : ∀ m ∈ r.known, r.settled → m.change ∈ s.records r.reader

structure ReplicaInvariant (s : Replicas N C) : Prop where
  held : ∀ m ∈ s.inFlight ++ s.acknowledged, ∀ n ∈ m.durable, m.change ∈ s.records n
  quorum : ∀ m ∈ s.acknowledged, p.isAcknowledgedBy m.durable
  reads : ∀ i, ReadSound p s (s.reads i)
  answers : ∀ a ∈ s.answers, ∀ m ∈ a.known, m.change ∈ a.record

variable {p} {s : Replicas N C}

omit [DecidableEq C] in
/-- A step that only adds changes, or takes away unprotected ones, keeps what reads have seen. -/
theorem ReadSound.mono {r : Read N C} {s' : Replicas N C}
    (h : ReadSound p s r)
    (hack : ∀ m ∈ s.acknowledged, m ∈ s'.acknowledged)
    (hkeep : ∀ m ∈ s.acknowledged, ∀ n, m.change ∈ s.records n → m.change ∈ s'.records n) :
    ReadSound p s' r :=
  { h with
    known := fun m hm => hack m (h.known m hm)
    current := fun m hm o ho hc => hkeep m (h.known m hm) o.1 (h.current m hm o ho hc)
    settled := fun m hm hs => hkeep m (h.known m hm) r.reader (h.settled m hm hs) }

omit [DecidableEq C] in
/-- A step of a read changes that read alone. -/
theorem ReplicaInvariant.updateRead {r : Read N C}
    (h : ReplicaInvariant p s) (i : Nat)
    (repairs : List (Repair N C)) (hr : ReadSound p s r) :
    ReplicaInvariant p { s with reads := Function.update s.reads i r, repairs := repairs } :=
  { h with
    answers := h.answers
    reads j := by
      have hsame : ReadSound p s (update s.reads i r j) := by
        rw [update_apply]
        split
        · exact hr
        · exact h.reads j
      exact hsame.mono (fun _ hm => hm) (fun _ _ _ hc => hc) }

omit [DecidableEq C] in
/-- A step of the writers leaves the reads as they are. -/
theorem ReplicaInvariant.updateRecords {s' : Replicas N C}
    (h : ReplicaInvariant p s) (hreads : s'.reads = s.reads)
    (hanswers : s'.answers = s.answers) (hack : ∀ m ∈ s.acknowledged, m ∈ s'.acknowledged)
    (hkeep : ∀ m ∈ s.acknowledged, ∀ n, m.change ∈ s.records n → m.change ∈ s'.records n)
    (hheld : ∀ m ∈ s'.inFlight ++ s'.acknowledged, ∀ n ∈ m.durable, m.change ∈ s'.records n)
    (hquorum : ∀ m ∈ s'.acknowledged, p.isAcknowledgedBy m.durable) :
    ReplicaInvariant p s' where
  held := hheld
  quorum := hquorum
  answers := hanswers ▸ h.answers
  reads i := hreads ▸ (h.reads i).mono hack hkeep

omit [DecidableEq C] in
theorem mem_update {k : N} {c : C} {n : N} {record : List C}
    {records : N → List C} (h : c ∈ records k)
    (hn : c ∈ records n → c ∈ record) : c ∈ Function.update records n record k := by
  rw [update_apply]
  split
  · rename_i heq
    exact hn (heq ▸ h)
  · exact h

theorem Protocol.applyRecord_eq_some {c : C} {record record' : List C}
    (h : p.applyRecord c record = some record') :
    c ∈ record' ∧ ∀ d ∈ record, d ∈ record' := by
  unfold applyRecord at h
  split at h
  · rename_i hmem
    cases h
    exact ⟨hmem, fun _ hd => hd⟩
  split at h <;> cases h
  exact ⟨mem_cons_self, fun _ => mem_cons_of_mem c⟩

omit [DecidableEq C] in
/-- Sending a change that the coordinator has. -/
theorem ReplicaInvariant.send {c : C}
    (h : ReplicaInvariant p s)
    (hc : c ∈ s.records p.coordinator) : ReplicaInvariant p (p.send c s) := by
  refine h.updateRecords rfl rfl (fun _ hm => hm) (fun _ _ _ hd => hd) ?_ h.quorum
  intro m hm n hn
  rcases mem_cons.mp hm with rfl | hm
  · exact mem_singleton.mp hn ▸ hc
  · exact h.held m hm n hn

theorem ReplicaInvariant.replicaStep
    (h : ReplicaInvariant p s) {a : ReplicaAction N C} (hkeeps : StepKeeps p s a) :
    ReplicaInvariant p (replicaStep p s a) := by
  cases a with
  | commit c =>
    dsimp only [Foundation.replicaStep]
    split
    · have hadd : ∀ d k, d ∈ s.records k →
          d ∈ update s.records p.coordinator (c :: s.records p.coordinator) k :=
        fun d k hd => mem_update hd (mem_cons_of_mem c)
      refine ReplicaInvariant.send ?_ (by simp)
      exact h.updateRecords rfl rfl (fun _ hm => hm) (fun m _ n => hadd m.change n)
        (fun m hm n hn => hadd _ _ (h.held m hm n hn)) h.quorum
    · exact h
  | apply n c =>
    dsimp only [Foundation.replicaStep]
    split
    · split
      · exact h
      rename_i record hrecord
      obtain ⟨hnew, hold⟩ := p.applyRecord_eq_some hrecord
      have hadd : ∀ d k, d ∈ s.records k → d ∈ update s.records n record k :=
        fun d k hd => mem_update hd (hold d)
      refine h.updateRecords rfl rfl (fun _ hm => hm) (fun m _ k => hadd m.change k) ?_ h.quorum
      intro m hm k hk
      rcases mem_append.mp hm with hm | hm
      · obtain ⟨m₀, hm₀, rfl⟩ := mem_map.mp hm
        have hheld := h.held m₀ (mem_append_left _ hm₀)
        unfold Mutation.count at hk ⊢
        split at hk <;> rename_i hc
        · rcases mem_cons.mp hk with rfl | hk
          · simpa [hc] using hnew
          rw [if_pos hc]
          exact hadd _ _ (hheld k hk)
        rw [if_neg hc]
        exact hadd _ _ (hheld k hk)
      · exact hadd _ _ (h.held m (mem_append_right _ hm) k hk)
    · exact h
  | acknowledge m =>
    dsimp only [Foundation.replicaStep]
    split
    · rename_i hguard
      refine h.updateRecords rfl rfl (fun _ => mem_cons_of_mem _) (fun _ _ _ hc => hc) ?_ ?_
      · intro m' hm'
        refine h.held m' ?_
        simp only [mem_append, mem_cons] at hm' ⊢
        rcases hm' with hm' | rfl | hm'
        · exact Or.inl (mem_of_mem_erase hm')
        · exact Or.inl hguard.1
        · exact Or.inr hm'
      intro m' hm'
      rcases mem_cons.mp hm' with rfl | hm'
      · exact hguard.2
      · exact h.quorum m' hm'
    · exact h
  | abandon m =>
    refine h.updateRecords rfl rfl (fun _ hm => hm) (fun _ _ _ hc => hc) ?_ h.quorum
    intro m' hm'
    refine h.held m' ?_
    rcases mem_append.mp hm' with hm' | hm'
    · exact mem_append_left _ (mem_of_mem_erase hm')
    · exact mem_append_right _ hm'
  | resend c => exact h.send hkeeps
  | confirm i c =>
    dsimp only [Foundation.replicaStep]
    split
    · rename_i hguard
      refine h.updateRecords rfl rfl (fun _ => mem_cons_of_mem _) (fun _ _ _ hd => hd) ?_
        (forall_mem_cons.mpr ⟨hkeeps hguard, h.quorum⟩)
      intro m hm n hn
      rw [mem_append, mem_cons] at hm
      rcases hm with hm | rfl | hm
      · exact h.held m (mem_append_left _ hm) n hn
      · exact of_decide_eq_true (mem_filter.mp hn).2
      · exact h.held m (mem_append_right _ hm) n hn
    · exact h
  | repair r =>
    dsimp only [Foundation.replicaStep]
    split
    · rename_i hguard
      -- the condition on the step is what keeps the target's protected changes
      have hkeep : ∀ m ∈ s.inFlight ++ s.acknowledged, ∀ n, m.change ∈ s.records n →
          m.change ∈ update s.records r.target r.winner n := by
        intro m hm n hc
        exact mem_update hc (hkeeps hguard.2 m hm)
      exact h.updateRecords rfl rfl (fun _ hm => hm) (fun m hm => hkeep m (mem_append_right _
        hm)) (fun m hm n hn => hkeep m hm n (h.held m hm n hn)) h.quorum
    · exact h
  | start i =>
    refine h.updateRead i s.repairs ?_
    exact ⟨nodup_nil, by simp, fun _ hm => hm, by simp, by simp, by simp, by simp⟩
  | observe i n =>
    dsimp only [Foundation.replicaStep]
    split
    · rename_i hguard
      have hr := h.reads i
      refine h.updateRead i s.repairs ?_
      refine ⟨?_, ?_, hr.known, ?_, ?_, hr.winner, hr.settled⟩
      · rw [map_append, nodup_append]
        refine ⟨hr.nodup, nodup_singleton _, ?_⟩
        rintro x hx y hy rfl
        exact hguard.2 ((show x = n from mem_singleton.mp hy) ▸ hx)
      · intro o ho
        rcases mem_append.mp ho with ho | ho
        · exact hr.members o ho
        · exact mem_singleton.mp ho ▸ hguard.1
      · intro m hm o ho hd
        rcases mem_append.mp ho with ho | ho
        · exact hr.observed m hm o ho hd
        obtain rfl := mem_singleton.mp ho
        exact h.held m (mem_append_right _ (hr.known m hm)) n hd
      intro m hm o ho hc
      rcases mem_append.mp ho with ho | ho
      · exact hr.current m hm o ho hc
      obtain rfl := mem_singleton.mp ho
      exact hc
    · exact h
  | choose i =>
    dsimp only [Foundation.replicaStep]
    split
    · exact h
    rename_i winner hwinner
    have hr := h.reads i
    refine h.updateRead i _ ?_
    refine { hr with winner := ?_, settled := by simp }
    rintro m hm _ ⟨⟩
    exact p.sound _ winner hr.nodup hr.members hwinner m (h.quorum m (hr.known m hm))
      (hr.observed m hm)
  | settle i =>
    dsimp only [Foundation.replicaStep]
    split
    · rename_i hguard
      obtain ⟨w, hw, hlocal⟩ := hguard
      have hr := h.reads i
      refine h.updateRead i s.repairs ?_
      refine { hr with settled := ?_ }
      intro m hm _
      rcases hlocal with hseen | hnow
      · exact hr.current m hm _ hseen (hr.winner m hm w hw)
      · exact hnow ▸ hr.winner m hm w hw
    · exact h
  | answer i =>
    have hr := h.reads i
    have hadd : ∀ record, (∀ m ∈ (s.reads i).known, m.change ∈ record) →
        ReplicaInvariant p { s with answers := ⟨(s.reads i).known, record⟩ :: s.answers } :=
      fun record hrecord =>
        { h with
          reads := fun j => (h.reads j).mono (fun _ hm => hm) (fun _ _ _ hc => hc)
          answers := forall_mem_cons.mpr ⟨hrecord, h.answers⟩ }
    dsimp only [Foundation.replicaStep]
    split
    · exact h
    rename_i winner hwinner
    split
    · split
      · rename_i hguard
        exact hadd _ fun m hm => hr.settled m hm hguard.1
      · exact h
    · exact hadd _ fun m hm => hr.winner m hm winner hwinner

theorem ReplicaInvariant.replicaRun {actions : List (ReplicaAction N C)}
    (h : ReplicaInvariant p s)
    (hkeep : RunKeeps p s actions) : ReplicaInvariant p (replicaRun p s actions) := by
  induction actions generalizing s with
  | nil => exact h
  | cons a _ ih => exact ih (h.replicaStep hkeep.1) hkeep.2

omit [DecidableEq C] in
theorem ReplicaInvariant.initial (idle : N) (records : N → List C) :
    ReplicaInvariant p (Replicas.initial idle records) where
  held := by simp [Replicas.initial]
  quorum := by simp [Replicas.initial]
  answers := by simp [Replicas.initial]
  reads i := ⟨nodup_nil, by simp [Replicas.initial], by simp [Replicas.initial],
    by simp [Replicas.initial], by simp [Replicas.initial], by simp [Replicas.initial],
    by simp [Replicas.initial]⟩

/-- An acknowledged change stays on a quorum. -/
theorem ReplicaInvariant.required_le_holders {m : Mutation N C}
    (h : ReplicaInvariant p s) (hm : m ∈ s.acknowledged) :
    p.required ≤ p.members.countP (m.change ∈ s.records ·) := by
  have hquorum : p.required ≤ _ := of_decide_eq_true (h.quorum m hm)
  refine Nat.le_trans hquorum (countP_mono_left fun n _ hn => ?_)
  simpa using h.held m (mem_append_right _ hm) n (by simpa using hn)

/-- Two conditions that hold often enough hold of one element together. -/
theorem exists_mem_of_length_lt_countP
    {α : Type u} {l : List α} {f g : α → Bool} (h : l.length < l.countP f + l.countP g) :
    ∃ a ∈ l, f a ∧ g a := by
  induction l with
  | nil => simp at h
  | cons a rest ih =>
    by_cases hboth : f a ∧ g a
    · exact ⟨a, mem_cons_self, hboth⟩
    have hrest : rest.length < rest.countP f + rest.countP g := by
      by_cases hf : f a <;> by_cases hg : g a <;> simp_all <;> omega
    obtain ⟨b, hb, hfg⟩ := ih hrest
    exact ⟨b, mem_cons_of_mem _ hb, hfg⟩

omit [DecidableEq C] in
/-- A quorum of answers includes one of every acknowledging quorum. -/
theorem ReplicaGroup.exists_durable (group : ReplicaGroup N) {observed : List (N × List C)}
    (agrees : N × List C → Bool) {durable : List N} (hnodup : (observed.map Prod.fst).Nodup)
    (hmembers : ∀ o ∈ observed, o.1 ∈ group.members)
    (hquorum : group.required ≤ observed.countP agrees) (hack : group.isAcknowledgedBy durable) :
    ∃ o ∈ observed, agrees o ∧ o.1 ∈ durable := by
  let agreeing := (observed.filter agrees).map Prod.fst
  -- the agreeing answers come from as many different members
  have hagree : observed.countP agrees ≤ group.members.countP (· ∈ agreeing) := by
    rw [countP_eq_length_filter, countP_eq_length_filter, ← length_map Prod.fst]
    refine (subperm_of_subset (hnodup.sublist (filter_sublist.map _)) ?_).length_le
    intro n hn
    obtain ⟨o, ho, rfl⟩ := mem_map.mp hn
    exact mem_filter.mpr ⟨hmembers o (mem_filter.mp ho).1, decide_eq_true hn⟩
  have hdurable : group.required ≤ group.members.countP (· ∈ durable) := of_decide_eq_true hack
  have hmajority : group.members.length <
      group.members.countP (· ∈ agreeing) + group.members.countP (· ∈ durable) := by
    have := group.majority
    omega
  obtain ⟨n, -, hn, hmem⟩ := exists_mem_of_length_lt_countP hmajority
  obtain ⟨o, ho, rfl⟩ := mem_map.mp (of_decide_eq_true hn)
  obtain ⟨ho, hagrees⟩ := mem_filter.mp ho
  exact ⟨o, ho, hagrees, of_decide_eq_true hmem⟩

/-- A record that a quorum answers has the changes of every acknowledging quorum. -/
theorem ReplicaGroup.change_mem_of_agreement
    (group : ReplicaGroup N) {observed : List (N × List C)} {winner : List C}
    (hnodup : (observed.map Prod.fst).Nodup) (hmembers : ∀ o ∈ observed, o.1 ∈ group.members)
    (hquorum : group.required ≤ (observed.map Prod.snd).countP (· = winner)) {m : Mutation N C}
    (hack : group.isAcknowledgedBy m.durable)
    (hseen : ∀ o ∈ observed, o.1 ∈ m.durable → m.change ∈ o.2) : m.change ∈ winner := by
  rw [countP_map] at hquorum
  obtain ⟨o, ho, hwinner, hdurable⟩ := group.exists_durable _ hnodup hmembers hquorum hack
  exact of_decide_eq_true hwinner ▸ hseen o ho hdurable

end

end Keldra.Foundation
