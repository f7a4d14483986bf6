import Keldra.Foundation.Checks

/-!
# The mutation drain of a membership change

Every node counts its mutations at a gate.  Clients enter at an open gate only; a
request of another node enters at a closed gate too, since it completes a mutation
that some node let in before.

Before the last scan of a hand-off the leader closes all gates and waits on each node
until its count is zero.  The nodes answer at different moments, and a node that has
answered still lets requests of the others in.

While every caller keeps its permit until its callees have answered, and no release of
the drain reaches a node that it has closed, no permit is left once all nodes have
answered, and none is granted from then on.  A caller that stops waiting (for a replica
that does not answer in time) gives its permit back while its callee still holds one, at
a node that may have answered already.  A node answers when its count is zero, whether
its gate is still closed or not.
-/

namespace Keldra.Cluster

open Foundation Function

structure DrainIdentity where
  joiningNodeId : Nat
  startedLogIndex : Nat
deriving DecidableEq, Repr

structure MutationAdmission where
  drain : Option DrainIdentity := none
  active : Nat := 0
deriving DecidableEq, Repr

namespace MutationAdmission

def enterContinuation (gate : MutationAdmission) : Except String MutationAdmission := do
  rejectIf (2 ^ 64 ≤ gate.active + 1) "active mutation count overflow"
  return { gate with active := gate.active + 1 }

def enter (gate : MutationAdmission) : Except String MutationAdmission := do
  rejectIf gate.drain.isSome "mutable traffic is paused for membership cutover"
  gate.enterContinuation

def beginClose (gate : MutationAdmission) (identity : DrainIdentity) :
    Except String MutationAdmission := do
  rejectIf (gate.drain.any (· ≠ identity))
    "another membership cutover already owns mutation admission"
  return { gate with drain := some identity }

def release (gate : MutationAdmission) (identity : DrainIdentity) : MutationAdmission :=
  if gate.drain = some identity then { gate with drain := none } else gate

/-- The end of a permit. -/
def leave (gate : MutationAdmission) : MutationAdmission :=
  { gate with active := gate.active - 1 }

end MutationAdmission

/-- A request: the node it goes to, and the call that sends it, none for a client. -/
structure MutationCall (N : Type) where
  node : N
  caller : Option Nat
deriving DecidableEq, Repr

inductive DrainAction (N : Type) where
  | send (call : Nat)
  | arrive (call : Nat)
  | lose (call : Nat)
  | finish (call : Nat)
  | giveUp (call : Nat)
  | close (node : N)
  | answer (node : N)
  | release (node : N) (identity : DrainIdentity)
  | restart
deriving DecidableEq, Repr

/-- The calls under way, those that hold a permit, and the nodes that the drain has closed
and those that have answered it. -/
structure DrainState (N : Type) where
  gates : N → MutationAdmission
  sent : List Nat := []
  permits : List Nat := []
  asked : N → Bool := fun _ => false
  answered : N → Bool := fun _ => false

variable {N : Type} [DecidableEq N]

/-- The gate after the request has arrived. -/
def MutationCall.enterGate (call : MutationCall N) (gate : MutationAdmission) :
    Except String MutationAdmission :=
  if call.caller.isNone then gate.enter else gate.enterContinuation

section

variable (calls : Nat → MutationCall N)

/-- The call ends and gives its permit back. -/
def DrainState.leave (s : DrainState N) (i : Nat) : DrainState N :=
  if i ∈ s.permits then { s with
    gates := update s.gates (calls i).node (s.gates (calls i).node).leave
    permits := s.permits.erase i }
  else s

/-- A step of a client, of the nodes or of the drain with the given identity.  Calls are
numbered in the order in which they are sent.  A drain that failed starts over with all
nodes. -/
def drainStep (identity : DrainIdentity) (s : DrainState N) : DrainAction N → DrainState N
  | .send i =>
    if (calls i).caller.all fun j => j < i ∧ j ∈ s.permits then { s with sent := i :: s.sent }
    else s
  | .arrive i =>
    if i ∈ s.sent then match (calls i).enterGate (s.gates (calls i).node) with
      | .ok gate => { s with
          gates := update s.gates (calls i).node gate
          sent := s.sent.erase i
          permits := i :: s.permits }
      | .error _ => { s with sent := s.sent.erase i }
    else s
  | .lose i => { s with sent := s.sent.erase i }
  | .finish i => if ∀ k ∈ s.sent ++ s.permits, (calls k).caller ≠ some i then s.leave calls i else s
  | .giveUp i => s.leave calls i
  | .close node => match (s.gates node).beginClose identity with
    | .ok gate => { s with
        gates := update s.gates node gate
        asked := update s.asked node true }
    | .error _ => s
  | .answer node =>
    if s.asked node ∧ (s.gates node).active = 0 then
      { s with answered := update s.answered node true }
    else s
  | .release node other => { s with gates := update s.gates node ((s.gates node).release other) }
  | .restart => { s with asked := fun _ => false, answered := fun _ => false }

/-- A gate may be closed at the start for a change that has ended. -/
def drainRun (identity : DrainIdentity) (stale : N → Option DrainIdentity)
    (actions : List (DrainAction N)) : DrainState N :=
  actions.foldl (drainStep calls identity) { gates := fun node => { drain := stale node } }

/-- Every release of the drain reaches a node that it has not closed. -/
def ReleasesBeforeClose (identity : DrainIdentity) (s : DrainState N) :
    List (DrainAction N) → Prop
  | [] => True
  | action :: rest =>
    (∀ node, s.asked node → action ≠ .release node identity) ∧
      ReleasesBeforeClose identity (drainStep calls identity s action) rest

/-- A call under way has a caller that holds a permit; a node that the drain has closed stays
closed, and no client's call holds a permit where one has answered. -/
structure DrainInv (identity : DrainIdentity) (s : DrainState N) : Prop where
  counted : ∀ node, (s.gates node).active = s.permits.countP fun i => (calls i).node = node
  sheltered : ∀ i ∈ s.sent ++ s.permits, ∀ j, (calls i).caller = some j → j < i ∧ j ∈ s.permits
  closed : ∀ node, s.asked node → (s.gates node).drain = some identity
  asked : ∀ node, s.answered node → s.asked node
  answered : ∀ i ∈ s.permits, s.answered (calls i).node → (calls i).caller ≠ none

end

variable {calls : Nat → MutationCall N} {identity : DrainIdentity} {s : DrainState N}
  {gate next : MutationAdmission} {i : Nat} {node : N} {action : DrainAction N}

omit [DecidableEq N] in
theorem MutationCall.enterGate_eq_ok {call : MutationCall N}
    (h : call.enterGate gate = .ok next) : next.active = gate.active + 1 ∧ next.drain = gate.drain ∧
      (call.caller = none → gate.drain = none) := by
  unfold enterGate MutationAdmission.enter MutationAdmission.enterContinuation at h
  split at h
  · simp only [ok_rules] at h
    obtain ⟨hopen, -, rfl⟩ := h
    exact ⟨rfl, rfl, fun _ => by simpa using hopen⟩
  simp only [ok_rules] at h
  obtain ⟨-, rfl⟩ := h
  rename_i hcaller
  exact ⟨rfl, rfl, fun hnone => absurd (by simp [hnone]) hcaller⟩

/-- An update of one gate that keeps its drain. -/
theorem DrainInv.closed_update (h : DrainInv calls identity s)
    (hdrain : gate.drain = (s.gates node).drain) (other : N) (hasked : s.asked other) :
    (update s.gates node gate other).drain = some identity := by
  have hclosed := h.closed other hasked
  grind [update_apply]

theorem DrainInv.leave (h : DrainInv calls identity s)
    (hcallees : ∀ k ∈ s.sent ++ s.permits, (calls k).caller ≠ some i) :
    DrainInv calls identity (s.leave calls i) := by
  unfold DrainState.leave
  split
  · refine ⟨fun node => ?_, fun k hk j hj => ?_, h.closed_update rfl, h.asked,
      fun k hk => h.answered k (List.mem_of_mem_erase hk)⟩
    · have hcounted := h.counted node
      grind [update_apply, List.countP_erase, MutationAdmission.leave]
    have hold : k ∈ s.sent ++ s.permits := by grind
    obtain ⟨hlt, hpermit⟩ := h.sheltered k hold j hj
    have hne : j ≠ i := fun hsame => hcallees k hold (hsame ▸ hj)
    exact ⟨hlt, (List.mem_erase_of_ne hne).mpr hpermit⟩
  · exact h

theorem DrainInv.arrive (h : DrainInv calls identity s) (hi : i ∈ s.sent)
    (hgate : (calls i).enterGate (s.gates (calls i).node) = .ok gate) :
    DrainInv calls identity { s with
      gates := update s.gates (calls i).node gate
      sent := s.sent.erase i
      permits := i :: s.permits } := by
  obtain ⟨hactive, hdrain, hopen⟩ := MutationCall.enterGate_eq_ok hgate
  refine ⟨fun node => ?_, fun k hk j hj => ?_, h.closed_update hdrain, h.asked,
    fun k hk hanswered => ?_⟩
  · have hcounted := h.counted node
    grind [update_apply]
  · have hold : k ∈ s.sent ++ s.permits := by grind
    obtain ⟨hlt, hpermit⟩ := h.sheltered k hold j hj
    exact ⟨hlt, List.mem_cons_of_mem i hpermit⟩
  rcases List.mem_cons.mp hk with rfl | hold
  · intro hclient
    simpa [hopen hclient] using h.closed _ (h.asked _ hanswered)
  · exact h.answered k hold hanswered

theorem DrainInv.lose (h : DrainInv calls identity s) :
    DrainInv calls identity { s with sent := s.sent.erase i } := by
  refine { h with sheltered := fun k hk => h.sheltered k ?_ }
  grind

/-- An update of one gate that keeps its count. -/
theorem DrainInv.counted_update (h : DrainInv calls identity s)
    (hactive : gate.active = (s.gates node).active) (other : N) :
    (update s.gates node gate other).active =
      s.permits.countP fun i => (calls i).node = other := by
  have hcounted := h.counted other
  grind [update_apply]

theorem DrainInv.release {other : DrainIdentity} (h : DrainInv calls identity s)
    (hbefore : s.asked node → other ≠ identity) :
    DrainInv calls identity
      { s with gates := update s.gates node ((s.gates node).release other) } := by
  refine { h with
    counted := h.counted_update ?_
    closed := fun node' hasked => ?_ }
  · unfold MutationAdmission.release
    split <;> rfl
  have hclosed := h.closed node' hasked
  grind [update_apply, MutationAdmission.release]

/-- A node that answers has no permits. -/
theorem DrainInv.answer (h : DrainInv calls identity s) (hasked : s.asked node)
    (hactive : (s.gates node).active = 0) :
    DrainInv calls identity { s with answered := update s.answered node true } := by
  refine { h with asked := fun other hother => ?_, answered := fun k hk hother => ?_ }
  · have hbefore := h.asked other
    grind [update_apply]
  have hbefore := h.answered k hk
  have hpositive : 0 < (s.gates (calls k).node).active := by
    rw [h.counted]
    exact List.countP_pos_iff.mpr ⟨k, hk, by simp⟩
  grind [update_apply]

theorem DrainInv.step (h : DrainInv calls identity s) (hwaits : ∀ i, action ≠ .giveUp i)
    (hbefore : ∀ node, s.asked node → action ≠ .release node identity) :
    DrainInv calls identity (drainStep calls identity s action) := by
  cases action with
  | send i =>
    simp only [drainStep]
    split
    · rename_i hcaller
      refine { h with sheltered := fun k hk j hj => ?_ }
      rcases List.mem_cons.mp hk with rfl | hold
      · simpa [hj] using hcaller
      · exact h.sheltered k hold j hj
    · exact h
  | arrive i =>
    simp only [drainStep]
    split
    · split
      · exact h.arrive ‹_› ‹_›
      · exact h.lose
    · exact h
  | lose i => exact h.lose
  | finish i =>
    simp only [drainStep]
    split
    · exact h.leave ‹_›
    · exact h
  | giveUp i => exact absurd rfl (hwaits i)
  | close node =>
    simp only [drainStep]
    split
    · rename_i gate hgate
      simp only [MutationAdmission.beginClose, ok_rules] at hgate
      obtain ⟨-, rfl⟩ := hgate
      refine { h with
        counted := h.counted_update rfl
        closed := fun other hasked => ?_
        asked := fun other hanswered => ?_ }
      · have hclosed := h.closed other
        grind [update_apply]
      · have hasked := h.asked other hanswered
        grind [update_apply]
    · exact h
  | answer node =>
    simp only [drainStep]
    split
    · rename_i hready
      exact h.answer hready.1 hready.2
    · exact h
  | release node other => exact h.release fun hasked hsame => hbefore node hasked (hsame ▸ rfl)
  | restart => exact { h with closed := nofun, asked := nofun, answered := nofun }

theorem DrainInv.run {actions : List (DrainAction N)} (h : DrainInv calls identity s)
    (hwaits : ∀ i, .giveUp i ∉ actions) (hbefore : ReleasesBeforeClose calls identity s actions) :
    DrainInv calls identity (actions.foldl (drainStep calls identity) s) := by
  induction actions generalizing s with
  | nil => exact h
  | cons action rest ih =>
    have hstep := h.step (fun i hsame => hwaits i (hsame ▸ List.mem_cons_self)) hbefore.1
    exact ih hstep (fun i hi => hwaits i (List.mem_cons_of_mem action hi)) hbefore.2

theorem DrainInv.no_permit (h : DrainInv calls identity s) (hall : ∀ node, s.answered node) :
    i ∉ s.permits := by
  -- the caller of a call that holds a permit holds one, and has a smaller number
  induction i using Nat.strong_induction_on with
  | _ i ih =>
    intro hpermit
    cases hcaller : (calls i).caller with
    | none => exact h.answered i hpermit (hall _) hcaller
    | some j =>
      obtain ⟨hlt, hholds⟩ := h.sheltered i (List.mem_append_right _ hpermit) j hcaller
      exact ih j hlt hholds

theorem drainStep_keeps (hanswered : s.answered node) (hgoesOn : action ≠ .restart) :
    (drainStep calls identity s action).answered node := by
  cases action with
  | restart => exact absurd rfl hgoesOn
  | _ =>
    simp only [drainStep, DrainState.leave]
    repeat' split
    all_goals grind [update_apply]

/-- In every run in which no call ends before its callees have answered and no release of the
drain reaches a node that it has closed: once the drain has the answer of all nodes, no
call holds a permit, however long the run goes on before the drain starts over. -/
theorem drain_is_stable_cut (calls : Nat → MutationCall N) (identity : DrainIdentity)
    (stale : N → Option DrainIdentity) (actions later : List (DrainAction N))
    (hwaits : ∀ i, .giveUp i ∉ actions ++ later)
    (hbefore : ReleasesBeforeClose calls identity (drainRun calls identity stale [])
      (actions ++ later))
    (hgoesOn : .restart ∉ later)
    (hall : ∀ node, (drainRun calls identity stale actions).answered node) :
    (drainRun calls identity stale (actions ++ later)).permits = [] := by
  have hstart : DrainInv calls identity (drainRun calls identity stale []) :=
    ⟨fun _ => rfl, nofun, nofun, nofun, nofun⟩
  have hinv : DrainInv calls identity (drainRun calls identity stale (actions ++ later)) :=
    hstart.run hwaits hbefore
  refine List.eq_nil_iff_forall_not_mem.mpr fun i => hinv.no_permit fun node => ?_
  rw [drainRun, List.foldl_append]
  refine List.foldlRecOn (motive := fun s : DrainState N => s.answered node) later _ (hall node)
    fun s hkept action haction => ?_
  exact drainStep_keeps hkept fun hsame => hgoesOn (hsame ▸ haction)

/-- A client's mutation at one node that another completes; later clients find closed gates. -/
def forwarded : Nat → MutationCall Bool
  | 1 => ⟨false, some 0⟩
  | _ => ⟨true, none⟩

/-- An earlier attempt left the first node closed; the release comes before the new close. -/
theorem forwarded_mutation_drains : (drainRun forwarded ⟨2, 17⟩ (fun _ => none)
    ([.close true, .restart, .release true ⟨2, 17⟩, .send 0, .arrive 0, .send 1, .close false,
      .close true, .release true ⟨1, 9⟩, .arrive 1, .finish 1, .answer false, .finish 0,
      .answer true] ++ [.send 2, .arrive 2])).permits = [] := by
  refine drain_is_stable_cut _ _ _ _ _ (by simp) ?_ (by simp) (by decide)
  simp only [List.cons_append, List.nil_append, ReleasesBeforeClose, ne_eq, reduceCtorEq,
    not_false_eq_true, implies_true, true_and, and_true]
  decide

/-- The second node answers the drain before the request arrives; the first stops waiting. -/
theorem abandoned_callee_outlives_drain :
    let s := drainRun forwarded ⟨2, 17⟩ (fun _ => none) [.send 0, .arrive 0, .send 1,
      .close true, .close false, .answer false, .arrive 1, .giveUp 0, .answer true]
    (∀ node, s.answered node) ∧ s.permits = [1] := by
  decide

end Keldra.Cluster
