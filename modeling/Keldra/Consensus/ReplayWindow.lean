import Keldra.Consensus.DecisionSteps

/-!
# The replay window and its pruning

Beginning a batch prunes the finalized entries whose replay time has passed.
Whatever pruning does, it only removes expired entries; and as long as the
byte count accounts for the retained entries, pruning succeeds and removes
every one of them.
-/

namespace Keldra.Consensus

open Foundation OrdMap List

variable {s : StateMachine} {invocationId : InvocationId}

/-- Encoded size of one retained entry. -/
def entryBytes (e : Nat × CommittedInvocation) : Nat :=
  8 + e.2.encodedLen

/-- Encoded size of the retained entries as one map. -/
def windowBytes (window : OrdMap Nat CommittedInvocation) : Nat :=
  emptyMapEncodedLen + (window.entries.map entryBytes).sum

theorem entryBytes_le (e : Nat × CommittedInvocation) : entryBytes e ≤ maxEncodedBytes := by
  unfold entryBytes CommittedInvocation.encodedLen CommittedBatch.encodedLen maxEncodedBytes
  cases e.2.committedBatch.authority <;>
    simp [AtomicBundleAuthority.encodedLen]

theorem committedInvocationEntryBytes_eq_ok (cursor : Nat) (invocation : CommittedInvocation) :
    committedInvocationEntryBytes cursor invocation = .ok (8 + invocation.encodedLen) := by
  have hsmall : ¬ (8 + invocation.encodedLen > maxEncodedBytes) :=
    (entryBytes_le (cursor, invocation)).not_gt
  unfold committedInvocationEntryBytes rejectIf
  rw [if_neg hsmall]
  rfl

variable {proposalAt : Nat} {p : StateMachine}

namespace StateMachine

theorem mem_expiredFinalizedCursors {cursor : Nat} :
    cursor ∈ s.expiredFinalizedCursors proposalAt ↔ ∃ entry,
    s.committedInvocations.get? cursor = some entry ∧ Expired s proposalAt cursor entry := by
  unfold expiredFinalizedCursors
  cases hfinalized : s.finalizedThrough with
  | none => simp [Expired, hfinalized]
  | some =>
    simp only [mem_map, mem_filter, decide_eq_true_eq, Prod.exists, exists_and_right,
      exists_eq_right, Expired, hfinalized, Option.some.injEq, exists_eq_left', get?_eq_some_iff]
    constructor
    · rintro ⟨entry, hmem, hle, hexpired⟩
      exact ⟨entry, hmem, hexpired, hle⟩
    rintro ⟨entry, hmem, hexpired, hle⟩
    exact ⟨entry, hmem, hle, hexpired⟩

theorem nodup_expiredFinalizedCursors (s : StateMachine) (proposalAt : Nat) :
    (s.expiredFinalizedCursors proposalAt).Nodup := by
  unfold expiredFinalizedCursors
  cases s.finalizedThrough with
  | none => exact nodup_nil
  | some => exact s.committedInvocations.nodup_keys.sublist (filter_sublist.map Prod.fst)

/-- Pruning touches nothing but the window, and there only the given cursors. -/
theorem pruneCommittedInvocations_frame (cursors : List Nat) (s : StateMachine) :
    let p := (s.pruneCommittedInvocations cursors).1
    p =
      { s with
        committedInvocations := p.committedInvocations
        committedInvocationBytes := p.committedInvocationBytes } ∧
      ∀ cursor, p.committedInvocations.get? cursor = s.committedInvocations.get? cursor ∨
        (cursor ∈ cursors ∧ p.committedInvocations.get? cursor = none) := by
  induction cursors generalizing s with
  | nil => exact ⟨rfl, fun _ => .inl rfl⟩
  | cons cursor rest ih =>
    have herase : ∀ other, (s.committedInvocations.erase cursor).get? other =
          s.committedInvocations.get? other ∨
            (other ∈ cursor :: rest ∧ (s.committedInvocations.erase cursor).get? other = none) := by
      intro other
      rw [get?_erase]
      by_cases h : other = cursor <;> simp [h]
    unfold pruneCommittedInvocations
    split
    · exact ⟨rfl, fun _ => .inl rfl⟩
    split
    · exact ⟨rfl, herase⟩
    split
    · exact ⟨rfl, herase⟩
    rename_i remaining _
    obtain ⟨hframe, hget⟩ :=
      ih { s with
        committedInvocations := s.committedInvocations.erase cursor
        committedInvocationBytes := remaining }
    refine ⟨hframe, ?_⟩
    intro other
    rcases hget other with hsame | ⟨hmem, hnone⟩
    · rw [hsame]
      exact herase other
    · exact .inr ⟨mem_cons_of_mem _ hmem, hnone⟩

/-- Pruning the expired cursors of a proposal removes only expired entries. -/
theorem pruneCommittedInvocations_pruned {r : Except ApplyError Unit}
    (h :
    s.pruneCommittedInvocations (s.expiredFinalizedCursors proposalAt) = (p, r)) :
    Pruned s proposalAt p := by
  have hp : (s.pruneCommittedInvocations (s.expiredFinalizedCursors proposalAt)).1 = p := by rw [h]
  obtain ⟨hframe, hget⟩ := pruneCommittedInvocations_frame (s.expiredFinalizedCursors proposalAt) s
  rw [hp] at hframe hget
  refine ⟨hframe, ?_, ?_⟩
  · intro cursor _ hentry
    rcases hget cursor with hsame | ⟨_, hnone⟩
    · rwa [← hsame]
    rw [hnone] at hentry
    cases hentry
  intro cursor _ hentry hfresh
  rcases hget cursor with hsame | ⟨hmem, _⟩
  · rwa [hsame]
  obtain ⟨_, hentry', hexpired⟩ := mem_expiredFinalizedCursors.mp hmem
  rw [hentry, Option.some.injEq] at hentry'
  exact absurd (hentry' ▸ hexpired) hfresh

/-- With a correct byte count, pruning stored cursors succeeds. -/
theorem pruneCommittedInvocations_ok (cursors : List Nat) (s : StateMachine)
    (hbytes : s.committedInvocationBytes = windowBytes s.committedInvocations)
    (hnodup : cursors.Nodup) (hstored :
    ∀ cursor ∈ cursors, ∃ entry, s.committedInvocations.get? cursor = some entry) :
    ∃ p, s.pruneCommittedInvocations cursors = (p, .ok ()) ∧
    p.committedInvocationBytes = windowBytes p.committedInvocations ∧
    ∀ cursor ∈ cursors, p.committedInvocations.get? cursor = none := by
  induction cursors generalizing s with
  | nil => exact ⟨s, rfl, hbytes, by simp⟩
  | cons cursor rest ih =>
    obtain ⟨hnot, hrest⟩ := nodup_cons.mp hnodup
    obtain ⟨entry, hentry⟩ := hstored cursor (by simp)
    have hsum := s.committedInvocations.sum_map_erase entryBytes hentry
    -- the count splits into this entry and the window without it
    have hsplit : s.committedInvocationBytes = (8 + entry.encodedLen) +
          windowBytes (s.committedInvocations.erase cursor) := by
      rw [hbytes, windowBytes, windowBytes, hsum]
      simp only [entryBytes]
      omega
    have hsub : checkedSub64 s.committedInvocationBytes (8 + entry.encodedLen) =
          some (windowBytes (s.committedInvocations.erase cursor)) := by
      unfold checkedSub64
      rw [hsplit, if_pos (Nat.le_add_right _ _), Nat.add_sub_cancel_left]
    let removed : StateMachine :=
      { s with
        committedInvocations := s.committedInvocations.erase cursor
        committedInvocationBytes := windowBytes (s.committedInvocations.erase cursor) }
    have hstored' :
        ∀ other ∈ rest, ∃ entry, removed.committedInvocations.get? other = some entry := by
      intro other hother
      obtain ⟨found, hfound⟩ := hstored other (mem_cons_of_mem _ hother)
      have hne : other ≠ cursor := by
        rintro rfl
        exact hnot hother
      exact ⟨found, by simp [removed, get?_erase, hne, hfound]⟩
    obtain ⟨p, hp, hpbytes, hgone⟩ := ih removed rfl hrest hstored'
    refine ⟨p, ?_, hpbytes, ?_⟩
    · rw [pruneCommittedInvocations]
      simp only [hentry, committedInvocationEntryBytes_eq_ok, hsub]
      exact hp
    intro other hother
    rcases mem_cons.mp hother with rfl | hother
    · have hframe := (pruneCommittedInvocations_frame rest removed).2 other
      rw [hp] at hframe
      rcases hframe with hsame | ⟨_, hnone⟩
      · rw [hsame]
        simp [removed, get?_erase]
      · exact hnone
    · exact hgone other hother

end StateMachine

/-- The three ways beginning a batch can end after pruning. -/
theorem replayOrPrepare_cases {t : StateMachine} {index : Nat} {batch : BeginBatch}
    {outcome : Except ApplyError ApplyResult}
    (h : (t, outcome) = perform (StateMachine.replayOrPrepare index batch) p) :
    (t = p ∧ ((∃ error, outcome = .error error) ∨ ∃ result, outcome = .ok (.batchBegun result))) ∨
      (t = { p with preparingBatch := some ⟨index, batch⟩ } ∧
        outcome = .ok (.batchBegun (.prepared ⟨index, batch⟩ false)) ∧
        p.retainedDecision batch.invocationId = none ∧
        p.preparingBatch = none) := by
  simp only [StateMachine.replayOrPrepare, edit_rules] at h
  cases hretained : p.retainedDecision batch.invocationId with
  | some existing =>
    left
    simp only [hretained, perform_check] at h
    split at h
    · obtain ⟨rfl, rfl⟩ := Prod.mk.inj h
      exact ⟨rfl, .inr ⟨_, rfl⟩⟩
    · obtain ⟨rfl, rfl⟩ := Prod.mk.inj h
      exact ⟨rfl, .inl ⟨_, rfl⟩⟩
  | none =>
    cases hpreparing : p.preparingBatch with
    | some =>
      left
      simp only [hretained, hpreparing, perform_check] at h
      split at h
      · obtain ⟨rfl, rfl⟩ := Prod.mk.inj h
        exact ⟨rfl, .inr ⟨_, rfl⟩⟩
      · obtain ⟨rfl, rfl⟩ := Prod.mk.inj h
        exact ⟨rfl, .inl ⟨_, rfl⟩⟩
    | none =>
      right
      simp only [hretained, hpreparing, edit_rules] at h
      obtain ⟨rfl, rfl⟩ := Prod.mk.inj h
      exact ⟨rfl, rfl, rfl, rfl⟩

theorem retainedDecision_eq_none : s.retainedDecision invocationId = none ↔ ∀ cursor entry,
    s.committedInvocations.get? cursor = some entry → entry.invocationId ≠ invocationId := by
  simp [StateMachine.retainedDecision, get?_eq_some_iff]

theorem retainedDecision_eq_some {entry : CommittedInvocation}
    (h : s.retainedDecision invocationId = some entry) :
    entry.invocationId = invocationId ∧
    ∃ cursor, s.committedInvocations.get? cursor = some entry := by
  simp only [StateMachine.retainedDecision, Option.map_eq_some_iff] at h
  obtain ⟨⟨cursor, found⟩, hfind, rfl⟩ := h
  have hid := find?_some hfind
  have hmem := mem_of_find?_eq_some hfind
  exact ⟨by simpa using hid, cursor, (get?_eq_some_iff _ cursor found).mpr hmem⟩

end Keldra.Consensus
