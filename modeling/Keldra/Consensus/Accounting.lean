import Keldra.Foundation.Refusals
import Keldra.Consensus.ExactlyOnce
import Keldra.Consensus.Journal

/-!
# Accounting of the replay window

The byte count of the replay window is adjusted entry by entry, by commits and
by pruning.  Along every run it is the encoded length of the retained map, the
window and its unfinalized tail stay within their limits, and so no command
ever reports broken accounting.
-/

namespace Keldra.Consensus

open Foundation List StateMachine

variable {s t p : StateMachine} {id : LogId} {command : Command} {log : List LogEntry}
  {outcome : Except ApplyError ApplyResult} {error : ApplyError}

/-- Encoded size of the entries that are not finalized. -/
def StateMachine.tailBytes (s : StateMachine) : Nat :=
  (s.unfinalizedEntries.map entryBytes).sum

/-- The replay window and its tail are within the limits. -/
structure WithinLimits (s : StateMachine) : Prop where
  entries : s.committedInvocationLen ≤ maxCommittedInvocations
  bytes : windowBytes s.committedInvocations ≤ maxCommittedInvocationBytes
  tailEntries : s.unfinalizedEntries.length ≤ s.maxCommitEntries
  tailBytes : s.tailBytes ≤ s.maxCommitBytes

/-- The errors that report broken accounting. -/
def ApplyError.isAccounting : ApplyError → Bool
  | .committedInvocationAccountingCorrupt => true
  | .committedInvocationByteCountExhausted => true
  | .commitTailByteCountExhausted => true
  | _ => false

theorem sum_entryBytes_le {before after : List (Nat × CommittedInvocation)}
    (h : List.Sublist after before) : (after.map entryBytes).sum ≤ (before.map entryBytes).sum :=
  (h.map entryBytes).sum_le_sum (by simp)

/-- Entries that leave the window, or become finalized, free their limits. -/
theorem WithinLimits.shrink (h : WithinLimits s)
    (hlimits : t.maxCommitEntries = s.maxCommitEntries ∧ t.maxCommitBytes = s.maxCommitBytes)
    (hwindow : List.Sublist t.committedInvocations.entries s.committedInvocations.entries)
    (hfinalized : s.finalizedThrough.getD 0 ≤ t.finalizedThrough.getD 0) : WithinLimits t := by
  have htail : Sublist t.unfinalizedEntries s.unfinalizedEntries := by
    refine (hwindow.filter _).trans (monotone_filter_right _ ?_)
    intro e he
    simp only [decide_eq_true_eq] at he ⊢
    omega
  constructor
  · exact hwindow.length_le.trans h.entries
  · exact (Nat.add_le_add_left (sum_entryBytes_le hwindow) _).trans h.bytes
  · rw [hlimits.1]
    exact htail.length_le.trans h.tailEntries
  rw [hlimits.2]
  exact (sum_entryBytes_le htail).trans h.tailBytes

theorem foldlM_addEntryBytes (entries : List (Nat × CommittedInvocation)) (total : Nat)
    (h : total + (entries.map entryBytes).sum ≤ u64Max) :
    entries.foldlM addEntryBytes total =
    .ok (total + (entries.map entryBytes).sum) := by
  induction entries generalizing total with
  | nil => rfl
  | cons e _ ih =>
    simp only [map_cons, sum_cons] at h ⊢
    have hstep : addEntryBytes total e = .ok (total + entryBytes e) := by
      have hle : total + (8 + e.2.encodedLen) ≤ u64Max := by
        unfold entryBytes at h
        omega
      simp only [addEntryBytes, committedInvocationEntryBytes_eq_ok, checkedAdd64,
        bind, Except.bind, if_pos hle]
      rfl
    rw [foldlM_cons, hstep]
    refine (ih (total + entryBytes e) (by omega)).trans ?_
    rw [Nat.add_assoc]

theorem WithinLimits.unfinalizedCommitBytes (h : WithinLimits s) :
    s.tailBytes ≤ maxCommittedInvocationBytes ∧ s.unfinalizedCommitBytes = .ok s.tailBytes := by
  have htail : s.tailBytes ≤ windowBytes s.committedInvocations :=
    (sum_entryBytes_le filter_sublist).trans (Nat.le_add_left _ _)
  have hle := htail.trans h.bytes
  refine ⟨hle, ?_⟩
  have hsum := foldlM_addEntryBytes s.unfinalizedEntries 0
    (by unfold StateMachine.tailBytes maxCommittedInvocationBytes at hle; unfold u64Max; omega)
  rwa [Nat.zero_add] at hsum

theorem windowBytes_filter (window : OrdMap Nat CommittedInvocation) (gone : List Nat) :
    windowBytes (window.filter (fun e => e.1 ∉ gone)) +
    ((window.entries.filter (fun e => e.1 ∈ gone)).map entryBytes).sum = windowBytes window := by
  have hperm := ((filter_append_perm (fun e => decide (e.1 ∈ gone))
    window.entries).map entryBytes).sum_eq
  simp only [map_append, sum_append, ← decide_not] at hperm
  simp only [windowBytes, OrdMap.filter]
  omega

/-- Pruning that succeeds keeps exactly the entries at other cursors. -/
theorem pruneCommittedInvocations_window {cursors : List Nat}
    (h : s.pruneCommittedInvocations cursors = (p, .ok ())) :
    p.committedInvocations = s.committedInvocations.filter (fun e => e.1 ∉ cursors) := by
  induction cursors generalizing s with
  | nil =>
    cases h
    simp [OrdMap.filter]
  | cons _ _ ih =>
    unfold pruneCommittedInvocations at h
    split at h
    · cases h
    simp only [committedInvocationEntryBytes_eq_ok] at h
    split at h
    · cases h
    rw [ih h]
    simp [OrdMap.filter, OrdMap.erase, filter_filter, Bool.and_comm]

variable {index : Nat}

/-- A commit is admitted only when the window with its entry fits. -/
theorem WithinLimits.record {commits : List CommittedInvocation} {request : CommitPreparedBatch}
    {prepared : PreparedBatch}
    {bytes : Nat} {result : ApplyResult} (h : WithinLimits s)
    (hinv : DecisionInv log commits s) (hprepared : s.preparingBatch = some prepared)
    (hcommit : perform (commitPreparedBatch index request) s = (t, .ok result))
    (hlast : ∀ last, s.lastCommitCursor = some last → last < index) :
    WithinLimits (s.recordDecision prepared index bytes) := by
  have hentries := hinv.record_entries prepared bytes hlast
  have htail : Sublist (s.recordDecision prepared index bytes).unfinalizedEntries
      (s.unfinalizedEntries ++ [(index, prepared.decision index)]) := by
    rw [unfinalizedEntries, hentries, filter_append]
    exact (Sublist.refl _).append filter_sublist
  have hsum := sum_entryBytes_le htail
  have hcounted := hinv.counted
  simp only [commitPreparedBatch, edit_rules, ok_rules, not_or, not_lt, h.unfinalizedCommitBytes.2,
    hprepared, Option.some.injEq, committedInvocationEntryBytes_eq_ok, Except.ok.injEq,
    exists_eq_left'] at hcommit
  obtain ⟨_, _, _, _, _, hnext, ⟨hlen, hnextLe⟩, _, htailBytes, ⟨htailLen, htailLe⟩, _⟩ :=
    hcommit
  obtain rfl := checkedAdd64_eq_some hnext
  obtain rfl := checkedAdd64_eq_some htailBytes
  simp only [map_append, sum_append, map_singleton, sum_singleton, entryBytes] at hsum
  constructor
  · rw [committedInvocationLen, OrdMap.size, hentries, length_append]
    exact hlen
  · rw [hcounted] at hnextLe
    simp only [windowBytes, hentries, map_append, sum_append, map_singleton,
      sum_singleton, entryBytes] at hnextLe ⊢
    omega
  · rw [unfinalizedCommitLen, unfinalizedInvocations, length_map] at htailLen
    exact htail.length_le.trans (length_append.trans_le htailLen)
  · exact hsum.trans htailLe

theorem withinLimits_step {commits : List CommittedInvocation}
    (h : WithinLimits s) (hinv : DecisionInv log commits s)
    (happly : s.apply id command = (t, outcome)) : WithinLimits t := by
  have hstep := apply_step happly
  have hlimits := hstep.limits
  cases hstep with
  | rejected => exact h
  | cluster hcluster =>
    have hsame := hcluster.sameDecisions
    refine h.shrink hlimits ?_ ?_
    · rw [hsame.committedInvocations]
    · rw [hsame.finalizedThrough]
  | decision hdecision =>
    cases hdecision with
    | pruningFailed batch p _ _ hprune =>
      obtain ⟨_, hp, _⟩ := hinv.prune_ok batch.proposalAtUnixMillis
      rw [hprune] at hp
      cases hp
    | begun _ p t _ _ hprune hsettle =>
      have hframe := (pruneCommittedInvocations_pruned hprune).frame
      have hpruned : WithinLimits p := by
        refine h.shrink ?_ ?_ ?_
        · rw [hframe]
          exact ⟨rfl, rfl⟩
        · rw [pruneCommittedInvocations_window hprune]
          exact filter_sublist
        · rw [hframe]
      rcases replayOrPrepare_cases hsettle with ⟨rfl, _⟩ | ⟨rfl, _⟩
      · exact hpruned
      · exact hpruned.shrink ⟨rfl, rfl⟩ (.refl _) le_rfl
    | committed _ _ _ _ hprepared _ hlast =>
      exact h.record hinv hprepared happly hlast
    | finalized _ _ _ _ _ _ hforward =>
      refine h.shrink hlimits (.refl _) ?_
      cases hcurrent : s.finalizedThrough with
      | none => exact Nat.zero_le _
      | some current => exact (hforward current hcurrent).le
    | _ => exact h.shrink hlimits (.refl _) le_rfl

variable {maxCommitEntries maxCommitBytes : Nat}

/-- Both invariants hold after every log with increasing indexes. -/
theorem withinLimits_applyAll (hnew : new maxCommitEntries maxCommitBytes = .ok s)
    (log : List LogEntry) (hlog : IncreasingLog log) : WithinLimits (applyAll s log) := by
  have hinitial : WithinLimits s := by
    simp only [new, ok_rules] at hnew
    obtain ⟨_, _, rfl⟩ := hnew
    have hbytes : emptyMapEncodedLen ≤ maxCommittedInvocationBytes := by decide
    exact ⟨Nat.zero_le _, hbytes, Nat.zero_le _, Nat.zero_le _⟩
  refine runFrom_induction (motive := fun _ t => WithinLimits t) (prefixClosed_pairwise _)
    hinitial ?_ log hlog
  intro done _ hok h
  have hdone := decisionInv_applyAll hnew done (pairwise_append.mp hok).1
  exact withinLimits_step h hdone rfl

/-- With its pruning sure to succeed, only the checks of a batch can fail. -/
theorem avoids_beginBatch {commits : List CommittedInvocation} {batch : BeginBatch}
    (hinv : DecisionInv log commits s) (hguard : Avoids error (do
      validateBeginBatch batch
      s.requireExecutor batch.executor batch.nominationLogIndex))
    (hprepare : ∀ p : StateMachine, Avoids error (perform (replayOrPrepare index batch) p).2) :
    Avoids error (s.beginBatch index batch).2 := by
  obtain ⟨p, hp, _⟩ := hinv.prune_ok batch.proposalAtUnixMillis
  unfold beginBatch
  split
  · rename_i other hother
    rw [hother] at hguard
    exact avoids_error.mpr (avoids_error.mp hguard)
  rw [hp]
  exact hprepare p

/-- A byte count within the window's limit has room for one more entry. -/
theorem checkedAdd64_entry {total : Nat}
    (h : total ≤ maxCommittedInvocationBytes)
    (invocation : CommittedInvocation) (other : ApplyError) :
    okOr (checkedAdd64 total (8 + invocation.encodedLen)) other =
    .ok (total + (8 + invocation.encodedLen)) := by
  have hentry := entryBytes_le (0, invocation)
  have hle : total + (8 + invocation.encodedLen) ≤ u64Max := by
    simp only [entryBytes, maxEncodedBytes] at hentry
    unfold maxCommittedInvocationBytes at h
    unfold u64Max
    omega
  rw [checkedAdd64, if_pos hle]
  rfl

section

variable (hne : ∀ {other : ApplyError}, other.isAccounting = false → other ≠ error)

include hne

theorem avoids_requireExecutor (executor : NodeId) (nominationLogIndex : Nat) :
    Avoids error (s.requireExecutor executor nominationLogIndex) := by
  refine .guard (hne rfl) ?_
  refine (avoids_okOr (hne rfl)).bind fun _ _ => ?_
  exact (avoids_rejectIf (hne rfl)).bind fun _ _ => avoids_rejectIf (hne rfl)

theorem avoids_ensureDescriptorUniqueAmong (candidate : NodeDescriptor)
    (descriptors : List NodeDescriptor) :
    Avoids error (ensureDescriptorUniqueAmong candidate descriptors) := by
  induction descriptors with
  | nil => exact avoids_ok
  | cons _ _ ih =>
    refine .guard (hne rfl) ?_
    refine .guard (hne rfl) ?_
    exact (avoids_rejectIf (hne rfl)).bind fun _ _ => ih

/-- The byte counts of a commit never leave the 64-bit range. -/
theorem avoids_commitPreparedBatch {commits : List CommittedInvocation}
    {request : CommitPreparedBatch}
    (h : WithinLimits s) (hinv : DecisionInv log commits s) :
    Avoids error (perform (commitPreparedBatch index request) s).2 := by
  have hwindow : s.committedInvocationBytes ≤ maxCommittedInvocationBytes := by
    rw [hinv.counted]
    exact h.bytes
  obtain ⟨htail, hbytes⟩ := h.unfinalizedCommitBytes
  simp only [commitPreparedBatch, edit_rules]
  refine avoids_perform_check (avoids_requireExecutor hne _ _) fun _ _ => ?_
  refine avoids_perform_check (avoids_okOr (hne rfl)) fun prepared _ => ?_
  refine avoids_perform_check (avoids_rejectIf (hne rfl)) fun _ _ => ?_
  refine avoids_perform_check (avoids_rejectIf (hne rfl)) fun _ _ => ?_
  refine avoids_perform_check (avoids_rejectIf (hne rfl)) fun _ _ => ?_
  simp only [committedInvocationEntryBytes_eq_ok, hbytes]
  refine avoids_perform_check (avoids_of_eq_ok rfl) fun bytes hentry => ?_
  obtain rfl := Except.ok.inj hentry
  refine avoids_perform_check (avoids_of_eq_ok (checkedAdd64_entry hwindow _ _)) fun _ _ => ?_
  refine avoids_perform_check (avoids_rejectIf (hne rfl)) fun _ _ => ?_
  refine avoids_perform_check (avoids_of_eq_ok rfl) fun total htotal => ?_
  obtain rfl := Except.ok.inj htotal
  refine avoids_perform_check (avoids_of_eq_ok (checkedAdd64_entry htail _ _)) fun _ _ => ?_
  exact avoids_perform_check (avoids_rejectIf (hne rfl)) fun _ _ => avoids_ok

/-- No command reports broken accounting. -/
theorem avoids_apply {commits : List CommittedInvocation}
    (h : WithinLimits s) (hinv : DecisionInv log commits s) :
    Avoids error (s.apply id command).2 := by
  cases command
  case commitPreparedBatch request => exact avoids_commitPreparedBatch hne h hinv
  case' beginBatch batch => refine avoids_beginBatch hinv ?_ fun p => ?_
  case' nominateExecutor => refine avoids_perform_check ?_ fun _ _ => ?_
  all_goals try refine avoids_perform_get ?_
  -- the checks of every other command carry other errors
  all_goals repeat' first
    | with_reducible exact avoids_pure
    | with_reducible refine avoids_perform_check ?_ fun _ _ => ?_
    | with_reducible refine avoids_perform_get ?_
    | with_reducible refine avoids_perform_modify ?_
    | with_reducible exact avoids_perform_pure
    | with_reducible refine Avoids.bind ?_ fun _ _ => ?_
    | with_reducible refine avoids_rejectIf (hne ?_)
    | with_reducible refine avoids_okOr (hne ?_)
    | rfl
    | split
    | unfold advanceFinalizationPast
    | exact avoids_rejectIf (hne rfl)
    | exact avoids_ok
    | exact avoids_ensureDescriptorUniqueAmong hne _ _
    | refine Avoids.bind ?_ fun _ _ => ?_
    | unfold validateOverlapPin
    | unfold validateStateFields
    | unfold validateAuthority

end

/--
Along every run the byte count is the encoded length of the retained map, the
window and its unfinalized tail are within their limits, and no command can
report broken accounting.
-/
theorem replay_window_accounted {maxCommitEntries maxCommitBytes : Nat}
    (hnew : StateMachine.new maxCommitEntries maxCommitBytes = .ok s) (log : List LogEntry)
    (hlog : IncreasingLog log) :
    let r := applyAll s log
    r.committedInvocationBytes = windowBytes r.committedInvocations ∧
      r.committedInvocationLen ≤ maxCommittedInvocations ∧
      r.committedInvocationBytes ≤ maxCommittedInvocationBytes ∧
      r.unfinalizedCommitLen ≤ r.maxCommitEntries ∧
      (∃ bytes, r.unfinalizedCommitBytes = .ok bytes ∧ bytes ≤ r.maxCommitBytes) ∧
      ∀ id command error, error.isAccounting = true → (r.apply id command).2 ≠ .error error := by
  intro r
  have hinv : DecisionInv log (commitsOf s log) r := decisionInv_applyAll hnew log hlog
  have h : WithinLimits r := withinLimits_applyAll hnew log hlog
  refine ⟨hinv.counted, h.entries, ?_, ?_, ⟨_, h.unfinalizedCommitBytes.2, h.tailBytes⟩, ?_⟩
  · rw [hinv.counted]
    exact h.bytes
  · rw [unfinalizedCommitLen, unfinalizedInvocations, length_map]
    exact h.tailEntries
  intro _ _ _ herror
  refine avoids_apply ?_ h hinv
  rintro _ hother rfl
  rw [herror] at hother
  cases hother

theorem replay_window_accounted_recommitLog :
    let r := applyAll (.initial 4 65536) recommitLog
    r.committedInvocationLen = 1 ∧
      r.committedInvocationBytes = windowBytes r.committedInvocations :=
  ⟨by decide +kernel, (replay_window_accounted
    (rfl : StateMachine.new 4 65536 = .ok (.initial 4 65536)) recommitLog (by decide)).1⟩

/-- A rejected command leaves the state, or only prunes for a fenced batch. -/
theorem rejected_command_keeps_state {maxCommitEntries maxCommitBytes : Nat}
    (hnew : StateMachine.new maxCommitEntries maxCommitBytes = .ok s) (log : List LogEntry)
    (hlog : IncreasingLog log) (id : LogId) (command : Command)
    (hreject : (applyAll s log).apply id command = (t, .error error)) :
    let r := applyAll s log
    t = r ∨ ∃ batch, ∃ gone : List Nat, command = .beginBatch batch ∧ Fenced r batch ∧
      (∀ cursor, cursor ∈ gone ↔ ∃ entry, r.committedInvocations.get? cursor = some entry ∧
        Expired r batch.proposalAtUnixMillis cursor entry) ∧
      t = { r with
        committedInvocations := r.committedInvocations.filter (fun e => e.1 ∉ gone)
        committedInvocationBytes := t.committedInvocationBytes } ∧
      t.committedInvocationBytes +
        ((r.committedInvocations.entries.filter (fun e => e.1 ∈ gone)).map entryBytes).sum =
          r.committedInvocationBytes := by
  intro r
  have hinv : DecisionInv log (commitsOf s log) r := decisionInv_applyAll hnew log hlog
  generalize houtcome : Except.error error = outcome at hreject
  cases apply_step hreject with
  | rejected => exact Or.inl rfl
  | cluster => cases houtcome
  | decision hdecision =>
    cases hdecision with
    | begun batch p t _ hfenced hprune hsettle =>
      obtain ⟨_, hp, hpinv, _⟩ := hinv.prune_ok batch.proposalAtUnixMillis
      rw [hprune] at hp
      obtain rfl := congrArg Prod.fst hp
      have hwindow := pruneCommittedInvocations_window hprune
      have hframe := (pruneCommittedInvocations_pruned hprune).frame
      rcases replayOrPrepare_cases hsettle with ⟨rfl, _⟩ | ⟨_, rfl, _⟩
      · refine Or.inr ⟨batch, r.expiredFinalizedCursors batch.proposalAtUnixMillis, rfl, hfenced,
          fun _ => mem_expiredFinalizedCursors, ?_, ?_⟩
        · rw [← hwindow]
          exact hframe
        rw [hpinv.counted, hinv.counted, hwindow]
        exact windowBytes_filter _ _
      · cases houtcome
    | pruningFailed batch p _ _ hprune =>
      obtain ⟨_, hp, _⟩ := hinv.prune_ok batch.proposalAtUnixMillis
      rw [hprune] at hp
      cases hp
    | _ => cases houtcome

/-- A decision finalized and expired while another invocation is preparing. -/
def preparingLog : List LogEntry :=
  recommitLog.take 4 ++ [(sampleLogId 5, .beginBatch { sampleBatch 2 with invocationId := ⟨13⟩ })]

/-- The batch that meets the preparing invocation is rejected and still prunes. -/
theorem rejected_command_keeps_state_preparingLog :
    let r := applyAll (.initial 4 65536) preparingLog
    let rejected := r.apply (sampleLogId 6) (.beginBatch (sampleBatch 86400001))
    rejected.2 = .error (.batchPreparationInProgress 5) ∧ r.committedInvocationLen = 1 ∧
      rejected.1.committedInvocationLen = 0 ∧ Fenced r (sampleBatch 86400001) := by
  have hrejected : ((applyAll (.initial 4 65536) preparingLog).apply (sampleLogId 6)
      (.beginBatch (sampleBatch 86400001))).2 = .error (.batchPreparationInProgress 5) := by
    decide +kernel
  refine ⟨hrejected, by decide +kernel, by decide +kernel, ?_⟩
  rcases rejected_command_keeps_state (rfl : StateMachine.new 4 65536 = .ok (.initial 4 65536))
    preparingLog (by decide) (sampleLogId 6) (.beginBatch (sampleBatch 86400001))
    (Prod.ext rfl hrejected) with hsame | ⟨_, _, hbatch, hfenced, _⟩
  · exact absurd (congrArg committedInvocationLen hsame) (by decide +kernel)
  cases hbatch
  exact hfenced

end Keldra.Consensus
