import Keldra.Consensus.Decisions

/-!
# Exactly-once commit and the recovery tail

A retained decision leaves the replay window only through a fenced batch whose
proposal time reached the decision's replay expiry after its finalization.
Until then no other decision with the same invocation identity can be
committed, and the recovery tail lists exactly the decisions that are not
finalized.
-/

namespace Keldra.Consensus

open Foundation StateMachine

section

variable {id : LogId}

/-- A retained entry survives a step unless a fenced batch finds it expired. -/
theorem retained_step {log : List LogEntry} {commits : List CommittedInvocation}
    {s : StateMachine} {command : Command} {t : StateMachine}
    {outcome : Except ApplyError ApplyResult} {cursor : Nat} {entry : CommittedInvocation}
    (hinv : DecisionInv log commits s)
    (hstep : Step s id command t outcome) (hget : s.committedInvocations.get? cursor = some entry) :
    t.committedInvocations.get? cursor = some entry ∨ ∃ batch, command = .beginBatch batch ∧
    Fenced s batch ∧ Expired s batch.proposalAtUnixMillis cursor entry := by
  -- shared by both endings of a begun batch
  have hpruned : ∀ batch p, Fenced s batch → Pruned s batch.proposalAtUnixMillis p →
    p.committedInvocations.get? cursor = some entry ∨ ∃ batch', Command.beginBatch batch =
    .beginBatch batch' ∧ Fenced s batch' ∧ Expired s batch'.proposalAtUnixMillis cursor entry := by
    intro batch p hfenced hpruned
    by_cases hexpired : Expired s batch.proposalAtUnixMillis cursor entry
    · exact .inr ⟨batch, rfl, hfenced, hexpired⟩
    · exact .inl (hpruned.kept cursor entry hget hexpired)
  cases hstep with
  | rejected => exact .inl hget
  | cluster hcluster =>
    rw [hcluster.sameDecisions.committedInvocations]
    exact .inl hget
  | decision hdecision =>
    cases hdecision with
    | pruningFailed batch p _ hfenced hprune =>
      exact hpruned batch t hfenced (pruneCommittedInvocations_pruned hprune)
    | begun batch p t _ hfenced hprune hsettle =>
      have hp := hpruned batch p hfenced (pruneCommittedInvocations_pruned hprune)
      rcases replayOrPrepare_cases hsettle with ⟨rfl, _⟩ | ⟨rfl, _⟩
      · exact hp
      · exact hp
    | committed request prepared bytes hfence hprepared hidentity hlast
      hbytes =>
      obtain ⟨last, hsome, hle⟩ := hinv.key_le_last hget
      have hne : cursor ≠ id.index := (lt_of_le_of_lt hle (hlast last hsome)).ne
      simpa [recordDecision, OrdMap.get?_insert, hne] using hget
    | nominated | aborted | finalizationKept => exact .inl hget
    | finalized executor nominationLogIndex through last hlast hthrough
      hforward =>
      exact .inl hget
    | bootstrapped => exact .inl hget

/-- A step that commits does so from the preparing batch of the state. -/
theorem committed_step {s : StateMachine} {command : Command} {t : StateMachine}
    {result : CommitResult}
    (hstep : Step s id command t (.ok (.batchCommitted result))) :
    ∃ request prepared bytes, command = .commitPreparedBatch request ∧
    s.executor = some ⟨request.executor, request.nominationLogIndex⟩ ∧
    s.preparingBatch = some prepared ∧ result.invocation = prepared.decision id.index ∧
    t = s.recordDecision prepared id.index bytes := by
  cases hstep with
  | cluster hcluster =>
    have hnone := hcluster.committedBy_eq_none
    cases hnone
  | decision hdecision =>
    cases hdecision with
    | committed request prepared bytes hfence hprepared hidentity hlast
      hbytes =>
      exact ⟨request, prepared, bytes, rfl,
        (requireExecutor_eq_ok.mp hfence).2, hprepared, rfl, rfl⟩
    | begun _ p t _ _ _ hsettle =>
      rcases replayOrPrepare_cases hsettle with
        ⟨_, ⟨error, h⟩ | ⟨result, h⟩⟩ | ⟨_, h, _⟩ <;> cases h

/-- A step that aborts does so under the current executor fence. -/
theorem aborted_step {s : StateMachine} {command : Command} {t : StateMachine} {beginCursor : Nat}
    (hstep : Step s id command t (.ok (.batchAborted beginCursor))) :
    ∃ request, command = .abortPreparedBatch request ∧
    s.executor = some ⟨request.executor, request.nominationLogIndex⟩ := by
  cases hstep with
  | cluster hcluster =>
    cases hcluster with
    | kept _ _ hresult => cases hresult
  | decision hdecision =>
    cases hdecision with
    | aborted request _ hfence => exact ⟨request, rfl, (requireExecutor_eq_ok.mp hfence).2⟩
    | begun _ p t _ _ _ hsettle =>
      rcases replayOrPrepare_cases hsettle with
        ⟨_, ⟨error, h⟩ | ⟨result, h⟩⟩ | ⟨_, h, _⟩ <;> cases h

/-- Finalization never moves back in a step. -/
theorem finalized_step {s : StateMachine} {command : Command} {t : StateMachine}
    {outcome : Except ApplyError ApplyResult} {finalized : Nat}
    (hstep : Step s id command t outcome)
    (hsome : s.finalizedThrough = some finalized) :
    ∃ later, t.finalizedThrough = some later ∧ finalized ≤ later := by
  cases hstep with
  | rejected => exact ⟨finalized, hsome, le_rfl⟩
  | cluster hcluster =>
    rw [hcluster.sameDecisions.finalizedThrough]
    exact ⟨finalized, hsome, le_rfl⟩
  | decision hdecision =>
    cases hdecision with
    | pruningFailed _ p _ _ hprune =>
      rw [(pruneCommittedInvocations_pruned hprune).frame]
      exact ⟨finalized, hsome, le_rfl⟩
    | begun _ p t _ _ hprune hsettle =>
      have hp : p.finalizedThrough = some finalized := by
        rw [(pruneCommittedInvocations_pruned hprune).frame]
        exact hsome
      rcases replayOrPrepare_cases hsettle with ⟨rfl, _⟩ | ⟨rfl, _⟩
      · exact ⟨finalized, hp, le_rfl⟩
      · exact ⟨finalized, hp, le_rfl⟩
    | finalized executor nominationLogIndex through last hlast hthrough
      hforward =>
      exact ⟨through, rfl, (hforward finalized hsome).le⟩
    | _ => exact ⟨finalized, hsome, le_rfl⟩

end

section

variable {maxCommitEntries maxCommitBytes : Nat} {s : StateMachine}

theorem IncreasingLog.before {before after : List LogEntry} (h : IncreasingLog (before ++ after)) :
    IncreasingLog before :=
  (List.pairwise_append.mp h).1

/-- The batch that pruned a decision between two points of a run. -/
def PrunedWithin (s : StateMachine) (before between : List LogEntry) (cursor : Nat)
    (entry : CommittedInvocation) : Prop :=
  ∃ earlier id batch later, between = earlier ++ (id, Command.beginBatch batch) :: later ∧
    Fenced (applyAll s (before ++ earlier)) batch ∧
    Expired (applyAll s (before ++ earlier)) batch.proposalAtUnixMillis cursor entry

/-- Along a run, a retained decision stays or was pruned by a fenced batch. -/
theorem retained_or_prunedWithin {before : List LogEntry} {cursor : Nat}
    {entry : CommittedInvocation}
    (hnew : StateMachine.new maxCommitEntries maxCommitBytes = .ok s)
    (hget : (applyAll s before).committedInvocations.get? cursor = some entry)
    (between : List LogEntry) (hlog : IncreasingLog (before ++ between)) :
    (applyAll s (before ++ between)).committedInvocations.get? cursor = some entry ∨
    PrunedWithin s before between cursor entry := by
  rw [applyAll_append]
  refine runFrom_induction (P := fun between => IncreasingLog (before ++ between))
    (motive := fun done (t : StateMachine) =>
      t.committedInvocations.get? cursor = some entry ∨ PrunedWithin s before done cursor entry)
    ?_ (.inl hget) ?_ between hlog
  · intro done next hok
    rw [← List.append_assoc] at hok
    exact hok.before
  intro done next hok hdone
  rcases hdone with hretained | ⟨earlier, id, batch, later, rfl, hrest⟩
  · rw [← List.append_assoc] at hok
    have hinv := decisionInv_applyAll hnew (before ++ done) hok.before
    rw [applyAll_append] at hinv
    rcases retained_step hinv (apply_step rfl) hretained with
      hkept | ⟨batch, hcommand, hfenced, hexpired⟩
    · exact .inl hkept
    right
    refine ⟨done, next.1, batch, [], ?_, ?_, ?_⟩
    · rw [← hcommand]
    · rw [applyAll_append]
      exact hfenced
    rw [applyAll_append]
    exact hexpired
  · exact .inr ⟨earlier, id, batch, later ++ [next], by simp, hrest⟩

/-- The commit of an entry of the log, seen from the state before it. -/
theorem committed_at {log : List LogEntry} {entry : LogEntry} {result : CommitResult}
    (h : (applyEntry (applyAll s log) entry).2 = .ok (.batchCommitted result)) :
    ∃ prepared bytes, (applyAll s log).preparingBatch = some prepared ∧
    result.invocation = prepared.decision entry.1.index ∧ applyAll s (log ++ [entry]) =
    (applyAll s log).recordDecision prepared entry.1.index bytes := by
  have hstep : Step (applyAll s log) entry.1 entry.2 (applyEntry (applyAll s log) entry).1
        (.ok (.batchCommitted result)) := by
    rw [← h]
    exact apply_step rfl
  obtain ⟨_, prepared, bytes, _, _, hprepared, hresult, hnext⟩ := committed_step hstep
  refine ⟨prepared, bytes, hprepared, hresult, ?_⟩
  rw [← hnext]
  exact applyAll_snoc s log entry

/--
Two commits of one invocation in a run are separated by a fenced batch that
found the first decision expired and finalized.
-/
theorem recommit_prunedWithin {between : List LogEntry} {second : LogEntry}
    {result result' : CommitResult}
    (hnew : StateMachine.new maxCommitEntries maxCommitBytes = .ok s)
    (hlog : IncreasingLog (before ++ first :: between ++ [second])) (hfirst :
    (applyEntry (applyAll s before) first).2 = .ok (.batchCommitted result))
    (hsecond : (applyEntry (applyAll s (before ++ first :: between)) second).2 =
    .ok (.batchCommitted result'))
    (hid : result.invocation.invocationId = result'.invocation.invocationId) :
    PrunedWithin s (before ++ [first]) between first.1.index result.invocation := by
  have hsplit : before ++ first :: between = (before ++ [first]) ++ between := by simp
  rw [hsplit] at hlog hsecond
  obtain ⟨prepared, bytes, _, hresult, hstate⟩ := committed_at hfirst
  obtain ⟨prepared', _, hprepared', hresult', _⟩ := committed_at hsecond
  have hget : (applyAll s (before ++ [first])).committedInvocations.get?
        first.1.index = some result.invocation := by
    rw [hstate, hresult]
    simp [recordDecision]
  rcases retained_or_prunedWithin hnew hget between hlog.before with
    hretained | hpruned
  · -- a batch that is still preparing is not among the retained decisions
    have hinv := decisionInv_applyAll hnew _ hlog.before
    have hne := hinv.fresh prepared' _ _ hprepared' hretained
    rw [hresult'] at hid
    exact absurd hid hne
  · exact hpruned

end

/-- What a fenced batch may be answered while a decision is retained. -/
structure RetainedAnswer (entry : CommittedInvocation) (batch : BeginBatch) (s : StateMachine)
    (outcome : Outcome) : Prop where
  answer : (outcome.2 = .ok (.batchBegun (.alreadyCommitted ⟨entry, true⟩)) ∧
      entry.committedBatch.authority = batch.authority ∧
      entry.inputFingerprint = batch.inputFingerprint ∧
      entry.committedBatch.participantManifestHash = batch.participantManifestHash) ∨
      outcome.2 = .error (.idempotencyConflict batch.invocationId)
  preparing : outcome.1.preparingBatch = s.preparingBatch

theorem replay_answer {entry : CommittedInvocation} {batch : BeginBatch} {index : Nat}
    (h : s.retainedDecision batch.invocationId = some entry) :
    RetainedAnswer entry batch s (perform (replayOrPrepare index batch) s) := by
  have hreplay : (replay entry batch = .ok entry ∧ entry.committedBatch.authority = batch.authority
    ∧ entry.inputFingerprint = batch.inputFingerprint ∧ entry.committedBatch.participantManifestHash
    = batch.participantManifestHash) ∨ replay entry batch = .error (.idempotencyConflict
    batch.invocationId) := by
    unfold replay rejectIf
    split
    · exact .inr rfl
    rename_i hsame
    simp only [not_or, not_not] at hsame
    exact .inl ⟨rfl, hsame⟩
  rcases hreplay with ⟨hreplay, hsame⟩ | hreplay
  · simp only [replayOrPrepare, edit_rules, perform_check, h, hreplay]
    exact ⟨.inl ⟨rfl, hsame⟩, rfl⟩
  simp only [replayOrPrepare, edit_rules, perform_check, h, hreplay]
  exact ⟨.inr rfl, rfl⟩

/-- A fenced batch finds a decision that its own pruning leaves retained. -/
theorem beginBatch_retained {log : List LogEntry} {commits : List CommittedInvocation}
    {batch : BeginBatch} {cursor : Nat} {entry : CommittedInvocation} {index : Nat}
    (hinv : DecisionInv log commits s) (hfenced : Fenced s batch)
    (hget : s.committedInvocations.get? cursor = some entry)
    (hid : entry.invocationId = batch.invocationId) :
    (Expired s batch.proposalAtUnixMillis cursor entry ∧
    (s.beginBatch index batch).1.committedInvocations.get? cursor ≠ some entry) ∨
    ((s.beginBatch index batch).1.committedInvocations.get? cursor = some entry ∧
    RetainedAnswer entry batch s (s.beginBatch index batch)) := by
  obtain ⟨p, hp, hpinv, hpruned, hgone⟩ := hinv.prune_ok batch.proposalAtUnixMillis
  have hbegin : s.beginBatch index batch = perform (replayOrPrepare index batch) p := by
    have hguard : (do
          validateBeginBatch batch
          s.requireExecutor batch.executor batch.nominationLogIndex) = Except.ok () := by
      rw [hfenced.valid]
      exact hfenced.executor
    unfold beginBatch
    rw [hguard]
    simp only [hp]
  have hwindow : (s.beginBatch index batch).1.committedInvocations = p.committedInvocations := by
    rw [hbegin]
    rcases @replayOrPrepare_cases p _ _ _ _ Prod.mk.eta with
      ⟨h, _⟩ | ⟨h, _⟩ <;> rw [h]
  by_cases hexpired : Expired s batch.proposalAtUnixMillis cursor entry
  · left
    rw [hwindow]
    exact ⟨hexpired, hgone cursor entry hexpired⟩
  right
  have hkept := hpruned.kept cursor entry hget hexpired
  -- the lookup finds this entry because identities are unique
  have hlookup : p.retainedDecision batch.invocationId = some entry := by
    cases hfound : p.retainedDecision batch.invocationId with
    | none => exact absurd hid (retainedDecision_eq_none.mp hfound cursor entry hkept)
    | some found =>
      obtain ⟨hfoundId, cursor', hfoundGet⟩ := retainedDecision_eq_some hfound
      have hcursor : cursor = cursor' := hpinv.unique cursor cursor' entry found hkept hfoundGet
          (hid.trans hfoundId.symm)
      rw [← hcursor, hkept] at hfoundGet
      exact hfoundGet.symm
  refine ⟨?_, ?_⟩
  · rw [hwindow]
    exact hkept
  have hanswer : RetainedAnswer entry batch p (perform (replayOrPrepare index batch) p) :=
    replay_answer hlookup
  rw [← hbegin] at hanswer
  refine ⟨hanswer.answer, ?_⟩
  rw [hanswer.preparing, hpruned.frame]

/-- A well-formed batch of one fixed invocation. -/
def sampleBatch (proposalAt : Nat) : BeginBatch where
  executor := 1
  nominationLogIndex := 1
  authority := .builtInObjectTransaction 1 1
  invocationId := ⟨7⟩
  inputFingerprint := ⟨8⟩
  bundleRef := ⟨9, 1⟩
  durabilityClass := ⟨10⟩
  durabilityEvidenceHash := ⟨11⟩
  participantManifestHash := ⟨12⟩
  proposalAtUnixMillis := proposalAt
  replayExpiresAtUnixMillis := proposalAt + atomicReplayRetentionMillis

def sampleCommit (beginCursor : Nat) : CommitPreparedBatch where
  executor := 1
  nominationLogIndex := 1
  beginCursor := beginCursor
  invocationId := ⟨7⟩
  participantManifestHash := ⟨12⟩

/-- One invocation committed, finalized, expired and committed again. -/
def recommitLog : List LogEntry := [(sampleLogId 1, .nominateExecutor 1),
    (sampleLogId 2, .beginBatch (sampleBatch 1)),
    (sampleLogId 3, .commitPreparedBatch (sampleCommit 2)),
    (sampleLogId 4, .finalizedThrough 1 1 3), (sampleLogId 5, .beginBatch (sampleBatch 86400001)),
    (sampleLogId 6, .commitPreparedBatch (sampleCommit 5))]

/--
Exactly-once commit.  In every run from a fresh state at increasing log
indexes, retained decisions have distinct invocation identities; an identity
committed twice was expired and finalized at a fenced batch in between; and a
fenced batch that meets a retained decision either prunes it as expired or is
answered with that decision or a conflict, and prepares nothing.
-/
theorem exactly_once_commit {maxCommitEntries maxCommitBytes : Nat} {s : StateMachine}
    (hnew : StateMachine.new maxCommitEntries maxCommitBytes = .ok s) {log : List LogEntry}
    (hlog : IncreasingLog log) :
    (∀ cursor cursor' entry entry', (applyAll s log).committedInvocations.get? cursor = some entry →
    (applyAll s log).committedInvocations.get? cursor' = some entry' →
    entry.invocationId = entry'.invocationId → cursor = cursor') ∧
    (∀ before first between second after result result',
    log = before ++ first :: between ++ second :: after →
    (applyEntry (applyAll s before) first).2 = .ok (.batchCommitted result) →
    (applyEntry (applyAll s (before ++ first :: between)) second).2 =
    .ok (.batchCommitted result') →
    result.invocation.invocationId = result'.invocation.invocationId →
    ∃ earlier id batch later finalized,
    between = earlier ++ (id, Command.beginBatch batch) :: later ∧
    validateBeginBatch batch = .ok () ∧ (applyAll s (before ++ first :: earlier)).requireExecutor
    batch.executor batch.nominationLogIndex = .ok () ∧
    result.invocation.replayExpiresAtUnixMillis ≤ batch.proposalAtUnixMillis ∧
    (applyAll s (before ++ first :: earlier)).finalizedThrough = some finalized ∧
    first.1.index ≤ finalized) ∧
    (∀ cursor entry id batch, (applyAll s log).committedInvocations.get? cursor = some entry →
    entry.invocationId = batch.invocationId → Fenced (applyAll s log) batch →
    (Expired (applyAll s log) batch.proposalAtUnixMillis cursor entry ∧ ((applyAll s log).apply id
    (.beginBatch batch)).1.committedInvocations.get? cursor ≠ some entry) ∨
    (((applyAll s log).apply id (.beginBatch batch)).1.committedInvocations.get? cursor =
    some entry ∧ RetainedAnswer entry batch (applyAll s log)
    ((applyAll s log).apply id (.beginBatch batch)))) := by
  refine ⟨(decisionInv_applyAll hnew log hlog).unique, ?_, ?_⟩
  · intro before first between second after result result' hsplit hfirst hsecond hid
    subst hsplit
    have hprefix : IncreasingLog (before ++ first :: between ++ [second]) := by
      have hregroup : before ++ first :: between ++ second :: after =
            (before ++ first :: between ++ [second]) ++ after := by
        simp
      rw [hregroup] at hlog
      exact hlog.before
    obtain ⟨earlier, id, batch, later, hbetween, hfenced, hexpires, finalized, hfinalized, hle⟩ :=
      recommit_prunedWithin hnew hprefix hfirst hsecond hid
    have hregroup : before ++ [first] ++ earlier = before ++ first :: earlier := by simp
    rw [hregroup] at hfenced hfinalized
    exact ⟨earlier, id, batch, later, finalized, hbetween, hfenced.valid,
      hfenced.executor, hexpires, hfinalized, hle⟩
  · intro cursor entry id batch hget hid hfenced
    exact beginBatch_retained (decisionInv_applyAll hnew log hlog) hfenced hget hid

/-- The second commit of the sample log needed its expired batch in between. -/
theorem exactly_once_commit_recommitLog :
    (commitsOf (.initial 4 65536) recommitLog).length = 2 ∧ ∃ earlier id batch later finalized,
    [(sampleLogId 4, Command.finalizedThrough 1 1 3),
    (sampleLogId 5, Command.beginBatch (sampleBatch 86400001))] =
    earlier ++ (id, Command.beginBatch batch) :: later ∧ validateBeginBatch batch = .ok () ∧
    (applyAll (.initial 4 65536)
    (recommitLog.take 2 ++ (sampleLogId 3, .commitPreparedBatch (sampleCommit 2)) ::
    earlier)).requireExecutor batch.executor batch.nominationLogIndex = .ok () ∧
    1 + atomicReplayRetentionMillis ≤ batch.proposalAtUnixMillis ∧ (applyAll (.initial 4 65536)
    (recommitLog.take 2 ++ (sampleLogId 3, .commitPreparedBatch (sampleCommit 2)) ::
    earlier)).finalizedThrough = some finalized ∧ 3 ≤ finalized :=
  ⟨by decide +kernel, (exactly_once_commit
    (rfl : StateMachine.new 4 65536 = .ok (.initial 4 65536))
    (by decide : IncreasingLog recommitLog)).2.1
    (recommitLog.take 2) _ _ (sampleLogId 6, .commitPreparedBatch (sampleCommit 5))
    [] ⟨(PreparedBatch.mk 2 (sampleBatch 1)).decision 3, false⟩
    ⟨(PreparedBatch.mk 5 (sampleBatch 86400001)).decision 6, false⟩
    rfl rfl rfl rfl⟩

/--
The recovery tail.  In every state of a run at increasing log indexes the
unfinalized invocations are the commits after the finalization cursor, keys
are commit cursors up to the last commit, finalization only moves forward and
never past the last commit, batches begin before they commit, and the
preparing batch carries the fence of the nominated executor, who alone can
commit or abort it.
-/
theorem recovery_tail_exact {maxCommitEntries maxCommitBytes : Nat} {s : StateMachine}
    (hnew : StateMachine.new maxCommitEntries maxCommitBytes = .ok s) {log : List LogEntry}
    (hlog : IncreasingLog log) :
    (applyAll s log).unfinalizedInvocations = (commitsOf s log).filter (fun entry =>
        (applyAll s log).finalizedThrough.all (fun finalized =>
            finalized < entry.committedBatch.commitCursor)) ∧
    (commitsOf s log).Pairwise (fun a b =>
        a.committedBatch.commitCursor < b.committedBatch.commitCursor) ∧
    (∀ cursor entry, (applyAll s log).committedInvocations.get? cursor = some entry →
      entry ∈ commitsOf s log ∧ entry.committedBatch.commitCursor = cursor ∧ ∃ last,
        (applyAll s log).lastCommitCursor = some last ∧ cursor ≤ last) ∧
    (∀ before after finalized, log = before ++ after →
      (applyAll s before).finalizedThrough = some finalized →
      ∃ later, (applyAll s log).finalizedThrough = some later ∧ finalized ≤ later) ∧
    (∀ finalized, (applyAll s log).finalizedThrough = some finalized → ∃ last,
      (applyAll s log).lastCommitCursor = some last ∧ finalized ≤ last) ∧
    (∀ entry ∈ commitsOf s log, entry.committedBatch.beginCursor <
      entry.committedBatch.commitCursor) ∧
    (∀ prepared, (applyAll s log).preparingBatch = some prepared → (applyAll s log).executor =
      some ⟨prepared.request.executor, prepared.request.nominationLogIndex⟩) ∧
    (∀ id command, ((∃ result, ((applyAll s log).apply id command).2 =
      .ok (.batchCommitted result)) →
        ∃ request, command = .commitPreparedBatch request ∧ (applyAll s log).executor =
          some ⟨request.executor, request.nominationLogIndex⟩) ∧
      ((∃ beginCursor, ((applyAll s log).apply id command).2 = .ok (.batchAborted beginCursor)) →
        ∃ request, command = .abortPreparedBatch request ∧ (applyAll s log).executor =
          some ⟨request.executor, request.nominationLogIndex⟩)) := by
  have hinv := decisionInv_applyAll hnew log hlog
  refine ⟨?_, hinv.ordered, ?_, ?_, hinv.finalized, hinv.beginFirst, hinv.fenced, ?_⟩
  · rw [hinv.tail]
    apply List.filter_congr
    intro entry hentry
    cases (applyAll s log).finalizedThrough with
    | some => simp
    | none =>
      -- without a finalization cursor the code compares with zero
      have hpositive := Nat.zero_lt_of_lt (hinv.beginFirst entry hentry)
      simpa using hpositive
  · intro cursor entry hget
    exact ⟨hinv.recorded cursor entry hget, hinv.keyed cursor entry hget, hinv.key_le_last hget⟩
  · intro before after finalized hsplit hsome
    rw [hsplit, applyAll_append]
    exact runFrom_invariant (motive := fun t : StateMachine =>
        ∃ later, t.finalizedThrough = some later ∧ finalized ≤ later)
      ⟨finalized, hsome, le_rfl⟩
      (by
        rintro t entry ⟨later, hlater, hle⟩
        have hstep : Step t entry.1 entry.2 _ _ := apply_step rfl
        obtain ⟨next, hnext, hle'⟩ := finalized_step hstep hlater
        exact ⟨next, hnext, le_trans hle hle'⟩)
      after
  · intro id command
    constructor
    · rintro ⟨result, hresult⟩
      obtain ⟨request, _, _, hcommand, hexecutor, _⟩ :=
        committed_step (apply_step (Prod.ext rfl hresult))
      exact ⟨request, hcommand, hexecutor⟩
    rintro ⟨beginCursor, hresult⟩
    exact aborted_step (apply_step (Prod.ext rfl hresult))

/-- After the first five entries of the sample log the tail is empty. -/
theorem recovery_tail_exact_recommitLog :
    (applyAll (.initial 4 65536) (recommitLog.take 5)).finalizedThrough = some 3 ∧
      (applyAll (.initial 4 65536) (recommitLog.take 5)).unfinalizedInvocations =
        (commitsOf (.initial 4 65536) (recommitLog.take 5)).filter (fun entry =>
            (applyAll (.initial 4 65536) (recommitLog.take 5)).finalizedThrough.all
              (fun finalized => finalized < entry.committedBatch.commitCursor)) :=
  ⟨by decide +kernel, (recovery_tail_exact
    (rfl : StateMachine.new 4 65536 = .ok (.initial 4 65536))
    (by decide : IncreasingLog (recommitLog.take 5))).1⟩

end Keldra.Consensus
