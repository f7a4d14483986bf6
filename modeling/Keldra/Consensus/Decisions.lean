import Keldra.Consensus.ReplayWindow

/-!
# Decisions along a run

The invariant of the batch commands relates the state to the history of the
run: the log consumed so far and the decisions it committed.  The history is
the abstract ledger of the component; the retained map, the two cursors and
the preparing batch are a bounded view of it.
-/

namespace Keldra.Consensus

open Foundation OrdMap List StateMachine

variable {s t : StateMachine} {id : LogId} {result : ApplyResult}

/-- The decision an outcome committed, if it did. -/
def committedBy : Except ApplyError ApplyResult → Option CommittedInvocation
  | .ok (.batchCommitted result) => some result.invocation
  | _ => none

/-- Every decision committed along a log, in commit order. -/
def commitsOf (s : StateMachine) (log : List LogEntry) : List CommittedInvocation :=
  (outcomesOf s log).filterMap committedBy

theorem commitsOf_snoc (s : StateMachine) (log : List LogEntry) (entry : LogEntry) :
    commitsOf s (log ++ [entry]) = commitsOf s log ++
    (committedBy (applyEntry (applyAll s log) entry).2).toList := by
  unfold commitsOf outcomesOf
  rw [outputsFrom_snoc, filterMap_append]
  congr 1

/-- States that agree on everything the batch commands use. -/
structure SameDecisions (s t : StateMachine) : Prop where
  executor : t.executor = s.executor
  preparingBatch : t.preparingBatch = s.preparingBatch
  committedInvocations : t.committedInvocations = s.committedInvocations
  committedInvocationBytes : t.committedInvocationBytes = s.committedInvocationBytes
  lastCommitCursor : t.lastCommitCursor = s.lastCommitCursor
  finalizedThrough : t.finalizedThrough = s.finalizedThrough

theorem ClusterStep.sameDecisions {command : Command}
    (h : ClusterStep s id command t result) : SameDecisions s t := by
  cases h <;> exact ⟨rfl, rfl, rfl, rfl, rfl, rfl⟩

theorem ClusterStep.committedBy_eq_none {command : Command}
    (h : ClusterStep s id command t result) :
    committedBy (.ok result) = none := by
  cases h with
  | kept _ result hresult => cases result <;> first | rfl | simp [ApplyResult.isRetry] at hresult
  | _ => rfl

/-- What the batch commands maintain, relative to the history of the run. -/
structure DecisionInv
    (log : List LogEntry) (commits : List CommittedInvocation) (s : StateMachine) : Prop where
  keyed : ∀ cursor entry, s.committedInvocations.get? cursor = some entry →
      entry.committedBatch.commitCursor = cursor
  recorded : ∀ cursor entry, s.committedInvocations.get? cursor = some entry → entry ∈ commits
  unique : ∀ cursor cursor' entry entry', s.committedInvocations.get? cursor = some entry →
      s.committedInvocations.get? cursor' = some entry' →
      entry.invocationId = entry'.invocationId →
      cursor = cursor'
  counted : s.committedInvocationBytes = windowBytes s.committedInvocations
  fenced : ∀ prepared, s.preparingBatch = some prepared → s.executor =
      some ⟨prepared.request.executor, prepared.request.nominationLogIndex⟩
  begun : ∀ prepared, s.preparingBatch = some prepared →
      ∃ entry ∈ log, entry.1.index = prepared.beginCursor
  fresh : ∀ prepared cursor entry, s.preparingBatch = some prepared →
      s.committedInvocations.get? cursor = some entry →
      entry.invocationId ≠ prepared.request.invocationId
  finalized : ∀ finalized, s.finalizedThrough = some finalized →
      ∃ last, s.lastCommitCursor = some last ∧ finalized ≤ last
  bounded : ∀ entry ∈ commits, ∃ last, s.lastCommitCursor = some last ∧
      entry.committedBatch.commitCursor ≤ last
  ordered : commits.Pairwise
      (fun a b => a.committedBatch.commitCursor < b.committedBatch.commitCursor)
  beginFirst :
    ∀ entry ∈ commits, entry.committedBatch.beginCursor < entry.committedBatch.commitCursor
  tail : s.unfinalizedInvocations = commits.filter
      (fun entry => s.finalizedThrough.getD 0 < entry.committedBatch.commitCursor)

/-- The retained entries above a cursor, as a map. -/
def entriesAfter
    (window : OrdMap Nat CommittedInvocation) (cursor : Nat) : OrdMap Nat CommittedInvocation :=
  window.filter (fun e => cursor < e.1)

theorem unfinalizedInvocations_eq (s : StateMachine) :
    s.unfinalizedInvocations = (entriesAfter s.committedInvocations
    (s.finalizedThrough.getD 0)).entries.map Prod.snd :=
  rfl

variable {log : List LogEntry} {commits : List CommittedInvocation}
  {maxCommitEntries maxCommitBytes : Nat}

section

variable {proposalAt index : Nat}

theorem decisionInv_new (h : new maxCommitEntries maxCommitBytes = .ok s) :
    DecisionInv [] [] s := by
  simp only [new, ok_rules] at h
  obtain ⟨_, _, rfl⟩ := h
  constructor <;> simp [initial, windowBytes, empty, unfinalizedInvocations_eq,
    entriesAfter, OrdMap.filter, get?, lookupEntry]

section

variable (h : DecisionInv log commits s)

include h

theorem DecisionInv.grow {log' : List LogEntry}
    (hsub : log ⊆ log') : DecisionInv log' commits s :=
  { h with
    begun := by
      intro prepared hprepared
      obtain ⟨entry, hmem, hindex⟩ := h.begun prepared hprepared
      exact ⟨entry, hsub hmem, hindex⟩ }

theorem DecisionInv.congr (hsame : SameDecisions s t) : DecisionInv log commits t := by
  obtain ⟨h1, h2, h3, h4, h5, h6⟩ := hsame
  constructor
  · rw [h3]
    exact h.keyed
  · rw [h3]
    exact h.recorded
  · rw [h3]
    exact h.unique
  · rw [h3, h4]
    exact h.counted
  · rw [h1, h2]
    exact h.fenced
  · rw [h2]
    exact h.begun
  · rw [h2, h3]
    exact h.fresh
  · rw [h5, h6]
    exact h.finalized
  · rw [h5]
    exact h.bounded
  · exact h.ordered
  · exact h.beginFirst
  rw [unfinalizedInvocations_eq, h3, h6, ← unfinalizedInvocations_eq]
  exact h.tail

/-- A retained entry lies at or below the last commit. -/
theorem DecisionInv.key_le_last {entry : CommittedInvocation} {cursor : Nat}
    (hget : s.committedInvocations.get? cursor = some entry) :
    ∃ last, s.lastCommitCursor = some last ∧ cursor ≤ last := by
  obtain ⟨last, hlast, hle⟩ := h.bounded entry (h.recorded cursor entry hget)
  rw [h.keyed cursor entry hget] at hle
  exact ⟨last, hlast, hle⟩

theorem DecisionInv.nominate (nomination : ExecutorNomination) :
    DecisionInv log commits (s.nominate nomination) := by
  -- the transferred batch keeps its begin cursor and its invocation
  have htransfer : ∀ prepared, (s.nominate nomination).preparingBatch = some prepared → ∃ before,
        s.preparingBatch = some before ∧ prepared = before.transfer nomination := by
    intro _ hprepared
    simp only [StateMachine.nominate, Option.map_eq_some_iff] at hprepared
    obtain ⟨before, hbefore, hafter⟩ := hprepared
    exact ⟨before, hbefore, hafter.symm⟩
  constructor
  · exact h.keyed
  · exact h.recorded
  · exact h.unique
  · exact h.counted
  · intro prepared hprepared
    obtain ⟨_, _, rfl⟩ := htransfer prepared hprepared
    rfl
  · intro prepared hprepared
    obtain ⟨before, hbefore, rfl⟩ := htransfer prepared hprepared
    exact h.begun before hbefore
  · intro prepared cursor entry hprepared hget
    obtain ⟨before, hbefore, rfl⟩ := htransfer prepared hprepared
    exact h.fresh before cursor entry hbefore hget
  · exact h.finalized
  · exact h.bounded
  · exact h.ordered
  · exact h.beginFirst
  · exact h.tail

end

/-- Pruning removes nothing above the finalization cursor. -/
theorem Pruned.entriesAfter_eq {p : StateMachine}
    (h : Pruned s proposalAt p) :
    entriesAfter p.committedInvocations (s.finalizedThrough.getD 0) =
    entriesAfter s.committedInvocations (s.finalizedThrough.getD 0) := by
  apply ext_get?
  intro cursor
  simp only [entriesAfter, get?_filter]
  apply Option.ext
  intro entry
  simp only [Option.filter_eq_some_iff, decide_eq_true_eq]
  constructor
  · rintro ⟨hget, hlt⟩
    exact ⟨h.sub cursor entry hget, hlt⟩
  rintro ⟨hget, hlt⟩
  refine ⟨h.kept cursor entry hget ?_, hlt⟩
  rintro ⟨_, _, hfinalized, _⟩
  rw [hfinalized, Option.getD_some] at hlt
  omega

section

variable (h : DecisionInv log commits s)

include h

theorem DecisionInv.prune {p : StateMachine}
    (hpruned : Pruned s proposalAt p) (hcounted :
    p.committedInvocationBytes = windowBytes p.committedInvocations) :
    DecisionInv log commits p := by
  have hframe := hpruned.frame
  have hexecutor : p.executor = s.executor := by rw [hframe]
  have hpreparing : p.preparingBatch = s.preparingBatch := by rw [hframe]
  have hlast : p.lastCommitCursor = s.lastCommitCursor := by rw [hframe]
  have hfinalized : p.finalizedThrough = s.finalizedThrough := by rw [hframe]
  constructor
  · intro cursor entry hget
    exact h.keyed cursor entry (hpruned.sub cursor entry hget)
  · intro cursor entry hget
    exact h.recorded cursor entry (hpruned.sub cursor entry hget)
  · intro cursor cursor' entry entry' hget hget'
    exact h.unique cursor cursor' entry entry'
      (hpruned.sub cursor entry hget) (hpruned.sub cursor' entry' hget')
  · exact hcounted
  · rw [hexecutor, hpreparing]
    exact h.fenced
  · rw [hpreparing]
    exact h.begun
  · intro prepared cursor entry hprepared hget
    rw [hpreparing] at hprepared
    exact h.fresh prepared cursor entry hprepared (hpruned.sub cursor entry hget)
  · rw [hlast, hfinalized]
    exact h.finalized
  · rw [hlast]
    exact h.bounded
  · exact h.ordered
  · exact h.beginFirst
  rw [unfinalizedInvocations_eq, hfinalized, hpruned.entriesAfter_eq, ← unfinalizedInvocations_eq]
  exact h.tail

/-- Pruning never fails in a state whose bytes are accounted for. -/
theorem DecisionInv.prune_ok (proposalAt : Nat) :
    ∃ p, s.pruneCommittedInvocations (s.expiredFinalizedCursors proposalAt) = (p, .ok ()) ∧
    DecisionInv log commits p ∧ Pruned s proposalAt p ∧
    ∀ cursor entry, Expired s proposalAt cursor entry →
    p.committedInvocations.get? cursor ≠ some entry := by
  obtain ⟨p, hp, hcounted, hgone⟩ := pruneCommittedInvocations_ok (s.expiredFinalizedCursors
    proposalAt) s h.counted (s.nodup_expiredFinalizedCursors proposalAt) (by
        intro _ hcursor
        obtain ⟨entry, hget, _⟩ := mem_expiredFinalizedCursors.mp hcursor
        exact ⟨entry, hget⟩)
  have hpruned := pruneCommittedInvocations_pruned hp
  refine ⟨p, hp, h.prune hpruned hcounted, hpruned, ?_⟩
  intro cursor entry hexpired hget
  have hmem : cursor ∈ s.expiredFinalizedCursors proposalAt :=
    mem_expiredFinalizedCursors.mpr ⟨entry, hpruned.sub cursor entry hget, hexpired⟩
  rw [hgone cursor hmem] at hget
  cases hget

theorem DecisionInv.prepare
    {batch : BeginBatch} (hexecutor : s.executor = some ⟨batch.executor, batch.nominationLogIndex⟩)
    (hindex : ∃ entry ∈ log, entry.1.index = index)
    (hnew : s.retainedDecision batch.invocationId = none) : DecisionInv log commits
    { s with preparingBatch := some ⟨index, batch⟩ } :=
  { h with
    fenced := by
      intro _ hprepared
      obtain rfl := Option.some.inj hprepared
      exact hexecutor
    begun := by
      intro _ hprepared
      obtain rfl := Option.some.inj hprepared
      exact hindex
    fresh := by
      intro _ cursor entry hprepared hget
      obtain rfl := Option.some.inj hprepared
      exact retainedDecision_eq_none.mp hnew cursor entry hget }

theorem DecisionInv.dropPreparing : DecisionInv log commits { s with preparingBatch := none } :=
  { h with
    fenced := by
      intro _ hprepared
      cases hprepared
    begun := by
      intro _ hprepared
      cases hprepared
    fresh := by
      intro _ _ _ hprepared
      cases hprepared }

theorem DecisionInv.finalize {through last : Nat} (hlast : s.lastCommitCursor = some last)
    (hthrough : through ≤ last) (hforward :
    ∀ current, s.finalizedThrough = some current → current < through) :
    DecisionInv log commits { s with finalizedThrough := some through } :=
  { h with
    finalized := by
      intro _ hfinalized
      obtain rfl := Option.some.inj hfinalized
      exact ⟨last, hlast, hthrough⟩
    tail := by
      have hle : s.finalizedThrough.getD 0 ≤ through := by
        cases hcurrent : s.finalizedThrough with
        | none => exact Nat.zero_le _
        | some current => exact (hforward current hcurrent).le
      -- both sides are the old tail, filtered once more
      have hleft :
          { s with finalizedThrough := some through }.unfinalizedInvocations =
            s.unfinalizedInvocations.filter
              (fun entry => through < entry.committedBatch.commitCursor) := by
        simp only [unfinalizedInvocations, unfinalizedEntries,
          filter_map, filter_filter, Option.getD_some]
        congr 1
        apply filter_congr
        intro e he
        have hkey := h.keyed e.1 e.2 (get?_of_mem he)
        by_cases hlt : through < e.1
        · simp [hkey, hlt, lt_of_le_of_lt hle hlt]
        · simp [hkey, hlt]
      rw [hleft, h.tail, filter_filter]
      apply filter_congr
      intro entry _
      by_cases hlt : through < entry.committedBatch.commitCursor
      · simp [hlt, lt_of_le_of_lt hle hlt]
      · simp [hlt] }

/-- The new cursor lies above every retained key. -/
theorem DecisionInv.record_entries (prepared : PreparedBatch) (bytes : Nat)
    (hlast : ∀ last, s.lastCommitCursor = some last → last < index) :
    (s.recordDecision prepared index bytes).committedInvocations.entries =
    s.committedInvocations.entries ++ [(index, prepared.decision index)] := by
  refine s.committedInvocations.insert_entries_of_lt _ ?_
  intro e he
  obtain ⟨last, hsome, hle⟩ := h.key_le_last (get?_of_mem he)
  exact lt_of_le_of_lt hle (hlast last hsome)

theorem DecisionInv.record {prepared : PreparedBatch} {bytes : Nat}
    (hprepared : s.preparingBatch = some prepared) (hindex : ∀ entry ∈ log, entry.1.index < index)
    (hlast : ∀ last, s.lastCommitCursor = some last → last < index)
    (hbytes : bytes = 8 + (prepared.decision index).encodedLen) :
    DecisionInv log (commits ++ [prepared.decision index])
    (s.recordDecision prepared index bytes) := by
  have hentries := h.record_entries prepared bytes hlast
  have hget : ∀ cursor entry, (s.recordDecision prepared index bytes).committedInvocations.get?
    cursor = some entry → (cursor = index ∧ entry = prepared.decision index) ∨
    s.committedInvocations.get? cursor = some entry := by
    intro _ _ hsome
    simp only [recordDecision, get?_insert] at hsome
    split at hsome
    · rename_i heq
      exact Or.inl ⟨heq, (Option.some.inj hsome).symm⟩
    · exact Or.inr hsome
  have hfresh : ∀ cursor entry, s.committedInvocations.get? cursor = some entry →
        entry.invocationId ≠ (prepared.decision index).invocationId :=
    fun cursor entry => h.fresh prepared cursor entry hprepared
  have hfinalized : s.finalizedThrough.getD 0 < index := by
    obtain ⟨entry, hmem, _⟩ := h.begun prepared hprepared
    have hpositive : 0 < index := Nat.zero_lt_of_lt (hindex entry hmem)
    cases hcurrent : s.finalizedThrough with
    | none => exact hpositive
    | some current =>
      obtain ⟨last, hsome, hle⟩ := h.finalized current hcurrent
      exact lt_of_le_of_lt hle (hlast last hsome)
  constructor
  · intro cursor entry hsome
    rcases hget cursor entry hsome with ⟨rfl, rfl⟩ | hold
    · rfl
    · exact h.keyed cursor entry hold
  · intro cursor entry hsome
    rcases hget cursor entry hsome with ⟨rfl, rfl⟩ | hold
    · simp
    · exact mem_append_left _ (h.recorded cursor entry hold)
  · intro cursor cursor' entry entry' hsome hsome' hid
    rcases hget cursor entry hsome with ⟨rfl, rfl⟩ | hold
    · rcases hget cursor' entry' hsome' with ⟨rfl, rfl⟩ | hold'
      · rfl
      · exact absurd hid.symm (hfresh cursor' entry' hold')
    rcases hget cursor' entry' hsome' with ⟨rfl, rfl⟩ | hold'
    · exact absurd hid (hfresh cursor entry hold)
    · exact h.unique cursor cursor' entry entry' hold hold' hid
  · have hcounted := h.counted
    simp only [windowBytes, hentries, map_append, sum_append,
      map_cons, map_nil, sum_cons, sum_nil, entryBytes]
    simp only [windowBytes] at hcounted
    simp only [recordDecision]
    omega
  · intro _ hother
    cases hother
  · intro _ hother
    cases hother
  · intro _ _ _ hother
    cases hother
  · intro finalized hsome
    obtain ⟨last, hlast', hle⟩ := h.finalized finalized hsome
    exact ⟨index, rfl, le_trans hle (hlast last hlast').le⟩
  · intro entry hmem
    refine ⟨index, rfl, ?_⟩
    rcases mem_append.mp hmem with hold | hnew
    · obtain ⟨last, hlast', hle⟩ := h.bounded entry hold
      exact le_trans hle (hlast last hlast').le
    rw [mem_singleton.mp hnew]
    exact le_refl index
  · refine pairwise_append.mpr ⟨h.ordered, by simp, ?_⟩
    intro entry hmem _ hother
    rw [mem_singleton.mp hother]
    obtain ⟨last, hlast', hle⟩ := h.bounded entry hmem
    exact lt_of_le_of_lt hle (hlast last hlast')
  · intro entry hmem
    rcases mem_append.mp hmem with hold | hnew
    · exact h.beginFirst entry hold
    rw [mem_singleton.mp hnew]
    obtain ⟨begin_, hmem', hbegin⟩ := h.begun prepared hprepared
    change prepared.beginCursor < index
    rw [← hbegin]
    exact hindex begin_ hmem'
  have htail := h.tail
  simp only [unfinalizedInvocations, unfinalizedEntries] at htail ⊢
  rw [hentries]
  simp only [recordDecision, filter_append, map_append]
  congr 1
  simp [hfinalized, PreparedBatch.decision]

end

end

/-- One applied entry keeps the invariant and extends the history. -/
theorem decisionInv_step {command : Command} {outcome : Except ApplyError ApplyResult}
    (h : DecisionInv log commits s)
    (hindex : ∀ entry ∈ log, entry.1.index < id.index) (hstep : Step s id command t outcome) :
    DecisionInv (log ++ [(id, command)]) (commits ++ (committedBy outcome).toList) t := by
  have hsub : log ⊆ log ++ [(id, command)] := subset_append_left _ _
  cases hstep with
  | rejected => simpa [committedBy] using h.grow hsub
  | cluster hcluster =>
    rw [hcluster.committedBy_eq_none]
    simpa using (h.congr hcluster.sameDecisions).grow hsub
  | decision hdecision =>
    cases hdecision with
    | nominated nomination => simpa [committedBy] using (h.nominate nomination).grow hsub
    | pruningFailed batch p _ _ hprune =>
      obtain ⟨_, hp, _⟩ := h.prune_ok batch.proposalAtUnixMillis
      rw [hprune] at hp
      cases hp
    | begun batch p t outcome hfenced hprune hsettle =>
      obtain ⟨_, hp, hinv, hpruned, _⟩ := h.prune_ok batch.proposalAtUnixMillis
      rw [hprune] at hp
      obtain ⟨rfl, _⟩ := Prod.mk.inj hp
      rcases replayOrPrepare_cases hsettle with
        ⟨rfl, houtcome⟩ | ⟨rfl, rfl, hnew, _⟩
      · have hnone : committedBy outcome = none := by
          rcases houtcome with ⟨_, rfl⟩ | ⟨_, rfl⟩ <;> rfl
        simpa [hnone] using hinv.grow hsub
      have hexecutor : p.executor = some ⟨batch.executor, batch.nominationLogIndex⟩ := by
        rw [hpruned.frame]
        exact (requireExecutor_eq_ok.mp hfenced.executor).2
      simpa [committedBy] using (hinv.grow hsub).prepare hexecutor
        ⟨(id, .beginBatch batch), by simp, rfl⟩ hnew
    | committed request prepared bytes hfence hprepared hidentity hlast
      hbytes =>
      rw [committedInvocationEntryBytes_eq_ok, Except.ok.injEq] at hbytes
      exact (h.record hprepared hindex hlast hbytes.symm).grow hsub
    | aborted => simpa [committedBy] using h.dropPreparing.grow hsub
    | finalizationKept => simpa [committedBy] using h.grow hsub
    | finalized executor nominationLogIndex through last hlast hthrough
      hforward =>
      simpa [committedBy] using (h.finalize hlast hthrough hforward).grow hsub
    | bootstrapped _ _ _ state =>
      have hsame : SameDecisions s { s with systemBootstrap := state } :=
        ⟨rfl, rfl, rfl, rfl, rfl, rfl⟩
      simpa [committedBy] using (h.congr hsame).grow hsub

/-- The invariant holds after every log with increasing indexes. -/
theorem decisionInv_applyAll (hnew : new maxCommitEntries maxCommitBytes = .ok s)
    (log : List LogEntry) (hlog : IncreasingLog log) :
    DecisionInv log (commitsOf s log) (applyAll s log) := by
  refine runFrom_induction (motive := fun done t => DecisionInv done (commitsOf s done) t)
    (prefixClosed_pairwise _) (decisionInv_new hnew) ?_ log hlog
  intro _ entry hok hinv
  rw [commitsOf_snoc]
  refine decisionInv_step hinv ?_ (apply_step rfl)
  intro earlier hearlier
  exact (pairwise_append.mp hok).2.2 earlier hearlier entry (by simp)

end Keldra.Consensus
