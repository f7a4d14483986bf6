import Keldra.Consensus.ClusterRuns
import Keldra.Consensus.Storage

/-!
# Replaying the applied journal

Facts about the journal shared by every recovery argument: what a batch writes,
which entries a replay skips and which it applies, and that the snapshot
generation takes no part in it.
-/

namespace Keldra.Consensus

open Foundation List MachineState

variable {state : MachineState} {entries : List RaftEntry} {config : StorageConfig}

namespace MachineState

/-- The first log index the state does not contain. -/
def nextIndex (state : MachineState) : Nat :=
  match state.lastAppliedLogId with
  | none => 0
  | some logId => logId.index + 1

section

variable {entry : RaftEntry}

theorem expectedIndex_eq (state : MachineState) :
    state.expectedIndex = min state.nextIndex u64Max := by
  unfold expectedIndex nextIndex
  cases state.lastAppliedLogId with
  | none => simp
  | some => rfl

theorem advance_lastAppliedLogId (state : MachineState) (entry : RaftEntry) :
    (state.advance entry).1.lastAppliedLogId = some entry.logId := by
  unfold advance
  cases entry.payload with
  | blank | membership => rfl
  | normal command =>
    simp only
    cases validateMembershipCommand state.membership state.decisions
      command with
    | error _ => rfl
    | ok _ =>
      simp only
      split <;> rfl

theorem nextIndex_advance (state : MachineState) (entry : RaftEntry) :
    (state.advance entry).1.nextIndex = entry.logId.index + 1 := by
  unfold nextIndex
  rw [advance_lastAppliedLogId]

theorem contains_iff_lt_nextIndex : state.lastAppliedLogId.any
    (fun last => entry.logId.index ≤ last.index) = true ↔ entry.logId.index < state.nextIndex := by
  unfold nextIndex
  cases state.lastAppliedLogId with
  | none | some => simp

theorem replayJournal_skip {rest : List RaftEntry}
    (h : entry.logId.index < state.nextIndex) :
    state.replayJournal (entry :: rest) = state.replayJournal rest := by
  rw [replayJournal, if_pos (contains_iff_lt_nextIndex.mpr h)]

theorem applyEntry_next
    (h : entry.logId.index = state.nextIndex) (hbound : entry.logId.index ≤ u64Max) :
    state.applyEntry entry = .ok (state.advance entry) := by
  have hexpected : entry.logId.index = state.expectedIndex := by
    rw [expectedIndex_eq, ← h, Nat.min_eq_left hbound]
  unfold applyEntry rejectIf
  rw [if_neg (not_not.mpr hexpected)]
  rfl

theorem replayJournal_next {rest : List RaftEntry}
    (h : entry.logId.index = state.nextIndex) (hbound : entry.logId.index ≤ u64Max) :
    state.replayJournal (entry :: rest) = (state.advance entry).1.replayJournal rest := by
  have hnot : ¬ state.lastAppliedLogId.any (fun last => entry.logId.index ≤ last.index) = true := by
    rw [contains_iff_lt_nextIndex, h]
    exact Nat.lt_irrefl _
  rw [replayJournal, if_neg hnot, applyEntry_next h hbound]

theorem replayJournal_append (state : MachineState) (entries rest : List RaftEntry) :
    state.replayJournal (entries ++ rest) =
    (state.replayJournal entries >>= fun next => next.replayJournal rest) := by
  induction entries generalizing state with
  | nil => rfl
  | cons entry _ ih =>
    simp only [cons_append, replayJournal]
    split_ifs with hskip
    · exact ih state
    cases state.applyEntry entry with
    | error => rfl
    | ok result => exact ih result.1

/-- A journal the state already contains changes nothing. -/
theorem replayJournal_contained (h : ∀ e ∈ entries, e.logId.index < state.nextIndex) :
    state.replayJournal entries = .ok state := by
  induction entries with
  | nil => rfl
  | cons entry _ ih =>
    rw [replayJournal_skip (h entry mem_cons_self)]
    exact ih (fun e he => h e (mem_cons_of_mem entry he))

/-- Dropping entries the state contains does not change a replay. -/
theorem replayJournal_filter {through : Nat}
    (h : through < state.nextIndex) : state.replayJournal
    (entries.filter (fun e => through < e.logId.index)) = state.replayJournal entries := by
  induction entries generalizing state with
  | nil => rfl
  | cons entry _ ih =>
    by_cases hdrop : entry.logId.index ≤ through
    · have hskip : entry.logId.index < state.nextIndex := by omega
      rw [replayJournal_skip hskip, filter_cons, if_neg (by simpa using hdrop)]
      exact ih h
    rw [filter_cons, if_pos (by simpa using hdrop)]
    simp only [replayJournal]
    split_ifs with hskip
    · exact ih h
    cases happly : state.applyEntry entry with
    | error => rfl
    | ok result =>
      simp only [applyEntry, ok_rules] at happly
      have hnext : result.1.nextIndex = entry.logId.index + 1 := by
        rw [← happly.2]
        exact nextIndex_advance state entry
      refine ih ?_
      omega

/-- The batch continues the log of the state in increasing index order. -/
def InOrder (state : MachineState) (entries : List RaftEntry) : Prop :=
  (entries.map (·.logId.index)).Pairwise (· < ·) ∧ ∀ e ∈ entries, state.nextIndex ≤ e.logId.index

/-- A batch that continues the log is applied and replayed to one state. -/
theorem applyBatch_of_sequence (h :
    validateAppliedEntrySequence state.expectedIndex entries = .ok ())
    (horder : state.InOrder entries) :
    ∃ after, state.applyBatch entries = .ok after ∧ state.replayJournal entries = .ok after ∧
    state.nextIndex ≤ after.nextIndex ∧
    ∀ e ∈ entries, e.logId.index < after.nextIndex ∧ e.logId.index ≤ u64Max := by
  induction entries generalizing state with
  | nil => exact ⟨state, rfl, rfl, Nat.le_refl _, fun e he => absurd he not_mem_nil⟩
  | cons entry entries ih =>
    simp only [validateAppliedEntrySequence, ok_rules, not_not] at h
    obtain ⟨hindex, hrest⟩ := h
    obtain ⟨hsorted, hfirst⟩ := horder
    rw [map_cons, pairwise_cons] at hsorted
    have hle := hfirst entry mem_cons_self
    have hnext : entry.logId.index = state.nextIndex := by
      rw [expectedIndex_eq] at hindex
      omega
    have hbound : entry.logId.index ≤ u64Max := by
      rw [expectedIndex_eq] at hindex
      omega
    have hadvance := nextIndex_advance state entry
    have hexpected :
        min (state.expectedIndex + 1) u64Max = (state.advance entry).1.expectedIndex := by
      rw [expectedIndex_eq (state.advance entry).1, hadvance, ← hindex]
    have horder' : (state.advance entry).1.InOrder entries := by
      refine ⟨hsorted.2, ?_⟩
      intro e he
      rw [hadvance]
      exact hsorted.1 _ (mem_map.mpr ⟨e, he, rfl⟩)
    rw [hexpected] at hrest
    obtain ⟨after, happly, hreplay, _, hrange⟩ := ih hrest horder'
    refine ⟨after, ?_, ?_, ?_, ?_⟩
    · rw [applyBatch, applyEntry_next hnext hbound]
      exact happly
    · rw [replayJournal_next hnext hbound]
      exact hreplay
    · omega
    intro e he
    rcases mem_cons.mp he with rfl | he
    · omega
    · exact hrange e he

end

section

/-- The state with another snapshot generation. -/
def regenerate (state : MachineState) (generation : Nat) : MachineState :=
  { state with snapshotGeneration := generation }

/-- Equality up to the snapshot generation. -/
def SameUpToGeneration (a b : MachineState) : Prop :=
  a.regenerate 0 = b.regenerate 0

instance (a b : MachineState) : Decidable (SameUpToGeneration a b) :=
  inferInstanceAs (Decidable (a.regenerate 0 = b.regenerate 0))

theorem SameUpToGeneration.rfl {a : MachineState} : SameUpToGeneration a a :=
  Eq.refl _

theorem SameUpToGeneration.symm {a b : MachineState}
    (h : SameUpToGeneration a b) : SameUpToGeneration b a :=
  Eq.symm h

theorem SameUpToGeneration.trans {a b c : MachineState}
    (hab : SameUpToGeneration a b) (hbc : SameUpToGeneration b c) :
    SameUpToGeneration a c :=
  Eq.trans hab hbc

theorem captureSnapshot_same (state : MachineState) :
    SameUpToGeneration state.captureSnapshot state :=
  Eq.refl _

theorem SameUpToGeneration.nextIndex {a b : MachineState}
    (h : SameUpToGeneration a b) : a.nextIndex = b.nextIndex := by
  have hlast : (a.regenerate 0).lastAppliedLogId = (b.regenerate 0).lastAppliedLogId := by rw [h]
  change a.lastAppliedLogId = b.lastAppliedLogId at hlast
  unfold MachineState.nextIndex
  rw [hlast]

theorem SameUpToGeneration.validate {a b : MachineState}
    (h : SameUpToGeneration a b) :
    a.validateClusterMembership = b.validateClusterMembership := by
  change (a.regenerate 0).validateClusterMembership = (b.regenerate 0).validateClusterMembership
  rw [h]

theorem advance_regenerate (state : MachineState) (entry : RaftEntry) (generation : Nat) :
    (state.regenerate generation).advance entry = ((state.advance entry).1.regenerate generation,
    (state.advance entry).2) := by
  unfold advance
  cases entry.payload with
  | blank | membership => rfl
  | normal command =>
    simp only [regenerate]
    cases validateMembershipCommand state.membership state.decisions
      command with
    | error _ => rfl
    | ok _ =>
      simp only
      split <;> rfl

theorem replayJournal_regenerate
    (state : MachineState) (entries : List RaftEntry) (generation : Nat) :
    (state.regenerate generation).replayJournal entries =
    (state.replayJournal entries).map (·.regenerate generation) := by
  induction entries generalizing state with
  | nil => rfl
  | cons entry _ ih =>
    have hlast : (state.regenerate generation).lastAppliedLogId = state.lastAppliedLogId :=
      Eq.refl _
    have hexpected : (state.regenerate generation).expectedIndex = state.expectedIndex := Eq.refl _
    simp only [replayJournal, hlast]
    split_ifs with hskip
    · exact ih state
    unfold applyEntry
    rw [hexpected, advance_regenerate]
    unfold rejectIf
    split_ifs
    · rfl
    · exact ih (state.advance entry).1

theorem applyBatch_regenerate (state : MachineState) (entries : List RaftEntry) (generation : Nat) :
    (state.regenerate generation).applyBatch entries =
    (state.applyBatch entries).map (·.regenerate generation) := by
  induction entries generalizing state with
  | nil => rfl
  | cons entry _ ih =>
    have hexpected : (state.regenerate generation).expectedIndex = state.expectedIndex := Eq.refl _
    unfold applyBatch applyEntry
    rw [hexpected, advance_regenerate]
    unfold rejectIf
    split_ifs
    · rfl
    · exact ih (state.advance entry).1

/-- Replays of one journal from states that agree end in states that agree. -/
theorem SameUpToGeneration.replayJournal {a b a' : MachineState}
    (h : SameUpToGeneration a b)
    (ha : a.replayJournal entries = .ok a') :
    ∃ b', b.replayJournal entries = .ok b' ∧ SameUpToGeneration a' b' := by
  have hmap : (a.replayJournal entries).map (·.regenerate 0) =
        (b.replayJournal entries).map (·.regenerate 0) := by
    rw [← replayJournal_regenerate, ← replayJournal_regenerate, h]
  rw [ha] at hmap
  cases hb : b.replayJournal entries with
  | error =>
    rw [hb] at hmap
    cases hmap
  | ok b' =>
    rw [hb] at hmap
    exact ⟨b', Eq.refl _, Except.ok.inj hmap⟩

end

/-- The state keeps the window limits the store is configured with. -/
def Configured (state : MachineState) (config : StorageConfig) : Prop :=
  state.decisions.maxCommitEntries = config.maxCommitEntries ∧
    state.decisions.maxCommitBytes = config.maxCommitBytes

theorem validateConfig_eq_ok : state.validateConfig config = .ok () ↔ Configured state config := by
  simp [validateConfig, Configured]

theorem configured_new (h : new config = .ok state) : Configured state config := by
  simp only [new, ok_rules] at h
  obtain ⟨_, hnew, rfl⟩ := h
  obtain rfl := new_eq_ok hnew
  exact ⟨rfl, rfl⟩

end MachineState

/-- No command changes the window limits. -/
theorem Step.limits {s : StateMachine} {command : Command} {t : StateMachine}
    {outcome : Except ApplyError ApplyResult} {id : LogId} (h : Step s id command t outcome) :
    t.maxCommitEntries = s.maxCommitEntries ∧ t.maxCommitBytes = s.maxCommitBytes := by
  cases h with
  | rejected => exact ⟨rfl, rfl⟩
  | cluster hcluster => cases hcluster <;> exact ⟨rfl, rfl⟩
  | decision hdecision =>
    have hpruned : ∀ {p proposalAt r}, s.pruneCommittedInvocations
          (s.expiredFinalizedCursors proposalAt) = (p, r) →
          p.maxCommitEntries = s.maxCommitEntries ∧ p.maxCommitBytes = s.maxCommitBytes := by
      intro p _ r hprune
      rw [(StateMachine.pruneCommittedInvocations_pruned hprune).frame]
      exact ⟨rfl, rfl⟩
    cases hdecision with
    | pruningFailed _ p _ _ hprune => exact hpruned hprune
    | begun _ p t _ _ hprune hsettle =>
      rcases replayOrPrepare_cases hsettle with
        ⟨rfl, _⟩ | ⟨rfl, _⟩
      · exact hpruned hprune
      have hp := hpruned hprune
      exact ⟨hp.1, hp.2⟩
    | _ => exact ⟨rfl, rfl⟩

namespace MachineState

variable {after : MachineState}

/-- What an applied entry does to the decisions and the membership. -/
inductive EntryEffect (state : MachineState) (entry : RaftEntry) : MachineState → Prop
  | kept :
    EntryEffect state entry { state with lastAppliedLogId := some entry.logId }
  | membership (next : Membership)
      (hpayload : entry.payload = .membership next) :
      EntryEffect state entry
        { state with membership := ⟨some entry.logId, next⟩, lastAppliedLogId := some entry.logId }
  | command (command : Command) (next : StateMachine) (outcome : Except ApplyError ApplyResult)
      (hpayload : entry.payload = .normal command)
      (hvalid : validateMembershipCommand state.membership state.decisions command = .ok ())
      (hstep : Step state.decisions entry.logId command next outcome) :
      EntryEffect state entry
        { state with decisions := next, lastAppliedLogId := some entry.logId }

theorem advance_effect (state : MachineState) (entry : RaftEntry) :
    EntryEffect state entry (state.advance entry).1 := by
  unfold advance
  cases hpayload : entry.payload with
  | blank => exact .kept
  | membership next => exact .membership next hpayload
  | normal command =>
    simp only
    cases hvalid : validateMembershipCommand state.membership
      state.decisions command with
    | error _ => exact .kept
    | ok _ =>
      cases happly : state.decisions.apply entry.logId command with
      | mk next outcome =>
        have hstep := apply_step happly
        cases outcome with
        | ok | error => exact .command command next _ hpayload hvalid hstep

theorem Configured.advance (h : Configured state config) (entry : RaftEntry) :
    Configured (state.advance entry).1 config := by
  have heffect := advance_effect state entry
  generalize (state.advance entry).1 = after at heffect
  cases heffect with
  | kept | membership => exact h
  | command _ _ _ _ _ hstep =>
    obtain ⟨hentries, hbytes⟩ := hstep.limits
    exact ⟨hentries.trans h.1, hbytes.trans h.2⟩

theorem Configured.applyBatch
    (h : Configured state config) (happly : state.applyBatch entries = .ok after) :
    Configured after config := by
  induction entries generalizing state with
  | nil => exact Except.ok.inj happly ▸ h
  | cons entry _ ih =>
    simp only [applyBatch, applyEntry, ok_rules] at happly
    obtain ⟨_, ⟨_, rfl⟩, hrest⟩ := happly
    exact ih (h.advance entry) hrest

theorem Configured.replayJournal
    (h : Configured state config) (hreplay : state.replayJournal entries = .ok after) :
    Configured after config := by
  induction entries generalizing state with
  | nil => exact Except.ok.inj hreplay ▸ h
  | cons entry _ ih =>
    unfold replayJournal at hreplay
    split at hreplay
    · exact ih h hreplay
    cases happly : state.applyEntry entry with
    | error =>
      rw [happly] at hreplay
      cases hreplay
    | ok =>
      rw [happly] at hreplay
      simp only [applyEntry, ok_rules] at happly
      obtain ⟨_, rfl⟩ := happly
      exact ih (h.advance entry) hreplay

end MachineState

variable {store : DurableStore}

/-- The journal is filed under the log indexes. -/
def DurableStore.Filed (store : DurableStore) : Prop :=
  ∀ e ∈ store.applied.entries, e.1 = e.2.logId.index

section

variable (hsorted : (entries.map (·.logId.index)).Pairwise (· < ·))
  (hbeyond : ∀ e ∈ store.applied.entries, ∀ entry ∈ entries, e.1 < entry.logId.index)

include hsorted hbeyond

/-- A batch beyond the journal is appended to it. -/
theorem appendApplied_entries :
    (store.appendApplied entries).applied.entries = store.applied.entries ++
    entries.map (fun e => (e.logId.index, e)) := by
  induction entries generalizing store with
  | nil => simp [DurableStore.appendApplied]
  | cons entry entries ih =>
    rw [map_cons, pairwise_cons] at hsorted
    have hinsert : (store.applied.insert entry.logId.index entry).entries =
          store.applied.entries ++ [(entry.logId.index, entry)] :=
      store.applied.insert_entries_of_lt _ (fun e he => hbeyond e he entry mem_cons_self)
    let next : DurableStore :=
      { store with applied := store.applied.insert entry.logId.index entry }
    have hrest : (next.appendApplied entries).applied.entries = next.applied.entries ++
          entries.map (fun e => (e.logId.index, e)) := by
      refine ih hsorted.2 ?_
      intro e he later hlater
      rw [show next.applied.entries = _ from hinsert] at he
      rcases mem_append.mp he with hold | hnew
      · exact hbeyond e hold later (mem_cons_of_mem entry hlater)
      rw [mem_singleton.mp hnew]
      exact hsorted.1 _ (mem_map.mpr ⟨later, hlater, rfl⟩)
    rw [show next.applied.entries = _ from hinsert] at hrest
    rw [map_cons, append_cons]
    exact hrest

theorem scanApplied_appendApplied :
    (store.appendApplied entries).scanApplied = store.scanApplied ++ entries := by
  unfold DurableStore.scanApplied OrdMap.values
  rw [appendApplied_entries hsorted hbeyond]
  simp [Function.comp_def]

end

theorem DurableStore.Filed.appendApplied
    (h : store.Filed) (hsorted : (entries.map (·.logId.index)).Pairwise (· < ·)) (hbeyond :
    ∀ e ∈ store.applied.entries, ∀ entry ∈ entries, e.1 < entry.logId.index) :
    (store.appendApplied entries).Filed := by
  intro e he
  rw [appendApplied_entries hsorted hbeyond] at he
  rcases mem_append.mp he with hold | hnew
  · exact h e hold
  obtain ⟨_, _, rfl⟩ := mem_map.mp hnew
  rfl

section

/-- A captured state becomes durable exactly if its cross-check passes. -/
theorem exists_toSnapshot_iff :
    (∃ snapshot, state.toSnapshot = .ok snapshot) ↔ state.validateClusterMembership = .ok () := by
  simp only [toSnapshot, ok_rules]
  constructor
  · rintro ⟨_, hvalid, _⟩
    exact hvalid
  intro hvalid
  exact ⟨_, hvalid, rfl⟩

theorem toSnapshot_facts {snapshot : DurableSnapshot}
    (h : state.toSnapshot = .ok snapshot) :
    snapshot.data = state ∧ snapshot.header.lastLogId = state.lastAppliedLogId ∧
    snapshot.header.lastMembership = state.membership := by
  simp only [toSnapshot, ok_rules] at h
  obtain ⟨_, rfl⟩ := h
  exact ⟨rfl, rfl, rfl⟩

/-- A durable snapshot is restored if it matches its header and the store. -/
theorem restoreBase_eq_ok {snapshot : DurableSnapshot}
    (hsnapshot : store.snapshot = some snapshot) :
    restoreBase store = .ok state ↔ (snapshot.data.lastAppliedLogId = snapshot.header.lastLogId ∧
    snapshot.data.membership = snapshot.header.lastMembership) ∧
    snapshot.data.Configured store.config ∧ snapshot.data = state := by
  simp only [restoreBase, hsnapshot, ok_rules, not_or, not_not, validateConfig_eq_ok]

theorem installSnapshot_eq_ok {header : SnapshotMeta} {result : DurableStore × MachineState} :
    installSnapshot store header state = .ok result ↔ (state.lastAppliedLogId = header.lastLogId ∧
    state.membership = header.lastMembership ∧ state.Configured store.config) ∧
    state.validateClusterMembership = .ok () ∧
    (store.saveSnapshot ⟨header, state⟩ true, state) = result := by
  simp only [installSnapshot, ok_rules, not_or, not_not, Configured]

end

end Keldra.Consensus
