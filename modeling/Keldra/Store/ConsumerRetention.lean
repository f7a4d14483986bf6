import Keldra.Store.SourceStore

/-!
# Retention waits for every consumer

A record leaves the journal only when it is settled, delivered to every
reference destination, and passed by the index and accounting checkpoints of
every ACTIVE node of the current fence.

The argument follows two moves.  `JournalMove` bounds how far the floor goes in
one step by the offsets the consumers allow.  `CheckpointMove` says what a step
can do to the checkpoints: under one fence they only go forward, and otherwise
the fence goes forward.
-/

namespace Keldra.Store

open Foundation Option

variable {derived : DerivedTables} {membership : DerivedMembership}

/-- The stored checkpoint of one consumer under a membership. -/
def DerivedTables.checkpointOf (derived : DerivedTables) (membership : DerivedMembership)
    (kind : DerivedConsumerKind) (node : Nat) : Option CheckpointValue :=
  derived.checkpoints { fence := membership.fence, kind, node }

/-- Every ACTIVE checkpoint lies between two offsets. -/
def CheckpointsWithin (derived : DerivedTables) (least greatest : Nat) : Prop :=
  ∀ membership, derived.membership = some membership → ∀ kind, ∀ node ∈ membership.activeNodes,
    ∃ value, derived.checkpointOf membership kind node = some value ∧
      least ≤ value.nextOffset ∧ value.nextOffset ≤ greatest

/-- What may happen to the checkpoints: under one fence they go forward, and
otherwise the fence does. -/
def CheckpointMove (before after : DerivedTables) : Prop :=
  ∀ membership, before.membership = some membership → (after.membership = some membership ∧
    ∀ kind, ∀ node ∈ membership.activeNodes, ∀ value,
      before.checkpointOf membership kind node = some value →
      ∃ value', after.checkpointOf membership kind node = some value' ∧
      value.nextOffset ≤ value'.nextOffset) ∨ ∃ membership', after.membership = some membership' ∧
      FenceBefore membership.fence membership'.fence

theorem CheckpointMove.refl (derived : DerivedTables) : CheckpointMove derived derived := by
  intro _ hmembership
  exact .inl ⟨hmembership, fun _ _ _ value hvalue => ⟨value, hvalue, le_rfl⟩⟩

theorem CheckpointMove.trans {first second third : DerivedTables}
    (h₁ : CheckpointMove first second) (h₂ : CheckpointMove second third) :
    CheckpointMove first third := by
  intro membership hmembership
  rcases h₁ membership hmembership with ⟨hsame, hforward⟩ | ⟨middle, hmiddle, hfence⟩
  · rcases h₂ membership hsame with ⟨hsame', hforward'⟩ | hlater
    · refine .inl ⟨hsame', fun kind node hnode value hvalue => ?_⟩
      obtain ⟨value', hvalue', hle⟩ := hforward kind node hnode value hvalue
      obtain ⟨value'', hvalue'', hle'⟩ := hforward' kind node hnode value' hvalue'
      exact ⟨value'', hvalue'', hle.trans hle'⟩
    · exact .inr hlater
  rcases h₂ middle hmiddle with ⟨hsame', -⟩ | ⟨last, hlast, hfence'⟩
  · exact .inr ⟨middle, hsame', hfence⟩
  · exact .inr ⟨last, hlast, hfence.trans hfence'⟩

/-- The least checkpoint is at most every ACTIVE node's. -/
theorem leastCheckpoint_le {kind : DerivedConsumerKind} {least : Nat}
    (h : leastCheckpoint derived membership kind = .ok least) :
    ∀ node ∈ membership.activeNodes,
    ∃ value, derived.checkpointOf membership kind node = some value ∧ least < value.nextOffset := by
  have hfold : ∀ (nodes : List Nat) (start result : Nat), nodes.foldlM (fun least node => do
            let checkpoint ← readCheckpoint derived { fence := membership.fence, kind, node }
            rejectIf (checkpoint.sourceId ≠ membership.sourceId) DerivedConsumerError.sourceMismatch
            let through ← okOr (checkedSub64 checkpoint.nextOffset 1)
              (DerivedConsumerError.malformed "derived checkpoint offset is zero")
            pure (min least through)) start = .ok result →
        result ≤ start ∧ ∀ node ∈ nodes,
          ∃ value, derived.checkpointOf membership kind node = some value ∧
            result < value.nextOffset := by
    intro nodes
    induction nodes with
    | nil =>
      intro _ _ hresult
      cases hresult
      exact ⟨le_rfl, by simp⟩
    | cons _ _ ih =>
      intro _ _ hresult
      rw [List.foldlM_cons] at hresult
      simp only [readCheckpoint, ok_rules, checkedSub64_eq_some] at hresult
      obtain ⟨_, ⟨_, ⟨value, hvalue, -, rfl⟩, -, _, ⟨hpositive, rfl⟩, rfl⟩, hrest⟩ := hresult
      obtain ⟨hle, hothers⟩ := ih _ _ hrest
      dsimp only at hle hpositive
      refine ⟨by omega, ?_⟩
      intro other hother
      rcases List.mem_cons.mp hother with rfl | hother
      · exact ⟨value, hvalue, by omega⟩
      · exact hothers other hother
  exact (hfold membership.activeNodes u64Max least h).2

/-- An offset the derived consumers allow has been passed by all of them. -/
theorem passed_of_derivedConsumerSafeThrough {source : WatchJournalStatus} {safe : Nat × Nat}
    {offset : Nat}
    (h : derivedConsumerSafeThrough derived source = .ok safe)
    (hindex : offset ≤ safe.1) (haccounting : offset ≤ safe.2) :
    ∀ membership, derived.membership = some membership → ∀ kind, ∀ node ∈ membership.activeNodes,
    ∃ value, derived.checkpointOf membership kind node = some value ∧
    offset < value.nextOffset := by
  intro _ hmembership kind node hnode
  unfold derivedConsumerSafeThrough derivedConsumerStatus at h
  rw [hmembership] at h
  simp only [ok_rules] at h
  obtain ⟨_, ⟨_, hindexSafe, _, haccountingSafe, rfl⟩, h⟩ := h
  simp only [ok_rules] at h
  obtain ⟨-, -, rfl⟩ := h
  cases kind with
  | index =>
    obtain ⟨value, hvalue, _⟩ := leastCheckpoint_le hindexSafe node hnode
    exact ⟨value, hvalue, by omega⟩
  | accounting =>
    obtain ⟨value, hvalue, _⟩ := leastCheckpoint_le haccountingSafe node hnode
    exact ⟨value, hvalue, by omega⟩

variable {staged : DerivedTables} {activeNodes : List Nat}

section

variable {status : WatchJournalStatus} {fence : PlacementLogId}

/-- A membership as a fence installs it. -/
def Installed (staged : DerivedTables) (status : WatchJournalStatus)
    (fence : PlacementLogId) (activeNodes : List Nat) : Prop :=
  staged.membership = some { sourceId := status.sourceId, fence, activeNodes } ∧
    ∀ kind, ∀ node ∈ activeNodes, staged.checkpoints { fence, kind, node } =
      some { sourceId := status.sourceId, nextOffset := status.retentionFloor + 1 }

theorem installMembership_eq_ok {checkpoints : CheckpointKey → Option CheckpointValue}
    {changed : Bool}
    (h : installMembership status checkpoints fence activeNodes = .ok (staged, changed)) :
    changed = true ∧ Installed staged status fence activeNodes := by
  simp only [installMembership, ok_rules, checkedAdd64_eq_some] at h
  obtain ⟨_, ⟨-, rfl⟩, -, -, -, rfl, rfl⟩ := h
  refine ⟨rfl, rfl, ?_⟩
  intro _ _ hnode
  simp [startCheckpoints, hnode]

/-- Staging a membership keeps the current one, or installs a later fence. -/
theorem stageMembership_eq_ok {changed : Bool}
    (h : stageMembership derived status fence activeNodes = .ok (staged, changed)) :
    (changed = false ∧ staged = derived ∧ ∃ membership, derived.membership = some membership ∧
    membership.fence = fence ∧ membership.activeNodes = activeNodes) ∨
    (changed = true ∧ Installed staged status fence activeNodes ∧
    ∀ membership, derived.membership = some membership → FenceBefore membership.fence fence) := by
  unfold stageMembership at h
  split at h
  · rename_i hnone
    obtain ⟨hchanged, hinstalled⟩ := installMembership_eq_ok h
    refine .inr ⟨hchanged, hinstalled, ?_⟩
    intro _ hmembership
    rw [hnone] at hmembership
    cases hmembership
  rename_i existing hexisting
  simp only [ok_rules] at h
  obtain ⟨-, hregression, h⟩ := h
  split at h
  · rename_i hsame
    simp only [ok_rules, not_not] at h
    obtain ⟨hnodes, rfl, rfl⟩ := h
    exact .inl ⟨rfl, rfl, existing, hexisting, hsame, hnodes⟩
  rename_i hdifferent
  obtain ⟨hchanged, hinstalled⟩ := installMembership_eq_ok h
  refine .inr ⟨hchanged, hinstalled, ?_⟩
  intro _ hmembership
  obtain rfl := mem_unique hexisting hmembership
  rcases fence_trichotomy existing.fence fence with hbefore | heq | hafter
  · exact hbefore
  · exact absurd heq hdifferent
  · exact absurd hafter hregression

theorem checkpointMove_stageMembership {changed : Bool}
    (h : stageMembership derived status fence activeNodes = .ok (staged, changed)) :
    CheckpointMove derived staged := by
  rcases stageMembership_eq_ok h with ⟨-, rfl, -⟩ | ⟨-, hinstalled, hlater⟩
  · exact CheckpointMove.refl _
  intro membership hmembership
  exact .inr ⟨_, hinstalled.1, hlater membership hmembership⟩

theorem Installed.within {greatest : Nat}
    (h : Installed staged status fence activeNodes)
    (hgreatest : status.retentionFloor + 1 ≤ greatest) :
    CheckpointsWithin staged (status.retentionFloor + 1) greatest := by
  intro _ hmembership kind node hnode
  rw [h.1, some.injEq] at hmembership
  subst hmembership
  exact ⟨_, h.2 kind node hnode, le_rfl, hgreatest⟩

theorem checkpointsWithin_stageMembership {changed : Bool}
    (h : stageMembership derived status fence activeNodes = .ok (staged, changed))
    (hwithin : CheckpointsWithin derived (status.retentionFloor + 1) (status.settledThrough + 1))
    (hfloor : status.retentionFloor ≤ status.settledThrough) :
    CheckpointsWithin staged (status.retentionFloor + 1) (status.settledThrough + 1) := by
  rcases stageMembership_eq_ok h with ⟨-, rfl, -⟩ | ⟨-, hinstalled, -⟩
  · exact hwithin
  · exact hinstalled.within (by omega)

end

variable {config : StoreConfig} {codec : LocalChangeCodec} {log : List LogEntry}

section

variable {journal : JournalTables} {checkpoint : DerivedConsumerCheckpoint}
  (h : stageDerivedConsumerCheckpoint config journal derived checkpoint activeNodes = .ok staged)

include h

/-- An accepted checkpoint writes at most its own key, forward and within the
retained and settled range, after its membership. -/
theorem stageDerivedConsumerCheckpoint_eq_ok :
    ∃ status membershipStaged changed, localWatchStatus config journal = .ok status ∧
    stageMembership derived status checkpoint.observedFence activeNodes = .ok (membershipStaged,
    changed) ∧ status.retentionFloor + 1 ≤ checkpoint.nextOffset ∧
    checkpoint.nextOffset ≤ status.settledThrough + 1 ∧ (staged = membershipStaged ∨
    ((∀ value, membershipStaged.checkpoints
    { fence := checkpoint.observedFence
      kind := checkpoint.consumerKind
      node := checkpoint.consumerNodeId } = some value → value.nextOffset ≤ checkpoint.nextOffset) ∧
    staged =
    { membershipStaged with
      checkpoints := Function.update membershipStaged.checkpoints
        { fence := checkpoint.observedFence
          kind := checkpoint.consumerKind
          node := checkpoint.consumerNodeId } (some
        { sourceId := checkpoint.sourceId, nextOffset := checkpoint.nextOffset }) })) := by
  simp only [stageDerivedConsumerCheckpoint, ok_rules, mapError_eq_ok, checkedAdd64_eq_some,
    Prod.exists, not_not, not_lt] at h
  obtain ⟨-, -, hactive, status, hstatus, -, _, ⟨-, rfl⟩, _, ⟨-, rfl⟩, hleast, hgreatest,
    membershipStaged, changed, hmembership, h⟩ := h
  refine ⟨status, membershipStaged, changed, hstatus, hmembership, hleast, hgreatest, ?_⟩
  rcases stageMembership_eq_ok hmembership with ⟨rfl, rfl, -⟩ | ⟨rfl, hinstalled, -⟩
  · simp only [Bool.false_eq_true, if_false, readCheckpoint, ok_rules, not_lt] at h
    obtain ⟨_, ⟨_, hvalue, -, rfl⟩, -, hforward, h⟩ := h
    split at h
    · rw [pure_eq_ok] at h
      refine .inr ⟨?_, h.symm⟩
      intro _ hstored
      obtain rfl := mem_unique hvalue hstored
      exact hforward
    rw [pure_eq_ok] at h
    exact .inl h.symm
  simp only [if_true, ok_rules, exists_eq_left', not_lt] at h
  obtain ⟨-, -, h⟩ := h
  split at h
  · rw [pure_eq_ok] at h
    refine .inr ⟨?_, h.symm⟩
    intro _ hstored
    rw [hinstalled.2 _ _ hactive, some.injEq] at hstored
    subst hstored
    exact hleast
  rw [pure_eq_ok] at h
  exact .inl h.symm

theorem checkpointMove_stageCheckpoint : CheckpointMove derived staged := by
  obtain ⟨_, _, _, -, hmembership, -, -, rfl | ⟨hforward, rfl⟩⟩ :=
    stageDerivedConsumerCheckpoint_eq_ok h
  · exact checkpointMove_stageMembership hmembership
  refine (checkpointMove_stageMembership hmembership).trans ?_
  intro membership hsame
  refine .inl ⟨hsame, ?_⟩
  intro kind node _ value hvalue
  unfold DerivedTables.checkpointOf at hvalue ⊢
  dsimp only
  rw [Function.update_apply]
  split_ifs with hkey
  · rw [hkey] at hvalue
    exact ⟨_, rfl, hforward value hvalue⟩
  · exact ⟨value, hvalue, le_rfl⟩

theorem checkpointsWithin_stageCheckpoint
    (hlog : Logs codec config log journal)
    (hwithin :
      CheckpointsWithin derived (journal.retentionFloor + 1) (journal.settledThrough + 1)) :
    CheckpointsWithin staged (journal.retentionFloor + 1) (journal.settledThrough + 1) := by
  obtain ⟨_, _, _, hstatus, hmembership, hleast, hgreatest, hstaged⟩ :=
    stageDerivedConsumerCheckpoint_eq_ok h
  rw [hlog.status, Except.ok.injEq] at hstatus
  subst hstatus
  have hmiddle := checkpointsWithin_stageMembership hmembership hwithin hlog.floor_le_settled
  rcases hstaged with rfl | ⟨-, rfl⟩
  · exact hmiddle
  intro membership hsame kind node hnode
  unfold DerivedTables.checkpointOf
  dsimp only
  rw [Function.update_apply]
  split_ifs
  · exact ⟨_, rfl, hleast, hgreatest⟩
  · exact hmiddle membership hsame kind node hnode

end

/-- A checkpoint of an older fence, or of another ACTIVE set of the same fence,
is refused. -/
theorem stageDerivedConsumerCheckpoint_stale {journal : JournalTables}
    {checkpoint : DerivedConsumerCheckpoint}
    (hmembership : derived.membership = some membership) (hstale :
    FenceBefore checkpoint.observedFence membership.fence ∨
    (checkpoint.observedFence = membership.fence ∧ activeNodes ≠ membership.activeNodes)) :
    stageDerivedConsumerCheckpoint config journal derived checkpoint activeNodes ≠ .ok staged := by
  intro h
  obtain ⟨_, _, _, -, hstaged, -⟩ := stageDerivedConsumerCheckpoint_eq_ok h
  rcases stageMembership_eq_ok hstaged with ⟨-, -, _, hcurrent, hfence, hnodes⟩ |
    ⟨-, -, hlater⟩
  · obtain rfl := mem_unique hmembership hcurrent
    rcases hstale with hbefore | ⟨-, hother⟩
    · rw [hfence] at hbefore
      exact FenceBefore.irrefl _ hbefore
    · exact hother hnodes.symm
  have hnewer := hlater membership hmembership
  rcases hstale with hbefore | ⟨hequal, -⟩
  · exact FenceBefore.irrefl _ (hbefore.trans hnewer)
  rw [hequal] at hnewer
  exact FenceBefore.irrefl _ hnewer

section

variable {store : SourceStore}

/-- The journal range every ACTIVE checkpoint lies in. -/
def ConsumersWithin (store : SourceStore) : Prop :=
  CheckpointsWithin store.derived (store.journal.retentionFloor + 1)
    (store.journal.settledThrough + 1)

/-- What a step does to the derived tables. -/
theorem derived_step (hlog : Logs codec config log store.journal) (hwithin : ConsumersWithin store)
    (action : JournalAction) :
    CheckpointMove store.derived (store.step codec config action).derived ∧
    CheckpointsWithin (store.step codec config action).derived
    (store.journal.retentionFloor + 1) (store.journal.settledThrough + 1) := by
  have hkeep : ∀ derived, derived = store.derived → CheckpointMove store.derived derived ∧
        CheckpointsWithin derived (store.journal.retentionFloor + 1)
          (store.journal.settledThrough + 1) := by
    rintro _ rfl
    exact ⟨CheckpointMove.refl _, hwithin⟩
  cases action with
  | append =>
    refine hkeep _ ?_
    simp only [SourceStore.step]
    split
    · rename_i next hnext
      simp only [SourceStore.append, ok_rules] at hnext
      obtain ⟨_, -, rfl⟩ := hnext
      rfl
    · rfl
  | settleThrough | settlePositions =>
    refine hkeep _ ?_
    simp only [SourceStore.step]
    split <;> rfl
  | settleInline =>
    refine hkeep _ ?_
    simp only [SourceStore.step, SourceStore.settleInline]
    split
    · rfl
    · split <;> rfl
  | advanceReferenceSafe =>
    refine hkeep _ ?_
    simp only [SourceStore.step, SourceStore.advanceReferenceSafe]
    split
    · rfl
    split
    · rfl
    · rw [derived_prune]
  | readDelivery =>
    refine hkeep _ ?_
    simp only [SourceStore.step, SourceStore.readDelivery]
    split <;> rfl
  | applyReferenceDeltas =>
    refine hkeep _ ?_
    simp only [SourceStore.step, SourceStore.applyDeltas]
    split
    · rfl
    · split <;> rfl
  | pruneForCapacity | reopen => exact hkeep _ (derived_prune _ _)
  | ensureMembership =>
    simp only [SourceStore.step, SourceStore.ensureMembership]
    split
    · rename_i derived hensured
      simp only [ensureDerivedConsumerMembership, ok_rules, mapError_eq_ok, hlog.status,
        Except.ok.injEq, Prod.exists] at hensured
      obtain ⟨-, -, _, rfl, _, _, hstaged, rfl⟩ := hensured
      exact ⟨checkpointMove_stageMembership hstaged,
        checkpointsWithin_stageMembership hstaged hwithin hlog.floor_le_settled⟩
    · exact hkeep _ rfl
  | checkpoint =>
    simp only [SourceStore.step, SourceStore.applyCheckpoint]
    split
    · exact hkeep _ rfl
    rename_i derived hstaged
    have hboth : CheckpointMove store.derived derived ∧ CheckpointsWithin derived
      (store.journal.retentionFloor + 1) (store.journal.settledThrough + 1) :=
      ⟨checkpointMove_stageCheckpoint hstaged,
        checkpointsWithin_stageCheckpoint hstaged hlog hwithin⟩
    split
    · rw [derived_prune]
      exact hboth
    · exact hboth

theorem consumersWithin_step
    (hlog : Logs codec config log store.journal) (hdeliveries : DeliveriesWithin config store)
    (hwithin : ConsumersWithin store) (action : JournalAction) :
    ConsumersWithin (store.step codec config action) := by
  have hmove := journalMove_step hlog hdeliveries action
  have hsettled := hmove.settled_le
  obtain ⟨-, hbetween⟩ := derived_step hlog hwithin action
  intro membership hmembership kind node hnode
  obtain ⟨value, hvalue, _⟩ := hbetween membership hmembership kind node hnode
  rcases hmove.floor_safe with _ | ⟨-, -, _, _, hsafe, hindex, haccounting⟩
  · exact ⟨value, hvalue, by omega, by omega⟩
  obtain ⟨_, hpassed, _⟩ := passed_of_derivedConsumerSafeThrough hsafe hindex
    haccounting membership hmembership kind node hnode
  obtain rfl := mem_unique hvalue hpassed
  exact ⟨value, hvalue, by omega, by omega⟩

theorem consumersWithin_run
    (codec : LocalChangeCodec) (config : StoreConfig) (actions : List JournalAction) :
    ConsumersWithin (SourceStore.run codec config actions) := by
  induction actions using List.reverseRecOn with
  | nil =>
    intro _ hmembership
    cases hmembership
  | append_singleton actions action ih =>
    obtain ⟨⟨_, hlog⟩, hdeliveries⟩ := logs_run codec config actions
    rw [SourceStore.run_snoc]
    exact consumersWithin_step hlog hdeliveries ih action

theorem checkpointMove_run
    (codec : LocalChangeCodec) (config : StoreConfig) (actions later : List JournalAction) :
    CheckpointMove (SourceStore.run codec config actions).derived
    (SourceStore.run codec config (actions ++ later)).derived := by
  induction later using List.reverseRecOn with
  | nil =>
    rw [List.append_nil]
    exact CheckpointMove.refl _
  | append_singleton later action ih =>
    obtain ⟨⟨_, hlog⟩, -⟩ := logs_run codec config (actions ++ later)
    have hwithin := consumersWithin_run codec config (actions ++ later)
    rw [← List.append_assoc, SourceStore.run_snoc]
    exact ih.trans (derived_step hlog hwithin action).1

end

/--
Retention waits for every consumer.  Along every run: a record is pruned only
when it is settled, within the reference-safe offset, and passed by both
checkpoints of every ACTIVE node of the installed membership; every ACTIVE
checkpoint lies between the retained and the settled end; under one fence no
checkpoint moves backwards; and a checkpoint of an older fence or of another
ACTIVE set changes nothing.
-/
theorem retention_waits_for_consumers
    (codec : LocalChangeCodec)
    (config : StoreConfig)
    (actions : List JournalAction) :
    (∀ action offset,
      ((SourceStore.run codec config actions).journal.records.get? offset).isSome →
      (SourceStore.run codec config (actions ++ [action])).journal.records.get? offset = none →
      offset ≤ (SourceStore.run codec config actions).journal.settledThrough ∧
      offset ≤ (SourceStore.run codec config (actions ++ [action])).referenceSafeThrough ∧
      ∀ membership,
        (SourceStore.run codec config (actions ++ [action])).derived.membership =
          some membership →
        ∀ kind, ∀ node ∈ membership.activeNodes, ∃ value,
          (SourceStore.run codec config (actions ++ [action])).derived.checkpointOf
            membership kind node = some value ∧
          offset < value.nextOffset) ∧
    (∀ membership,
      (SourceStore.run codec config actions).derived.membership = some membership →
      ∀ kind, ∀ node ∈ membership.activeNodes, ∃ value,
        (SourceStore.run codec config actions).derived.checkpointOf membership kind node =
          some value ∧
        (SourceStore.run codec config actions).journal.retentionFloor + 1 ≤ value.nextOffset ∧
        value.nextOffset ≤
          (SourceStore.run codec config actions).journal.settledThrough + 1) ∧
    (∀ later membership membership',
      (SourceStore.run codec config actions).derived.membership = some membership →
      (SourceStore.run codec config (actions ++ later)).derived.membership = some membership' →
      membership'.fence = membership.fence →
      membership' = membership ∧
      ∀ kind, ∀ node ∈ membership.activeNodes, ∀ value,
        (SourceStore.run codec config actions).derived.checkpointOf membership kind node =
          some value →
        ∃ value',
          (SourceStore.run codec config (actions ++ later)).derived.checkpointOf
            membership kind node = some value' ∧
          value.nextOffset ≤ value'.nextOffset) ∧
    ∀ membership checkpoint activeNodes,
      (SourceStore.run codec config actions).derived.membership = some membership →
      (FenceBefore checkpoint.observedFence membership.fence ∨
        (checkpoint.observedFence = membership.fence ∧
          activeNodes ≠ membership.activeNodes)) →
      SourceStore.run codec config (actions ++ [.checkpoint checkpoint activeNodes]) =
        SourceStore.run codec config actions := by
  obtain ⟨⟨log, hlog⟩, hdeliveries⟩ := logs_run codec config actions
  refine ⟨?_, consumersWithin_run codec config actions, ?_, ?_⟩
  · intro action offset hstored hpruned
    rw [SourceStore.run_snoc] at hpruned ⊢
    have hmove := journalMove_step hlog hdeliveries action
    obtain ⟨_, hlogs⟩ := hmove.logs
    -- the record was above the floor and within the log, and is not any more
    rw [hlog.records_eq, isSome_get?_retained, List.length_map] at hstored
    have hgone : ¬ ((SourceStore.run codec config actions).step codec config
        action).journal.retentionFloor < offset := by
      intro _
      have hkept : (((SourceStore.run codec config actions).step codec config
          action).journal.records.get? offset).isSome := by
        rw [hlogs.records_eq, isSome_get?_retained, List.length_map, List.length_append]
        omega
      rw [hpruned] at hkept
      cases hkept
    rcases hmove.floor_safe with _ | ⟨_, _, _, _, hsafe, _⟩
    · omega
    refine ⟨by omega, by omega, ?_⟩
    exact passed_of_derivedConsumerSafeThrough hsafe (by omega) (by omega)
  · intro later membership _ hbefore hafter hfence
    rcases checkpointMove_run codec config actions later membership hbefore with
      ⟨hsame, hforward⟩ | ⟨_, hnewer, hlater⟩
    · rw [hsame, Option.some.injEq] at hafter
      exact ⟨hafter.symm, hforward⟩
    obtain rfl := Option.mem_unique hafter hnewer
    rw [hfence] at hlater
    exact absurd hlater (FenceBefore.irrefl _)
  · intro _ _ _ hmembership hstale
    rw [SourceStore.run_snoc]
    simp only [SourceStore.step, SourceStore.applyCheckpoint]
    split
    · rfl
    rename_i derived hstaged
    exact absurd hstaged (stageDerivedConsumerCheckpoint_stale hmembership hstale)

end Keldra.Store
