import Keldra.Consensus.Restart
import Keldra.Consensus.Journal

/-!
# Snapshot and journal against the in-memory machine

One node as a transition system.  Applying a batch writes the journal and then
updates the machine; a snapshot is captured under the machine lock and saved
later; a received snapshot replaces the durable and the in-memory state; a
crash keeps the durable store only.  The question is what a restart recovers
after any order of these steps.
-/

namespace Keldra.Consensus

open Foundation List MachineState DurableStore Except

structure NodeSystem where
  store : DurableStore
  machine : MachineState
  /-- Captured states whose snapshot is not saved yet. -/
  captures : List MachineState
  /-- A batch that is journaled and not yet applied in memory. -/
  journaled : Option (List RaftEntry)
deriving DecidableEq

inductive NodeAction where
  | journalBatch (entries : List RaftEntry)
  | applyBatch
  | capture
  | save (state : MachineState)
  | install (header : SnapshotMeta) (data : MachineState)
  | crash

namespace NodeSystem

/-- A node on a pristine store. -/
def start (config : StorageConfig) : Except DecisionRaftError NodeSystem := do
  let store := DurableStore.create config
  let machine ← loadMachine store
  return ⟨store, machine, [], none⟩

/-- One step of the node; `none` where the code does not take it. -/
def step (sys : NodeSystem) : NodeAction → Option NodeSystem
  | .journalBatch entries =>
    match sys.journaled, MachineState.validateAppliedEntrySequence
      sys.machine.expectedIndex entries with
    | none, .ok () =>
      some
        { sys with store := sys.store.appendApplied entries, journaled := some entries }
    | _, _ => none
  | .applyBatch =>
    match sys.journaled with
    | none => none
    | some entries =>
      match sys.machine.applyBatch entries with
      | .ok machine => some { sys with machine := machine, journaled := none }
      | .error _ => none
  | .capture =>
    let captured := sys.machine.captureSnapshot
    some
      { sys with machine := captured, captures := captured :: sys.captures }
  | .save state =>
    if state ∈ sys.captures then
      match state.toSnapshot with
      | .ok snapshot =>
        some
          { sys with
            store := sys.store.saveSnapshot snapshot false
            captures := sys.captures.erase state }
      | .error _ => some { sys with captures := sys.captures.erase state }
    else
      none
  | .install header data =>
    match sys.journaled, installSnapshot sys.store header data with
    | none, .ok (store, machine) => some { sys with store := store, machine := machine }
    | _, _ => none
  | .crash =>
    match loadMachine sys.store with
    | .ok machine => some ⟨sys.store, machine, [], none⟩
    | .error _ => none

def run (sys : NodeSystem) : List NodeAction → Option NodeSystem
  | [] => some sys
  | action :: rest => sys.step action >>= fun next => next.run rest

/-- The machine once the journaled batch, if any, is applied. -/
def target (sys : NodeSystem) : Except String MachineState :=
  match sys.journaled with
  | none => .ok sys.machine
  | some entries => sys.machine.applyBatch entries

/--
A step in the order the recovery relies on: batches in index order with a
result that passes the cross-check, saves of captures that the durable snapshot
is not ahead of, and installs that are ahead of the machine.
-/
def Orderly (sys : NodeSystem) : NodeAction → Prop
  | .journalBatch entries =>
    sys.machine.InOrder entries ∧ ∀ after, sys.machine.applyBatch entries = .ok after →
      after.validateClusterMembership = .ok ()
  | .save state =>
    ∀ snapshot, sys.store.snapshot = some snapshot → snapshot.data.nextIndex ≤ state.nextIndex
  | .install _ data => sys.machine.nextIndex < data.nextIndex
  | _ => True

/-- Every step of the run is orderly in the state it is taken in. -/
def OrderlyRun (sys : NodeSystem) : List NodeAction → Prop
  | [] => True
  | action :: rest =>
    sys.Orderly action ∧ ∀ next, sys.step action = some next → next.OrderlyRun rest

/-- In a log whose membership entries hold, a batch in index order is orderly exactly when it
does not end in the window of the first admission. -/
theorem orderly_journalBatch_iff {sys : NodeSystem} {library : RaftLibrary}
    {config : StorageConfig} {log entries : List RaftEntry} {after : MachineState}
    (happly : sys.machine.applyBatch entries = .ok after)
    (hlog : CommittedLog library config (EntryHolds library) log after) :
    sys.Orderly (.journalBatch entries) ↔
      sys.machine.InOrder entries ∧ ¬ GenesisWindow after.decisions.clusterControl := by
  rw [← hlog.validate_iff]
  constructor
  · rintro ⟨horder, hvalid⟩
    exact ⟨horder, hvalid after happly⟩
  · rintro ⟨horder, hvalid⟩
    refine ⟨horder, fun other hother => ?_⟩
    rwa [← Except.ok.inj (happly.symm.trans hother)]

end NodeSystem

/-- Replaying the journal from a state leads to the target. -/
def LeadsTo (store : DurableStore) (goal state : MachineState) : Prop :=
  ∃ after, state.replayJournal store.scanApplied = .ok after ∧ after.SameUpToGeneration goal

variable {goal state : MachineState} {entries : List RaftEntry} {snapshot : DurableSnapshot}

section

variable {store : DurableStore} {goal' state' : MachineState}

theorem LeadsTo.goal_same (h : LeadsTo store goal state) (hsame : goal.SameUpToGeneration goal') :
    LeadsTo store goal' state := by
  obtain ⟨after, hreplay, hafter⟩ := h
  exact ⟨after, hreplay, hafter.trans hsame⟩

theorem LeadsTo.state_same
    (h : LeadsTo store goal state) (hsame : state.SameUpToGeneration state') :
    LeadsTo store goal state' := by
  obtain ⟨_, hreplay, hafter⟩ := h
  obtain ⟨after', hreplay', hsame'⟩ := hsame.replayJournal hreplay
  exact ⟨after', hreplay', hsame'.symm.trans hafter⟩

/-- Journaling a batch moves the goal of every state that led to it. -/
theorem LeadsTo.appendApplied (h : LeadsTo store goal state) (hscan :
    (store.appendApplied entries).scanApplied = store.scanApplied ++ entries)
    (hreplay : goal.replayJournal entries = .ok goal') :
    LeadsTo (store.appendApplied entries) goal' state := by
  obtain ⟨_, hfirst, hafter⟩ := h
  obtain ⟨after', hsecond, hsame⟩ := hafter.symm.replayJournal hreplay
  refine ⟨after', ?_, hsame.symm⟩
  rw [hscan, replayJournal_append, hfirst]
  exact hsecond

/-- The journal a saved snapshot keeps is the part beyond it. -/
theorem scanApplied_saveSnapshot (hfiled : store.Filed)
    (hlog : snapshot.header.lastLogId = snapshot.data.lastAppliedLogId)
    (hle : snapshot.data.nextIndex ≤ state.nextIndex) :
    state.replayJournal (store.saveSnapshot snapshot false).scanApplied =
    state.replayJournal store.scanApplied := by
  unfold saveSnapshot scanApplied
  unfold nextIndex at hle
  rw [hlog]
  cases hlast : snapshot.data.lastAppliedLogId with
  | none => rfl
  | some last =>
    rw [hlast] at hle
    have hscan : (store.applied.filter (fun e => last.index < e.1)).values =
      store.applied.values.filter (fun e => last.index < e.logId.index) := by
      unfold OrdMap.values OrdMap.filter
      rw [filter_map]
      congr 1
      apply filter_congr
      intro e he
      simp [hfiled e he]
    change state.replayJournal (store.applied.filter (fun e => last.index < e.1)).values = _
    rw [hscan]
    exact replayJournal_filter hle

end

/-- What the durable store and the node agree on between any two steps. -/
structure RecoveryInv
    (config : StorageConfig) (sys : NodeSystem) (base goal : MachineState) : Prop where
  target : sys.target = .ok goal
  validated : goal.validateClusterMembership = .ok ()
  storeConfig : sys.store.config = config
  configured : sys.machine.Configured config
  restored : restoreBase sys.store = .ok base
  baseConfigured : base.Configured config
  baseLeads : LeadsTo sys.store goal base
  baseLe : base.nextIndex ≤ sys.machine.nextIndex
  machineLeads : LeadsTo sys.store goal sys.machine
  machineLe : sys.machine.nextIndex ≤ goal.nextIndex
  captures : ∀ c ∈ sys.captures, c.Configured config ∧ c.nextIndex ≤ sys.machine.nextIndex ∧
      (base.nextIndex ≤ c.nextIndex → LeadsTo sys.store goal c)
  filed : sys.store.Filed
  contained : ∀ e ∈ sys.store.applied.entries, e.1 < goal.nextIndex ∧ e.1 ≤ u64Max

variable {config : StorageConfig} {sys next : NodeSystem} {action : NodeAction}
  {actions : List NodeAction}

namespace RecoveryInv

variable {base : MachineState} {machine : MachineState}

/-- A restart recovers the target, up to the snapshot generation. -/
theorem recovers (h : RecoveryInv config sys base goal) :
    ∃ m, loadMachine sys.store = .ok m ∧ m.SameUpToGeneration goal ∧
    base.replayJournal sys.store.scanApplied = .ok m := by
  obtain ⟨after, hreplay, hsame⟩ := h.baseLeads
  refine ⟨after, ?_, hsame, hreplay⟩
  have hvalid : after.validateClusterMembership = .ok () := hsame.validate.trans h.validated
  simp [loadMachine, h.restored, hreplay, hvalid, Except.mapError]

theorem ofStart (hstart : NodeSystem.start config = .ok sys) :
    ∃ base goal, RecoveryInv config sys base goal := by
  simp only [NodeSystem.start, ok_rules] at hstart
  obtain ⟨_, hload, rfl⟩ := hstart
  simp only [loadMachine, ok_rules] at hload
  obtain ⟨base, hbase, _, hreplay, hvalid, rfl⟩ := hload
  have hscan : (create config).scanApplied = [] := rfl
  obtain rfl := ok.inj hreplay
  have hnew : MachineState.new config = .ok base := mapError_eq_ok.mp hbase
  have hconfigured := configured_new hnew
  have hleads : LeadsTo (create config) base base := ⟨base, rfl, .rfl⟩
  exact ⟨base, base,
    { target := rfl
      validated := mapError_eq_ok.mp hvalid
      storeConfig := rfl
      configured := hconfigured
      restored := hbase
      baseConfigured := hconfigured
      baseLeads := hleads
      baseLe := Nat.le_refl _
      machineLeads := hleads
      machineLe := Nat.le_refl _
      captures := fun c hc => absurd hc not_mem_nil
      filed := fun e he => absurd he not_mem_nil
      contained := fun e he => absurd he not_mem_nil }⟩

section

variable (h : RecoveryInv config sys base goal)

include h

/-- A batch is written to the journal. -/
theorem journalBatch (hidle : sys.journaled = none) (hsequence :
      MachineState.validateAppliedEntrySequence sys.machine.expectedIndex entries = .ok ())
    (hordered : sys.Orderly (.journalBatch entries)) :
    ∃ goal', RecoveryInv config
      { sys with store := sys.store.appendApplied entries, journaled := some entries }
      base goal' := by
  obtain ⟨horder, hvalid⟩ := hordered
  have hgoal : sys.machine = goal := by
    have htarget := h.target
    rw [NodeSystem.target, hidle] at htarget
    exact ok.inj htarget
  obtain ⟨after, happly, hreplay, hle, hrange⟩ :=
    applyBatch_of_sequence hsequence horder
  have hbeyond : ∀ e ∈ sys.store.applied.entries, ∀ entry ∈ entries, e.1 < entry.logId.index := by
    intro e he entry hentry
    have hlt := (h.contained e he).1
    have hge := horder.2 entry hentry
    rw [hgoal] at hge
    omega
  have hscan := scanApplied_appendApplied horder.1 hbeyond
  rw [hgoal] at hreplay
  refine ⟨after, ?_⟩
  exact
    { h with
      target := happly
      validated := hvalid after happly
      baseLeads := h.baseLeads.appendApplied hscan hreplay
      machineLeads := h.machineLeads.appendApplied hscan hreplay
      machineLe := hle
      captures := by
        intro c hc
        obtain ⟨hconfig, hcle, hleads⟩ := h.captures c hc
        exact ⟨hconfig, hcle, fun hbase => (hleads hbase).appendApplied hscan hreplay⟩
      filed := h.filed.appendApplied horder.1 hbeyond
      contained := by
        intro e he
        rw [appendApplied_entries horder.1 hbeyond] at he
        rcases mem_append.mp he with hold | hnew
        · have hold := h.contained e hold
          rw [← hgoal] at hold
          exact ⟨hold.1.trans_le hle, hold.2⟩
        obtain ⟨entry, hentry, rfl⟩ := mem_map.mp hnew
        exact hrange entry hentry }

/-- The journaled batch is applied in memory. -/
theorem applyBatch (hjournaled : sys.journaled = some entries)
    (happly : sys.machine.applyBatch entries = .ok machine) :
    RecoveryInv config { sys with machine := machine, journaled := none } base goal := by
  have hgoal : machine = goal := by
    have htarget := h.target
    rw [NodeSystem.target, hjournaled] at htarget
    exact ok.inj (happly.symm.trans htarget)
  subst hgoal
  exact
    { h with
      target := rfl
      configured := h.configured.applyBatch happly
      baseLe := h.baseLe.trans h.machineLe
      machineLeads := by
        refine ⟨machine, replayJournal_contained ?_, .rfl⟩
        intro e he
        obtain ⟨pair, hpair, rfl⟩ := mem_map.mp he
        rw [← h.filed pair hpair]
        exact (h.contained pair hpair).1
      machineLe := Nat.le_refl _
      captures := by
        intro c hc
        obtain ⟨hconfig, hcle, hleads⟩ := h.captures c hc
        exact ⟨hconfig, hcle.trans h.machineLe, hleads⟩ }

/-- A snapshot is captured from the machine. -/
theorem capture : ∃ goal', RecoveryInv config
      { sys with
        machine := sys.machine.captureSnapshot
        captures := sys.machine.captureSnapshot :: sys.captures }
      base goal' := by
  have hsame := captureSnapshot_same sys.machine
  have htarget : ∃ goal',
        ({ sys with
          machine := sys.machine.captureSnapshot
          captures := sys.machine.captureSnapshot ::
            sys.captures } : NodeSystem).target = .ok goal' ∧
          goal.SameUpToGeneration goal' := by
    have hold := h.target
    unfold NodeSystem.target at hold ⊢
    cases hjournaled : sys.journaled with
    | none =>
      rw [hjournaled] at hold
      obtain rfl := ok.inj hold
      exact ⟨_, rfl, hsame.symm⟩
    | some entries =>
      rw [hjournaled] at hold
      change sys.machine.applyBatch entries = .ok goal at hold
      have hregenerate := applyBatch_regenerate sys.machine entries
          (min (sys.machine.snapshotGeneration + 1) u64Max)
      rw [hold] at hregenerate
      exact ⟨_, hregenerate, Eq.refl _⟩
  obtain ⟨goal', htarget, hgoal⟩ := htarget
  refine ⟨goal', ?_⟩
  have hmachine : LeadsTo sys.store goal' sys.machine.captureSnapshot :=
    (h.machineLeads.goal_same hgoal).state_same hsame.symm
  exact
    { h with
      target := htarget
      validated := hgoal.validate.symm.trans h.validated
      configured := h.configured
      baseLeads := h.baseLeads.goal_same hgoal
      machineLeads := hmachine
      machineLe := hgoal.nextIndex ▸ h.machineLe
      captures := by
        intro c hc
        rcases mem_cons.mp hc with rfl | hc
        · exact ⟨h.configured, Nat.le_refl _, fun _ => hmachine⟩
        obtain ⟨hconfig, hcle, hleads⟩ := h.captures c hc
        exact ⟨hconfig, hcle, fun hbase => (hleads hbase).goal_same hgoal⟩
      contained := by
        rw [← hgoal.nextIndex]
        exact h.contained }

/-- A captured snapshot is saved while the durable one is not ahead of it. -/
theorem save (hmem : state ∈ sys.captures) (hsnapshot : state.toSnapshot = .ok snapshot)
    (hle : base.nextIndex ≤ state.nextIndex) :
    RecoveryInv config
      { sys with
        store := sys.store.saveSnapshot snapshot false
        captures := sys.captures.erase state }
      state goal := by
  obtain ⟨hdata, hlog, hmembership⟩ := toSnapshot_facts hsnapshot
  obtain ⟨hconfigured, hstateLe, hleads⟩ := h.captures state hmem
  have hkeep : ∀ x, state.nextIndex ≤ x.nextIndex → LeadsTo sys.store goal x →
        LeadsTo (sys.store.saveSnapshot snapshot false) goal x := by
    rintro x hx ⟨after, hreplay, hsame⟩
    refine ⟨after, ?_, hsame⟩
    rw [scanApplied_saveSnapshot h.filed (hlog.trans (hdata ▸ rfl)) (hdata.symm ▸ hx)]
    exact hreplay
  have hsub : ∀ e ∈ (sys.store.saveSnapshot snapshot false).applied.entries,
        e ∈ sys.store.applied.entries := by
    intro e he
    unfold saveSnapshot at he
    dsimp only at he
    split at he
    · exact he
    · exact (mem_filter.mp he).1
  exact
    { h with
      restored := by
        refine (restoreBase_eq_ok rfl).mpr ⟨⟨?_, ?_⟩, ?_, hdata⟩
        · rw [hdata, hlog]
        · rw [hdata, hmembership]
        rw [hdata]
        exact h.storeConfig.symm ▸ hconfigured
      baseConfigured := hconfigured
      baseLeads := hkeep state (Nat.le_refl _) (hleads hle)
      baseLe := hstateLe
      machineLeads := hkeep sys.machine hstateLe h.machineLeads
      captures := by
        intro c hc
        obtain ⟨hconfig, hcle, hcleads⟩ := h.captures c (mem_of_mem_erase hc)
        exact ⟨hconfig, hcle, fun hstate => hkeep c hstate (hcleads (hle.trans hstate))⟩
      filed := fun e he => h.filed e (hsub e he)
      contained := fun e he => h.contained e (hsub e he) }

/-- A snapshot that could not be encoded is dropped. -/
theorem dropCapture (state : MachineState) :
    RecoveryInv config { sys with captures := sys.captures.erase state } base goal :=
  { h with target := h.target, captures := fun c hc => h.captures c (mem_of_mem_erase hc) }

/-- A received snapshot ahead of the machine replaces everything. -/
theorem install {header : SnapshotMeta} {data : MachineState}
    (hidle : sys.journaled = none) (hheader :
      data.lastAppliedLogId = header.lastLogId ∧ data.membership = header.lastMembership ∧
        data.Configured sys.store.config)
    (hvalid : data.validateClusterMembership = .ok ())
    (hahead : sys.machine.nextIndex < data.nextIndex) :
    RecoveryInv config
      { sys with store := sys.store.saveSnapshot ⟨header, data⟩ true, machine := data }
      data data := by
  obtain ⟨hlog, hmembership, hconfigured⟩ := hheader
  have hempty : (sys.store.saveSnapshot ⟨header, data⟩ true).applied.entries = [] := by
    refine filter_eq_nil_iff.mpr ?_
    intro e he
    have hle := (h.contained e he).2
    simp only [decide_eq_true_eq]
    omega
  have hscan : (sys.store.saveSnapshot ⟨header, data⟩ true).scanApplied = [] := by
    unfold scanApplied OrdMap.values
    rw [hempty]
    rfl
  have hleads : LeadsTo (sys.store.saveSnapshot ⟨header, data⟩ true) data data := by
    refine ⟨data, ?_, .rfl⟩
    rw [hscan]
    rfl
  have hconfig : data.Configured config := h.storeConfig ▸ hconfigured
  exact
    { target := by
        unfold NodeSystem.target
        simp only [hidle]
      validated := hvalid
      storeConfig := h.storeConfig
      configured := hconfig
      restored := (restoreBase_eq_ok rfl).mpr ⟨⟨hlog, hmembership⟩, hconfigured, rfl⟩
      baseConfigured := hconfig
      baseLeads := hleads
      baseLe := Nat.le_refl _
      machineLeads := hleads
      machineLe := Nat.le_refl _
      captures := by
        -- every capture is behind the installed snapshot
        intro c hc
        obtain ⟨hcconfig, _⟩ := h.captures c hc
        have hbehind : c.nextIndex < data.nextIndex := by omega
        exact ⟨hcconfig, hbehind.le, fun hle => by omega⟩
      filed := by
        intro e he
        rw [show _ = [] from hempty] at he
        cases he
      contained := by
        intro e he
        rw [show _ = [] from hempty] at he
        cases he }

/-- A restart continues from what it recovered. -/
theorem crash (hload : loadMachine sys.store = .ok machine) :
    RecoveryInv config ⟨sys.store, machine, [], none⟩ base machine := by
  obtain ⟨m, hm, hsame, hreplay⟩ := h.recovers
  obtain rfl := ok.inj (hload.symm.trans hm)
  have hcontained : ∀ e ∈ sys.store.applied.entries, e.1 < machine.nextIndex ∧ e.1 ≤ u64Max := by
    rw [hsame.nextIndex]
    exact h.contained
  exact
    { h with
      target := rfl
      validated := hsame.validate.trans h.validated
      configured := h.baseConfigured.replayJournal hreplay
      baseLeads := ⟨machine, hreplay, .rfl⟩
      baseLe := by
        rw [hsame.nextIndex]
        exact h.baseLe.trans h.machineLe
      machineLeads := by
        refine ⟨machine, replayJournal_contained ?_, .rfl⟩
        intro e he
        obtain ⟨pair, hpair, rfl⟩ := mem_map.mp he
        rw [← h.filed pair hpair]
        exact (hcontained pair hpair).1
      machineLe := Nat.le_refl _
      captures := fun c hc => absurd hc not_mem_nil
      contained := hcontained }

/-- A durable snapshot is the base, and a pristine store starts at index 0. -/
theorem base_le (hordered : sys.Orderly (.save state)) : base.nextIndex ≤ state.nextIndex := by
  cases hsnapshot : sys.store.snapshot with
  | some snapshot =>
    obtain ⟨_, _, rfl⟩ := (restoreBase_eq_ok hsnapshot).mp h.restored
    exact hordered snapshot hsnapshot
  | none =>
    have hrestored := h.restored
    simp only [restoreBase, hsnapshot, mapError_eq_ok, MachineState.new, ok_rules] at hrestored
    obtain ⟨_, _, rfl⟩ := hrestored
    exact Nat.zero_le _

/-- Each orderly step keeps the store recoverable. -/
theorem step (hordered : sys.Orderly action) (hstep : sys.step action = some next) :
    ∃ base' goal', RecoveryInv config next base' goal' := by
  cases action with
  | journalBatch =>
    simp only [NodeSystem.step] at hstep
    split at hstep
    · rename_i hidle hsequence
      obtain rfl := Option.some.inj hstep
      exact ⟨base, h.journalBatch hidle hsequence hordered⟩
    · cases hstep
  | applyBatch =>
    simp only [NodeSystem.step] at hstep
    cases hjournaled : sys.journaled with
    | none => simp [hjournaled] at hstep
    | some entries =>
      cases happly : sys.machine.applyBatch entries with
      | error => simp [hjournaled, happly] at hstep
      | ok =>
        simp only [hjournaled, happly, Option.some.injEq] at hstep
        subst hstep
        exact ⟨base, goal, h.applyBatch hjournaled happly⟩
  | capture =>
    obtain rfl := Option.some.inj hstep
    exact ⟨base, h.capture⟩
  | save state =>
    simp only [NodeSystem.step] at hstep
    split at hstep
    · rename_i hmem
      cases hsnapshot : state.toSnapshot with
      | ok =>
        simp only [hsnapshot, Option.some.injEq] at hstep
        subst hstep
        exact ⟨state, goal, h.save hmem hsnapshot (h.base_le hordered)⟩
      | error =>
        simp only [hsnapshot, Option.some.injEq] at hstep
        subst hstep
        exact ⟨base, goal, h.dropCapture state⟩
    · cases hstep
  | install _ data =>
    simp only [NodeSystem.step] at hstep
    split at hstep
    · rename_i store machine hidle hinstall
      obtain ⟨hheader, hvalid, hresult⟩ := installSnapshot_eq_ok.mp hinstall
      obtain ⟨rfl, rfl⟩ := Prod.mk.inj hresult
      obtain rfl := Option.some.inj hstep
      exact ⟨data, data, h.install hidle hheader hvalid hordered⟩
    · cases hstep
  | crash =>
    simp only [NodeSystem.step] at hstep
    cases hload : loadMachine sys.store with
    | error => simp [hload] at hstep
    | ok machine =>
      simp only [hload, Option.some.injEq] at hstep
      subst hstep
      exact ⟨base, machine, h.crash hload⟩

/-- An orderly run keeps the store recoverable. -/
theorem run (hordered : sys.OrderlyRun actions) (hrun : sys.run actions = some next) :
    ∃ base' goal', RecoveryInv config next base' goal' := by
  induction actions generalizing sys base goal with
  | nil =>
    obtain rfl := Option.some.inj hrun
    exact ⟨base, goal, h⟩
  | cons _ _ ih =>
    obtain ⟨hfirst, hrest⟩ := hordered
    obtain ⟨middle, hstep, hrun⟩ := Option.bind_eq_some_iff.mp hrun
    obtain ⟨_, _, hmiddle⟩ := h.step hfirst hstep
    exact ih hmiddle (hrest middle hstep) hrun

end

end RecoveryInv

/--
After every orderly run, a restart recovers the in-memory machine with the
journaled batch, if there is one, applied to it, up to the snapshot generation.
-/
theorem snapshot_journal_recovers {config : StorageConfig} {sys next : NodeSystem}
    {actions : List NodeAction} (hstart : NodeSystem.start config = .ok sys)
    (hordered : sys.OrderlyRun actions) (hrun : sys.run actions = some next) :
    ∃ m goal, loadMachine next.store = .ok m ∧
    next.target = .ok goal ∧ m.SameUpToGeneration goal := by
  obtain ⟨_, _, h⟩ := RecoveryInv.ofStart hstart
  obtain ⟨_, goal', hnext⟩ := h.run hordered hrun
  obtain ⟨m, hload, hsame, _⟩ := hnext.recovers
  exact ⟨m, goal', hload, hnext.target, hsame⟩

/-- A node on a pristine store. -/
def pristineNode : NodeSystem := ⟨DurableStore.create ⟨4, 65536⟩,
    ⟨.initial 4 65536, none, StoredMembership.default, 0⟩, [], none⟩

def genesisEntry : RaftEntry := ⟨sampleLogId 0, .membership (ensureOneNode 1)⟩

def clusterEntry : RaftEntry := ⟨sampleLogId 1, .normal (.initializeCluster ⟨5⟩)⟩

/-- The machine after the genesis entry. -/
def genesisMachine : MachineState := (pristineNode.machine.advance genesisEntry).1

/-- The machine after the genesis and the cluster entry, as a leader has it. -/
def leaderMachine : MachineState := (genesisMachine.advance clusterEntry).1

/-- A snapshot is captured and saved before the next batch is journaled. -/
def promptSave : List NodeAction := [.journalBatch [genesisEntry], .applyBatch, .capture,
    .save genesisMachine.captureSnapshot, .journalBatch [clusterEntry]]

/-- A snapshot is captured, and saved after the leader's was installed. -/
def lateSave : List NodeAction := [.journalBatch [genesisEntry], .applyBatch, .capture, .install
      ⟨leaderMachine.lastAppliedLogId, leaderMachine.membership, "1-1"⟩
      leaderMachine,
    .save genesisMachine.captureSnapshot]

/-- The node after a sample run that it can take. -/
def nodeAfter (actions : List NodeAction) : NodeSystem :=
  (pristineNode.run actions).getD pristineNode

theorem NodeSystem.OrderlyRun.cons {rest : List NodeAction} (hfirst : sys.Orderly action)
    (hstep : sys.step action = some next) (hrest : next.OrderlyRun rest) :
    sys.OrderlyRun (action :: rest) := by
  refine ⟨hfirst, ?_⟩
  intro _ hother
  obtain rfl := Option.some.inj (hstep.symm.trans hother)
  exact hrest

theorem orderly_journalBatch {entry : RaftEntry}
    (after : MachineState)
    (hindex : sys.machine.nextIndex ≤ entry.logId.index)
    (happly : sys.machine.applyBatch [entry] = .ok after)
    (hvalid : after.validateClusterMembership = .ok ()) : sys.Orderly (.journalBatch [entry]) := by
  refine ⟨⟨pairwise_singleton _ _, ?_⟩, ?_⟩
  · intro e he
    rw [mem_singleton.mp he]
    exact hindex
  intro _ hother
  obtain rfl := ok.inj (happly.symm.trans hother)
  exact hvalid

/-- With the journaled cluster entry, the sample node recovers that entry. -/
theorem snapshot_journal_recovers_promptSave : pristineNode.OrderlyRun promptSave ∧ ∃ m goal,
    loadMachine (nodeAfter promptSave).store = .ok m ∧ (nodeAfter promptSave).target = .ok goal ∧
    m.SameUpToGeneration goal := by
  have hordered : pristineNode.OrderlyRun promptSave := by
    refine .cons (orderly_journalBatch genesisMachine ?_ ?_ ?_) rfl ?_
    · decide +kernel
    · decide +kernel
    · decide +kernel
    refine .cons trivial rfl (.cons trivial rfl (.cons ?_ rfl ?_))
    · intro _ hsnapshot
      cases hsnapshot
    refine .cons (orderly_journalBatch leaderMachine.captureSnapshot ?_ ?_ ?_) rfl trivial
    · decide +kernel
    · decide +kernel
    · decide +kernel
  exact ⟨hordered, snapshot_journal_recovers (rfl : NodeSystem.start ⟨4, 65536⟩ = .ok pristineNode)
    hordered (by decide +kernel)⟩

/--
The late save replaces the installed snapshot by the older capture: a restart
goes back before the installed state, and once the next entry is journaled it
fails.
-/
theorem late_save_loses_installed_snapshot : NodeSystem.start ⟨4, 65536⟩ = .ok pristineNode ∧
    pristineNode.run lateSave = some (nodeAfter lateSave) ∧
    loadMachine (nodeAfter lateSave).store = .ok genesisMachine.captureSnapshot ∧
    (nodeAfter lateSave).target = .ok leaderMachine ∧
    ¬ genesisMachine.captureSnapshot.SameUpToGeneration leaderMachine ∧
    ((nodeAfter lateSave).step (.journalBatch [⟨sampleLogId 2, .blank⟩])).map
    (fun next => loadMachine next.store) =
    some (.error (.storage "applied-state journal is not consecutive")) := by
  refine ⟨rfl, ?_, ?_, ?_, ?_, ?_⟩
  · decide +kernel
  · decide +kernel
  · decide +kernel
  · decide +kernel
  · decide +kernel

end Keldra.Consensus
