import Keldra.Consensus.Raft

/-!
# Durable snapshots and the applied journal

The durable store keeps one snapshot and a journal of applied entries by log
index.  A snapshot is built in two steps, a capture of the machine under its
lock and a later save; applying a batch first journals it and then updates the
machine; installing a snapshot replaces both.  `loadMachine` is what a restart
recovers.
-/

namespace Keldra.Consensus

open Foundation

structure SnapshotMeta where
  lastLogId : Option LogId
  lastMembership : StoredMembership
  snapshotId : String
deriving DecidableEq

structure DurableSnapshot where
  header : SnapshotMeta
  data : MachineState
deriving DecidableEq

structure DurableStore where
  config : StorageConfig
  snapshot : Option DurableSnapshot
  applied : OrdMap Nat RaftEntry
deriving DecidableEq

namespace DurableStore

def create (config : StorageConfig) : DurableStore :=
  ⟨config, none, OrdMap.empty⟩

/-- One write batch stores every entry under its log index. -/
def appendApplied (store : DurableStore) (entries : List RaftEntry) : DurableStore :=
  { store with
    applied := entries.foldl (fun applied e => applied.insert e.logId.index e) store.applied }

def scanApplied (store : DurableStore) : List RaftEntry :=
  store.applied.values

/-- One write batch stores the snapshot and drops the journal it covers. -/
def saveSnapshot
    (store : DurableStore) (snapshot : DurableSnapshot) (clearAllApplied : Bool) : DurableStore :=
  let through :=
    if clearAllApplied then some u64Max else snapshot.header.lastLogId.map (·.index)
  { store with
    snapshot := some snapshot
    applied :=
      match through with
      | none => store.applied
      | some through => store.applied.filter (fun e => through < e.1) }

end DurableStore

namespace MachineState

/-- The captured state carries the next snapshot generation. -/
def captureSnapshot (state : MachineState) : MachineState :=
  { state with snapshotGeneration := min (state.snapshotGeneration + 1) u64Max }

/-- The durable form of a captured state. -/
def toSnapshot (state : MachineState) : Except String DurableSnapshot := do
  state.validateClusterMembership
  let index := (state.lastAppliedLogId.map (·.index)).getD 0
  let generation := state.snapshotGeneration
  pure
    { header :=
        { lastLogId := state.lastAppliedLogId
          lastMembership := state.membership
          snapshotId := s!"{index}-{generation}" }
      data := state }

/-- The whole batch must continue the applied log. -/
def validateAppliedEntrySequence (expected : Nat) : List RaftEntry → Except String Unit
  | [] => .ok ()
  | entry :: rest => do
    rejectIf (entry.logId.index ≠ expected) "applied-state journal is not consecutive"
    validateAppliedEntrySequence (min (expected + 1) u64Max) rest

/-- The in-memory half of applying a batch. -/
def applyBatch : MachineState → List RaftEntry → Except String MachineState
  | state, [] => .ok state
  | state, entry :: rest => do
    let (next, _) ← state.applyEntry entry
    applyBatch next rest

/-- Replay of the journal over a restored state skips what it contains. -/
def replayJournal : MachineState → List RaftEntry → Except DecisionRaftError MachineState
  | state, [] => .ok state
  | state, entry :: rest =>
    if state.lastAppliedLogId.any
      (fun last => entry.logId.index ≤ last.index) then
      replayJournal state rest
    else
      match state.applyEntry entry with
      | .error text => .error (.storage text)
      | .ok (next, _) => replayJournal next rest

end MachineState

/-- The state a store's snapshot holds, or the initial one. -/
def restoreBase (store : DurableStore) : Except DecisionRaftError MachineState :=
  match store.snapshot with
  | some snapshot => do
    rejectIf (snapshot.data.lastAppliedLogId ≠ snapshot.header.lastLogId ∨
      snapshot.data.membership ≠ snapshot.header.lastMembership)
      (.storage "durable snapshot body does not match metadata")
    snapshot.data.validateConfig store.config
    return snapshot.data
  | none => (MachineState.new store.config).mapError .rejected

/-- What a restart recovers from the durable store. -/
def loadMachine (store : DurableStore) : Except DecisionRaftError MachineState := do
  let base ← restoreBase store
  let state ← base.replayJournal store.scanApplied
  state.validateClusterMembership.mapError .storage
  return state

def installSnapshotMismatch : String :=
  "snapshot body does not match metadata or fixed cluster configuration"

def installSnapshot (store : DurableStore) (header : SnapshotMeta)
    (data : MachineState) : Except String (DurableStore × MachineState) := do
  rejectIf (data.lastAppliedLogId ≠ header.lastLogId ∨ data.membership ≠ header.lastMembership ∨
    data.decisions.maxCommitEntries ≠ store.config.maxCommitEntries ∨
    data.decisions.maxCommitBytes ≠ store.config.maxCommitBytes)
    installSnapshotMismatch
  data.validateClusterMembership
  return (store.saveSnapshot ⟨header, data⟩ true, data)

end Keldra.Consensus
