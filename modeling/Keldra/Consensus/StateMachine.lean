import Keldra.Foundation.Run
import Keldra.Consensus.ClusterControl

/-!
# The decision state machine

`apply` is the deterministic transition function of the replicated log.  A
command returns the state it leaves behind together with its outcome.  One
command edits the state before it fails: beginning a batch prunes expired
replay entries first, and the lookup or the preparation after it may still be
rejected.
-/

namespace Keldra.Consensus

open Foundation ApplyError

/-- The state a command leaves behind, and what it reports. -/
abbrev Outcome := StateMachine × Except ApplyError ApplyResult

/-!
Sizes under the fixed-width binary codec: integers take their width, a digest
32 bytes, an enumeration a four-byte tag, a map an eight-byte length.
-/

def maxEncodedBytes : Nat := 64 * 1024 * 1024

def AtomicBundleAuthority.encodedLen : AtomicBundleAuthority → Nat
  | .storedProgram _ _ => 4 + 32 + 32
  | .builtInObjectTransaction _ _ => 4 + 2 + 2

def CommittedBatch.encodedLen (batch : CommittedBatch) : Nat :=
  8 + 8 + 8 + 8 + batch.authority.encodedLen + (32 + 8) + 32 + 32 + 32

def CommittedInvocation.encodedLen (invocation : CommittedInvocation) : Nat :=
  32 + 32 + 8 + 8 + invocation.committedBatch.encodedLen

/-- Size of a map without entries. -/
def emptyMapEncodedLen : Nat := 8

def committedInvocationEntryBytes
    (_commitCursor : Nat) (invocation : CommittedInvocation) : Except ApplyError Nat := do
  rejectIf (8 + invocation.encodedLen > maxEncodedBytes) .committedInvocationEncodingFailed
  return 8 + invocation.encodedLen

def validateNode (node : NodeId) : Except ApplyError Unit :=
  rejectIf (¬ (1 ≤ node ∧ node ≤ maxRaftNodeId)) .invalidNodeId

def validateClusterId (clusterId : ClusterId) : Except ApplyError Unit :=
  rejectIf (clusterId.bytes = 0) .invalidClusterId

def validateAuthority (authority : AtomicBundleAuthority) : Except ApplyError Unit :=
  match authority with
  | .storedProgram programPathHash programHash =>
    rejectIf (¬ (programPathHash.bytes ≠ 0 ∧ programHash.bytes ≠ 0)) .invalidBundleAuthority
  | .builtInObjectTransaction kind contractVersion =>
    rejectIf (¬ (kind ≠ 0 ∧ contractVersion ≠ 0)) .invalidBundleAuthority

def validateBeginBatch (batch : BeginBatch) : Except ApplyError Unit := do
  validateNode batch.executor
  validateAuthority batch.authority
  rejectIf (batch.invocationId.bytes = 0) .invalidInvocationId
  rejectIf (batch.inputFingerprint.bytes = 0) .invalidInvocationFingerprint
  rejectIf (batch.bundleRef.hash = 0 ∨ batch.bundleRef.length = 0) .invalidBundleRef
  rejectIf (batch.durabilityClass.bytes = 0) .invalidDurabilityClass
  rejectIf (batch.durabilityEvidenceHash.bytes = 0) .invalidDurabilityEvidenceHash
  rejectIf (batch.participantManifestHash.bytes = 0) .invalidParticipantManifestHash
  rejectIf (batch.proposalAtUnixMillis = 0) .invalidProposalTime
  rejectIf (checkedAdd64 batch.proposalAtUnixMillis atomicReplayRetentionMillis ≠
    some batch.replayExpiresAtUnixMillis)
    .invalidReplayExpiry

def validatePreparedIdentity
    (prepared : PreparedBatch) (executor : NodeId) (nominationLogIndex : Nat) (beginCursor : Nat)
    (invocationId : InvocationId) (participantManifestHash : ParticipantManifestHash) :
    Except ApplyError Unit :=
  rejectIf (prepared.beginCursor ≠ beginCursor ∨ prepared.request.executor ≠ executor ∨
    prepared.request.nominationLogIndex ≠ nominationLogIndex ∨
    prepared.request.invocationId ≠ invocationId ∨
    prepared.request.participantManifestHash ≠ participantManifestHash)
    .preparedBatchIdentityMismatch

def replay (committed : CommittedInvocation)
    (requested : BeginBatch) : Except ApplyError CommittedInvocation := do
  rejectIf (committed.committedBatch.authority ≠ requested.authority ∨
    committed.inputFingerprint ≠ requested.inputFingerprint ∨
    committed.committedBatch.participantManifestHash ≠ requested.participantManifestHash)
    (.idempotencyConflict requested.invocationId)
  return committed

/-- A renomination hands the preparing transaction to the new executor. -/
def PreparedBatch.transfer
    (prepared : PreparedBatch) (nomination : ExecutorNomination) : PreparedBatch :=
  { prepared with
    request :=
      { prepared.request with
        executor := nomination.executor
        nominationLogIndex := nomination.nominationLogIndex } }

/-- The decision that committing the prepared batch would record. -/
def PreparedBatch.decision
    (prepared : PreparedBatch) (committedLogIndex : Nat) : CommittedInvocation :=
  let batch := prepared.request
  { invocationId := batch.invocationId
    inputFingerprint := batch.inputFingerprint
    proposalAtUnixMillis := batch.proposalAtUnixMillis
    replayExpiresAtUnixMillis := batch.replayExpiresAtUnixMillis
    committedBatch :=
      { commitCursor := committedLogIndex
        executor := batch.executor
        nominationLogIndex := batch.nominationLogIndex
        beginCursor := prepared.beginCursor
        authority := batch.authority
        bundleRef := batch.bundleRef
        durabilityClass := batch.durabilityClass
        durabilityEvidenceHash := batch.durabilityEvidenceHash
        participantManifestHash := batch.participantManifestHash } }

namespace StateMachine

/-- The state before any command. -/
def initial (maxCommitEntries maxCommitBytes : Nat) : StateMachine where
  maxCommitEntries := maxCommitEntries
  maxCommitBytes := maxCommitBytes
  clusterId := none
  systemBootstrap := .missing
  clusterControl := ClusterControlState.default
  executor := none
  preparingBatch := none
  committedInvocations := OrdMap.empty
  committedInvocationBytes := emptyMapEncodedLen
  lastCommitCursor := none
  finalizedThrough := none

def new (maxCommitEntries maxCommitBytes : Nat) : Except ApplyError StateMachine := do
  rejectIf (maxCommitEntries = 0) .invalidCommitEntryLimit
  rejectIf (maxCommitBytes = 0) .invalidCommitByteLimit
  return initial maxCommitEntries maxCommitBytes

section

variable (s : StateMachine)

/-- The retained entries after the finalization cursor, in cursor order. -/
def unfinalizedEntries : List (Nat × CommittedInvocation) :=
  s.committedInvocations.entries.filter (fun e => s.finalizedThrough.getD 0 < e.1)

/-- Unfinalized decisions in their one global Raft commit order. -/
def unfinalizedInvocations : List CommittedInvocation :=
  s.unfinalizedEntries.map Prod.snd

def unfinalizedCommitLen : Nat :=
  s.unfinalizedInvocations.length

end

/-- One accumulation step of the recovery-tail size. -/
def addEntryBytes (total : Nat) (e : Nat × CommittedInvocation) : Except ApplyError Nat := do
  let bytes ← committedInvocationEntryBytes e.1 e.2
  okOr (checkedAdd64 total bytes) .commitTailByteCountExhausted

section

variable (s : StateMachine)

def unfinalizedCommitBytes : Except ApplyError Nat :=
  s.unfinalizedEntries.foldlM addEntryBytes 0

def committedInvocationLen : Nat :=
  s.committedInvocations.size

def initializeCluster (clusterId : ClusterId) : Edit := do
  let s ← get
  validateClusterId clusterId
  match s.clusterId with
  | some current =>
    rejectIf (current ≠ clusterId) (clusterIdentityConflict current clusterId)
    return .clusterInitialized current
  | none =>
    modify fun s => { s with
      clusterId := some clusterId
      clusterControl :=
        { s.clusterControl with activeProtocolVersion := 1, activeStorageFormat := 1 } }
    return .clusterInitialized clusterId

def requireExecutor (executor : NodeId) (nominationLogIndex : Nat) : Except ApplyError Unit := do
  validateNode executor
  let current ← okOr s.executor .executorNotNominated
  rejectIf (current.executor ≠ executor) (.notCurrentExecutor current.executor executor)
  rejectIf (current.nominationLogIndex ≠ nominationLogIndex)
    (.nominationFenceMismatch current.nominationLogIndex nominationLogIndex)

def completeSystemBootstrap (executor : NodeId) (nominationLogIndex : Nat) (bootstrapVersion : Nat)
    (committedLogIndex : Nat) : Edit := do
  let s ← get
  rejectIf (bootstrapVersion ≠ systemBootstrapVersion)
    (unsupportedSystemBootstrapVersion bootstrapVersion)
  rejectIf (s.clusterId = none) clusterNotInitialized
  s.requireExecutor executor nominationLogIndex
  match s.systemBootstrap with
  | .missing =>
    let completed := SystemBootstrapState.complete bootstrapVersion committedLogIndex
    modify fun s => { s with systemBootstrap := completed }
    return .systemBootstrapCompleted completed
  | .complete version index =>
    rejectIf (version ≠ bootstrapVersion) (systemBootstrapVersionConflict version bootstrapVersion)
    return .systemBootstrapCompleted (.complete version index)

def nominateExecutor (executor : NodeId) (committedLogIndex : Nat) : Edit := do
  validateNode executor
  let nomination : ExecutorNomination :=
    { executor := executor, nominationLogIndex := committedLogIndex }
  modify fun s => { s with
    preparingBatch := s.preparingBatch.map (·.transfer nomination)
    executor := some nomination }
  return .executorNominated nomination

def expiredFinalizedCursors (proposalAtUnixMillis : Nat) : List Nat :=
  match s.finalizedThrough with
  | none => []
  | some finalized =>
    (s.committedInvocations.entries.filter (fun e =>
        e.1 ≤ finalized ∧ e.2.replayExpiresAtUnixMillis ≤ proposalAtUnixMillis)).map Prod.fst

/-- Entries leave the replay window one by one; an error stops midway. -/
def pruneCommittedInvocations (s : StateMachine) : List Nat → StateMachine × Except ApplyError Unit
  | [] => (s, .ok ())
  | cursor :: rest =>
    match s.committedInvocations.get? cursor with
    | none => (s, .error .committedInvocationAccountingCorrupt)
    | some invocation =>
      let removed := { s with committedInvocations := s.committedInvocations.erase cursor }
      match committedInvocationEntryBytes cursor invocation with
      | .error error => (removed, .error error)
      | .ok bytes =>
        match checkedSub64 s.committedInvocationBytes bytes with
        | none => (removed, .error .committedInvocationAccountingCorrupt)
        | some remaining =>
          pruneCommittedInvocations { removed with committedInvocationBytes := remaining } rest

/-- The retained decision of an invocation, in cursor order. -/
def retainedDecision (invocationId : InvocationId) : Option CommittedInvocation :=
  (s.committedInvocations.entries.find? (fun e => e.2.invocationId = invocationId)).map Prod.snd

/-- What beginning a batch does once the expired entries are gone. -/
def replayOrPrepare (committedLogIndex : Nat) (batch : BeginBatch) : Edit := do
  let s ← get
  match s.retainedDecision batch.invocationId with
  | some existing =>
    let invocation ← replay existing batch
    return .batchBegun (.alreadyCommitted ⟨invocation, true⟩)
  | none =>
    match s.preparingBatch with
    | some prepared =>
      rejectIf (prepared.request ≠ batch) (batchPreparationInProgress prepared.beginCursor)
      return .batchBegun (.prepared prepared true)
    | none =>
      let prepared : PreparedBatch := { beginCursor := committedLogIndex, request := batch }
      modify fun s => { s with preparingBatch := some prepared }
      return .batchBegun (.prepared prepared false)

def beginBatch (committedLogIndex : Nat) (batch : BeginBatch) : Outcome :=
  match (do
    validateBeginBatch batch
    s.requireExecutor batch.executor batch.nominationLogIndex) with
  | .error error => (s, .error error)
  | .ok () =>
    match s.pruneCommittedInvocations
      (s.expiredFinalizedCursors batch.proposalAtUnixMillis) with
    | (pruned, .error error) => (pruned, .error error)
    | (pruned, .ok ()) => perform (replayOrPrepare committedLogIndex batch) pruned

def commitPreparedBatch (committedLogIndex : Nat) (request : CommitPreparedBatch) : Edit := do
  let s ← get
  s.requireExecutor request.executor request.nominationLogIndex
  let prepared ← okOr s.preparingBatch noPreparedBatch
  validatePreparedIdentity prepared request.executor
    request.nominationLogIndex request.beginCursor request.invocationId
    request.participantManifestHash
  rejectIf (s.lastCommitCursor.any (fun last => committedLogIndex ≤ last) = true)
    (commitCursorDidNotAdvance s.lastCommitCursor committedLogIndex)
  rejectIf (s.finalizedThrough.any (fun through => committedLogIndex ≤ through) = true)
    (commitCursorNotAfterFinalization s.finalizedThrough committedLogIndex)
  let invocation := prepared.decision committedLogIndex
  let invocationBytes ← committedInvocationEntryBytes committedLogIndex invocation
  let nextReplayBytes ← okOr (checkedAdd64 s.committedInvocationBytes invocationBytes)
    committedInvocationByteCountExhausted
  rejectIf (s.committedInvocationLen + 1 > maxCommittedInvocations ∨
    nextReplayBytes > maxCommittedInvocationBytes)
    (committedInvocationWindowFull s.committedInvocationLen
      s.committedInvocationBytes invocationBytes)
  let unfinalizedBytes ← s.unfinalizedCommitBytes
  let tailBytes ← okOr (checkedAdd64 unfinalizedBytes invocationBytes) commitTailByteCountExhausted
  rejectIf (s.unfinalizedCommitLen + 1 > s.maxCommitEntries ∨ tailBytes > s.maxCommitBytes)
    (commitTailFull s.unfinalizedCommitLen unfinalizedBytes invocationBytes
      s.maxCommitEntries s.maxCommitBytes)
  modify fun s => { s with
    committedInvocations := s.committedInvocations.insert committedLogIndex invocation
    committedInvocationBytes := nextReplayBytes
    lastCommitCursor := some committedLogIndex
    preparingBatch := none }
  return .batchCommitted ⟨invocation, false⟩

def abortPreparedBatch (request : AbortPreparedBatch) : Edit := do
  let s ← get
  s.requireExecutor request.executor request.nominationLogIndex
  let prepared ← okOr s.preparingBatch noPreparedBatch
  validatePreparedIdentity prepared request.executor
    request.nominationLogIndex request.beginCursor request.invocationId
    request.participantManifestHash
  modify fun s => { s with preparingBatch := none }
  return .batchAborted request.beginCursor

/-- Finalization moves forward, and never past the last commit. -/
def advanceFinalizationPast (throughCommitCursor : Nat) : Edit := do
  let s ← get
  let lastCommitCursor ← okOr s.lastCommitCursor noCommittedBatchToFinalize
  rejectIf (throughCommitCursor > lastCommitCursor)
    (finalizedBeyondLastCommit lastCommitCursor throughCommitCursor)
  modify fun s => { s with finalizedThrough := some throughCommitCursor }
  return .finalizationAdvanced throughCommitCursor

def advanceFinalization (executor : NodeId) (nominationLogIndex : Nat)
    (throughCommitCursor : Nat) : Edit := do
  let s ← get
  s.requireExecutor executor nominationLogIndex
  match s.finalizedThrough with
  | some current =>
    rejectIf (throughCommitCursor < current)
      (finalizedThroughRegressed current throughCommitCursor)
    if throughCommitCursor = current then
      return .finalizationAdvanced throughCommitCursor
    else
      advanceFinalizationPast throughCommitCursor
  | none => advanceFinalizationPast throughCommitCursor

/-- Apply a command at its committed Raft log identity. -/
def apply (committedLogId : LogId) : Command → Outcome
  | .nominateExecutor executor => perform (nominateExecutor executor committedLogId.index) s
  | .beginBatch batch => s.beginBatch committedLogId.index batch
  | .commitPreparedBatch batch => perform (commitPreparedBatch committedLogId.index batch) s
  | .abortPreparedBatch batch => perform (abortPreparedBatch batch) s
  | .finalizedThrough executor nominationLogIndex throughCommitCursor =>
    perform (advanceFinalization executor nominationLogIndex throughCommitCursor) s
  | .initializeCluster clusterId => perform (initializeCluster clusterId) s
  | .completeSystemBootstrap executor nominationLogIndex bootstrapVersion =>
    perform (completeSystemBootstrap executor nominationLogIndex
      bootstrapVersion committedLogId.index) s
  | .beginAddNode formatVersion descriptor =>
    perform (beginAddNode formatVersion descriptor committedLogId.index) s
  | .beginRemoveNode formatVersion nodeId =>
    perform (beginRemoveNode formatVersion nodeId committedLogId.index) s
  | .beginReweightNode formatVersion nodeId storageWeightMillionths =>
    perform (beginReweightNode formatVersion nodeId storageWeightMillionths committedLogId.index) s
  | .completeMembershipTransition formatVersion startedLogIndex =>
    perform (completeMembershipTransition formatVersion startedLogIndex committedLogId) s
  | .stagePeerSpkiOverlap formatVersion nodeId expectedCurrent overlap =>
    perform (stagePeerSpkiOverlap formatVersion nodeId expectedCurrent overlap) s
  | .promotePeerSpkiOverlap formatVersion nodeId expectedCurrent
    expectedOverlap =>
    perform (promotePeerSpkiOverlap formatVersion nodeId expectedCurrent expectedOverlap) s
  | .clearPeerSpkiOverlap formatVersion nodeId expectedCurrent
    expectedOverlap =>
    perform (clearPeerSpkiOverlap formatVersion nodeId expectedCurrent expectedOverlap) s
  | .bindJwtSigningKeyFingerprint formatVersion fingerprint =>
    perform (bindJwtSigningKeyFingerprint formatVersion fingerprint) s
  | .bindErasureCodeProfile formatVersion profile =>
    perform (bindErasureCodeProfile formatVersion profile) s
  | .refreshJoiningNodePreparation formatVersion nodeId startedLogIndex
    expectedPeerSpkiSha256 expectedJoinCapabilityHash
    replacementPeerSpkiSha256 replacementJoinCapabilityHash =>
    perform (refreshJoiningNodePreparation formatVersion nodeId startedLogIndex
      expectedPeerSpkiSha256 expectedJoinCapabilityHash
      replacementPeerSpkiSha256 replacementJoinCapabilityHash) s

end

end StateMachine

/-- A committed log entry that carries a command. -/
abbrev LogEntry := LogId × Command

def applyEntry (s : StateMachine) (entry : LogEntry) : Outcome :=
  s.apply entry.1 entry.2

/-- A log identity of the first term. -/
def sampleLogId (index : Nat) : LogId :=
  ⟨⟨1, 1⟩, index⟩

/-- State after applying a log from a given state. -/
def applyAll (s : StateMachine) (log : List LogEntry) : StateMachine :=
  runFrom applyEntry s log

theorem applyAll_append (s : StateMachine) (before after : List LogEntry) :
    applyAll s (before ++ after) = applyAll (applyAll s before) after :=
  runFrom_append applyEntry s before after

theorem applyAll_snoc (s : StateMachine) (log : List LogEntry) (entry : LogEntry) :
    applyAll s (log ++ [entry]) = (applyEntry (applyAll s log) entry).1 :=
  runFrom_snoc applyEntry s log entry

/-- Outcomes of the entries of a log, in order. -/
def outcomesOf (s : StateMachine) (log : List LogEntry) : List (Except ApplyError ApplyResult) :=
  outputsFrom applyEntry s log

/-- Every entry has a larger log index than the entries before it. -/
def IncreasingLog (log : List LogEntry) : Prop :=
  log.Pairwise (fun a b => a.1.index < b.1.index)

instance (log : List LogEntry) : Decidable (IncreasingLog log) :=
  inferInstanceAs (Decidable (List.Pairwise _ _))

end Keldra.Consensus
