import Keldra.LocalNode.Writes
import Keldra.Store.ReceiptTables

/-!
# The receipts of a node

In every reachable state receipts, expiry indexes and counters agree.  A bulk
write removes expired receipts and adds those of its own operations.
-/

namespace Keldra.LocalNode

open Foundation Store ReceiptMove

variable {codec : LocalChangeCodec} {config : NodeConfig} {store : LocalStore} {now : Nat}

section

variable {context : BulkContext} {progress : BulkProgress} {backpressure : Bool}

/-- What the evaluation of a list of operations keeps of the receipts. -/
structure ReceiptProgress (context : BulkContext) (bulk : BulkState) : Prop where
  sound : ReceiptsSound context.config.receiptCodec bulk.receipts
  through : ReceiptsThrough context bulk

theorem receiptProgress_evaluateNext
    (entry : Nat × PreparedOperation × Nat) (h : ReceiptProgress context progress.bulk) :
    ReceiptProgress context (evaluateNext context backpressure progress entry).bulk := by
  rcases evaluateNext_bulk context backpressure progress entry with hsame | hnext
  · rw [hsame]
    exact h
  rw [hnext]
  obtain ⟨hsound, hthrough⟩ := (addsReceipt_evaluateOperation entry.2.2).sound h.sound h.through
  exact ⟨hsound, hthrough⟩

theorem receiptProgress_foldl
    (prepared : List (Nat × PreparedOperation × Nat)) (h : ReceiptProgress context progress.bulk) :
    ReceiptProgress context (prepared.foldl (evaluateNext context backpressure) progress).bulk := by
  induction prepared generalizing progress with
  | nil => exact h
  | cons entry _ ih => exact ih (receiptProgress_evaluateNext entry h)

theorem receiptProgress_beginBulk
    {receipts : ReceiptTables} (hsound : ReceiptsSound context.config.receiptCodec receipts)
    (hexpired : stageExpiredMutationReceipts context.config.receiptCodec context.now
    context.store.receipts = .ok (receipts, context.prunedReceipts)) :
    ReceiptProgress context (context.store.beginBulk receipts) := by
  refine ⟨hsound, fun key => ?_⟩
  rw [LocalStore.beginBulk]
  rw [Option.none_or]
  exact get?_stageExpiredMutationReceipts hexpired key

theorem persistBulk_receipts {admission : SourceJournalAdmission} {written : LocalStore}
    (h : store.persistBulk codec config admission progress = .ok written) :
    written.receipts = progress.bulk.receipts := by
  simp only [LocalStore.persistBulk, ok_rules] at h
  obtain ⟨_, -, rfl⟩ := h
  rfl

/-- Receipts stay through the evaluation of a list of operations. -/
theorem receiptMove_foldl {live : StoredReceipt → Prop}
    (prepared : List (Nat × PreparedOperation × Nat)) (h : ReceiptProgress context progress.bulk) :
    ReceiptMove context.config.receiptCodec live (fun stored => stored.objectMutation = none)
    progress.bulk.receipts
    (prepared.foldl (evaluateNext context backpressure) progress).bulk.receipts := by
  induction prepared generalizing progress with
  | nil => exact still h.sound rfl
  | cons entry _ ih =>
    refine trans ?_ (ih (receiptProgress_evaluateNext entry h))
    rcases evaluateNext_bulk context backpressure progress entry with hsame | hnext
    · rw [hsame]
      exact still h.sound rfl
    rw [hnext]
    exact (addsReceipt_evaluateOperation entry.2.2).move h.sound h.through

/-- A bulk write removes expired receipts and adds its own. -/
theorem receiptMove_bulkWrite {settings : BucketIdentity → Except MutationError BucketSettings}
    {intent : Option DefinitionMutationIntent} {admission : SourceJournalAdmission}
    {prepared : List (Nat × PreparedOperation × Nat)}
    (h : ReceiptsSound config.receiptCodec store.receipts) :
    ReceiptMove config.receiptCodec (fun stored => now < stored.expiresAtUnixMillis)
    (fun stored => stored.objectMutation = none) store.receipts
    (store.bulkWrite codec config settings intent backpressure admission now
    prepared).1.receipts := by
  obtain ⟨receipts, pruned, hexpired, hsound, hpass⟩ := expires_stageExpired _ h
  unfold LocalStore.bulkWrite
  rw [hexpired]
  dsimp only
  have hbegun := @receiptProgress_beginBulk
    { config, store, settings, intent, now, prunedReceipts := pruned } receipts hsound hexpired
  split
  · rename_i written hwritten
    rw [persistBulk_receipts hwritten]
    exact (expire hsound hpass fun _ hlive => hlive).trans
      (@receiptMove_foldl _ ⟨store.beginBulk receipts, [], [], none, none⟩ _ _ prepared hbegun)
  · exact still h rfl

end

/-- The time an action reads receipts at. -/
def receiptTime : LocalAction → Option Nat
  | .bulkWrite _ _ _ _ now _ => some now
  | .pruneReceipts now => some now
  | _ => none

/-- Every action keeps the receipts that have not expired. -/
theorem receiptMove_step
    (action : LocalAction) (h : ReceiptsSound config.receiptCodec store.receipts) :
    ReceiptMove config.receiptCodec
    (fun stored => ∀ now ∈ receiptTime action, now < stored.expiresAtUnixMillis)
    (fun stored => stored.objectMutation = none) store.receipts
    (step codec config store action).receipts := by
  by_cases hsource : isSourceAction action
  · obtain ⟨_, hnext, -⟩ := step_source hsource
    rw [hnext]
    exact still h rfl
  cases action with
  | bulkWrite _ _ _ _ now =>
    exact (receiptMove_bulkWrite h).mono (fun _ hlive => hlive now rfl) (fun _ hadded => hadded)
  | pruneReceipts now =>
    obtain ⟨_, _, hexpired, hsound, hpass⟩ := expires_stageExpired now h
    simp only [step, pruneReceipts, hexpired]
    exact expire hsound hpass fun _ hlive => hlive now rfl
  | deleteRetainedVersion =>
    obtain ⟨_, _, _, hnext, -⟩ := deleteRetainedVersion_writes
    rw [step, hnext]
    exact still h rfl
  | reopen => exact still h rfl
  | _ => exact absurd rfl hsource

theorem receiptsSound_run (nodeId : Nat) (actions : List LocalAction) :
    ReceiptsSound config.receiptCodec (run codec config nodeId actions).receipts := by
  induction actions using List.reverseRecOn with
  | nil => exact receiptsSound_initial
  | append_singleton _ action ih =>
    rw [run_snoc]
    exact (receiptMove_step action ih).sound

/-- Passes leave no due receipt, or each of them has removed one. -/
theorem foldl_pruneReceipts (passes : Nat) (h : ReceiptsSound config.receiptCodec store.receipts) :
    ∃ tables, (List.foldl (step codec config) store
    (List.replicate passes (.pruneReceipts now))).receipts = tables ∧
    ReceiptsSound config.receiptCodec tables ∧ Expires now store.receipts tables ∧
    (NoneExpired now tables ∨ tables.entries + passes ≤ store.receipts.entries) := by
  refine ⟨_, rfl, ?_⟩
  induction passes with
  | zero => exact ⟨h, .refl, .inr le_rfl⟩
  | succ passes ih =>
    rw [List.replicate_succ', List.foldl_append, List.foldl_cons, List.foldl_nil]
    obtain ⟨hsound, hexpires, hdone⟩ := ih
    obtain ⟨tables, _, hpass, hsound', hexpires'⟩ := expires_stageExpired now hsound
    simp only [step, pruneReceipts, hpass]
    refine ⟨hsound', hexpires.trans hexpires', ?_⟩
    by_cases hnone : NoneExpired now
        ((List.replicate passes (.pruneReceipts now)).foldl (step codec config) store).receipts
    · exact .inl fun key stored hget => hnone key stored (hexpires'.old key stored hget)
    obtain ⟨key, stored, hstored, -, hgone⟩ := stageExpired_removes hsound hnone hpass
    have hfewer := hsound.entries_lt hsound' hexpires'.old hstored hgone
    have hleft := hdone.resolve_left hnone
    exact .inr (by omega)

/-- After any run, more expiry passes than there are receipts remove exactly the
receipts that are due. -/
theorem expiry_passes_finish
    (codec : LocalChangeCodec) (config : NodeConfig) (nodeId now more : Nat)
    (actions : List LocalAction) (key : Nat) (stored : StoredReceipt) :
    let receipts := (run codec config nodeId actions).receipts
    (run codec config nodeId (actions ++ List.replicate (receipts.entries + 1 + more)
    (.pruneReceipts now))).receipts.receipts.get? key = some stored ↔
    receipts.receipts.get? key = some stored ∧ now < stored.expiresAtUnixMillis := by
  have hrun : ∀ later, run codec config nodeId (actions ++ later) =
      later.foldl (step codec config) (run codec config nodeId actions) :=
    fun _ => List.foldl_append
  have hsound := @receiptsSound_run codec config nodeId actions
  dsimp only
  rw [hrun]
  generalize run codec config nodeId actions = store at hsound ⊢
  obtain ⟨tables, rfl, -, hexpires, hdone⟩ :=
    foldl_pruneReceipts (store.receipts.entries + 1 + more) hsound
  have hnone := hdone.resolve_right (by omega)
  refine ⟨fun hget => ⟨hexpires.old key stored hget, hnone key stored hget⟩, ?_⟩
  rintro ⟨hget, hlive⟩
  exact hexpires.kept key stored hget hlive

end Keldra.LocalNode
