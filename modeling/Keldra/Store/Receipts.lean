import Keldra.Store.BlobReferences
import Keldra.Store.ObjectMutation

/-!
# Mutation receipts

A mutation with a command identifier leaves a receipt, so that its repetition is
answered and not applied again.  Receipts live for a fixed time and within
bounds on their number and size; a second key orders them by their expiry.

The primary key of a receipt is a hash of the bucket and the command.  It and the
encoded size of a receipt are parameters of the model.
-/

namespace Keldra.Store

open Foundation

structure StoredReceipt where
  fingerprint : Digest
  version : VersionId
  deleted : Bool
  expiresAtUnixMillis : Nat
  objectMutation : Option ObjectMutation
  definitionTransition : Option DefinitionTransition
deriving DecidableEq, Repr

/-- The receipt column family with its two kinds of keys, and its counters. -/
structure ReceiptTables where
  receipts : OrdMap Nat StoredReceipt
  expiries : OrdMap (Nat ×ₗ Nat) Unit
  entries : Nat
  bytes : Nat

def ReceiptTables.initial : ReceiptTables where
  receipts := OrdMap.empty
  expiries := OrdMap.empty
  entries := 0
  bytes := 0

structure MutationReceiptRetention where
  retentionMillis : Nat
  maxEntries : Nat
  maxBytes : Nat
deriving DecidableEq, Repr

structure ReceiptCodec where
  receiptKey : BucketIdentity → String → Nat
  encodedBytes : StoredReceipt → Nat

def receiptKeyBytes : Nat := 34

def receiptExpiryKeyBytes : Nat := 44

def mutationReceiptLogicalBytes (codec : ReceiptCodec) (receipt : StoredReceipt) : Nat :=
  saturatingAdd64 (saturatingAdd64 receiptKeyBytes (codec.encodedBytes receipt))
    receiptExpiryKeyBytes

def maxExpiredReceiptsPrunedPerPass : Nat := 1024

def maxExpiredReceiptBytesPrunedPerPass : Nat := 4 * 1024 * 1024

/-- Remove the expired receipts an index scan meets, within the bounds of one
pass. -/
def pruneExpired (codec : ReceiptCodec) (now : Nat) :
    List (Nat ×ₗ Nat) → List Nat → Nat → ReceiptTables →
      Except MutationError (ReceiptTables × List Nat)
  | [], pruned, _, tables => pure (tables, pruned)
  | index :: rest, pruned, prunedBytes, tables =>
    let expiresAt := (ofLex index).1
    let key := (ofLex index).2
    if now < expiresAt then
      pure (tables, pruned)
    else do
      rejectIf (key ∈ pruned) (.storage "mutation receipt has duplicate expiry indexes")
      let receipt ← okOr (tables.receipts.get? key)
        (.storage "mutation receipt expiry index references a missing receipt")
      rejectIf (receipt.expiresAtUnixMillis ≠ expiresAt)
        (.storage "mutation receipt expiry index disagrees with its receipt")
      let logicalBytes := mutationReceiptLogicalBytes codec receipt
      if maxExpiredReceiptsPrunedPerPass ≤ pruned.length ∨ (pruned ≠ [] ∧
        maxExpiredReceiptBytesPrunedPerPass < saturatingAdd64 prunedBytes logicalBytes) then
        pure (tables, pruned)
      else do
        let entries ← okOr (checkedSub64 tables.entries 1)
          (.storage "mutation receipt count is inconsistent")
        let bytes ← okOr (checkedSub64 tables.bytes logicalBytes)
          (.storage "mutation receipt byte accounting is inconsistent")
        pruneExpired codec now rest (key :: pruned) (saturatingAdd64 prunedBytes logicalBytes)
          { receipts := tables.receipts.erase key
            expiries := tables.expiries.erase index
            entries
            bytes }

/-- Stage the removal of expired receipts; their keys are returned. -/
def stageExpiredMutationReceipts (codec : ReceiptCodec) (now : Nat) (tables : ReceiptTables) :
    Except MutationError (ReceiptTables × List Nat) :=
  if tables.entries = 0 then
    pure (tables, [])
  else
    pruneExpired codec now tables.expiries.keys [] 0 tables

def stageStoredMutationReceipt (codec : ReceiptCodec) (retention : MutationReceiptRetention)
    (tables : ReceiptTables) (primaryKey : Nat) (stored : StoredReceipt) :
    Except MutationError ReceiptTables := do
  let logicalBytes := mutationReceiptLogicalBytes codec stored
  rejectIf (retention.maxBytes < logicalBytes) (.receiptTooLarge logicalBytes retention.maxBytes)
  let entries ← okOr (checkedAdd64 tables.entries 1)
    (.storage "mutation receipt count is exhausted")
  let bytes ← okOr (checkedAdd64 tables.bytes logicalBytes)
    (.storage "mutation receipt byte accounting is exhausted")
  rejectIf (retention.maxEntries < entries ∨ retention.maxBytes < bytes) .receiptCapacity
  pure
    { receipts := tables.receipts.insert primaryKey stored
      expiries := tables.expiries.insert (toLex (stored.expiresAtUnixMillis, primaryKey)) ()
      entries
      bytes }

end Keldra.Store
