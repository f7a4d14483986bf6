import Keldra.Foundation.Bytes

/-!
# Identities and errors of the projection index

Digests are 256-bit strings and every other field keeps the width it has in the
stored formats.
-/

namespace Keldra.Index

open Foundation

/-- A content digest or an identity of thirty-two bytes. -/
abbrev Digest := BitVec 256

/-- The content digest function. -/
abbrev ContentHash := Bytes → Digest

/-- Reasons for which an index operation fails. -/
inductive IndexError where
  | fileNotFound (name : String)
  | unexpectedEof (expected actual : Nat)
  | offsetOverflow
  | invalidFormat (what : String)
  | integrity
  | unsortedRecords
  | invalidDefinition (message : String)
  | invalidQuery (message : String)
  | encode (message : String)
  | decode (message : String)
  | io (message : String)
  | resourceLimit (needed limit : Nat)
  /-- A walk over stored pages went deeper than the bound the model gives it. -/
  | tooDeep
deriving DecidableEq, Repr

/-- Exact authority boundary of one independently written projection stream. -/
structure ProjectionPartitionIdentity where
  familyId : Digest
  sourceNode : UInt64
  sourceEpoch : Digest
  producerNode : UInt64
  placementTerm : UInt64
  placementIndex : UInt64
deriving DecidableEq, Repr

def ProjectionPartitionIdentity.validate
    (self : ProjectionPartitionIdentity) : Except IndexError Unit :=
  rejectIf (self.familyId = 0 ∨ self.sourceNode = 0 ∨ self.sourceEpoch = 0 ∨ self.producerNode = 0 ∨
    self.placementTerm = 0 ∨
    self.placementIndex = 0)
    (.invalidDefinition "projection partition identity is invalid")

/-- The stream of query runs pinned by one generation. -/
structure ProjectionQueryStreamRoot where
  streamRootHash : Digest
  streamRootEncodedBytes : UInt64
  runCount : UInt64
  firstSequence : UInt64
  lastSequence : UInt64
  sourceStartOffset : UInt64
  nextOffset : UInt64
  throughAtomicPosition : UInt64
deriving DecidableEq, Repr

namespace ProjectionQueryStreamRoot

/-- A stream without runs at a source cut. -/
def empty (blake3 : ContentHash) (partition : ProjectionPartitionIdentity)
    (physicalCatalogGeneration : Digest) (nextOffset throughAtomicPosition : UInt64) :
    Except IndexError ProjectionQueryStreamRoot := do
  partition.validate
  rejectIf (physicalCatalogGeneration = 0)
    (.invalidDefinition "projection query stream catalog is zero")
  let hashed : Bytes := asciiBytes "keldra.index.v1.empty-query-stream/v1" ++ [0] ++
    putDigest partition.familyId ++
    putU64 partition.sourceNode ++
    putDigest partition.sourceEpoch ++
    putU64 partition.producerNode ++
    putU64 partition.placementTerm ++
    putU64 partition.placementIndex ++
    putDigest physicalCatalogGeneration ++
    putU64 nextOffset ++
    putU64 throughAtomicPosition
  pure
    { streamRootHash := blake3 hashed
      streamRootEncodedBytes := 0
      runCount := 0
      firstSequence := 0
      lastSequence := 0
      sourceStartOffset := nextOffset
      nextOffset := nextOffset
      throughAtomicPosition := throughAtomicPosition }

def validateAt (self : ProjectionQueryStreamRoot)
    (nextOffset throughAtomicPosition : UInt64) : Except IndexError Unit :=
  rejectIf (self.streamRootHash = 0 ∨ self.nextOffset ≠ nextOffset ∨
    self.throughAtomicPosition ≠ throughAtomicPosition ∨
    (self.runCount = 0 ∧ (self.streamRootEncodedBytes ≠ 0 ∨ self.firstSequence ≠ 0 ∨
      self.lastSequence ≠ 0 ∨
      self.sourceStartOffset ≠ nextOffset)) ∨
    (self.runCount ≠ 0 ∧ (self.streamRootEncodedBytes = 0 ∨ self.firstSequence = 0 ∨
      self.lastSequence < self.firstSequence ∨
      self.nextOffset ≤ self.sourceStartOffset)))
    (.invalidDefinition "projection query stream root is invalid at generation cut")

end ProjectionQueryStreamRoot

end Keldra.Index
