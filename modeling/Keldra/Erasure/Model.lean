import Keldra.Store.Model

/-!
# Erasure-coded shards

A blob is cut into stripes of one unit for each data shard; every stripe is
completed by parity chunks, and each shard is the stream of its own chunks,
framed by their length and a checksum.  The last stripe may be short: its
trailing data chunks are shorter or empty, and the parity chunks are cut to the
longest data chunk.

Streams are byte strings, so a truncated stream ends early; other failures of a
reader or a writer are left out.  The Reed-Solomon codec, the checksum and the
content hash are parameters.
-/

namespace Keldra.Erasure

open Foundation Store

inductive ErasureError where
  | invalidProfile (reason : String)
  | wrongShardCount (expected actual : Nat)
  | invalidShardOrdinal (ordinal total : Nat)
  | encodedShardLengthOverflow (ordinal : Nat)
  | duplicateShardOrdinal (ordinal : Nat)
  | unsupportedFragmentFormat (version : Nat)
  | headerChecksumMismatch (ordinal : Nat)
  | invalidShardHeader (ordinal : Nat) (reason : String)
  | invalidChunkLength (ordinal stripe expected actual : Nat)
  | chunkChecksumMismatch (ordinal stripe : Nat)
  | trailingShardBytes (ordinal : Nat)
  | tooFewValidChunks (stripe required available : Nat)
  | sourceLengthMismatch (expected actualAtLeast : Nat)
  | blobHashMismatch
  | codec (reason : String)
  | io
deriving DecidableEq, Repr

def maxGalois8Shards : Nat := 256

/-- The shape of a cluster's shards.  `stripeUnit` is the number of bytes each
data shard contributes to a stripe. -/
structure ErasureProfile where
  dataShards : Nat
  parityShards : Nat
  stripeUnit : Nat
  data_pos : 0 < dataShards
  parity_pos : 0 < parityShards
  total_le : dataShards + parityShards ≤ maxGalois8Shards
  unit_pos : 0 < stripeUnit
  unit_lt : stripeUnit < 2 ^ 32

def ErasureProfile.new (dataShards parityShards : UInt16) (stripeUnit : UInt32) :
    Except ErasureError ErasureProfile :=
  if hdata : dataShards.toNat = 0 then
    .error (.invalidProfile "data shard count must be greater than zero")
  else if hparity : parityShards.toNat = 0 then
    .error (.invalidProfile "parity shard count must be greater than zero")
  else if htotal : maxGalois8Shards < dataShards.toNat + parityShards.toNat then
    .error (.invalidProfile "data and parity shard counts must total at most 256")
  else if hunit : stripeUnit.toNat = 0 then
    .error (.invalidProfile "stripe unit must be greater than zero")
  else
    .ok
      { dataShards := dataShards.toNat
        parityShards := parityShards.toNat
        stripeUnit := stripeUnit.toNat
        data_pos := Nat.pos_of_ne_zero hdata
        parity_pos := Nat.pos_of_ne_zero hparity
        total_le := Nat.le_of_not_lt htotal
        unit_pos := Nat.pos_of_ne_zero hunit
        unit_lt := stripeUnit.toNat_lt }

namespace ErasureProfile

variable (profile : ErasureProfile)

def totalShards : Nat := profile.dataShards + profile.parityShards

def stripeWidth : Nat := profile.dataShards * profile.stripeUnit

def stripeCount (blobLength : Nat) : Nat :=
  if blobLength = 0 then 0 else 1 + (blobLength - 1) / profile.stripeWidth

def chunkLength (blobLength stripe ordinal : Nat) : Nat :=
  let remaining := min (blobLength - stripe * profile.stripeWidth) profile.stripeWidth
  if ordinal < profile.dataShards then
    min (remaining - ordinal * profile.stripeUnit) profile.stripeUnit
  else
    min remaining profile.stripeUnit

end ErasureProfile

/-- A systematic Reed-Solomon codec on equally long chunks, the data chunks first. -/
structure ReedSolomon where
  encode : List Bytes → Except String (List Bytes)
  reconstructData : List (Option Bytes) → Except String (List (Option Bytes))

structure Checksum where
  crc32c : Bytes → UInt32
  crc32cAppend : UInt32 → Bytes → UInt32

structure ErasureCodec where
  profile : ErasureProfile
  reedSolomon : ReedSolomon
  checksum : Checksum
  blake3 : Bytes → Digest

section

def shardMagic : Bytes := asciiBytes "ANVLSHRD"

def fragmentFormatVersion : Nat := 1

def headerBodyBytes : Nat := 8 + 2 + 32 + 8 + 2

def headerBytes : Nat := headerBodyBytes + 4

def framePrefixBytes : Nat := 4 + 4

def headerBody (reference : BlobRef) (ordinal : Nat) : Bytes :=
  shardMagic ++ bigEndian 2 fragmentFormatVersion ++ putDigest reference.hash ++
    bigEndian 8 reference.length ++ bigEndian 2 ordinal

variable (checksum : Checksum)

def writeHeader (reference : BlobRef) (ordinal : Nat) : Bytes :=
  headerBody reference ordinal ++ bigEndian 4 (checksum.crc32c (headerBody reference ordinal)).toNat

/-- Read a header; the rest of the stream is returned. -/
def readHeader (expected : BlobRef) (ordinal : Nat) (stream : Bytes) :
    Except ErasureError Bytes := do
  let (encoded, rest) ← takeBytes ErasureError.io headerBytes stream
  let body := encoded.take headerBodyBytes
  rejectIf ((checksum.crc32c body).toNat ≠ fromBigEndian (encoded.drop headerBodyBytes))
    (.headerChecksumMismatch ordinal)
  rejectIf (body.take shardMagic.length ≠ shardMagic)
    (.invalidShardHeader ordinal "magic does not match")
  let version := fromBigEndian ((body.drop shardMagic.length).take 2)
  rejectIf (version ≠ fragmentFormatVersion) (.unsupportedFragmentFormat version)
  rejectIf (body ≠ headerBody expected ordinal)
    (.invalidShardHeader ordinal "content identity or ordinal does not match")
  pure rest

def chunkChecksum (body : Bytes) (ordinal stripe length : Nat) (payload : Bytes) : UInt32 :=
  let afterOrdinal := checksum.crc32cAppend (checksum.crc32c body) (bigEndian 2 ordinal)
  let afterStripe := checksum.crc32cAppend afterOrdinal (bigEndian 8 stripe)
  let afterLength := checksum.crc32cAppend afterStripe (bigEndian 4 length)
  checksum.crc32cAppend afterLength payload

def writeChunk (body : Bytes) (ordinal stripe : Nat) (payload : Bytes) : Bytes :=
  bigEndian 4 payload.length ++
    bigEndian 4 (chunkChecksum checksum body ordinal stripe payload.length payload).toNat ++ payload

/-- Read one chunk, and the stream behind it.  A bad checksum is found after the
whole frame has been read. -/
def readChunk (body : Bytes) (ordinal stripe expectedLength : Nat) (stream : Bytes) :
    Except ErasureError Bytes × Bytes :=
  match takeBytes ErasureError.io framePrefixBytes stream with
  | .error error => (.error error, stream)
  | .ok (front, behind) =>
    let storedLength := fromBigEndian (front.take 4)
    if storedLength ≠ expectedLength then
      (.error (.invalidChunkLength ordinal stripe expectedLength storedLength), behind)
    else
      match takeBytes ErasureError.io expectedLength behind with
      | .error error => (.error error, behind)
      | .ok (payload, rest) =>
        if fromBigEndian (front.drop 4) ≠
          (chunkChecksum checksum body ordinal stripe storedLength payload).toNat then
          (.error (.chunkChecksumMismatch ordinal stripe), rest)
        else
          (.ok payload, rest)

end

namespace ErasureCodec

variable (codec : ErasureCodec)

def requireShardCount (actual : Nat) : Except ErasureError Unit :=
  rejectIf (actual ≠ codec.profile.totalShards) (.wrongShardCount codec.profile.totalShards actual)

def requireOrdinal (ordinal : Nat) : Except ErasureError Unit :=
  rejectIf (codec.profile.totalShards ≤ ordinal)
    (.invalidShardOrdinal ordinal codec.profile.totalShards)

def encodedShardLength (expected : BlobRef) (ordinal : Nat) : Except ErasureError Nat := do
  codec.requireOrdinal ordinal
  let stripes := codec.profile.stripeCount expected.length
  let payloadBytes :=
    if stripes = 0 then
      0
    else
      (stripes - 1) * codec.profile.stripeUnit +
        codec.profile.chunkLength expected.length (stripes - 1) ordinal
  let encoded := headerBytes + stripes * framePrefixBytes + payloadBytes
  rejectIf (2 ^ 64 ≤ encoded) (.encodedShardLengthOverflow ordinal)
  pure encoded

/-- A chunk with zero bytes up to the stripe unit. -/
def padded (chunk : Bytes) : Bytes :=
  chunk ++ List.replicate (codec.profile.stripeUnit - chunk.length) 0

/-- What is left of a source, and the bytes the hasher has seen. -/
structure Source where
  rest : Bytes
  hashed : Bytes

def readSourceExact
    (expectedLength length : Nat) (source : Source) : Except ErasureError (Bytes × Source) :=
  if length ≤ source.rest.length then
    .ok (source.rest.take length,
      { rest := source.rest.drop length, hashed := source.hashed ++ source.rest.take length })
  else
    .error (.sourceLengthMismatch expectedLength (source.hashed.length + source.rest.length))

/-- The data chunks of a stripe, padded. -/
def readDataChunks (expectedLength stripe : Nat) (source : Source) :
    Except ErasureError (List Bytes × Source) :=
  (List.range codec.profile.dataShards).foldlM (fun (progress : List Bytes × Source) ordinal => do
      let length := codec.profile.chunkLength expectedLength stripe ordinal
      let (chunk, source) ← readSourceExact expectedLength length progress.2
      pure (progress.1 ++ [codec.padded chunk], source))
    ([], source)

/-- Encode one more stripe: the source behind it, and the shards with its chunks. -/
def encodeStripe (expected : BlobRef) (progress : Source × List Bytes) (stripe : Nat) :
    Except ErasureError (Source × List Bytes) := do
  let (chunks, source) ← codec.readDataChunks expected.length stripe progress.1
  let blank := List.replicate codec.profile.stripeUnit 0
  let encoded ←
    (codec.reedSolomon.encode (chunks ++ List.replicate codec.profile.parityShards blank)).mapError
      .codec
  let shards := progress.2.mapIdx fun ordinal shard =>
    let length := codec.profile.chunkLength expected.length stripe ordinal
    shard ++ writeChunk codec.checksum (headerBody expected ordinal) ordinal stripe
      ((encoded.getD ordinal []).take length)
  pure (source, shards)

/-- Encode a complete source into `writers` shards. -/
def encode (source : Bytes) (expected : BlobRef) (writers : Nat) :
    Except ErasureError (List Bytes) := do
  codec.requireShardCount writers
  let headers := (List.range writers).map (writeHeader codec.checksum expected)
  let (source, shards) ← (List.range (codec.profile.stripeCount expected.length)).foldlM
    (codec.encodeStripe expected) ({ rest := source, hashed := [] }, headers)
  rejectIf (source.rest ≠ [])
    (.sourceLengthMismatch expected.length (saturatingAdd64 expected.length 1))
  rejectIf (codec.blake3 source.hashed ≠ expected.hash) .blobHashMismatch
  pure shards

section

variable (expected : BlobRef)

/-- Verify the frames of one complete shard. -/
def validateShard (ordinal : Nat) (shard : Bytes) : Except ErasureError Unit := do
  codec.requireOrdinal ordinal
  let behind ← readHeader codec.checksum expected ordinal shard
  let rest ← (List.range (codec.profile.stripeCount expected.length)).foldlM (fun stream stripe =>
      let length := codec.profile.chunkLength expected.length stripe ordinal
      let (read, rest) :=
        readChunk codec.checksum (headerBody expected ordinal) ordinal stripe length stream
      read.map fun _ => rest)
    behind
  rejectIf (rest ≠ []) (.trailingShardBytes ordinal)

/-- The streams behind a valid header. -/
def openStreams (streams : List (Option Bytes)) : List (Option Bytes) :=
  streams.mapIdx fun ordinal stream =>
    stream.bind fun bytes => (readHeader codec.checksum expected ordinal bytes).toOption

/-- The chunk a stream holds for a stripe, if any, and the stream behind it.  A
chunk with a bad checksum is missing; any other failure ends the stream. -/
def readShardChunk (stripe ordinal : Nat) (stream : Option Bytes) : Option Bytes × Option Bytes :=
  match stream with
  | none => (none, none)
  | some bytes =>
    let length := codec.profile.chunkLength expected.length stripe ordinal
    match readChunk codec.checksum (headerBody expected ordinal) ordinal stripe length bytes with
    | (.ok chunk, rest) => (some (codec.padded chunk), some rest)
    | (.error (.chunkChecksumMismatch _ _), rest) => (none, some rest)
    | (.error _, _) => (none, none)

def reconstructStripe (progress : List (Option Bytes) × Bytes) (stripe : Nat) :
    Except ErasureError (List (Option Bytes) × Bytes) := do
  let read := progress.1.mapIdx (codec.readShardChunk expected stripe)
  let chunks := read.map Prod.fst
  let available := (chunks.filter Option.isSome).length
  rejectIf (available < codec.profile.dataShards)
    (.tooFewValidChunks stripe codec.profile.dataShards available)
  let recovered ← (codec.reedSolomon.reconstructData chunks).mapError .codec
  let data ← (List.range codec.profile.dataShards).mapM fun ordinal => do
    let chunk ← okOr (recovered.getD ordinal none) (.codec "data shard was not reconstructed")
    pure (chunk.take (codec.profile.chunkLength expected.length stripe ordinal))
  pure (read.map Prod.snd, progress.2 ++ data.flatten)

/-- Reconstruct and verify the blob from ordinal-addressed shards. -/
def reconstruct (streams : List (Option Bytes)) : Except ErasureError Bytes := do
  codec.requireShardCount streams.length
  let opened := codec.openStreams expected streams
  let available := (opened.filter Option.isSome).length
  rejectIf (available < codec.profile.dataShards)
    (.tooFewValidChunks 0 codec.profile.dataShards available)
  let (_, output) ← (List.range (codec.profile.stripeCount expected.length)).foldlM
    (codec.reconstructStripe expected) (opened, [])
  rejectIf (codec.blake3 output ≠ expected.hash) .blobHashMismatch
  pure output

/-- Reconstruct from a subset of the shards, each given with its ordinal. -/
def reconstructAvailable (shards : List (Nat × Bytes)) : Except ErasureError Bytes := do
  let streams ← shards.foldlM (fun (streams : List (Option Bytes)) entry => do
      codec.requireOrdinal entry.1
      rejectIf ((streams.getD entry.1 none).isSome) (.duplicateShardOrdinal entry.1)
      pure (streams.set entry.1 (some entry.2)))
    (List.replicate codec.profile.totalShards none)
  codec.reconstruct expected streams

end

end ErasureCodec

end Keldra.Erasure
