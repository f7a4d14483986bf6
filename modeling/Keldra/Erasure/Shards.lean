import Keldra.Erasure.Model
import Keldra.Foundation.Framing

/-!
# The shards of a blob

Every shard is its header followed by one frame for each stripe.  The frame
holds the shard's chunk without the zero bytes behind the longest data chunk,
which come back when the chunk is padded: a parity byte of zero data bytes is
zero.
-/

namespace Keldra.Erasure

open Foundation Store List ErasureCodec ErasureProfile

namespace ErasureProfile

variable (profile : ErasureProfile) {length stripe ordinal : Nat}

theorem stripeWidth_pos : 0 < profile.stripeWidth := Nat.mul_pos profile.data_pos profile.unit_pos

variable {profile}

/-- Every stripe begins inside the blob. -/
theorem stripe_lt (h : stripe < profile.stripeCount length) :
    stripe * profile.stripeWidth < length := by
  unfold stripeCount at h
  split at h
  · omega
  have hle : stripe ≤ (length - 1) / profile.stripeWidth := by omega
  have hmul := (Nat.le_div_iff_mul_le profile.stripeWidth_pos).mp hle
  omega

/-- The stripes cover the blob. -/
theorem le_stripes (length : Nat) : length ≤ profile.stripeCount length * profile.stripeWidth := by
  unfold stripeCount
  split
  · omega
  have hlt := Nat.lt_mul_div_succ (length - 1) profile.stripeWidth_pos
  rw [Nat.mul_comm, Nat.mul_add, Nat.mul_one]
  rw [Nat.mul_add, Nat.mul_one] at hlt
  omega

theorem chunkLength_le (length stripe ordinal : Nat) :
    profile.chunkLength length stripe ordinal ≤ profile.stripeUnit := by
  unfold chunkLength
  dsimp only
  split <;> omega

theorem chunkLength_data (h : ordinal < profile.dataShards) :
    profile.chunkLength length stripe ordinal =
    min (min (length - stripe * profile.stripeWidth) profile.stripeWidth -
    ordinal * profile.stripeUnit) profile.stripeUnit := by
  rw [chunkLength, if_pos h]

/-- No data chunk is longer than a parity chunk. -/
theorem chunkLength_le_parity {row : Nat}
    (h : ordinal < profile.dataShards) (hrow : profile.dataShards ≤ row) :
    profile.chunkLength length stripe ordinal ≤ profile.chunkLength length stripe row := by
  rw [chunkLength_data h, chunkLength, if_neg (by omega)]
  omega

/-- Before the last stripe every chunk is whole. -/
theorem chunkLength_full (h : stripe + 1 < profile.stripeCount length) :
    profile.chunkLength length stripe ordinal = profile.stripeUnit := by
  have hbegins := stripe_lt h
  rw [Nat.add_mul, Nat.one_mul] at hbegins
  have hwhole : min (length - stripe * profile.stripeWidth) profile.stripeWidth =
      profile.stripeWidth := by omega
  have hwidth : profile.stripeUnit ≤ profile.stripeWidth :=
    Nat.le_mul_of_pos_left _ profile.data_pos
  by_cases hdata : ordinal < profile.dataShards
  · have hbehind : (ordinal + 1) * profile.stripeUnit ≤ profile.stripeWidth :=
      Nat.mul_le_mul_right _ hdata
    rw [Nat.add_mul, Nat.one_mul] at hbehind
    rw [chunkLength_data hdata, hwhole]
    omega
  rw [chunkLength, if_neg hdata, hwhole]
  omega

end ErasureProfile

section

variable {checksum : Checksum} {body payload rest : Bytes} {ordinal stripe : Nat}

theorem length_headerBody (reference : BlobRef) (ordinal : Nat) :
    (headerBody reference ordinal).length = headerBodyBytes := by
  simp [headerBody, shardMagic, asciiBytes, putDigest, headerBodyBytes]

theorem length_writeHeader (reference : BlobRef) (ordinal : Nat) :
    (writeHeader checksum reference ordinal).length = headerBytes := by
  simp [writeHeader, length_headerBody, headerBytes]

theorem fromBigEndian_checksum (value : UInt32) :
    fromBigEndian (bigEndian 4 value.toNat) = value.toNat := by
  have hfits : value.toNat < 256 ^ 4 := value.toNat_lt
  rw [fromBigEndian_bigEndian, Nat.mod_eq_of_lt hfits]

/-- A header is accepted exactly if it is the one that was written. -/
theorem readHeader_eq_ok {expected : BlobRef} {stream : Bytes} :
    readHeader checksum expected ordinal stream = .ok rest ↔
    stream.take headerBytes = writeHeader checksum expected ordinal ∧
    rest = stream.drop headerBytes := by
  have hmagic : (headerBody expected ordinal).take shardMagic.length = shardMagic := by
    simp [headerBody, append_assoc]
  have hversion : fromBigEndian (((headerBody expected ordinal).drop shardMagic.length).take 2) =
      fragmentFormatVersion := by
    simp only [headerBody, append_assoc, drop_left]
    rfl
  simp only [readHeader, takeBytes, ok_rules, Prod.exists, not_not]
  constructor
  · rintro ⟨_, _, htake, hchecksum, -, -, hbody, rfl⟩
    split at htake
    · rename_i hlong
      cases htake
      refine ⟨?_, rfl⟩
      have hlength : ((stream.take headerBytes).drop headerBodyBytes).length = 4 := by
        rw [length_drop, length_take, Nat.min_eq_left hlong]
        rfl
      have hstored := bigEndian_fromBigEndian ((stream.take headerBytes).drop headerBodyBytes)
      rw [hlength, ← hchecksum, hbody] at hstored
      rw [writeHeader, hstored, ← hbody, take_append_drop]
    · cases htake
  · rintro ⟨hheader, rfl⟩
    have hlong : headerBytes ≤ stream.length := by
      have hlength := congrArg length hheader
      rw [length_writeHeader, length_take] at hlength
      omega
    refine ⟨stream.take headerBytes, stream.drop headerBytes, by rw [if_pos hlong], ?_⟩
    rw [hheader, writeHeader, take_left' (length_headerBody expected ordinal),
      drop_left' (length_headerBody expected ordinal), fromBigEndian_checksum]
    exact ⟨rfl, hmagic, hversion, rfl, rfl⟩

theorem length_writeChunk : (writeChunk checksum body ordinal stripe payload).length =
    framePrefixBytes + payload.length := by
  simp [writeChunk, framePrefixBytes]
  omega

/-- The number in the length field is the expected one exactly if its bytes are. -/
theorem fromBigEndian_eq_iff {width value : Nat} {front : Bytes}
    (hfront : front.length = width) (hvalue : value < 256 ^ width) :
    fromBigEndian front = value ↔ front = bigEndian width value := by
  constructor
  · intro h
    rw [← h, ← hfront, bigEndian_fromBigEndian]
  intro h
  rw [h, fromBigEndian_bigEndian, Nat.mod_eq_of_lt hvalue]

/-- What a reader finds in a stream where a frame of the given length is expected. -/
theorem readChunk_cases {length : Nat} (stream : Bytes) (hlength : length < 2 ^ 32) :
    (framePrefixBytes + length ≤ stream.length ∧ slice stream 0 4 = bigEndian 4 length ∧
    readChunk checksum body ordinal stripe length stream = if fromBigEndian (slice stream 4 4) ≠
    (chunkChecksum checksum body ordinal stripe length (slice stream 8 length)).toNat then
    (.error (.chunkChecksumMismatch ordinal stripe), stream.drop (framePrefixBytes + length)) else
    (.ok (slice stream 8 length), stream.drop (framePrefixBytes + length))) ∨
    (¬ (framePrefixBytes + length ≤ stream.length ∧ slice stream 0 4 = bigEndian 4 length) ∧
    ∃ error behind, readChunk checksum body ordinal stripe length stream = (.error error, behind) ∧
    ∀ ordinal stripe, error ≠ .chunkChecksumMismatch ordinal stripe) := by
  have hpower : length < 256 ^ 4 := hlength
  unfold readChunk takeBytes
  by_cases hfront : framePrefixBytes ≤ stream.length
  · rw [if_pos hfront]
    dsimp only
    have hfour : ((stream.take framePrefixBytes).take 4).length = 4 := by
      rw [take_take, length_take]
      simp only [framePrefixBytes] at hfront ⊢
      omega
    have hfield : (stream.take framePrefixBytes).take 4 = slice stream 0 4 := by
      rw [take_take]
      rfl
    by_cases hstored : fromBigEndian ((stream.take framePrefixBytes).take 4) = length
    · rw [if_neg (not_not.mpr hstored)]
      have hbytes := (fromBigEndian_eq_iff hfour hpower).mp hstored
      rw [hfield] at hbytes
      by_cases hpayload : length ≤ (stream.drop framePrefixBytes).length
      · left
        rw [length_drop] at hpayload
        refine ⟨by omega, hbytes, ?_⟩
        rw [if_pos (by rw [length_drop]; exact hpayload)]
        have hchecksum : (stream.take framePrefixBytes).drop 4 = slice stream 4 4 := by
          rw [slice, drop_take]
          rfl
        rw [hchecksum, hstored, drop_drop]
        rfl
      · right
        rw [if_neg hpayload]
        rw [length_drop] at hpayload
        refine ⟨?_, .io, _, rfl, by simp⟩
        rintro ⟨_, -⟩
        omega
    · right
      rw [if_pos hstored]
      refine ⟨?_, _, _, rfl, by simp⟩
      rintro ⟨-, hbytes⟩
      rw [← hfield] at hbytes
      exact hstored ((fromBigEndian_eq_iff hfour hpower).mpr hbytes)
  · right
    rw [if_neg hfront]
    refine ⟨?_, .io, _, rfl, by simp⟩
    rintro ⟨_, -⟩
    omega

end

section

/-- The bytes of a stripe, and those of one data shard in it. -/
def stripeBytes (profile : ErasureProfile) (blob : Bytes) (stripe : Nat) : Bytes :=
  slice blob (stripe * profile.stripeWidth) profile.stripeWidth

def dataChunk (profile : ErasureProfile) (blob : Bytes) (stripe ordinal : Nat) : Bytes :=
  slice (stripeBytes profile blob stripe) (ordinal * profile.stripeUnit) profile.stripeUnit

/-- The data chunks of a stripe, completed by one parity chunk for each row. -/
def codeword
    (profile : ErasureProfile) (parityByte : Nat → List UInt8 → UInt8) (data : List Bytes) :
    List Bytes :=
  data ++ (List.range profile.parityShards).map fun row =>
    (List.range profile.stripeUnit).map fun column =>
      parityByte row (data.map fun chunk => chunk.getD column 0)

/-- Some chunks of a codeword. -/
def erased (chunks : List Bytes) (available : Nat → Bool) : List (Option Bytes) :=
  chunks.mapIdx fun ordinal chunk => if available ordinal then some chunk else none

/-- What is relied on from a Reed-Solomon codec: parity is computed column by
column by linear maps, any `dataShards` chunks determine the data, and chunks are
completed at their common length. -/
structure ReedSolomonLaws (profile : ErasureProfile) (reedSolomon : ReedSolomon)
    (parityByte : Nat → List UInt8 → UInt8) : Prop where
  linear : ∀ row (a b : List UInt8), a.length = b.length →
      parityByte row (List.zipWith (· ^^^ ·) a b) = parityByte row a ^^^ parityByte row b
  encode_eq : ∀ data spare : List Bytes, data.length = profile.dataShards →
      spare.length = profile.parityShards →
        (∀ chunk ∈ data ++ spare, chunk.length = profile.stripeUnit) →
          reedSolomon.encode (data ++ spare) = .ok (codeword profile parityByte data)
  recover : ∀ (data : List Bytes) (available : Nat → Bool), data.length = profile.dataShards →
      (∀ chunk ∈ data, chunk.length = profile.stripeUnit) → profile.dataShards ≤
        ((List.range profile.totalShards).filter fun ordinal => available ordinal).length →
          ∃ recovered, reedSolomon.reconstructData
            (erased (codeword profile parityByte data) available) = .ok recovered ∧
              ∀ ordinal < profile.dataShards, recovered.getD ordinal none = data[ordinal]?
  recovered_length : ∀ chunks recovered : List (Option Bytes),
      (∀ chunk, some chunk ∈ chunks → chunk.length = profile.stripeUnit) →
        reedSolomon.reconstructData chunks = .ok recovered →
          ∀ chunk, some chunk ∈ recovered → chunk.length = profile.stripeUnit

variable {codec : ErasureCodec} {parityByte : Nat → List UInt8 → UInt8} {expected : BlobRef}
  {blob : Bytes} {stripe ordinal : Nat}

/-- Linear parity of a column of zeros is zero. -/
theorem ReedSolomonLaws.zero
    (laws : ReedSolomonLaws codec.profile codec.reedSolomon parityByte) (row count : Nat) :
    parityByte row (List.replicate count 0) = 0 := by
  have hsum := laws.linear row (replicate count 0) (replicate count 0) rfl
  rw [zipWith_replicate, UInt8.xor_self, Nat.min_self, UInt8.xor_self] at hsum
  exact hsum

theorem length_stripeBytes (profile : ErasureProfile) (blob : Bytes) (stripe : Nat) :
    (stripeBytes profile blob stripe).length =
    min (blob.length - stripe * profile.stripeWidth) profile.stripeWidth := by
  rw [stripeBytes, length_slice, Nat.min_comm]

theorem length_dataChunk (h : ordinal < codec.profile.dataShards) :
    (dataChunk codec.profile blob stripe ordinal).length =
    codec.profile.chunkLength blob.length stripe ordinal := by
  rw [dataChunk, length_slice, length_stripeBytes, chunkLength_data h, Nat.min_comm]

theorem length_padded {chunk : Bytes}
    (h : chunk.length ≤ codec.profile.stripeUnit) :
    (codec.padded chunk).length = codec.profile.stripeUnit := by
  simp [padded]
  omega

/-- The padded data chunks of a stripe. -/
def paddedChunks (codec : ErasureCodec) (blob : Bytes) (stripe : Nat) : List Bytes :=
  (List.range codec.profile.dataShards).map fun ordinal =>
    codec.padded (dataChunk codec.profile blob stripe ordinal)

theorem length_paddedChunks :
    (paddedChunks codec blob stripe).length = codec.profile.dataShards := by
  simp [paddedChunks]

theorem length_of_mem_paddedChunks {chunk : Bytes}
    (h : chunk ∈ paddedChunks codec blob stripe) :
    chunk.length = codec.profile.stripeUnit := by
  obtain ⟨_, hordinal, rfl⟩ := mem_map.mp h
  refine length_padded ?_
  rw [length_dataChunk (mem_range.mp hordinal)]
  exact chunkLength_le _ _ _

/-- The chunk of a shard, as it is encoded. -/
def encodedChunk (codec : ErasureCodec) (parityByte : Nat → List UInt8 → UInt8) (blob : Bytes)
    (stripe ordinal : Nat) : Bytes :=
  (codeword codec.profile parityByte (paddedChunks codec blob stripe)).getD ordinal []

theorem length_codeword {data : List Bytes} (h : data.length = codec.profile.dataShards) :
    (codeword codec.profile parityByte data).length = codec.profile.totalShards := by
  simp [codeword, h, totalShards]

theorem encodedChunk_data (h : ordinal < codec.profile.dataShards) :
    encodedChunk codec parityByte blob stripe ordinal =
    codec.padded (dataChunk codec.profile blob stripe ordinal) := by
  have hlength := @length_paddedChunks codec blob stripe
  rw [encodedChunk, codeword, getD_append _ _ _ _ (by omega), paddedChunks]
  simp [h]

theorem encodedChunk_parity {row : Nat}
    (h : row < codec.profile.parityShards) :
    encodedChunk codec parityByte blob stripe (codec.profile.dataShards + row) =
      (List.range codec.profile.stripeUnit).map fun column =>
        parityByte row ((paddedChunks codec blob stripe).map fun chunk => chunk.getD column 0) := by
  have hlength := @length_paddedChunks codec blob stripe
  rw [encodedChunk, codeword, getD_append_right _ _ _ _ (by omega), hlength,
    Nat.add_sub_cancel_left]
  simp [h]

theorem length_encodedChunk (h : ordinal < codec.profile.totalShards) :
    (encodedChunk codec parityByte blob stripe ordinal).length = codec.profile.stripeUnit := by
  by_cases hdata : ordinal < codec.profile.dataShards
  · rw [encodedChunk_data hdata]
    refine length_padded ?_
    rw [length_dataChunk hdata]
    exact chunkLength_le _ _ _
  obtain ⟨row, rfl⟩ : ∃ row, ordinal = codec.profile.dataShards + row :=
    ⟨ordinal - codec.profile.dataShards, by omega⟩
  rw [totalShards] at h
  rw [encodedChunk_parity (by omega)]
  simp

/-- The bytes of a shard's chunk that are stored. -/
def storedChunk (codec : ErasureCodec) (parityByte : Nat → List UInt8 → UInt8) (blob : Bytes)
    (stripe ordinal : Nat) : Bytes :=
  (encodedChunk codec parityByte blob stripe ordinal).take
    (codec.profile.chunkLength blob.length stripe ordinal)

theorem length_storedChunk (h : ordinal < codec.profile.totalShards) :
    (storedChunk codec parityByte blob stripe ordinal).length =
    codec.profile.chunkLength blob.length stripe ordinal := by
  rw [storedChunk, length_take, length_encodedChunk h]
  exact Nat.min_eq_left (chunkLength_le _ _ _)

section

variable (laws : ReedSolomonLaws codec.profile codec.reedSolomon parityByte)
  (h : ordinal < codec.profile.totalShards)

include laws h

/-- What is cut off a chunk is zero. -/
theorem encodedChunk_tail {column : Nat}
    (hlow : codec.profile.chunkLength blob.length stripe ordinal ≤ column)
    (hhigh : column < codec.profile.stripeUnit) :
    (encodedChunk codec parityByte blob stripe ordinal).getD column 0 = 0 := by
  have hzero : ∀ data < codec.profile.dataShards, codec.profile.chunkLength blob.length stripe data
    ≤ column → (codec.padded (dataChunk codec.profile blob stripe data)).getD column 0 = 0 := by
    intro _ hdata hshort
    rw [padded,
      getD_append_right _ _ _ _ (by rw [length_dataChunk hdata]; exact hshort)]
    simp
  by_cases hdata : ordinal < codec.profile.dataShards
  · rw [encodedChunk_data hdata]
    exact hzero ordinal hdata hlow
  obtain ⟨row, rfl⟩ : ∃ row, ordinal = codec.profile.dataShards + row :=
    ⟨ordinal - codec.profile.dataShards, by omega⟩
  rw [totalShards] at h
  have hcolumn : ((paddedChunks codec blob stripe).map fun chunk => chunk.getD column 0) =
      replicate codec.profile.dataShards 0 := by
    rw [eq_replicate_iff]
    refine ⟨by simp [paddedChunks], ?_⟩
    intro _ hbyte
    obtain ⟨_, hchunk, rfl⟩ := mem_map.mp hbyte
    obtain ⟨data, hdata', rfl⟩ := mem_map.mp hchunk
    have hdata' := mem_range.mp hdata'
    exact hzero data hdata'
      ((chunkLength_le_parity hdata' (Nat.le_add_right _ row)).trans hlow)
  rw [encodedChunk_parity (by omega), getD_eq_getElem _ _ (by simpa using hhigh)]
  simp only [getElem_map, getElem_range]
  rw [hcolumn, laws.zero]

/-- A stored chunk is padded to the encoded one. -/
theorem padded_storedChunk : codec.padded (storedChunk codec parityByte blob stripe ordinal) =
    encodedChunk codec parityByte blob stripe ordinal := by
  have hlength := @length_encodedChunk codec parityByte blob stripe ordinal h
  have hstored := @length_storedChunk codec parityByte blob stripe ordinal h
  have hle := @ErasureProfile.chunkLength_le codec.profile blob.length stripe ordinal
  refine ext_getElem ?_ ?_
  · rw [length_padded (by omega), hlength]
  intro column _ hright
  by_cases hlow : column < codec.profile.chunkLength blob.length stripe ordinal
  · simp only [padded]
    rw [getElem_append_left (by omega)]
    simp [storedChunk]
  have htail := @encodedChunk_tail codec parityByte blob stripe ordinal laws h column
    (by omega) (by omega)
  rw [getD_eq_getElem _ _ hright] at htail
  rw [htail]
  simp only [padded]
  rw [getElem_append_right (by omega)]
  simp

end

section

variable (codec parityByte expected blob)

/-- The frame of a shard's chunk. -/
def shardFrame (ordinal stripe : Nat) : Bytes :=
  writeChunk codec.checksum (headerBody expected ordinal) ordinal stripe
    (storedChunk codec parityByte blob stripe ordinal)

/-- The beginning of a shard: its header and the frames of the first stripes. -/
def shardPart (stripes ordinal : Nat) : Bytes :=
  writeHeader codec.checksum expected ordinal ++
    laid (shardFrame codec parityByte expected blob ordinal) stripes

def shardOf (ordinal : Nat) : Bytes :=
  shardPart codec parityByte expected blob (codec.profile.stripeCount blob.length) ordinal

end

/-- Where the frame of a stripe begins in a shard. -/
def frameOffset (profile : ErasureProfile) (blobLength ordinal stripe : Nat) : Nat :=
  headerBytes + ((List.range stripe).map fun earlier =>
      framePrefixBytes + profile.chunkLength blobLength earlier ordinal).sum

theorem frameOffset_succ (profile : ErasureProfile) (blobLength ordinal stripe : Nat) :
    frameOffset profile blobLength ordinal (stripe + 1) =
    frameOffset profile blobLength ordinal stripe +
    (framePrefixBytes + profile.chunkLength blobLength stripe ordinal) := by
  simp [frameOffset, range_succ]
  omega

theorem length_shardFrame (h : ordinal < codec.profile.totalShards) :
    (shardFrame codec parityByte expected blob ordinal stripe).length =
    framePrefixBytes + codec.profile.chunkLength blob.length stripe ordinal := by
  rw [shardFrame, length_writeChunk, length_storedChunk h]

theorem length_shardPart (h : ordinal < codec.profile.totalShards) :
    (shardPart codec parityByte expected blob stripe ordinal).length =
    frameOffset codec.profile blob.length ordinal stripe := by
  rw [shardPart, length_append, length_writeHeader, length_laid, frameOffset]
  simp only [length_shardFrame h]

/-- The data chunks before an ordinal reach to its place or to the end of the
stripe. -/
theorem readDataChunks_part
    {hashed : Bytes} {count : Nat} (hcount : count ≤ codec.profile.dataShards) :
    (List.range count).foldlM (fun (progress : List Bytes × Source) ordinal => do
        let length := codec.profile.chunkLength blob.length stripe ordinal
        let (chunk, source) ← readSourceExact blob.length length progress.2
        pure (progress.1 ++ [codec.padded chunk], source))
      ([], { rest := blob.drop (stripe * codec.profile.stripeWidth), hashed }) =
      .ok ((List.range count).map fun ordinal =>
          codec.padded (dataChunk codec.profile blob stripe ordinal),
          { rest := (blob.drop (stripe * codec.profile.stripeWidth)).drop
                (min (count * codec.profile.stripeUnit)
                  (stripeBytes codec.profile blob stripe).length)
            hashed := hashed ++ (blob.drop (stripe * codec.profile.stripeWidth)).take
              (min (count * codec.profile.stripeUnit)
                (stripeBytes codec.profile blob stripe).length) }) := by
  induction count with
  | zero => simp [pure, Except.pure]
  | succ count ih =>
    have hstripe := length_stripeBytes codec.profile blob stripe
    have hlength := @ErasureProfile.chunkLength_data codec.profile blob.length stripe count
      (by omega)
    rw [← hstripe] at hlength
    have hsum : (count + 1) * codec.profile.stripeUnit =
        count * codec.profile.stripeUnit + codec.profile.stripeUnit := by
      rw [Nat.add_mul, Nat.one_mul]
    have hread : ((blob.drop (stripe * codec.profile.stripeWidth)).drop (min (count *
      codec.profile.stripeUnit) (stripeBytes codec.profile blob stripe).length)).take
      (codec.profile.chunkLength blob.length stripe count) = dataChunk codec.profile blob stripe
      count := by
      rw [hlength]
      exact take_drop_front _ _ _ _
    have hroom : codec.profile.chunkLength blob.length stripe count ≤ ((blob.drop (stripe *
      codec.profile.stripeWidth)).drop (min (count * codec.profile.stripeUnit) (stripeBytes
      codec.profile blob stripe).length)).length := by
      rw [length_drop, length_drop]
      omega
    have hnext : min (count * codec.profile.stripeUnit) (stripeBytes codec.profile blob
      stripe).length + codec.profile.chunkLength blob.length stripe count = min ((count + 1) *
      codec.profile.stripeUnit) (stripeBytes codec.profile blob stripe).length := by
      omega
    rw [range_succ, foldlM_append, ih (by omega)]
    simp only [foldlM_cons, foldlM_nil, bind, Except.bind, pure, Except.pure,
      readSourceExact, if_pos hroom, map_append, map_cons, map_nil]
    rw [hread, drop_drop, hnext, ← hread, append_assoc, ← take_add, hnext]

/-- The data chunks of a stripe are read one after another from a source. -/
theorem readDataChunks_eq (hashed : Bytes) : codec.readDataChunks blob.length stripe
      { rest := blob.drop (stripe * codec.profile.stripeWidth), hashed } =
      .ok (paddedChunks codec blob stripe,
        { rest := blob.drop ((stripe + 1) * codec.profile.stripeWidth)
          hashed := hashed ++ stripeBytes codec.profile blob stripe }) := by
  have hpart := @readDataChunks_part codec blob stripe hashed codec.profile.dataShards le_rfl
  have hstripe := length_stripeBytes codec.profile blob stripe
  have hwidth : codec.profile.dataShards * codec.profile.stripeUnit = codec.profile.stripeWidth :=
    rfl
  have hmin : min (codec.profile.dataShards * codec.profile.stripeUnit) (stripeBytes codec.profile
    blob stripe).length = (stripeBytes codec.profile blob stripe).length := by
    omega
  rw [hmin] at hpart
  have hrest : (blob.drop (stripe * codec.profile.stripeWidth)).drop (stripeBytes codec.profile blob
    stripe).length = blob.drop ((stripe + 1) * codec.profile.stripeWidth) := by
    rw [drop_drop, Nat.add_mul, Nat.one_mul]
    by_cases hwhole : codec.profile.stripeWidth ≤ blob.length - stripe * codec.profile.stripeWidth
    · congr 1
      omega
    · rw [drop_eq_nil_of_le (by omega), drop_eq_nil_of_le (by omega)]
  have htake : (blob.drop (stripe * codec.profile.stripeWidth)).take
      (stripeBytes codec.profile blob stripe).length = stripeBytes codec.profile blob stripe := by
    conv_rhs => rw [stripeBytes, slice]
    rw [take_eq_take_iff, length_drop]
    omega
  rw [hrest, htake] at hpart
  exact hpart

section

variable (laws : ReedSolomonLaws codec.profile codec.reedSolomon parityByte)
  (hlength : expected.length = blob.length)

include laws hlength

theorem encodeStripe_eq : codec.encodeStripe expected
      ({ rest := blob.drop (stripe * codec.profile.stripeWidth)
         hashed := blob.take (stripe * codec.profile.stripeWidth) },
        (List.range codec.profile.totalShards).map
          (shardPart codec parityByte expected blob stripe)) stripe =
      .ok
        ({ rest := blob.drop ((stripe + 1) * codec.profile.stripeWidth)
           hashed := blob.take ((stripe + 1) * codec.profile.stripeWidth) },
          (List.range codec.profile.totalShards).map
            (shardPart codec parityByte expected blob (stripe + 1))) := by
  have hunit : ∀ chunk ∈ paddedChunks codec blob stripe ++ replicate codec.profile.parityShards
    (replicate codec.profile.stripeUnit 0), chunk.length = codec.profile.stripeUnit := by
    intro _ hchunk
    rcases mem_append.mp hchunk with hdata | hblank
    · exact length_of_mem_paddedChunks hdata
    · rw [(mem_replicate.mp hblank).2, length_replicate]
  have hencoded := laws.encode_eq (paddedChunks codec blob stripe)
    (replicate codec.profile.parityShards (replicate codec.profile.stripeUnit 0))
    length_paddedChunks length_replicate hunit
  have hhashed : blob.take (stripe * codec.profile.stripeWidth) ++ stripeBytes codec.profile blob
    stripe = blob.take ((stripe + 1) * codec.profile.stripeWidth) := by
    rw [stripeBytes, slice, ← take_add, Nat.add_mul, Nat.one_mul]
  simp only [encodeStripe, hlength, readDataChunks_eq, hencoded, hhashed, bind,
    Except.bind, Except.mapError, pure, Except.pure]
  congr 2
  refine ext_getElem (by simp) ?_
  intro _ _ _
  simp only [getElem_mapIdx, getElem_map, getElem_range]
  rw [shardPart, shardPart, laid_succ, append_assoc]
  rfl

/-- The shards a source is encoded into. -/
theorem encode_eq (hhash : expected.hash = codec.blake3 blob) :
    codec.encode blob expected codec.profile.totalShards =
    .ok ((List.range codec.profile.totalShards).map (shardOf codec parityByte expected blob)) := by
  have hloop : ∀ stripes, (range stripes).foldlM (codec.encodeStripe expected)
          ({ rest := blob, hashed := [] }, (range codec.profile.totalShards).map
            (writeHeader codec.checksum expected)) =
        .ok
          ({ rest := blob.drop (stripes * codec.profile.stripeWidth)
             hashed := blob.take (stripes * codec.profile.stripeWidth) },
            (range codec.profile.totalShards).map
              (shardPart codec parityByte expected blob stripes)) := by
    intro stripes
    induction stripes with
    | zero => simp [shardPart, pure, Except.pure]
    | succ _ ih =>
      rw [range_succ, foldlM_append, ih]
      simp only [foldlM_cons, foldlM_nil, bind, Except.bind]
      rw [encodeStripe_eq laws hlength]
      rfl
  have hall := @ErasureProfile.le_stripes codec.profile blob.length
  simp only [encode, requireShardCount, hlength, hloop,
    drop_eq_nil_of_le hall, take_of_length_le hall, hhash, ne_eq, not_true_eq_false,
    rejectIf, if_false, bind, Except.bind, pure, Except.pure]
  rfl

end

/-- The frame of a stripe stands at its offset. -/
theorem drop_shardOf (h : ordinal < codec.profile.totalShards)
    (hstripe : stripe < codec.profile.stripeCount blob.length) :
    ∃ later, (shardOf codec parityByte expected blob ordinal).drop
    (frameOffset codec.profile blob.length ordinal stripe) =
    shardFrame codec parityByte expected blob ordinal stripe ++ later := by
  obtain ⟨later, hlater⟩ := drop_laid (shardFrame codec parityByte expected blob ordinal) hstripe
  refine ⟨later, ?_⟩
  rw [← hlater, ← @length_shardPart _ _ _ _ _ _ h, shardOf,
    shardPart, shardPart, length_append, ← drop_drop, drop_left]

theorem length_shardOf (h : ordinal < codec.profile.totalShards) :
    (shardOf codec parityByte expected blob ordinal).length =
    frameOffset codec.profile blob.length ordinal (codec.profile.stripeCount blob.length) :=
  length_shardPart h

theorem frameOffset_mono {later : Nat}
    (profile : ErasureProfile) (blobLength ordinal : Nat)
    (h : stripe ≤ later) : frameOffset profile blobLength ordinal stripe ≤
    frameOffset profile blobLength ordinal later := by
  induction later, h using Nat.le_induction with
  | base => exact le_rfl
  | succ =>
    rw [frameOffset_succ]
    omega

/-- Before the last stripe all frames are equally long. -/
theorem frameOffset_eq (profile : ErasureProfile) (blobLength ordinal : Nat)
    (h : stripe < profile.stripeCount blobLength) : frameOffset profile blobLength ordinal stripe =
    headerBytes + stripe * framePrefixBytes + stripe * profile.stripeUnit := by
  induction stripe with
  | zero => simp [frameOffset]
  | succ _ ih =>
    rw [frameOffset_succ, ih (by omega), chunkLength_full h]
    ring

section

variable (h : ordinal < codec.profile.totalShards)

include h

/-- The announced length of a shard is its length, as far as it fits a word. -/
theorem encodedShardLength_eq (hlength : expected.length = blob.length) :
    codec.encodedShardLength expected ordinal =
    if 2 ^ 64 ≤ (shardOf codec parityByte expected blob ordinal).length then
    .error (.encodedShardLengthOverflow ordinal) else
    .ok (shardOf codec parityByte expected blob ordinal).length := by
  have htotal : headerBytes + codec.profile.stripeCount blob.length * framePrefixBytes +
        (if codec.profile.stripeCount blob.length = 0 then 0
          else
            (codec.profile.stripeCount blob.length - 1) * codec.profile.stripeUnit +
              codec.profile.chunkLength blob.length
                (codec.profile.stripeCount blob.length - 1) ordinal) =
      (shardOf codec parityByte expected blob ordinal).length := by
    rw [length_shardOf h]
    cases hcount : codec.profile.stripeCount blob.length with
    | zero => simp [frameOffset]
    | succ =>
      rw [frameOffset_succ, frameOffset_eq _ _ _ (by omega), if_neg (by omega), Nat.add_sub_cancel]
      ring
  simp only [encodedShardLength, requireOrdinal, hlength, htotal,
    rejectIf, if_neg (Nat.not_le.mpr h), bind, Except.bind, pure, Except.pure]
  by_cases hlong : 2 ^ 64 ≤ (shardOf codec parityByte expected blob ordinal).length
  · simp only [if_pos hlong]
  · simp only [if_neg hlong]

/-- A frame is read back. -/
theorem readChunk_shardFrame (later : Bytes) :
    readChunk codec.checksum (headerBody expected ordinal) ordinal stripe
    (codec.profile.chunkLength blob.length stripe ordinal)
    (shardFrame codec parityByte expected blob ordinal stripe ++ later) =
    (.ok (storedChunk codec parityByte blob stripe ordinal), later) := by
  have hstored := @length_storedChunk codec parityByte blob stripe ordinal h
  have hframe := @length_shardFrame codec parityByte expected blob stripe ordinal h
  have hsmall := (@ErasureProfile.chunkLength_le codec.profile blob.length stripe ordinal).trans_lt
    codec.profile.unit_lt
  have hfield : slice (shardFrame codec parityByte expected blob ordinal stripe ++ later) 0 4 =
      bigEndian 4 (codec.profile.chunkLength blob.length stripe ordinal) := by
    rw [shardFrame, writeChunk, hstored, slice, drop_zero, append_assoc,
      append_assoc, take_left' (length_bigEndian 4 _)]
  have hchecksum : slice (shardFrame codec parityByte expected blob ordinal stripe ++ later) 4 4 =
      bigEndian 4 (chunkChecksum codec.checksum (headerBody expected ordinal) ordinal stripe
        (codec.profile.chunkLength blob.length stripe ordinal)
        (storedChunk codec parityByte blob stripe ordinal)).toNat := by
    rw [shardFrame, writeChunk, hstored, slice, append_assoc, append_assoc,
      drop_left' (length_bigEndian 4 _), take_left' (length_bigEndian 4 _)]
  have hpayload : slice (shardFrame codec parityByte expected blob ordinal stripe ++ later) 8
      (codec.profile.chunkLength blob.length stripe ordinal) =
        storedChunk codec parityByte blob stripe ordinal := by
    rw [shardFrame, writeChunk, slice, append_assoc, drop_left' (by simp), take_left' hstored]
  rcases @readChunk_cases codec.checksum (headerBody expected ordinal) ordinal stripe _
    (shardFrame codec parityByte expected blob ordinal stripe ++ later) hsmall with
    ⟨-, -, hread⟩ | ⟨hbroken, -⟩
  · rw [hread, hchecksum, hpayload, fromBigEndian_checksum, if_neg (by simp), ← hframe, drop_left]
  · exact absurd ⟨by rw [length_append, hframe]; omega, hfield⟩ hbroken

/-- The frames of a shard are read one after the other. -/
theorem readChunks_shardOf {stripes : Nat}
    (hstripes : stripes ≤ codec.profile.stripeCount blob.length) :
    (List.range stripes).foldlM (fun stream stripe =>
        let length := codec.profile.chunkLength blob.length stripe ordinal
        let (read, rest) :=
          readChunk codec.checksum (headerBody expected ordinal) ordinal stripe length stream
        read.map fun _ => rest)
      ((shardOf codec parityByte expected blob ordinal).drop headerBytes) =
      .ok ((shardOf codec parityByte expected blob ordinal).drop
        (frameOffset codec.profile blob.length ordinal stripes)) := by
  induction stripes with
  | zero => rfl
  | succ stripe ih =>
    obtain ⟨_, hlater⟩ := @drop_shardOf codec parityByte expected blob stripe ordinal h (by omega)
    have hframe := @length_shardFrame codec parityByte expected blob stripe ordinal h
    rw [range_succ, foldlM_append, ih (by omega), frameOffset_succ,
      ← drop_drop, hlater, ← hframe, drop_left]
    simp only [foldlM_cons, foldlM_nil, bind, Except.bind]
    rw [readChunk_shardFrame h]
    rfl

/-- Every shard of an encoding is valid. -/
theorem validateShard_shardOf (hlength : expected.length = blob.length) :
    codec.validateShard expected ordinal (shardOf codec parityByte expected blob ordinal) =
    .ok () := by
  have hheader : readHeader codec.checksum expected ordinal (shardOf codec parityByte expected blob
    ordinal) = .ok ((shardOf codec parityByte expected blob ordinal).drop headerBytes) := by
    rw [readHeader_eq_ok]
    exact ⟨by rw [shardOf, shardPart, take_left' (length_writeHeader expected ordinal)], rfl⟩
  have hend := drop_eq_nil_of_le (@length_shardOf codec parityByte expected blob ordinal h).le
  simp only [validateShard, requireOrdinal, hlength, hheader,
    readChunks_shardOf h le_rfl, hend, rejectIf, if_neg (Nat.not_le.mpr h), bind, Except.bind,
    ne_eq, not_true_eq_false, if_false]

end

end

end Keldra.Erasure
