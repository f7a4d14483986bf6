import Keldra.Erasure.Shards

/-!
# Reconstruction from damaged shards

A stream that replaces a shard is read frame by frame.  It is unbroken up to a
stripe while the header, all frames before and their length fields are in place;
then the reader stands at the offset of the next frame.  A chunk is readable if
its whole frame is intact in a stream that is unbroken up to it.
-/

namespace Keldra.Erasure

open Foundation Store List ErasureCodec

section

variable (profile : ErasureProfile)

/-- The header is intact, and up to the stripe every frame is there with its
length field intact. -/
def unbroken
    (profile : ErasureProfile) (blobLength ordinal : Nat) (shard stream : Bytes) : Nat → Bool
  | 0 => slice stream 0 headerBytes = slice shard 0 headerBytes
  | stripe + 1 =>
    let offset := frameOffset profile blobLength ordinal stripe
    unbroken profile blobLength ordinal shard stream stripe &&
      decide (frameOffset profile blobLength ordinal (stripe + 1) ≤ stream.length) &&
        decide (slice stream offset 4 = slice shard offset 4)

/-- The frame of the stripe is intact in an unbroken stream. -/
def readable (blobLength ordinal : Nat) (shard stream : Bytes) (stripe : Nat) : Bool :=
  let offset := frameOffset profile blobLength ordinal stripe
  let length := framePrefixBytes + profile.chunkLength blobLength stripe ordinal
  unbroken profile blobLength ordinal shard stream stripe &&
    decide (slice stream offset length = slice shard offset length)

/-- The shard's header is intact in the stream in its place, if there is one. -/
def headerIntact (blobLength : Nat) (shards : List Bytes)
    (streams : List (Option Bytes)) (ordinal : Nat) : Bool :=
  (streams.getD ordinal none).any fun stream =>
    unbroken profile blobLength ordinal (shards.getD ordinal []) stream 0

/-- The shard's chunk of the stripe is readable. -/
def chunkReadable (blobLength : Nat) (shards : List Bytes)
    (streams : List (Option Bytes)) (stripe ordinal : Nat) : Bool :=
  (streams.getD ordinal none).any fun stream =>
    readable profile blobLength ordinal (shards.getD ordinal []) stream stripe

/-- Enough headers are intact, and enough chunks of every stripe are readable. -/
def Recoverable (blobLength : Nat) (shards : List Bytes) (streams : List (Option Bytes)) : Prop :=
  profile.dataShards ≤ ((List.range profile.totalShards).filter
    (headerIntact profile blobLength shards streams)).length ∧
    ∀ stripe < profile.stripeCount blobLength, profile.dataShards ≤
      ((List.range profile.totalShards).filter
      (chunkReadable profile blobLength shards streams stripe)).length

end

/-- The checksum of every damaged frame that is still in place is wrong. -/
def DamageDetected (codec : ErasureCodec) (expected : BlobRef) (shards : List Bytes)
    (streams : List (Option Bytes)) : Prop :=
  ∀ ordinal < codec.profile.totalShards, ∀ stripe < codec.profile.stripeCount expected.length,
    ∀ stream ∈ streams.getD ordinal none,
      unbroken codec.profile expected.length ordinal (shards.getD ordinal []) stream
      (stripe + 1) = true →
      readable codec.profile expected.length ordinal (shards.getD ordinal []) stream
      stripe = false → fromBigEndian (slice stream
      (frameOffset codec.profile expected.length ordinal stripe + 4) 4) ≠
      (chunkChecksum codec.checksum (headerBody expected ordinal) ordinal stripe
      (codec.profile.chunkLength expected.length stripe ordinal)
      (slice stream (frameOffset codec.profile expected.length ordinal stripe + 8)
      (codec.profile.chunkLength expected.length stripe ordinal))).toNat

section

variable {codec : ErasureCodec} {parityByte : Nat → List UInt8 → UInt8} {expected : BlobRef}
  {blob stream : Bytes} {stripe ordinal : Nat}

section

variable (h : ordinal < codec.profile.totalShards)

include h

variable (hstripe : stripe < codec.profile.stripeCount blob.length)

include hstripe

/-- A readable chunk leaves the stream unbroken behind it. -/
theorem unbroken_of_readable (hreadable : readable codec.profile blob.length ordinal
    (shardOf codec parityByte expected blob ordinal) stream stripe = true) :
    unbroken codec.profile blob.length ordinal
    (shardOf codec parityByte expected blob ordinal) stream (stripe + 1) = true := by
  simp only [readable, Bool.and_eq_true, decide_eq_true_eq] at hreadable
  obtain ⟨hbefore, hframe⟩ := hreadable
  have hoffset : frameOffset codec.profile blob.length ordinal (stripe + 1) ≤ _ :=
    frameOffset_mono codec.profile blob.length ordinal hstripe
  have hlength := @length_shardOf codec parityByte expected blob ordinal h
  have hnext := frameOffset_succ codec.profile blob.length ordinal stripe
  have hlong := le_of_slice_eq (by omega) hframe
  have hfield := congrArg (fun bytes => slice bytes 0 4) hframe
  rw [slice_slice _ _ _ _ _ (by simp [framePrefixBytes]; omega),
    slice_slice _ _ _ _ _ (by simp [framePrefixBytes]; omega), Nat.add_zero] at hfield
  simp only [unbroken, Bool.and_eq_true, decide_eq_true_eq]
  refine ⟨⟨hbefore, ?_⟩, hfield⟩
  simp only [framePrefixBytes] at hlong hnext
  omega

theorem slice_shardOf : slice (shardOf codec parityByte expected blob ordinal)
    (frameOffset codec.profile blob.length ordinal stripe)
    (framePrefixBytes + codec.profile.chunkLength blob.length stripe ordinal) =
    shardFrame codec parityByte expected blob ordinal stripe := by
  obtain ⟨_, hlater⟩ := @drop_shardOf _ _ _ _ _ _ h hstripe
  rw [slice, hlater, take_left' (length_shardFrame h)]

/-- Behind an unbroken part, the frame is in place with its length field exactly if
the stream stays unbroken. -/
theorem unbroken_succ_iff (hunbroken : unbroken codec.profile blob.length ordinal
    (shardOf codec parityByte expected blob ordinal) stream stripe = true) :
    unbroken codec.profile blob.length ordinal (shardOf codec parityByte expected blob ordinal)
    stream (stripe + 1) = true ↔
    framePrefixBytes + codec.profile.chunkLength blob.length stripe ordinal ≤
    (stream.drop (frameOffset codec.profile blob.length ordinal stripe)).length ∧
    slice (stream.drop (frameOffset codec.profile blob.length ordinal stripe)) 0 4 =
    bigEndian 4 (codec.profile.chunkLength blob.length stripe ordinal) := by
  have hfield : slice (shardOf codec parityByte expected blob ordinal)
      (frameOffset codec.profile blob.length ordinal stripe) 4 =
        bigEndian 4 (codec.profile.chunkLength blob.length stripe ordinal) := by
    obtain ⟨_, hlater⟩ := @drop_shardOf _ _ _ _ _ _ h hstripe
    rw [slice, hlater, shardFrame, writeChunk, length_storedChunk h, append_assoc,
      append_assoc, take_left' (length_bigEndian 4 _)]
  have hnext := frameOffset_succ codec.profile blob.length ordinal stripe
  simp only [unbroken, hunbroken, Bool.true_and, Bool.and_eq_true, decide_eq_true_eq, hfield,
    slice_drop, Nat.add_zero, length_drop, framePrefixBytes] at hnext ⊢
  constructor
  · rintro ⟨_, hbytes⟩
    exact ⟨by omega, hbytes⟩
  rintro ⟨_, hbytes⟩
  exact ⟨by omega, hbytes⟩

end

section

variable (codec parityByte expected blob stripe ordinal) (stream : Option Bytes)

/-- The stream a reader holds before a stripe. -/
def streamAt : Option Bytes :=
  stream.bind fun bytes =>
    if unbroken codec.profile blob.length ordinal (shardOf codec parityByte expected blob ordinal)
      bytes stripe then
      some (bytes.drop (frameOffset codec.profile blob.length ordinal stripe))
    else
      none

/-- The chunk a reader finds for a stripe. -/
def chunkAt : Option Bytes :=
  stream.bind fun bytes =>
    if readable codec.profile blob.length ordinal (shardOf codec parityByte expected blob ordinal)
      bytes stripe then
      some (encodedChunk codec parityByte blob stripe ordinal)
    else
      none

end

/-- The stream behind a header. -/
theorem streamAt_zero (stream : Option Bytes) :
    (stream.bind fun bytes => (readHeader codec.checksum expected ordinal bytes).toOption) =
    streamAt codec parityByte expected blob 0 ordinal stream := by
  cases stream with
  | none => rfl
  | some bytes =>
    have hshard : slice (shardOf codec parityByte expected blob ordinal) 0 headerBytes =
        writeHeader codec.checksum expected ordinal := by
      rw [slice, drop_zero, shardOf, shardPart, take_left' (length_writeHeader expected ordinal)]
    have hstream : slice bytes 0 headerBytes = bytes.take headerBytes := rfl
    simp only [streamAt, Option.bind_some, unbroken, hshard, hstream, decide_eq_true_eq]
    by_cases hheader : bytes.take headerBytes = writeHeader codec.checksum expected ordinal
    · rw [if_pos hheader, readHeader_eq_ok.mpr ⟨hheader, rfl⟩]
      rfl
    rw [if_neg hheader]
    cases hread : readHeader codec.checksum expected ordinal bytes with
    | error => rfl
    | ok => exact absurd (readHeader_eq_ok.mp hread).1 hheader

/-- The reader of a stream that stands before a frame: with damage detected it
returns the readable chunk, and stands before the next frame if the stream is
unbroken. -/
theorem readShardChunk_eq (laws : ReedSolomonLaws codec.profile codec.reedSolomon parityByte)
    (h : ordinal < codec.profile.totalShards) (hlength : expected.length = blob.length)
    (hstripe : stripe < codec.profile.stripeCount blob.length) (stream : Option Bytes)
    (hdetected : ∀ bytes ∈ stream,
    unbroken codec.profile blob.length ordinal (shardOf codec parityByte expected blob ordinal)
    bytes (stripe + 1) = true → readable codec.profile blob.length ordinal
    (shardOf codec parityByte expected blob ordinal) bytes stripe = false →
    fromBigEndian (slice bytes (frameOffset codec.profile blob.length ordinal stripe + 4) 4) ≠
    (chunkChecksum codec.checksum (headerBody expected ordinal) ordinal stripe
    (codec.profile.chunkLength blob.length stripe ordinal)
    (slice bytes (frameOffset codec.profile blob.length ordinal stripe + 8)
    (codec.profile.chunkLength blob.length stripe ordinal))).toNat) :
    codec.readShardChunk expected stripe ordinal
    (streamAt codec parityByte expected blob stripe ordinal stream) =
    (chunkAt codec parityByte expected blob stripe ordinal stream,
    streamAt codec parityByte expected blob (stripe + 1) ordinal stream) := by
  cases stream with
  | none => rfl
  | some bytes =>
    have hsmall :=
      (@ErasureProfile.chunkLength_le codec.profile blob.length stripe ordinal).trans_lt
        codec.profile.unit_lt
    have hnext := frameOffset_succ codec.profile blob.length ordinal stripe
    simp only [streamAt, chunkAt, Option.bind_some]
    cases hunbroken : unbroken codec.profile blob.length ordinal
      (shardOf codec parityByte expected blob ordinal) bytes stripe with
    | false => simp [readShardChunk, readable, unbroken, hunbroken]
    | true =>
      have hiff := unbroken_succ_iff h hstripe hunbroken
      simp only [if_true, readShardChunk, hlength]
      rcases @readChunk_cases codec.checksum (headerBody expected ordinal) ordinal stripe _
        (bytes.drop (frameOffset codec.profile blob.length ordinal stripe)) hsmall with
        ⟨hlong, hfield, hread⟩ | ⟨hbroken, error, _, hread, herror⟩
      · have hbehind := hiff.mpr ⟨hlong, hfield⟩
        rw [drop_drop, ← hnext] at hread
        cases hreadable : readable codec.profile blob.length ordinal
          (shardOf codec parityByte expected blob ordinal) bytes stripe with
        | true =>
          simp only [readable, hunbroken, Bool.true_and, decide_eq_true_eq,
            slice_shardOf h hstripe] at hreadable
          have hsplit : bytes.drop (frameOffset codec.profile blob.length ordinal stripe) =
              shardFrame codec parityByte expected blob ordinal stripe ++ bytes.drop
                  (frameOffset codec.profile blob.length ordinal (stripe + 1)) := by
            rw [← hreadable, hnext, ← drop_drop, slice, take_append_drop]
          rw [hsplit, readChunk_shardFrame h]
          simp only [padded_storedChunk laws h, hbehind, if_true]
        | false =>
          have hwrong := hdetected bytes rfl hbehind hreadable
          rw [slice_drop, slice_drop, if_pos hwrong] at hread
          rw [hread]
          simp [hbehind]
      · have hends : unbroken codec.profile blob.length ordinal
            (shardOf codec parityByte expected blob ordinal) bytes (stripe + 1) = false :=
          Bool.eq_false_iff.mpr fun hstill => hbroken (hiff.mp hstill)
        have hmissing : readable codec.profile blob.length ordinal
            (shardOf codec parityByte expected blob ordinal) bytes stripe = false :=
          Bool.eq_false_iff.mpr fun hreadable =>
            hbroken (hiff.mp (unbroken_of_readable h hstripe hreadable))
        rw [hread, hends, hmissing]
        cases error with
        | chunkChecksumMismatch ordinal stripe => exact absurd rfl (herror ordinal stripe)
        | _ => rfl

variable {streams : List (Option Bytes)}

/-- The shards of a blob. -/
def shardsOf (codec : ErasureCodec) (parityByte : Nat → List UInt8 → UInt8) (expected : BlobRef)
    (blob : Bytes) : List Bytes :=
  (List.range codec.profile.totalShards).map (shardOf codec parityByte expected blob)

theorem getD_shardsOf (h : ordinal < codec.profile.totalShards) :
    (shardsOf codec parityByte expected blob).getD ordinal [] =
    shardOf codec parityByte expected blob ordinal := by
  simp [shardsOf, h]

section

variable (codec parityByte expected blob) (streams : List (Option Bytes)) (stripe : Nat)

/-- The streams of all shards before a stripe. -/
def streamsAt : List (Option Bytes) :=
  (List.range codec.profile.totalShards).map fun ordinal =>
    streamAt codec parityByte expected blob stripe ordinal (streams.getD ordinal none)

/-- The number of shards whose chunk of the stripe is readable. -/
def readableChunks : Nat :=
  ((List.range codec.profile.totalShards).filter
    (chunkReadable codec.profile blob.length (shardsOf codec parityByte expected blob) streams
      stripe)).length

end

theorem openStreams_eq (hcount : streams.length = codec.profile.totalShards) :
    codec.openStreams expected streams = streamsAt codec parityByte expected blob streams 0 := by
  rw [openStreams, mapIdx_eq_map_range _ _ none, hcount, streamsAt]
  congr 1
  funext ordinal
  exact streamAt_zero _

theorem isSome_streamAt (h : ordinal < codec.profile.totalShards) :
    (streamAt codec parityByte expected blob 0 ordinal (streams.getD ordinal none)).isSome =
    headerIntact codec.profile blob.length (shardsOf codec parityByte expected blob) streams
    ordinal := by
  rw [headerIntact, getD_shardsOf h]
  cases streams.getD ordinal none with
  | none => rfl
  | some =>
    simp only [streamAt, Option.bind_some, Option.any_some]
    split
    · rename_i hunbroken
      rw [hunbroken]
      rfl
    rename_i hbroken
    rw [Bool.eq_false_iff.mpr hbroken]
    rfl

/-- As many streams are opened as headers are intact. -/
theorem length_streamsAt_zero :
    ((streamsAt codec parityByte expected blob streams 0).filter Option.isSome).length =
    ((List.range codec.profile.totalShards).filter
    (headerIntact codec.profile blob.length (shardsOf codec parityByte expected blob)
    streams)).length := by
  rw [streamsAt, filter_map, length_map]
  congr 1
  refine filter_congr ?_
  intro _ hordinal
  exact isSome_streamAt (mem_range.mp hordinal)

theorem chunkAt_eq (h : ordinal < codec.profile.totalShards) :
    chunkAt codec parityByte expected blob stripe ordinal (streams.getD ordinal none) =
    if chunkReadable codec.profile blob.length (shardsOf codec parityByte expected blob) streams
    stripe ordinal then some (encodedChunk codec parityByte blob stripe ordinal) else none := by
  rw [chunkReadable, getD_shardsOf h]
  cases streams.getD ordinal none with
  | none | some => rfl

/-- The chunks the readers find are the readable ones of the stripe's codeword. -/
theorem chunksAt_eq : ((List.range codec.profile.totalShards).map fun ordinal =>
      chunkAt codec parityByte expected blob stripe ordinal (streams.getD ordinal none)) =
      erased (codeword codec.profile parityByte (paddedChunks codec blob stripe))
    (chunkReadable codec.profile blob.length (shardsOf codec parityByte expected blob)
      streams stripe) := by
  have hcodeword := @length_codeword codec parityByte _ (@length_paddedChunks codec blob stripe)
  rw [erased, mapIdx_eq_map_range _ _ [], hcodeword]
  refine map_congr_left ?_
  intro _ hordinal
  exact chunkAt_eq (mem_range.mp hordinal)

theorem length_chunksAt : (((List.range codec.profile.totalShards).map fun ordinal =>
      chunkAt codec parityByte expected blob stripe ordinal
        (streams.getD ordinal none)).filter Option.isSome).length =
      readableChunks codec parityByte expected blob streams stripe := by
  rw [filter_map, length_map, readableChunks]
  congr 1
  refine filter_congr ?_
  intro _ hordinal
  rw [Function.comp_apply, chunkAt_eq (mem_range.mp hordinal)]
  split
  · rename_i hreadable
    rw [hreadable]
    rfl
  rename_i hmissing
  rw [Bool.eq_false_iff.mpr hmissing]
  rfl

/-- The data chunks of a stripe, cut to their lengths, are its bytes. -/
theorem flatten_dataChunks :
    ((List.range codec.profile.dataShards).map (dataChunk codec.profile blob stripe)).flatten =
    stripeBytes codec.profile blob stripe := by
  have hlength := length_stripeBytes codec.profile blob stripe
  refine (flatMap_slices _ _ _).trans (take_of_length_le ?_)
  rw [hlength]
  exact Nat.min_le_right _ _

section

variable (laws : ReedSolomonLaws codec.profile codec.reedSolomon parityByte)
  (hlength : expected.length = blob.length)

include laws hlength

section

variable
  (hdetected : DamageDetected codec expected (shardsOf codec parityByte expected blob) streams)

include hdetected

/-- All readers step over the frames of a stripe. -/
theorem readShardChunks_eq (hstripe : stripe < codec.profile.stripeCount blob.length) :
    (streamsAt codec parityByte expected blob streams stripe).mapIdx (codec.readShardChunk expected
    stripe) = (List.range codec.profile.totalShards).map fun ordinal => (chunkAt codec parityByte
    expected blob stripe ordinal (streams.getD ordinal none),
    streamAt codec parityByte expected blob (stripe + 1) ordinal (streams.getD ordinal none)) := by
  have hcount : (streamsAt codec parityByte expected blob streams stripe).length =
      codec.profile.totalShards := by simp [streamsAt]
  rw [mapIdx_eq_map_range _ _ none, hcount]
  refine map_congr_left ?_
  intro ordinal hordinal
  have hordinal := mem_range.mp hordinal
  have hstream : (streamsAt codec parityByte expected blob streams stripe).getD ordinal none =
      streamAt codec parityByte expected blob stripe ordinal (streams.getD ordinal none) := by
    simp [streamsAt, hordinal]
  rw [hstream]
  refine readShardChunk_eq laws hordinal hlength hstripe _ ?_
  have hdamage := hdetected ordinal hordinal stripe (by rw [hlength]; exact hstripe)
  rw [getD_shardsOf hordinal, hlength] at hdamage
  exact hdamage

/-- A stripe is reconstructed exactly if enough of its chunks are readable. -/
theorem reconstructStripe_eq (hstripe : stripe < codec.profile.stripeCount blob.length) :
    codec.reconstructStripe expected (streamsAt codec parityByte expected blob streams stripe,
    blob.take (stripe * codec.profile.stripeWidth)) stripe =
    if readableChunks codec parityByte expected blob streams stripe < codec.profile.dataShards then
    .error (.tooFewValidChunks stripe codec.profile.dataShards
    (readableChunks codec parityByte expected blob streams stripe)) else
    .ok (streamsAt codec parityByte expected blob streams (stripe + 1),
    blob.take ((stripe + 1) * codec.profile.stripeWidth)) := by
  have hread := readShardChunks_eq laws hlength hdetected hstripe
  by_cases hfew : readableChunks codec parityByte expected blob streams stripe <
    codec.profile.dataShards
  · simp only [reconstructStripe, hread, map_map, Function.comp_def,
      length_chunksAt, rejectIf, if_pos hfew, bind, Except.bind]
  obtain ⟨recovered, hrecovered, hdata⟩ := laws.recover (paddedChunks codec blob stripe)
    (chunkReadable codec.profile blob.length (shardsOf codec parityByte expected blob) streams
    stripe) length_paddedChunks (fun chunk => length_of_mem_paddedChunks) (Nat.le_of_not_lt hfew)
  rw [← chunksAt_eq] at hrecovered
  have hchunks : (range codec.profile.dataShards).mapM (fun ordinal => do
        let chunk ← okOr (recovered.getD ordinal none)
          (ErasureError.codec "data shard was not reconstructed")
        pure (chunk.take (codec.profile.chunkLength blob.length stripe ordinal))) =
      .ok ((range codec.profile.dataShards).map (dataChunk codec.profile blob stripe)) := by
    rw [mapM_eq_ok, forall₂_map_right_iff, forall₂_same]
    intro ordinal hordinal
    have hordinal := mem_range.mp hordinal
    have hchunk : recovered.getD ordinal none =
        some (codec.padded (dataChunk codec.profile blob stripe ordinal)) := by
      rw [hdata ordinal hordinal, paddedChunks]
      simp [hordinal]
    rw [hchunk, ← length_dataChunk hordinal]
    simp [okOr, padded, bind, Except.bind, pure, Except.pure]
  have hbytes : blob.take (stripe * codec.profile.stripeWidth) ++
      ((range codec.profile.dataShards).map (dataChunk codec.profile blob stripe)).flatten =
      blob.take ((stripe + 1) * codec.profile.stripeWidth) := by
    rw [flatten_dataChunks, stripeBytes, slice, ← take_add, Nat.add_mul, Nat.one_mul]
  simp only [reconstructStripe, hread, map_map, Function.comp_def, length_chunksAt,
    hlength, if_neg hfew, bind_eq_ok, pure_eq_ok, rejectIf_eq_ok, exists_const, mapError_eq_ok]
  exact ⟨hfew, recovered, hrecovered, _, hchunks, by rw [hbytes, streamsAt]⟩

/-- The stripes before one that is reached have enough readable chunks; behind a
stripe with too few there is only the failure. -/
theorem reconstructStripes_eq {stripes : Nat}
    (hstripes : stripes ≤ codec.profile.stripeCount blob.length) :
    ((∀ stripe < stripes, codec.profile.dataShards ≤
    readableChunks codec parityByte expected blob streams stripe) ∧
    (List.range stripes).foldlM (codec.reconstructStripe expected)
    (streamsAt codec parityByte expected blob streams 0, []) =
    .ok (streamsAt codec parityByte expected blob streams stripes,
    blob.take (stripes * codec.profile.stripeWidth))) ∨
    ((∃ stripe < stripes, readableChunks codec parityByte expected blob streams stripe <
    codec.profile.dataShards) ∧
    ∃ error, (List.range stripes).foldlM (codec.reconstructStripe expected)
    (streamsAt codec parityByte expected blob streams 0, []) = .error error) := by
  induction stripes with
  | zero =>
    left
    exact ⟨by omega, by simp [pure, Except.pure]⟩
  | succ stripe ih =>
    rw [range_succ, foldlM_append]
    rcases ih (by omega) with ⟨henough, hprogress⟩ | ⟨⟨broken, _, hfew⟩, error, herror⟩
    · have hnext := @reconstructStripe_eq codec parityByte expected blob stripe streams laws
        hlength hdetected (by omega)
      rw [hprogress]
      simp only [foldlM_cons, foldlM_nil, bind, Except.bind, pure, Except.pure]
      by_cases hfew : readableChunks codec parityByte expected blob streams stripe <
        codec.profile.dataShards
      · right
        rw [if_pos hfew] at hnext
        rw [hnext]
        exact ⟨⟨stripe, by omega, hfew⟩, _, rfl⟩
      left
      rw [if_neg hfew] at hnext
      rw [hnext]
      refine ⟨?_, rfl⟩
      intro earlier hearlier
      rcases Nat.lt_succ_iff_lt_or_eq.mp hearlier with hbefore | rfl
      · exact henough earlier hbefore
      · exact Nat.le_of_not_lt hfew
    · right
      rw [herror]
      exact ⟨⟨broken, by omega, hfew⟩, error, rfl⟩

end

/-- With damage detected, the blob comes back exactly if enough of it is left. -/
theorem reconstruct_cases (hhash : expected.hash = codec.blake3 blob)
    (hcount : streams.length = codec.profile.totalShards)
    (hdetected : DamageDetected codec expected (shardsOf codec parityByte expected blob) streams) :
    (Recoverable codec.profile blob.length (shardsOf codec parityByte expected blob) streams ∧
    codec.reconstruct expected streams = .ok blob) ∨
    (¬ Recoverable codec.profile blob.length (shardsOf codec parityByte expected blob) streams ∧
    ∃ error, codec.reconstruct expected streams = .error error) := by
  simp only [reconstruct, requireShardCount, hcount, ne_eq,
    not_true_eq_false, rejectIf, if_false, bind, Except.bind,
    @openStreams_eq codec parityByte expected blob streams hcount, length_streamsAt_zero]
  by_cases hheaders : ((range codec.profile.totalShards).filter
    (headerIntact codec.profile blob.length (shardsOf codec parityByte expected blob)
      streams)).length < codec.profile.dataShards
  · right
    rw [if_pos hheaders]
    refine ⟨?_, _, rfl⟩
    rintro ⟨_, -⟩
    omega
  rw [if_neg hheaders, hlength]
  rcases @reconstructStripes_eq codec parityByte expected blob streams laws hlength hdetected
    (codec.profile.stripeCount blob.length) le_rfl with
    ⟨henough, hprogress⟩ | ⟨⟨broken, hbroken, hfew⟩, error, herror⟩
  · left
    refine ⟨⟨Nat.le_of_not_lt hheaders, henough⟩, ?_⟩
    have hall : blob.length ≤ _ := @ErasureProfile.le_stripes codec.profile blob.length
    rw [hprogress]
    simp only [take_of_length_le hall, hhash, not_true_eq_false, if_false, pure, Except.pure]
  right
  rw [herror]
  refine ⟨?_, error, rfl⟩
  rintro ⟨-, henough⟩
  exact absurd (henough broken hbroken) (Nat.not_le.mpr hfew)

end

variable {after : List (Option Bytes) × Bytes}

/-- Whatever a stream holds, a chunk that is read is padded to the stripe unit. -/
theorem length_of_readShardChunk {chunk : Bytes} {stream : Option Bytes}
    (h : (codec.readShardChunk expected stripe ordinal stream).1 = some chunk) :
    chunk.length = codec.profile.stripeUnit := by
  have hle := @ErasureProfile.chunkLength_le codec.profile expected.length stripe ordinal
  cases stream with
  | none => cases h
  | some bytes =>
    simp only [readShardChunk] at h
    rcases @readChunk_cases codec.checksum (headerBody expected ordinal) ordinal stripe _ bytes
      (hle.trans_lt codec.profile.unit_lt) with
      ⟨-, -, hread⟩ | ⟨-, _, _, hread, _⟩
    · rw [hread] at h
      split at h
      · rename_i hok
        cases h
        split at hok
        · cases hok
        cases hok
        refine length_padded ?_
        rw [length_slice]
        exact (Nat.min_le_left _ _).trans hle
      · cases h
      · cases h
    · rw [hread] at h
      split at h
      · rename_i hok
        cases hok
      · cases h
      · cases h

/-- The lengths of the data chunks of a stripe add up to the stripe. -/
theorem sum_chunkLengths {profile : ErasureProfile} (length stripe : Nat) {count : Nat}
    (hcount : count ≤ profile.dataShards) :
    ((List.range count).map (profile.chunkLength length stripe)).sum =
    min (count * profile.stripeUnit)
    (min (length - stripe * profile.stripeWidth) profile.stripeWidth) := by
  induction count with
  | zero => simp
  | succ _ ih =>
    rw [range_succ, map_append, sum_append, ih (by omega), map_singleton,
      sum_singleton, ErasureProfile.chunkLength_data (by omega), Nat.add_mul, Nat.one_mul]
    omega

section

variable (laws : ReedSolomonLaws codec.profile codec.reedSolomon parityByte)

include laws

/-- A stripe that is accepted adds its own number of bytes. -/
theorem length_reconstructStripe {progress : List (Option Bytes) × Bytes}
    (h : codec.reconstructStripe expected progress stripe = .ok after) :
    after.2.length = progress.2.length +
    min (expected.length - stripe * codec.profile.stripeWidth) codec.profile.stripeWidth := by
  simp only [reconstructStripe, ok_rules, mapError_eq_ok] at h
  obtain ⟨-, recovered, hrecovered, data, hdata, rfl⟩ := h
  have hpresent : ∀ chunk, some chunk ∈ (progress.1.mapIdx (codec.readShardChunk expected
    stripe)).map Prod.fst → chunk.length = codec.profile.stripeUnit := by
    intro _ hchunk
    obtain ⟨_, hread, hfirst⟩ := mem_map.mp hchunk
    obtain ⟨_, _, rfl⟩ := mem_mapIdx.mp hread
    exact length_of_readShardChunk hfirst
  have hunit := laws.recovered_length _ _ hpresent hrecovered
  have hlengths : data.map length = (range codec.profile.dataShards).map
        (codec.profile.chunkLength expected.length stripe) := by
    rw [mapM_eq_ok] at hdata
    rw [← forall₂_eq_eq_eq, forall₂_map_left_iff, forall₂_map_right_iff]
    refine (hdata.imp ?_).flip
    intro ordinal _ hbytes
    simp only [ok_rules] at hbytes
    obtain ⟨chunk, hchunk, rfl⟩ := hbytes
    have hmem : some chunk ∈ recovered := by
      rw [getD_eq_getElem?_getD] at hchunk
      cases hget : recovered[ordinal]? with
      | none => simp [hget] at hchunk
      | some =>
        rw [hget, Option.getD_some] at hchunk
        rw [← hchunk]
        exact mem_of_getElem? hget
    have htaken := Nat.min_eq_left
      (@ErasureProfile.chunkLength_le codec.profile expected.length stripe ordinal)
    rw [← hunit chunk hmem, ← length_take] at htaken
    exact htaken
  have hwidth : codec.profile.dataShards * codec.profile.stripeUnit = codec.profile.stripeWidth :=
    rfl
  rw [length_append, length_flatten, hlengths, sum_chunkLengths _ _ le_rfl, hwidth]
  omega

theorem length_reconstructStripes {stripes : Nat} {opened : List (Option Bytes)}
    (h : (List.range stripes).foldlM (codec.reconstructStripe expected) (opened, []) = .ok after) :
    after.2.length = min (stripes * codec.profile.stripeWidth) expected.length := by
  induction stripes generalizing after with
  | zero =>
    cases h
    simp
  | succ _ ih =>
    rw [range_succ, foldlM_append, bind_eq_ok] at h
    obtain ⟨_, hmiddle, hlast⟩ := h
    rw [foldlM_cons, bind_eq_ok] at hlast
    obtain ⟨_, hstep, hlast⟩ := hlast
    cases hlast
    have hbefore := ih hmiddle
    have hadded := length_reconstructStripe laws hstep
    rw [Nat.add_mul, Nat.one_mul]
    omega

/-- Whatever the streams hold, an accepted output has the length and the hash it is
asked for. -/
theorem reconstruct_accepts {output : Bytes}
    (h : codec.reconstruct expected streams = .ok output) :
    output.length = expected.length ∧ codec.blake3 output = expected.hash := by
  simp only [reconstruct, bind_eq_ok, exists_const, rejectIf_eq_ok, pure_eq_ok,
    Prod.exists, not_not] at h
  obtain ⟨-, -, -, _, _, hstripes, hhash, rfl⟩ := h
  have hall := @ErasureProfile.le_stripes codec.profile expected.length
  have hlength := length_reconstructStripes laws hstripes
  exact ⟨by rw [hlength, Nat.min_eq_right hall], hhash⟩

end

variable {total : Nat} {shards : List (Nat × Bytes)}

/-- Shards given with their ordinals, each in its place. -/
def placed (total : Nat) (shards : List (Nat × Bytes)) : List (Option Bytes) :=
  (List.range total).map fun ordinal => shards.lookup ordinal

theorem getD_placed (h : ordinal < total) (shards : List (Nat × Bytes)) :
    (placed total shards).getD ordinal none = shards.lookup ordinal := by
  simp [placed, h]

theorem placed_append (hfree : shards.lookup ordinal = none) :
    (placed total shards).set ordinal (some stream) =
    placed total (shards ++ [(ordinal, stream)]) := by
  refine ext_getElem (by simp [placed]) ?_
  intro index _ hright
  simp only [placed, getElem_map, getElem_range, lookup_append]
  by_cases hsame : ordinal = index
  · subst hsame
    simp [hfree, lookup]
  have hother : (index == ordinal) = false := by simpa using fun h => hsame h.symm
  simp [hsame, lookup, hother]

/-- Shards with different ordinals are reconstructed from their places. -/
theorem reconstructAvailable_eq (hordinals : ∀ entry ∈ shards, entry.1 < codec.profile.totalShards)
    (hnodup : (shards.map Prod.fst).Nodup) : codec.reconstructAvailable expected shards =
    codec.reconstruct expected (placed codec.profile.totalShards shards) := by
  have hplaced : shards.foldlM (fun (streams : List (Option Bytes)) entry => do
        codec.requireOrdinal entry.1
        rejectIf ((streams.getD entry.1 none).isSome) (.duplicateShardOrdinal entry.1)
        pure (streams.set entry.1 (some entry.2)))
      (replicate codec.profile.totalShards none) =
        .ok (placed codec.profile.totalShards shards) := by
    induction shards using reverseRecOn with
    | nil => simp [placed, map_const', pure, Except.pure]
    | append_singleton shards entry ih =>
      have hentry := hordinals entry (by simp)
      rw [map_append, nodup_append] at hnodup
      have hfree : shards.lookup entry.1 = none := by
        rw [lookup_eq_none_iff]
        intro other hother
        have hdifferent := hnodup.2.2 other.1 (mem_map_of_mem hother) entry.1 (by simp)
        simpa using fun h => hdifferent h.symm
      rw [foldlM_append, ih (fun other hother => hordinals other (by simp [hother])) hnodup.1]
      simp only [foldlM_cons, foldlM_nil, requireOrdinal, rejectIf, if_neg
        (Nat.not_le.mpr hentry), getD_placed hentry, hfree, Option.isSome_none, Bool.false_eq_true,
        if_false, bind, Except.bind, pure, Except.pure, placed_append hfree]
  rw [reconstructAvailable, hplaced]
  rfl

end

end Keldra.Erasure
