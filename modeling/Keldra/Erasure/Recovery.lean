import Keldra.Erasure.Reconstruction

/-!
# Recovery of every tolerated loss

What encoding and reconstruction do together, for every blob and every damage of
the shards' streams, and the two data shards with one parity shard as a sample.
-/

namespace Keldra.Erasure

open Foundation Store List

section

/-- The identity of a blob. -/
def blobRef (codec : ErasureCodec) (blob : Bytes) : BlobRef where
  hash := codec.blake3 blob
  length := blob.length

variable {codec : ErasureCodec} {parityByte : Nat → List UInt8 → UInt8}

/-- Encoding succeeds, with shards of the announced lengths that are valid.  From
any streams in their place an accepted output has the length and the hash of the
blob; and with damage detected by the checksums the blob comes back if enough
headers and enough chunks of every stripe are left, and reconstruction fails
otherwise. -/
theorem reconstruct_recovers_blob
    (laws : ReedSolomonLaws codec.profile codec.reedSolomon parityByte) (blob : Bytes) :
    ∃ shards, codec.encode blob (blobRef codec blob) codec.profile.totalShards = .ok shards ∧
    shards.length = codec.profile.totalShards ∧ (∀ ordinal < codec.profile.totalShards,
    codec.validateShard (blobRef codec blob) ordinal (shards.getD ordinal []) = .ok () ∧
    codec.encodedShardLength (blobRef codec blob) ordinal =
    if 2 ^ 64 ≤ (shards.getD ordinal []).length then .error (.encodedShardLengthOverflow ordinal)
    else .ok (shards.getD ordinal []).length) ∧ ∀ streams : List (Option Bytes), (∀ output,
    codec.reconstruct (blobRef codec blob) streams = .ok output →
    output.length = blob.length ∧ codec.blake3 output = codec.blake3 blob) ∧
    (streams.length = codec.profile.totalShards →
    DamageDetected codec (blobRef codec blob) shards streams →
    (Recoverable codec.profile blob.length shards streams →
    codec.reconstruct (blobRef codec blob) streams = .ok blob) ∧
    (¬ Recoverable codec.profile blob.length shards streams →
    ∃ error, codec.reconstruct (blobRef codec blob) streams = .error error)) := by
  refine ⟨shardsOf codec parityByte (blobRef codec blob) blob, encode_eq laws rfl rfl,
    by simp [shardsOf], ?_, ?_⟩
  · intro _ hordinal
    rw [getD_shardsOf hordinal]
    exact ⟨validateShard_shardOf hordinal rfl, encodedShardLength_eq hordinal rfl⟩
  intro _
  refine ⟨fun output haccepted => reconstruct_accepts laws haccepted, ?_⟩
  intro hcount hdetected
  rcases reconstruct_cases laws rfl rfl hcount hdetected with
    ⟨hrecoverable, hblob⟩ | ⟨hlost, herror⟩
  · exact ⟨fun _ => hblob, fun hlost => absurd hrecoverable hlost⟩
  · exact ⟨fun hrecoverable => absurd hrecoverable hlost, fun _ => herror⟩

/-- A whole shard is readable in its own place. -/
theorem readable_self {profile : ErasureProfile} {blobLength ordinal stripe : Nat}
    {shard : Bytes} (hlength : shard.length =
    frameOffset profile blobLength ordinal (profile.stripeCount blobLength))
    (hstripe : stripe < profile.stripeCount blobLength) :
    readable profile blobLength ordinal shard shard stripe = true := by
  have hunbroken : ∀ stripe ≤ profile.stripeCount blobLength,
      unbroken profile blobLength ordinal shard shard stripe = true := by
    intro stripe hstripe
    induction stripe with
    | zero => simp [unbroken]
    | succ _ ih =>
      have hoffset := frameOffset_mono profile blobLength ordinal hstripe
      simp [unbroken, ih (by omega), hlength ▸ hoffset]
  simp [readable, hunbroken stripe hstripe.le]

theorem getD_erased {ordinal : Nat} {shards : List Bytes} {available : Nat → Bool}
    (h : ordinal < shards.length) : (erased shards available).getD ordinal none =
    if available ordinal then some (shards.getD ordinal []) else none := by
  simp [erased, h]

/-- A test that the shards pass counts those that are left. -/
theorem filter_erased {shards : List Bytes} {available : Nat → Bool} {test : Nat → Bytes → Bool}
    (htest : ∀ ordinal < shards.length, test ordinal (shards.getD ordinal []) = true) :
    ((range shards.length).filter fun ordinal => ((erased shards available).getD ordinal none).any
    (test ordinal)) = (range shards.length).filter available := by
  refine filter_congr fun ordinal hordinal => ?_
  have h := mem_range.mp hordinal
  rw [getD_erased h]
  cases available ordinal with
  | false => rfl
  | true => exact htest ordinal h

/-- Any of a blob's shards, in any order, give it back if they are as many as the data
shards, and fewer do not. -/
theorem any_shards_reconstruct
    (laws : ReedSolomonLaws codec.profile codec.reedSolomon parityByte) (blob : Bytes)
    (ordinals : List Nat) (hordinals : ∀ ordinal ∈ ordinals, ordinal < codec.profile.totalShards)
    (hnodup : ordinals.Nodup) :
    ∃ shards, codec.encode blob (blobRef codec blob) codec.profile.totalShards = .ok shards ∧
    (codec.reconstructAvailable (blobRef codec blob)
    (ordinals.map fun ordinal => (ordinal, shards.getD ordinal [])) = .ok blob ↔
    codec.profile.dataShards ≤ ordinals.length) := by
  have hcases := fun streams => @reconstruct_cases codec parityByte (blobRef codec blob) blob
    streams laws rfl rfl
  have hlength : ∀ ordinal < codec.profile.totalShards, ((shardsOf codec parityByte
      (blobRef codec blob) blob).getD ordinal []).length = _ := fun _ h =>
    (congrArg length (getD_shardsOf h)).trans (length_shardOf h)
  have hcount : (shardsOf codec parityByte (blobRef codec blob) blob).length =
      codec.profile.totalShards := by simp [shardsOf]
  refine ⟨shardsOf codec parityByte (blobRef codec blob) blob, encode_eq laws rfl rfl, ?_⟩
  generalize shardsOf codec parityByte (blobRef codec blob) blob = shards at hcases hlength hcount ⊢
  have hplaced : placed codec.profile.totalShards (ordinals.map fun ordinal =>
      (ordinal, shards.getD ordinal [])) = erased shards (· ∈ ordinals) := by
    rw [erased, mapIdx_eq_map_range _ _ [], placed, hcount]
    refine map_congr_left fun ordinal _ => ?_
    split_ifs with hmem
    · exact lookup_graph _ (of_decide_eq_true hmem)
    · simpa [forall_mem_ne] using hmem
  have hleft : ((range codec.profile.totalShards).filter (· ∈ ordinals)).length =
      ordinals.length := by
    refine ((perm_ext_iff_of_nodup (nodup_range.filter _) hnodup).mpr fun ordinal => ?_).length_eq
    rw [mem_filter, mem_range, decide_eq_true_eq, and_iff_right_of_imp (hordinals ordinal)]
  rw [reconstructAvailable_eq (by simpa using hordinals)
    (by simpa [Function.comp_def] using hnodup), hplaced, ← hleft]
  generalize (fun ordinal => decide (ordinal ∈ ordinals)) = available
  have hrecoverable : Recoverable codec.profile blob.length shards (erased shards available) ↔
      codec.profile.dataShards ≤ ((range codec.profile.totalShards).filter available).length := by
    unfold Recoverable headerIntact chunkReadable
    rw [← hcount] at hlength ⊢
    rw [filter_erased fun _ _ => by simp [unbroken]]
    refine and_iff_left_of_imp fun h _ hstripe => h.trans_eq (congrArg length ?_)
    exact (filter_erased fun ordinal h => readable_self (hlength ordinal h) hstripe).symm
  have hdetected : DamageDetected codec (blobRef codec blob) shards (erased shards available) := by
    intro ordinal h _ hstripe _ hstream _ hdamaged
    rw [getD_erased (hcount ▸ h)] at hstream
    split at hstream <;> cases hstream
    cases (readable_self (hlength ordinal h) hstripe).symm.trans hdamaged
  rcases hcases _ (by simp [erased, hcount]) hdetected with ⟨h, hblob⟩ | ⟨hlost, _, herror⟩
  · exact iff_of_true hblob (hrecoverable.mp h)
  · rw [herror]
    exact iff_of_false (by simp) fun h => hlost (hrecoverable.mpr h)

end

/-- Multiplication by two in the field of the Reed-Solomon code. -/
def timesTwo (byte : UInt8) : UInt8 :=
  (byte <<< 1) ^^^ (if byte.toBitVec.msb then 0x1D else 0)

def half (byte : UInt8) : UInt8 :=
  (byte >>> 1) ^^^ (if byte.toBitVec.getLsbD 0 then 0x8E else 0)

/-- Division by three, the multiplication by 0xF4. -/
def third (byte : UInt8) : UInt8 :=
  let four := timesTwo (timesTwo byte)
  let sixteen := timesTwo (timesTwo four)
  let thirtyTwo := timesTwo sixteen
  let sixtyFour := timesTwo thirtyTwo
  four ^^^ sixteen ^^^ thirtyTwo ^^^ sixtyFour ^^^ timesTwo sixtyFour

def sampleParity (_row : Nat) : List UInt8 → UInt8
  | [first, second] => timesTwo first ^^^ first ^^^ timesTwo second
  | _ => 0

def sampleProfile : ErasureProfile where
  dataShards := 2
  parityShards := 1
  stripeUnit := 2
  data_pos := by decide
  parity_pos := by decide
  total_le := by decide
  unit_pos := by decide
  unit_lt := by decide

def sampleReedSolomon : ReedSolomon where
  encode
    | first :: second :: _ =>
      .ok [first, second, List.zipWith (fun a b => timesTwo a ^^^ a ^^^ timesTwo b) first second]
    | _ => .error "too few shards"
  reconstructData
    | [some first, some second, parity] => .ok [some first, some second, parity]
    | [some first, none, some parity] =>
      .ok [some first, some (List.zipWith (fun a p => half (p ^^^ timesTwo a ^^^ a)) first parity),
          some parity]
    | [none, some second, some parity] =>
      .ok [some (List.zipWith (fun b p => third (p ^^^ timesTwo b)) second parity),
          some second, some parity]
    | _ => .error "too few shards"

def crc32cBit (crc : UInt32) : UInt32 :=
  if crc.toBitVec.getLsbD 0 then (crc >>> 1) ^^^ 0x82F63B78 else crc >>> 1

def crc32cByte (crc : UInt32) (byte : UInt8) : UInt32 :=
  (List.range 8).foldl (fun crc _ => crc32cBit crc) (crc ^^^ byte.toUInt32)

def sampleChecksum : Checksum where
  crc32c bytes := (bytes.foldl crc32cByte 0xFFFFFFFF) ^^^ 0xFFFFFFFF
  crc32cAppend crc bytes := (bytes.foldl crc32cByte (crc ^^^ 0xFFFFFFFF)) ^^^ 0xFFFFFFFF

def sampleBlob : Bytes := asciiBytes "keldra"

/-- The content hashes of the sample and of the empty blob. -/
def sampleBlake3 (bytes : Bytes) : Digest :=
  if bytes = sampleBlob then
    0x8b72d39641a745ed4402ada5f197f1f9771b8963130a2e3bb41f832db9fd899e
  else if bytes = [] then 0xaf1349b9f5f9a1a6a0404dea36dcc9499bcb25c9adc112b7cc9a93cae41f3262 else 0

def sampleCodec : ErasureCodec where
  profile := sampleProfile
  reedSolomon := sampleReedSolomon
  checksum := sampleChecksum
  blake3 := sampleBlake3

theorem timesTwo_xor (a b : UInt8) : timesTwo (a ^^^ b) = timesTwo a ^^^ timesTwo b := by
  have hshift : (a ^^^ b) <<< 1 = (a <<< 1) ^^^ (b <<< 1) := by
    apply UInt8.toBitVec_inj.mp
    simp [BitVec.shiftLeft_xor_distrib]
  unfold timesTwo
  rw [hshift, UInt8.toBitVec_xor, BitVec.msb_xor]
  cases a.toBitVec.msb
  · cases b.toBitVec.msb
    · simp
    · simp [UInt8.xor_assoc]
  cases b.toBitVec.msb
  · simp only [Bool.xor_false, if_true, Bool.false_eq_true, if_false, UInt8.xor_zero]
    rw [UInt8.xor_assoc, UInt8.xor_comm (b <<< 1), ← UInt8.xor_assoc]
  simp only [Bool.xor_self, Bool.false_eq_true, if_false, if_true, UInt8.xor_zero]
  rw [UInt8.xor_assoc (a <<< 1), UInt8.xor_comm (b <<< 1), ← UInt8.xor_assoc 0x1D,
    UInt8.xor_self, UInt8.zero_xor]

theorem half_timesTwo (byte : UInt8) : half (timesTwo byte) = byte := by
  have hall : ∀ value : Fin 256, half (timesTwo (UInt8.ofFin value)) = UInt8.ofFin value := by
    decide +kernel
  exact hall byte.toFin

theorem third_timesThree (byte : UInt8) : third (timesTwo byte ^^^ byte) = byte := by
  have hall : ∀ value : Fin 256,
      third (timesTwo (UInt8.ofFin value) ^^^ UInt8.ofFin value) = UInt8.ofFin value := by
    decide +kernel
  exact hall byte.toFin

theorem xor_cancel (a b c : UInt8) : a ^^^ b ^^^ c ^^^ a ^^^ b = c := by
  rw [UInt8.xor_comm (a ^^^ b) c, UInt8.xor_assoc c, UInt8.xor_comm a b, UInt8.xor_assoc b a a,
    UInt8.xor_self, UInt8.xor_zero, UInt8.xor_assoc, UInt8.xor_self, UInt8.xor_zero]

theorem sampleParity_xor (row : Nat) (a b : List UInt8) (h : a.length = b.length) :
    sampleParity row (List.zipWith (· ^^^ ·) a b) = sampleParity row a ^^^ sampleParity row b := by
  match a, b, h with
  | [], [], _ => simp [sampleParity]
  | [_], [_], _ => simp [sampleParity]
  | [a, a'], [b, b'], _ =>
    simp only [zipWith_cons_cons, zipWith_nil_left, sampleParity, timesTwo_xor]
    ac_rfl
  | _ :: _ :: _ :: _, _ :: _ :: _ :: _, _ => simp [sampleParity]

/-- Chunks of the sample's stripe unit. -/
theorem eq_pair_of_length {chunk : Bytes} (h : chunk.length = sampleProfile.stripeUnit) :
    ∃ first second, chunk = [first, second] :=
  length_eq_two.mp h

theorem sampleLaws : ReedSolomonLaws sampleProfile sampleReedSolomon sampleParity where
  linear := sampleParity_xor
  encode_eq := by
    intro _ _ hdata _ hunit
    obtain ⟨first, second, rfl⟩ := length_eq_two.mp hdata
    obtain ⟨a, _, rfl⟩ := eq_pair_of_length (hunit first (by simp))
    obtain ⟨b, _, rfl⟩ := eq_pair_of_length (hunit second (by simp))
    rfl
  recover := by
    intro _ available hdata hunit henough
    obtain ⟨first, second, rfl⟩ := length_eq_two.mp hdata
    obtain ⟨a, a', rfl⟩ := eq_pair_of_length (hunit first (by simp))
    obtain ⟨b, b', rfl⟩ := eq_pair_of_length (hunit second (by simp))
    have hrange : range sampleProfile.totalShards = [0, 1, 2] := rfl
    have hcode : codeword sampleProfile sampleParity [[a, a'], [b, b']] = [[a, a'], [b, b'],
          [timesTwo a ^^^ a ^^^ timesTwo b, timesTwo a' ^^^ a' ^^^ timesTwo b']] := rfl
    have hthird : ∀ x y : UInt8, third (timesTwo x ^^^ x ^^^ timesTwo y ^^^ timesTwo y) = x := by
      intro x y
      rw [UInt8.xor_assoc, UInt8.xor_self, UInt8.xor_zero, third_timesThree]
    have hhalf : ∀ x y : UInt8,
        half (timesTwo x ^^^ x ^^^ timesTwo y ^^^ timesTwo x ^^^ x) = y := by
      intro x y
      rw [xor_cancel, half_timesTwo]
    have henough' : available 0 = true ∧ available 1 = true ∨
        available 0 = true ∧ available 1 = false ∧ available 2 = true ∨
          available 0 = false ∧ available 1 = true ∧ available 2 = true := by
      simp only [hrange, filter_cons, filter_nil] at henough
      revert henough
      cases available 0 <;> cases available 1 <;> cases available 2 <;> simp [sampleProfile]
    have hplaces : ∀ recovered : List (Option Bytes), recovered.getD 0 none = some [a, a'] →
      recovered.getD 1 none = some [b, b'] → ∀ ordinal < sampleProfile.dataShards, recovered.getD
      ordinal none = [[a, a'], [b, b']][ordinal]? := by
      intro _ hfirst hsecond ordinal hordinal
      match ordinal, hordinal with
      | 0, _ => exact hfirst
      | 1, _ => exact hsecond
    rw [hcode]
    rcases henough' with ⟨hzero, hone⟩ | ⟨hzero, hone, htwo⟩ | ⟨hzero, hone, htwo⟩
    · simp only [erased, mapIdx_cons, mapIdx_nil, Nat.zero_add, hzero, hone, if_true]
      exact ⟨_, rfl, hplaces _ rfl rfl⟩
    · simp only [erased, mapIdx_cons, mapIdx_nil, Nat.zero_add, hzero, hone, htwo,
        if_true, if_false, Bool.false_eq_true, Nat.reduceAdd]
      refine ⟨_, rfl, hplaces _ rfl ?_⟩
      simp [hhalf]
    simp only [erased, mapIdx_cons, mapIdx_nil, Nat.zero_add, hzero, hone, htwo,
      if_true, if_false, Bool.false_eq_true, Nat.reduceAdd]
    refine ⟨_, rfl, hplaces _ ?_ rfl⟩
    simp only [getD_cons_zero, zipWith_cons_cons, zipWith_nil_left, hthird]
  recovered_length := by
    intro _ _ hpresent hrecovered chunk hchunk
    simp only [sampleReedSolomon] at hrecovered
    split at hrecovered <;> cases hrecovered
    · exact hpresent chunk hchunk
    -- two present chunks and one that is computed from them
    all_goals
      simp only [mem_cons, Option.some.injEq, not_mem_nil, or_false] at hchunk
      rcases hchunk with rfl | rfl | rfl <;> simp [hpresent]

/-- The parity shard stands in for a lost data shard. -/
theorem lost_sample_shard_replaced :
    ∃ shards, sampleCodec.encode sampleBlob (blobRef sampleCodec sampleBlob) 3 = .ok shards ∧
    sampleCodec.reconstructAvailable (blobRef sampleCodec sampleBlob)
    [(2, shards.getD 2 []), (0, shards.getD 0 [])] = .ok sampleBlob := by
  obtain ⟨shards, hencoded, hiff⟩ := @any_shards_reconstruct sampleCodec sampleParity sampleLaws
    sampleBlob [2, 0] (by decide) (by decide)
  exact ⟨shards, hencoded, hiff.mpr (by decide)⟩

/-- One shard with a damaged payload in the first stripe, one that ends inside the
second stripe, and the parity shard. -/
def sampleDamage (shards : List Bytes) : List (Option Bytes) :=
  [some ((shards.getD 0 []).set (headerBytes + framePrefixBytes) 0),
    some ((shards.getD 1 []).take (headerBytes + framePrefixBytes + 2 + 4)),
    some (shards.getD 2 [])]

/-- The two stripes of the sample come back from different pairs of shards. -/
theorem damaged_sample_recovered :
    ∃ shards, sampleCodec.encode sampleBlob (blobRef sampleCodec sampleBlob) 3 = .ok shards ∧
    sampleCodec.reconstruct (blobRef sampleCodec sampleBlob) (sampleDamage shards) =
    .ok sampleBlob := by
  obtain ⟨shards, hencoded, -, -, hall⟩ := @reconstruct_recovers_blob sampleCodec sampleParity
    sampleLaws sampleBlob
  have hshards : shards =
      shardsOf sampleCodec sampleParity (blobRef sampleCodec sampleBlob) sampleBlob :=
    Except.ok.inj (hencoded.symm.trans (encode_eq sampleLaws rfl rfl))
  subst hshards
  have hdetected : DamageDetected sampleCodec (blobRef sampleCodec sampleBlob) (shardsOf sampleCodec
    sampleParity (blobRef sampleCodec sampleBlob) sampleBlob) (sampleDamage (shardsOf sampleCodec
    sampleParity (blobRef sampleCodec sampleBlob) sampleBlob)) := by
    unfold DamageDetected
    decide +kernel
  have hrecoverable : Recoverable sampleProfile sampleBlob.length (shardsOf sampleCodec sampleParity
    (blobRef sampleCodec sampleBlob) sampleBlob) (sampleDamage (shardsOf sampleCodec sampleParity
    (blobRef sampleCodec sampleBlob) sampleBlob)) := by
    unfold Recoverable
    decide +kernel
  exact ⟨_, hencoded, ((hall _).2 rfl hdetected).1 hrecoverable⟩

/-- Without stripes, the streams still need their headers. -/
theorem empty_blob_needs_headers :
    ∃ shards, sampleCodec.encode [] (blobRef sampleCodec []) 3 = .ok shards ∧
    (∀ stripe < sampleProfile.stripeCount 0, sampleProfile.dataShards ≤
    ((List.range sampleProfile.totalShards).filter
    (chunkReadable sampleProfile 0 shards [none, none, none] stripe)).length) ∧
    sampleCodec.reconstruct (blobRef sampleCodec []) [none, none, none] =
    .error (.tooFewValidChunks 0 2 0) := by
  refine ⟨_, @encode_eq sampleCodec sampleParity _ [] sampleLaws rfl rfl, ?_, rfl⟩
  intro stripe hstripe
  exact absurd hstripe (Nat.not_lt_zero stripe)

end Keldra.Erasure
