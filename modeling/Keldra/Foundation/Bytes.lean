import Keldra.Foundation.Checks
import Keldra.Foundation.Machine
import Mathlib.Tactic.Ring

/-!
# Byte strings and their decoders

Numbers are written most significant byte first.  A decoder consumes a front
part of a byte string; `Reads` says that it consumes exactly one encoding and
returns the value it was made from, whatever follows.  Its rules are the ones
of sequencing, so that the round trip of a record format is assembled from the
round trips of its fields in their order.
-/

namespace Keldra.Foundation

universe u v

/-- A byte string. -/
abbrev Bytes := List UInt8

/-- The `width` low bytes of a number, most significant byte first. -/
def bigEndian : Nat → Nat → Bytes
  | 0, _ => []
  | width + 1, value => UInt8.ofNat (value / 256 ^ width) :: bigEndian width value

/-- The number a byte string stands for, most significant byte first. -/
def fromBigEndian (bytes : Bytes) : Nat :=
  bytes.foldl (fun value byte => value * 256 + byte.toNat) 0

@[simp] theorem length_bigEndian (width value : Nat) : (bigEndian width value).length = width := by
  induction width with
  | zero => rfl
  | succ _ ih => simp [bigEndian, ih]

theorem foldl_bigEndian (width value start : Nat) : (bigEndian width value).foldl
    (fun value byte => value * 256 + byte.toNat) start =
    start * 256 ^ width + value % 256 ^ width := by
  induction width generalizing start with
  | zero => simp [bigEndian, Nat.mod_one]
  | succ width ih =>
    have hdigit : value % 256 ^ (width + 1) =
        256 ^ width * (value / 256 ^ width % 256) + value % 256 ^ width := by
      rw [pow_succ, Nat.mod_mul, Nat.add_comm]
    have hbyte : (UInt8.ofNat (value / 256 ^ width)).toNat = value / 256 ^ width % 256 := by simp
    rw [bigEndian, List.foldl_cons, ih, hdigit, hbyte, pow_succ]
    ring

theorem fromBigEndian_bigEndian (width value : Nat) :
    fromBigEndian (bigEndian width value) = value % 256 ^ width := by
  simpa [fromBigEndian] using foldl_bigEndian width value 0

section

variable {ε : Type} {α β : Type} {encoding : Bytes}

/-- Consumes a front part of a byte string. -/
abbrev Decoder (ε : Type) := StateT Bytes (Except ε)

/-- The next `count` bytes, or the given error when fewer are left. -/
def takeBytes (short : ε) (count : Nat) : Decoder ε Bytes := fun bytes =>
  if count ≤ bytes.length then .ok (bytes.take count, bytes.drop count) else .error short

/-- Decoding an encoding of `value` consumes it exactly. -/
def Reads (decoder : Decoder ε α) (encoding : Bytes) (value : α) : Prop :=
  ∀ rest, decoder (encoding ++ rest) = .ok (value, rest)

theorem reads_takeBytes {count : Nat} {bytes : Bytes}
    (short : ε) (h : bytes.length = count) :
    Reads (takeBytes short count) bytes bytes := by
  intro _
  subst h
  simp [takeBytes]

theorem reads_pure (value : α) : Reads (pure value : Decoder ε α) [] value := by
  intro _
  rfl

/-- Encodings written one after the other are read one after the other. -/
theorem Reads.bind {first : Decoder ε α} {next : α → Decoder ε β} {front back : Bytes} {a : α}
    {b : β} (hfirst : Reads first front a) (hnext : Reads (next a) back b) :
    Reads (first >>= next) (front ++ back) b := by
  intro rest
  rw [List.append_assoc]
  calc (first >>= next) (front ++ (back ++ rest))
    = (first (front ++ (back ++ rest)) >>= fun p => next p.1 p.2) := rfl
    _ = next a (back ++ rest) := by rw [hfirst (back ++ rest)]; rfl
    _ = .ok (b, rest) := hnext rest

theorem Reads.map (h : Reads decoder encoding a) (f : α → β) :
    Reads (f <$> decoder) encoding (f a) := by
  intro rest
  have hmap : (f <$> decoder) (encoding ++ rest) =
      (decoder (encoding ++ rest) >>= fun p => .ok (f p.1, p.2)) := rfl
  rw [hmap, h rest]
  rfl

/-- The last field of a record. -/
theorem Reads.last (h : Reads decoder encoding a) (f : α → β) :
    Reads (decoder >>= fun value => pure (f value)) encoding (f a) := by
  have hbind : Reads (decoder >>= fun value => pure (f value)) (encoding ++ []) (f a) :=
    h.bind (reads_pure (f a))
  rwa [List.append_nil] at hbind

/-- Fail with `e` exactly when the condition holds, consuming nothing. -/
def refuseIf (c : Prop) [Decidable c] (e : ε) : Decoder ε Unit := fun bytes =>
  if c then .error e else .ok ((), bytes)

/-- A check that passes leaves the rest to what comes after it. -/
theorem reads_refuseIf_bind {c : Prop} [Decidable c]
    (h : ¬ c) (hnext : Reads (next ()) encoding b) : Reads (refuseIf c e >>= next) encoding b := by
  have hpass : Reads (refuseIf c e) [] () := by
    intro _
    simp [refuseIf, h]
  exact hpass.bind hnext

/-- The same decoder run once for every element of a list. -/
def decodeMany (decoder : Decoder ε α) : Nat → Decoder ε (List α)
  | 0 => pure []
  | count + 1 => do
    let head ← decoder
    let tail ← decodeMany decoder count
    pure (head :: tail)

theorem reads_decodeMany {encode : α → List UInt8} {decoder : Decoder ε α}
    (h : ∀ a, Reads decoder (encode a) a) (values : List α) :
    Reads (decodeMany decoder values.length) (values.flatMap encode) values := by
  induction values with
  | nil => exact reads_pure []
  | cons a rest ih =>
    have htail : Reads (decodeMany decoder rest.length >>= fun tail =>
        (pure (a :: tail) : Decoder ε (List α)))
        (rest.flatMap encode ++ []) (a :: rest) :=
      ih.bind (reads_pure (a :: rest))
    rw [List.append_nil] at htail
    exact (h a).bind htail

end

/-- The bytes of a text of plain characters. -/
def asciiBytes (text : String) : Bytes :=
  text.toList.map fun c => UInt8.ofNat c.toNat

section

variable {ε : Type} (short : ε)

/-- A 64-bit word, as eight bytes. -/
def putU64 (value : UInt64) : Bytes :=
  bigEndian 8 value.toNat

def putU16 (value : UInt16) : Bytes :=
  bigEndian 2 value.toNat

/-- A 256-bit digest, as thirty-two bytes. -/
def putDigest (value : BitVec 256) : Bytes :=
  bigEndian 32 value.toNat

def readByte : Decoder ε UInt8 :=
  (fun bytes => UInt8.ofNat (fromBigEndian bytes)) <$> takeBytes short 1

def readU16 : Decoder ε UInt16 :=
  (fun bytes => UInt16.ofNat (fromBigEndian bytes)) <$> takeBytes short 2

def readU64 : Decoder ε UInt64 :=
  (fun bytes => UInt64.ofNat (fromBigEndian bytes)) <$> takeBytes short 8

def readDigest : Decoder ε (BitVec 256) :=
  (fun bytes => BitVec.ofNat 256 (fromBigEndian bytes)) <$> takeBytes short 32

theorem reads_readByte (value : UInt8) : Reads (readByte short) [value] value := by
  have htake : Reads (takeBytes short 1) [value] [value] := reads_takeBytes short rfl
  have h := htake.map fun bytes => UInt8.ofNat (fromBigEndian bytes)
  simpa [readByte, fromBigEndian] using h

/-- A word is read back when its number fits the width it is written with. -/
theorem reads_word {α : Type} {width number : Nat} {make : Nat → α} {value : α}
    (h : make (number % 256 ^ width) = value) :
    Reads ((fun bytes => make (fromBigEndian bytes)) <$> takeBytes short width)
    (bigEndian width number) value := by
  have hread := (reads_takeBytes short (length_bigEndian width number)).map
    (fun bytes => make (fromBigEndian bytes))
  rwa [fromBigEndian_bigEndian, h] at hread

theorem reads_readU16 (value : UInt16) : Reads (readU16 short) (putU16 value) value := by
  have hfits : value.toNat < 256 ^ 2 := value.toNat_lt
  apply reads_word
  rw [Nat.mod_eq_of_lt hfits, UInt16.ofNat_toNat]

theorem reads_readU64 (value : UInt64) : Reads (readU64 short) (putU64 value) value := by
  have hfits : value.toNat < 256 ^ 8 := value.toNat_lt
  apply reads_word
  rw [Nat.mod_eq_of_lt hfits, UInt64.ofNat_toNat]

theorem reads_readDigest (value : BitVec 256) :
    Reads (readDigest short) (putDigest value) value := by
  have hfits : value.toNat < 256 ^ 32 := value.isLt
  apply reads_word
  rw [Nat.mod_eq_of_lt hfits, BitVec.ofNat_toNat, BitVec.setWidth_eq]

end

end Keldra.Foundation
