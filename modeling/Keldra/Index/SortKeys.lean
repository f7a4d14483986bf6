import Keldra.Foundation.Framing
import Keldra.Index.Model
import Keldra.Index.Producer

/-!
# Sort keys of typed scalars

A key is a tag and a body.  Integers are written with the sign bit toggled, floats as
words in the order of `total_cmp`, and texts with every zero byte escaped and a
terminator that no escaped text contains.  Keys may be followed by anything: comparing
two followed keys compares the scalars first and what follows only between equal ones.
-/

namespace Keldra.Index

open Foundation List

variable {a b : ScalarValue} {bytes rest value : Bytes}

/-- The bytes of a text. -/
def utf8 (text : String) : Bytes := text.toUTF8.data.toList

/-- The text of valid bytes. -/
def fromUtf8 (bytes : Bytes) : Option String := String.fromUTF8? ⟨bytes.toArray⟩

/-- Exclusive or of a 64-bit word with its sign bit. -/
def toggleSign (word : Nat) : Nat := (word + 2 ^ 63) % 2 ^ 64

/-- All bits of a 64-bit word inverted. -/
def complement (word : Nat) : Nat := 2 ^ 64 - 1 - word

/-- A word read as a signed integer. -/
def asSigned (word : Nat) : Int := if word < 2 ^ 63 then word else word - 2 ^ 64

def isFinite (bits : Nat) : Prop := bits / 2 ^ 52 % 2 ^ 11 ≠ 2047

/-- The bits of one of the two zeros. -/
def isZero (bits : Nat) : Prop := bits % 2 ^ 63 = 0

instance (bits : Nat) : Decidable (isFinite bits) := inferInstanceAs (Decidable (_ ≠ _))

instance (bits : Nat) : Decidable (isZero bits) := inferInstanceAs (Decidable (_ = _))

/-- The integer by which `total_cmp` orders a float. -/
def totalOrder (bits : Nat) : Int := if bits < 2 ^ 63 then bits else 2 ^ 63 - 1 - bits

namespace ScalarValue

/-- A number from the bits of a float. -/
def ofNumber (bits : Nat) : Except IndexError ScalarValue := do
  rejectIf (¬ isFinite bits) (.invalidDefinition "Typed JSON numbers must be finite")
  pure (.number (if isZero bits then 0 else bits))

def tag : ScalarValue → Nat
  | .null => 0
  | .boolean _ => 1
  | .signed _ => 2
  | .number _ => 3
  | .unsigned _ => 4
  | .string _ => 5

/-- The order of two scalars with the same tag. -/
def cmpSameTag : ScalarValue → ScalarValue → Ordering
  | .boolean left, .boolean right => compare left right
  | .signed left, .signed right => compare left right
  | .number left, .number right => compare (totalOrder left) (totalOrder right)
  | .unsigned left, .unsigned right => compare left right
  | .string left, .string right => compare (utf8 left) (utf8 right)
  | _, _ => .eq

def cmp (left right : ScalarValue) : Ordering :=
  (compare left.tag right.tag).then (cmpSameTag left right)

/-- Integers in the range of their type, and finite numbers without a negative zero. -/
def Canonical : ScalarValue → Prop
  | .signed value => -2 ^ 63 ≤ value ∧ value < 2 ^ 63
  | .unsigned value => value < 2 ^ 64
  | .number bits => bits < 2 ^ 64 ∧ isFinite bits ∧ (isZero bits → bits = 0)
  | _ => True

end ScalarValue

/-- Zero is written as `00 01`. -/
def escapeByte (byte : UInt8) : Bytes := if byte = 0 then [0, 1] else [byte]

/-- The word of a signed integer, in the order of integers. -/
def sortableSigned (value : Int) : Nat := toggleSign (value % 2 ^ 64).toNat

/-- The word of a number, in the order of floats. -/
def sortableBits (bits : Nat) : Nat := if 2 ^ 63 ≤ bits then complement bits else toggleSign bits

/-- The number of a word. -/
def bitsOfSortable (sortable : Nat) : Nat :=
  if 2 ^ 63 ≤ sortable then toggleSign sortable else complement sortable

def encodeScalarSortKey : ScalarValue → Except IndexError Bytes
  | .null => .ok [0]
  | .boolean value => .ok [1, if value then 1 else 0]
  | .signed value => .ok (2 :: bigEndian 8 (sortableSigned value))
  | .number bits => do
    rejectIf (¬ isFinite bits) (.invalidDefinition "Typed JSON numbers must be finite")
    let normalized := if isZero bits then 0 else bits
    pure (3 :: bigEndian 8 (sortableBits normalized))
  | .unsigned value => .ok (4 :: bigEndian 8 value)
  | .string value => .ok (5 :: ((utf8 value).flatMap escapeByte ++ [0, 0]))

/-- The word after the tag. -/
def sortKeyWord (bytes : Bytes) : Except IndexError Nat :=
  if 9 ≤ bytes.length then
    .ok (fromBigEndian (bytes.tail.take 8))
  else
    .error (.unexpectedEof 9 bytes.length)

/-- The text up to the terminator and the position after it. -/
def unescape (total : Nat) (value : Bytes) (cursor : Nat) : Bytes → Except IndexError (Bytes × Nat)
  | [] => .error (.unexpectedEof (cursor + 1) total)
  | byte :: rest =>
    if byte = 0 then
      match rest with
      | [] => .error (.invalidFormat "Typed JSON scalar string")
      | next :: rest =>
        if next = 0 then
          .ok (value, cursor + 2)
        else if next = 1 then
          unescape total (value ++ [0]) (cursor + 2) rest
        else
          .error (.invalidFormat "Typed JSON scalar string")
    else
      unescape total (value ++ [byte]) (cursor + 1) rest

/-- The scalar of a key and the length of the key. -/
def decodeScalarSortKey (bytes : Bytes) : Except IndexError (ScalarValue × Nat) := do
  let tag ← okOr bytes.head? (.unexpectedEof 1 0)
  if tag = 0 then
    pure (.null, 1)
  else if tag = 1 then
    if bytes[1]? = some 0 then
      pure (.boolean false, 2)
    else if bytes[1]? = some 1 then
      pure (.boolean true, 2)
    else
      .error (.invalidFormat "Typed JSON scalar boolean")
  else if tag = 2 then do
    let word ← sortKeyWord bytes
    pure (.signed (asSigned (toggleSign word)), 9)
  else if tag = 3 then do
    let sortable ← sortKeyWord bytes
    let bits := bitsOfSortable sortable
    rejectIf (isZero bits ∧ bits ≠ 0) (.invalidFormat "Typed JSON scalar number")
    let number ← ScalarValue.ofNumber bits
    pure (number, 9)
  else if tag = 4 then do
    let word ← sortKeyWord bytes
    pure (.unsigned word, 9)
  else if tag = 5 then do
    let (value, length) ← unescape bytes.length [] 1 bytes.tail
    let text ← okOr (fromUtf8 value) (.invalidFormat "Typed JSON scalar string")
    pure (.string text, length)
  else
    .error (.invalidFormat "Typed JSON scalar tag")

/-! ### Order -/

theorem fromUtf8_utf8 (text : String) : fromUtf8 (utf8 text) = some text := by
  have hbytes : (⟨(utf8 text).toArray⟩ : ByteArray) = text.toByteArray := by
    simp [utf8, String.toUTF8]
  rw [fromUtf8, hbytes, String.fromUTF8?, dif_pos text.isValidUTF8]
  rfl

theorem utf8_of_fromUtf8 {text : String}
    (h : fromUtf8 bytes = some text) : utf8 text = bytes := by
  unfold fromUtf8 String.fromUTF8? at h
  split at h
  · cases h
    simp [utf8, String.toUTF8, String.fromUTF8]
  · cases h

/-- Comparisons agree when both orders do. -/
theorem compareOfLessAndEq_congr
    {α β : Type} [LT α] [DecidableLT α] [DecidableEq α] [LT β] [DecidableLT β] [DecidableEq β]
    {x y : α} {x' y' : β} (hlt : x < y ↔ x' < y') (heq : x = y ↔ x' = y') :
    compareOfLessAndEq x y = compareOfLessAndEq x' y' := by
  simp only [compareOfLessAndEq, hlt, heq]

theorem compare_toNat (x y : UInt8) : compare x y = compare x.toNat y.toNat :=
  compareOfLessAndEq_congr UInt8.lt_iff_toNat_lt UInt8.toNat_inj.symm

theorem compare_append {x y : Bytes}
    (h : x.length = y.length) (s t : Bytes) :
    compare (x ++ s) (y ++ t) = (compare x y).then (compare s t) := by
  induction x generalizing y with
  | nil =>
    rw [length_eq_zero_iff.mp h.symm]
    rfl
  | cons head tail ih =>
    cases y with
    | nil => cases h
    | cons head' tail' =>
      simp only [cons_append, List.compare_cons_cons, Ordering.then_assoc]
      rw [ih (Nat.succ.inj h)]

/-- A number is compared by its high digit first. -/
theorem compare_digits {c p q r s : Nat} (hr : r < c) (hs : s < c) :
    compare (r + c * p) (s + c * q) = (compare p q).then (compare r s) := by
  rcases lt_trichotomy p q with h | rfl | h
  · have hle := Nat.mul_le_mul_left c h
    rw [Nat.mul_succ] at hle
    rw [compare_lt_iff_lt.mpr h, compare_lt_iff_lt.mpr (by omega)]
    rfl
  · rw [compare_eq_iff_eq.mpr (rfl : p = p)]
    exact compareOfLessAndEq_congr (by omega) (by omega)
  have hle := Nat.mul_le_mul_left c h
  rw [Nat.mul_succ] at hle
  rw [compare_gt_iff_gt.mpr h, compare_gt_iff_gt.mpr (by omega)]
  rfl

/-- Most significant bytes first, byte order is the order of the numbers. -/
theorem compare_bigEndian (width x y : Nat) : compare (bigEndian width x) (bigEndian width y) =
    compare (x % 256 ^ width) (y % 256 ^ width) := by
  induction width with
  | zero => simp [bigEndian, Nat.mod_one]
  | succ width ih =>
    have hpos : 0 < 256 ^ width := by positivity
    rw [bigEndian, bigEndian, List.compare_cons_cons, ih, pow_succ, Nat.mod_mul, Nat.mod_mul,
      compare_digits (Nat.mod_lt x hpos) (Nat.mod_lt y hpos), compare_toNat, UInt8.toNat_ofNat',
      UInt8.toNat_ofNat']

/-- Words of keys are in the order of their numbers, before anything that follows. -/
theorem compare_word {x y : Nat}
    (hx : x < 2 ^ 64) (hy : y < 2 ^ 64) (s t : Bytes) :
    compare (bigEndian 8 x ++ s) (bigEndian 8 y ++ t) = (compare x y).then (compare s t) := by
  have hword : (256 : Nat) ^ 8 = 2 ^ 64 := by norm_num
  rw [compare_append (by simp), compare_bigEndian, hword, Nat.mod_eq_of_lt hx, Nat.mod_eq_of_lt hy]

/-- Escaped texts with their terminators are in the order of the texts. -/
theorem compare_escaped (x y s t : Bytes) :
    compare (x.flatMap escapeByte ++ 0 :: 0 :: s) (y.flatMap escapeByte ++ 0 :: 0 :: t) =
    (compare x y).then (compare s t) := by
  have hzero : ∀ byte : UInt8, byte ≠ 0 → compare 0 byte = .lt ∧ compare byte 0 = .gt := by
    intro byte hbyte
    have hpos : 0 < byte.toNat := Nat.pos_of_ne_zero fun h => hbyte (UInt8.toNat_inj.mp h)
    rw [compare_toNat, compare_toNat]
    exact ⟨compare_lt_iff_lt.mpr hpos, compare_gt_iff_gt.mpr hpos⟩
  -- an escaped zero starts like the terminator, and its second byte is the larger one
  induction x generalizing y with
  | nil =>
    cases y with
    | nil => rfl
    | cons byte =>
      by_cases hbyte : byte = 0
      · simp [hbyte, escapeByte, List.compare_cons_cons]
        rfl
      · simp [hbyte, escapeByte, List.compare_cons_cons, (hzero byte hbyte).1]
  | cons head tail ih =>
    cases y with
    | nil =>
      by_cases hhead : head = 0
      · simp [hhead, escapeByte, List.compare_cons_cons]
        rfl
      · simp [hhead, escapeByte, List.compare_cons_cons, (hzero head hhead).2]
    | cons head' tail' =>
      by_cases hhead : head = 0 <;> by_cases hhead' : head' = 0
      · simp [hhead, hhead', escapeByte, List.compare_cons_cons, ih]
      · simp [hhead, hhead', escapeByte, List.compare_cons_cons, (hzero head' hhead').1]
      · simp [hhead, hhead', escapeByte, List.compare_cons_cons, (hzero head hhead).2]
      · simp [hhead, hhead', escapeByte, List.compare_cons_cons, ih, Ordering.then_assoc]

/-- What follows the tag in a key. -/
def sortKeyBody : ScalarValue → Bytes
  | .null => []
  | .boolean value => [if value then 1 else 0]
  | .signed value => bigEndian 8 (sortableSigned value)
  | .number bits => bigEndian 8 (sortableBits bits)
  | .unsigned value => bigEndian 8 value
  | .string value => (utf8 value).flatMap escapeByte ++ [0, 0]

/-- The key of a canonical scalar. -/
def sortKey (value : ScalarValue) : Bytes := UInt8.ofNat value.tag :: sortKeyBody value

theorem encodeScalarSortKey_eq (h : a.Canonical) : encodeScalarSortKey a = .ok (sortKey a) := by
  cases a with
  | number bits =>
    obtain ⟨-, hfinite, hzero⟩ := h
    have hnormal : (if isZero bits then 0 else bits) = bits := by
      split
      · exact (hzero ‹_›).symm
      · rfl
    simp only [encodeScalarSortKey, ok_rules, not_not, hnormal]
    exact ⟨hfinite, rfl⟩
  | _ => rfl

theorem sortableSigned_eq (hlow : -2 ^ 63 ≤ x) (hhigh : x < 2 ^ 63) :
    (sortableSigned x : Int) = x + 2 ^ 63 := by
  unfold sortableSigned toggleSign
  omega

theorem sortableBits_lt {bits : Nat}
    (h : bits < 2 ^ 64) : sortableBits bits < 2 ^ 64 := by
  unfold sortableBits complement toggleSign
  split <;> omega

theorem compare_sameTag (ha : a.Canonical) (hb : b.Canonical) (htag : a.tag = b.tag) (s t : Bytes) :
    compare (sortKeyBody a ++ s) (sortKeyBody b ++ t) = (a.cmpSameTag b).then (compare s t) := by
  cases a <;> cases b <;> try cases htag
  case null => rfl
  case boolean x y => cases x <;> cases y <;> rfl
  case signed x y =>
    obtain ⟨hx, hx'⟩ := ha
    obtain ⟨hy, hy'⟩ := hb
    have hleft := sortableSigned_eq hx hx'
    have hright := sortableSigned_eq hy hy'
    rw [sortKeyBody, sortKeyBody, compare_word (by omega) (by omega)]
    generalize sortableSigned x = left, sortableSigned y = right at hleft hright
    exact congrArg (Ordering.then · _) (compareOfLessAndEq_congr (by omega) (by omega))
  case unsigned x y =>
    have hx : x < 2 ^ 64 := ha
    have hy : y < 2 ^ 64 := hb
    rw [sortKeyBody, sortKeyBody, compare_word hx hy, ScalarValue.cmpSameTag]
  case number x y =>
    obtain ⟨hx, -⟩ := ha
    obtain ⟨hy, -⟩ := hb
    unfold sortKeyBody sortableBits toggleSign complement ScalarValue.cmpSameTag totalOrder
    rw [compare_word (by split <;> omega) (by split <;> omega)]
    refine congrArg (Ordering.then · _) (compareOfLessAndEq_congr ?_ ?_) <;>
      split_ifs <;> omega
  case string x y => simp [sortKeyBody, ScalarValue.cmpSameTag, compare_escaped]

/-- Followed keys are compared as their scalars, and between equal ones by what
follows. -/
theorem compare_sortKey (ha : a.Canonical) (hb : b.Canonical) (s t : Bytes) :
    compare (sortKey a ++ s) (sortKey b ++ t) = (a.cmp b).then (compare s t) := by
  have htags : compare (UInt8.ofNat a.tag) (UInt8.ofNat b.tag) = compare a.tag b.tag := by
    cases a <;> cases b <;> rfl
  rw [sortKey, sortKey, cons_append, cons_append, List.compare_cons_cons, htags,
    ScalarValue.cmp, Ordering.then_assoc]
  by_cases htag : a.tag = b.tag
  · rw [compare_sameTag ha hb htag]
  cases hcompare : compare a.tag b.tag with
  | eq => exact absurd (compare_eq_iff_eq.mp hcompare) htag
  | lt | gt => rfl

/-- No key continues another one. -/
theorem sortKey_eq_of_prefix (ha : a.Canonical) (hb : b.Canonical) (h : sortKey a <+: sortKey b) :
    sortKey a = sortKey b := by
  obtain ⟨more, hmore⟩ := h
  have hcompare := compare_sortKey ha hb more []
  rw [hmore, append_nil, Std.ReflOrd.compare_self, eq_comm, Ordering.then_eq_eq] at hcompare
  cases more with
  | nil => rw [← hmore, append_nil]
  | cons => cases hcompare.2

/-! ### Reading keys back -/

theorem sortKeyWord_eq {word : Nat}
    (h : word < 2 ^ 64) (tag : UInt8) (rest : Bytes) :
    sortKeyWord (tag :: (bigEndian 8 word ++ rest)) = .ok word := by
  have htake : (bigEndian 8 word ++ rest).take 8 = bigEndian 8 word := by
    rw [take_left' (length_bigEndian 8 word)]
  have hword : word < 256 ^ 8 := by norm_num; exact h
  simp only [sortKeyWord, tail_cons, htake, fromBigEndian_bigEndian, Nat.mod_eq_of_lt hword]
  rw [if_pos (by simp)]

theorem unescape_escaped (total cursor : Nat) (value text rest : Bytes) :
    unescape total value cursor (text.flatMap escapeByte ++ 0 :: 0 :: rest) =
    .ok (value ++ text, cursor + (text.flatMap escapeByte).length + 2) := by
  induction text generalizing value cursor with
  | nil => simp [unescape]
  | cons byte text ih =>
    by_cases hbyte : byte = 0
    · rw [hbyte, flatMap_cons, escapeByte, if_pos rfl]
      unfold unescape
      simp [ih]
      omega
    rw [flatMap_cons, escapeByte, if_neg hbyte]
    unfold unescape
    simp [hbyte, ih]
    omega

theorem decodeScalarSortKey_sortKey (h : a.Canonical) (rest : Bytes) :
    decodeScalarSortKey (sortKey a ++ rest) = .ok (a, (sortKey a).length) := by
  cases a with
  | null => rfl
  | boolean value => cases value <;> rfl
  | signed value =>
    obtain ⟨hlow, hhigh⟩ := h
    have hsortable := sortableSigned_eq hlow hhigh
    have hword : sortableSigned value < 2 ^ 64 := by omega
    have hback : asSigned (toggleSign (sortableSigned value)) = value := by
      unfold asSigned toggleSign
      split <;> omega
    simp [sortKey, sortKeyBody, ScalarValue.tag, decodeScalarSortKey, okOr, sortKeyWord_eq hword,
      hback, bind, Except.bind, pure, Except.pure]
  | unsigned value =>
    have hword : value < 2 ^ 64 := h
    simp [sortKey, sortKeyBody, ScalarValue.tag, decodeScalarSortKey, okOr, sortKeyWord_eq hword,
      bind, Except.bind, pure, Except.pure]
  | number bits =>
    obtain ⟨hbits, hfinite, hzero⟩ := h
    have hback : bitsOfSortable (sortableBits bits) = bits := by
      unfold bitsOfSortable sortableBits complement toggleSign
      split_ifs <;> omega
    have hnormal : ScalarValue.ofNumber bits = .ok (.number bits) := by
      simp only [ScalarValue.ofNumber, ok_rules, not_not]
      exact ⟨hfinite, by split <;> simp_all⟩
    have hcanonical : ¬ (isZero bits ∧ bits ≠ 0) := fun h => h.2 (hzero h.1)
    simp [sortKey, sortKeyBody, ScalarValue.tag, decodeScalarSortKey, okOr,
      sortKeyWord_eq (sortableBits_lt hbits), hback, hnormal, rejectIf, if_neg hcanonical, bind,
      Except.bind, pure, Except.pure]
  | string value =>
    simp [sortKey, sortKeyBody, ScalarValue.tag, decodeScalarSortKey, okOr, unescape_escaped,
      fromUtf8_utf8, bind, Except.bind, pure, Except.pure]
    omega

theorem sortKeyWord_eq_ok {word : Nat}
    (h : sortKeyWord (tag :: bytes) = .ok word) :
    word < 2 ^ 64 ∧ bigEndian 8 word <+: bytes := by
  simp only [sortKeyWord, length_cons, tail_cons] at h
  split at h
  · cases h
    have hlength : (bytes.take 8).length = 8 := by
      rw [length_take]
      omega
    have hdigits := bigEndian_fromBigEndian (bytes.take 8)
    have hlt := fromBigEndian_lt (bytes.take 8)
    rw [hlength] at hdigits hlt
    rw [hdigits]
    exact ⟨hlt.trans_eq (by norm_num), take_prefix 8 bytes⟩
  · cases h

theorem unescape_eq_ok {text : Bytes} {total cursor length : Nat}
    (h : unescape total value cursor bytes = .ok (text, length)) :
    ∃ part, text = value ++ part ∧ length = cursor + (part.flatMap escapeByte).length + 2 ∧
    part.flatMap escapeByte ++ [0, 0] <+: bytes := by
  fun_induction unescape total value cursor bytes with
  | case1 | case2 => cases h
  | case3 =>
    cases h
    exact ⟨[], by simp, by simp, by simp⟩
  | case4 _ _ _ _ ih =>
    obtain ⟨part, rfl, rfl, hprefix⟩ := ih h
    refine ⟨0 :: part, by simp, ?_, ?_⟩
    · simp [escapeByte]
      omega
    · simpa [escapeByte] using hprefix
  | case5 => cases h
  | case6 _ _ byte _ hbyte ih =>
    obtain ⟨part, rfl, rfl, hprefix⟩ := ih h
    refine ⟨byte :: part, by simp, ?_, ?_⟩
    · simp [escapeByte, hbyte]
      omega
    · simpa [escapeByte, hbyte] using hprefix

/-- An accepted key is the key of its scalar. -/
theorem decodeScalarSortKey_eq_ok {length : Nat} (h : decodeScalarSortKey bytes = .ok (a, length)) :
    a.Canonical ∧ sortKey a <+: bytes ∧ length = (sortKey a).length := by
  cases bytes with
  | nil => cases h
  | cons tag bytes =>
    unfold decodeScalarSortKey at h
    rw [bind_eq_ok] at h
    obtain ⟨_, htag, h⟩ := h
    cases htag
    split_ifs at h with h0 h1 hbyte hbyte h2 h3 h4 h5 <;> simp only [ok_rules] at h
    · obtain ⟨rfl, rfl⟩ := h
      simp [h0, ScalarValue.Canonical, sortKey, sortKeyBody, ScalarValue.tag]
    -- false and true
    iterate 2
      · obtain ⟨rfl, rfl⟩ := h
        rw [getElem?_cons_succ, ← head?_eq_getElem?, head?_eq_some_iff] at hbyte
        obtain ⟨_, rfl⟩ := hbyte
        simp [h1, ScalarValue.Canonical, sortKey, sortKeyBody, ScalarValue.tag]
    · obtain ⟨word, hword, rfl, rfl⟩ := h
      obtain ⟨hlt, hprefix⟩ := sortKeyWord_eq_ok hword
      have hback : sortableSigned (asSigned (toggleSign word)) = word := by
        unfold sortableSigned asSigned toggleSign
        split <;> omega
      refine ⟨?_, ?_, by simp [sortKey, sortKeyBody]⟩
      · change -2 ^ 63 ≤ asSigned _ ∧ asSigned _ < 2 ^ 63
        unfold asSigned toggleSign
        split <;> omega
      rw [sortKey, sortKeyBody, hback, h2]
      exact cons_prefix_cons.mpr ⟨rfl, hprefix⟩
    · obtain ⟨sortable, hword, hzero, number, hnumber, rfl, rfl⟩ := h
      obtain ⟨hlt, hprefix⟩ := sortKeyWord_eq_ok hword
      simp only [ScalarValue.ofNumber, ok_rules, not_not] at hnumber
      obtain ⟨hfinite, rfl⟩ := hnumber
      have hnormal : (if isZero (bitsOfSortable sortable) then 0 else bitsOfSortable sortable) =
          bitsOfSortable sortable := by
        split <;> simp_all
      have hback : sortableBits (bitsOfSortable sortable) = sortable := by
        unfold bitsOfSortable sortableBits complement toggleSign
        split_ifs <;> omega
      rw [hnormal]
      refine ⟨⟨?_, hfinite, fun h => by simp_all⟩, ?_, by simp [sortKey, sortKeyBody]⟩
      · unfold bitsOfSortable complement toggleSign
        split <;> omega
      rw [sortKey, sortKeyBody, hback, h3]
      exact cons_prefix_cons.mpr ⟨rfl, hprefix⟩
    · obtain ⟨word, hword, rfl, rfl⟩ := h
      obtain ⟨hlt, hprefix⟩ := sortKeyWord_eq_ok hword
      refine ⟨hlt, ?_, by simp [sortKey, sortKeyBody]⟩
      rw [sortKey, sortKeyBody, h4]
      exact cons_prefix_cons.mpr ⟨rfl, hprefix⟩
    · simp only [Prod.exists] at h
      obtain ⟨text, consumed, htext, string, hstring, rfl, rfl⟩ := h
      obtain ⟨part, rfl, rfl, hprefix⟩ := unescape_eq_ok htext
      refine ⟨trivial, ?_, ?_⟩
      · rw [sortKey, sortKeyBody, utf8_of_fromUtf8 hstring, h5]
        exact cons_prefix_cons.mpr ⟨rfl, hprefix⟩
      simp only [sortKey, sortKeyBody, utf8_of_fromUtf8 hstring, length_cons, length_append,
        length_nil]
      omega

/-- Byte order of the keys of canonical scalars is their order, no key continues
another one, and a key is read back whatever follows it; every accepted byte string
begins with the key of the scalar it is read as. -/
theorem scalar_sort_keys_embed_order :
    (∀ a b : ScalarValue, a.Canonical → b.Canonical → ∃ left right,
    encodeScalarSortKey a = .ok left ∧ encodeScalarSortKey b = .ok right ∧
    compare left right = a.cmp b ∧ (left <+: right → left = right) ∧
    ∀ rest, decodeScalarSortKey (left ++ rest) = .ok (a, left.length)) ∧
    ∀ bytes value length, decodeScalarSortKey bytes = .ok (value, length) →
    value.Canonical ∧ length ≤ bytes.length ∧
    encodeScalarSortKey value = .ok (bytes.take length) := by
  refine ⟨?_, ?_⟩
  · intro a b ha hb
    refine ⟨sortKey a, sortKey b, encodeScalarSortKey_eq ha, encodeScalarSortKey_eq hb, ?_,
      sortKey_eq_of_prefix ha hb, decodeScalarSortKey_sortKey ha⟩
    have hcompare := compare_sortKey ha hb [] []
    simpa using hcompare
  intro bytes value length h
  obtain ⟨hcanonical, hprefix, rfl⟩ := decodeScalarSortKey_eq_ok h
  refine ⟨hcanonical, hprefix.length_le, ?_⟩
  rw [encodeScalarSortKey_eq hcanonical, ← prefix_iff_eq_take.mp hprefix]

end Keldra.Index
