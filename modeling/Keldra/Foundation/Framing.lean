import Keldra.Foundation.Bytes

/-!
# Pieces laid out one after another

A stream made of consecutive pieces, and the slices of a list.  The offset of a
piece is the sum of the lengths before it, and the slice there is the piece.
-/

namespace Keldra.Foundation

open List

universe u

section

variable {α : Type u}

/-- The elements from a position on, at most `length` of them. -/
def slice (list : List α) (start length : Nat) : List α :=
  (list.drop start).take length

theorem length_slice (list : List α) (start length : Nat) :
    (slice list start length).length = min length (list.length - start) := by
  simp [slice]

/-- A slice that covers the whole length shows that the list is long enough. -/
theorem le_of_slice_eq
    {start length : Nat} (hother : start + length ≤ other.length)
    (h : slice list start length = slice other start length) :
    length = 0 ∨ start + length ≤ list.length := by
  have hlength := congrArg List.length h
  rw [length_slice, length_slice] at hlength
  omega

theorem slice_slice
    (list : List α) (start length start' length' : Nat) (h : start' + length' ≤ length) :
    slice (slice list start length) start' length' = slice list (start + start') length' := by
  unfold slice
  rw [drop_take, take_take, drop_drop, Nat.min_eq_left (by omega)]

theorem slice_drop (list : List α) (before start length : Nat) :
    slice (list.drop before) start length = slice list (before + start) length := by
  rw [slice, slice, drop_drop]

/-- A slice of the front part of a list, read where the front part may have ended. -/
theorem take_drop_front (list : List α) (width start size : Nat) :
    (list.drop (min start (list.take width).length)).take
    (min ((list.take width).length - start) size) = slice (list.take width) start size := by
  by_cases hinside : start ≤ (list.take width).length
  · rw [Nat.min_eq_left hinside, slice, drop_take, take_take, take_eq_take_iff, length_drop]
    rw [length_take] at hinside ⊢
    omega
  rw [slice, drop_eq_nil_of_le (by omega : (list.take width).length ≤ start),
    Nat.sub_eq_zero_of_le (by omega), Nat.zero_min]
  simp

/-- Slices of one unit, side by side. -/
theorem flatMap_slices (list : List α) (count size : Nat) :
    ((List.range count).flatMap fun i => slice list (i * size) size) =
    list.take (count * size) := by
  induction count with
  | zero => simp
  | succ _ ih =>
    rw [range_succ, flatMap_append, ih, flatMap_cons, flatMap_nil,
      append_nil, Nat.succ_mul, slice, take_add]

/-- A list mapped with the positions of its elements. -/
theorem mapIdx_eq_map_range {β : Type*} (f : Nat → α → β) (list : List α) (fallback : α) :
    list.mapIdx f = (List.range list.length).map fun i => f i (list.getD i fallback) := by
  refine ext_getElem (by simp) ?_
  intro i hleft _
  have hi : i < list.length := by simpa using hleft
  simp [hi]

end

section

variable {α : Type u} (piece : Nat → List α)

/-- The first pieces, one after another. -/
def laid (count : Nat) : List α :=
  (List.range count).flatMap piece

@[simp] theorem laid_zero : laid piece 0 = [] := rfl

theorem laid_succ (count : Nat) : laid piece (count + 1) = laid piece count ++ piece count := by
  simp [laid, range_succ]

theorem length_laid (count : Nat) :
    (laid piece count).length = ((List.range count).map fun i => (piece i).length).sum := by
  simp [laid, length_flatMap]

theorem laid_add (first second : Nat) :
    laid piece (first + second) = laid piece first ++ laid (fun i => piece (first + i)) second := by
  simp [laid, range_add, flatMap_map]

/-- Behind the pieces before it a piece is followed by the later ones. -/
theorem drop_laid {i count : Nat} (h : i < count) :
    ∃ later, (laid piece count).drop (laid piece i).length = piece i ++ later := by
  obtain ⟨more, rfl⟩ : ∃ more, count = i + (1 + more) := ⟨count - i - 1, by omega⟩
  rw [laid_add, drop_left, laid_add]
  exact ⟨laid (fun j => piece (i + (1 + j))) more, by simp [laid]⟩

end

theorem foldl_fromBigEndian (bytes : Bytes) (start : Nat) :
    bytes.foldl (fun value byte => value * 256 + byte.toNat) start =
    start * 256 ^ bytes.length + fromBigEndian bytes := by
  induction bytes generalizing start with
  | nil => simp [fromBigEndian]
  | cons byte _ ih =>
    rw [fromBigEndian, foldl_cons, foldl_cons, ih, ih (0 * 256 + byte.toNat), length_cons, pow_succ]
    ring

theorem fromBigEndian_cons (byte : UInt8) (rest : Bytes) :
    fromBigEndian (byte :: rest) = byte.toNat * 256 ^ rest.length + fromBigEndian rest := by
  rw [fromBigEndian, foldl_cons, foldl_fromBigEndian]
  simp

theorem fromBigEndian_lt (bytes : Bytes) : fromBigEndian bytes < 256 ^ bytes.length := by
  induction bytes with
  | nil => simp [fromBigEndian]
  | cons byte rest =>
    have hbyte : byte.toNat ≤ 255 := Nat.le_of_lt_succ byte.toNat_lt
    have hscaled := Nat.mul_le_mul_right (256 ^ rest.length) hbyte
    rw [fromBigEndian_cons, length_cons, pow_succ]
    omega

/-- Only the low bytes of a number are written. -/
theorem bigEndian_add_mul (width high value : Nat) :
    bigEndian width (high * 256 ^ width + value) = bigEndian width value := by
  induction width generalizing high with
  | zero => rfl
  | succ width ih =>
    have hsplit : high * 256 ^ (width + 1) + value = high * 256 * 256 ^ width + value := by
      rw [pow_succ]
      ring
    have hpos : 0 < 256 ^ width := by positivity
    have hdigit : (high * 256 * 256 ^ width + value) / 256 ^ width =
        value / 256 ^ width + 256 * high := by
      rw [Nat.add_comm, Nat.add_mul_div_right _ _ hpos, Nat.mul_comm high]
    rw [bigEndian, bigEndian, hsplit, ih, hdigit]
    congr 1
    apply UInt8.toNat_inj.mp
    simp

/-- The bytes of a number are the only ones of their width for it. -/
theorem bigEndian_fromBigEndian (bytes : Bytes) :
    bigEndian bytes.length (fromBigEndian bytes) = bytes := by
  induction bytes with
  | nil => rfl
  | cons byte rest ih =>
    have hrest := fromBigEndian_lt rest
    have hpos : 0 < 256 ^ rest.length := by positivity
    have hdigit : (byte.toNat * 256 ^ rest.length + fromBigEndian rest) / 256 ^ rest.length =
        byte.toNat := by
      rw [Nat.add_comm, Nat.add_mul_div_right _ _ hpos, Nat.div_eq_of_lt hrest, Nat.zero_add]
    rw [length_cons, fromBigEndian_cons, bigEndian, hdigit, bigEndian_add_mul, ih,
      UInt8.ofNat_toNat]

end Keldra.Foundation
