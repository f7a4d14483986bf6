import Keldra.Foundation.OrdMap

/-!
# Logs kept above a floor

A log is a list whose entries are numbered from one.  What a store keeps of it
is the map from numbers to entries above a floor.  Appending writes the next
number, and pruning the oldest kept entry erases it and raises the floor.
-/

namespace Keldra.Foundation

open OrdMap List

universe u

variable {first : Nat}

section

variable {α : Type u}

/-- The elements paired with consecutive numbers. -/
def numbered (first : Nat) : List α → List (Nat × α)
  | [] => []
  | a :: rest => (first, a) :: numbered (first + 1) rest

theorem le_of_mem_numbered (h : entry ∈ numbered first elements) :
    first ≤ entry.1 := by
  induction elements generalizing first with
  | nil => cases h
  | cons a _ ih =>
    rcases mem_cons.mp h with rfl | h
    · exact le_rfl
    have hnext := ih h
    omega

theorem ascending_numbered (first : Nat) (elements : List α) :
    Ascending (numbered first elements) := by
  induction elements generalizing first with
  | nil => exact List.Pairwise.nil
  | cons a _ ih =>
    refine pairwise_cons.mpr ⟨?_, ih (first + 1)⟩
    intro _ hentry
    exact le_of_mem_numbered hentry

theorem map_snd_numbered (first : Nat) (elements : List α) :
    (numbered first elements).map Prod.snd = elements := by
  induction elements generalizing first with
  | nil => rfl
  | cons a _ ih => rw [numbered, map_cons, ih]

theorem lookupEntry_numbered (first k : Nat) (elements : List α) :
    lookupEntry k (numbered first elements) = if first ≤ k then elements[k - first]? else none := by
  induction elements generalizing first with
  | nil => simp [numbered, lookupEntry]
  | cons a _ ih =>
    unfold numbered lookupEntry
    rw [ih]
    by_cases heq : k = first
    · simp [heq]
    rw [if_neg heq]
    by_cases hlt : first + 1 ≤ k
    · have hsub : k - first = (k - (first + 1)) + 1 := by omega
      rw [if_pos hlt, if_pos (by omega), hsub, getElem?_cons_succ]
    · rw [if_neg hlt, if_neg (by omega)]

section

variable (floor : Nat) (log : List α)

/-- The entries of a log above a floor, under their numbers. -/
def retained : OrdMap Nat α :=
  ⟨numbered (floor + 1) (log.drop floor), ascending_numbered _ _⟩

theorem get?_retained (k : Nat) :
    (retained floor log).get? k = if floor < k then log[k - 1]? else none := by
  rw [get?, retained, lookupEntry_numbered, getElem?_drop]
  by_cases h : floor < k
  · have hsub : floor + (k - (floor + 1)) = k - 1 := by omega
    rw [if_pos h, if_pos (by omega), hsub]
  · rw [if_neg h, if_neg (by omega)]

theorem values_retained : (retained floor log).values = log.drop floor :=
  map_snd_numbered _ _

/-- The kept numbers are those above the floor and within the log. -/
theorem isSome_get?_retained (k : Nat) :
    ((retained floor log).get? k).isSome ↔ floor < k ∧ k ≤ log.length := by
  rw [get?_retained]
  by_cases h : floor < k
  · rw [if_pos h, isSome_getElem?]
    omega
  · simp [h]

end

theorem retained_snoc (h : floor ≤ log.length) (a : α) :
    (retained floor log).insert (log.length + 1) a = retained floor (log ++ [a]) := by
  refine ext_get? fun k => ?_
  rw [get?_insert, get?_retained, get?_retained]
  by_cases heq : k = log.length + 1
  · have hfloor : floor < log.length + 1 := by omega
    simp [heq, hfloor]
  rw [if_neg heq]
  by_cases hlt : floor < k
  · rw [if_pos hlt, if_pos hlt]
    by_cases hin : k - 1 < log.length
    · rw [getElem?_append_left hin]
    rw [getElem?_eq_none (by omega), getElem?_eq_none]
    rw [length_append, length_singleton]
    omega
  · rw [if_neg hlt, if_neg hlt]

theorem retained_prune (floor : Nat) (log : List α) :
    (retained floor log).erase (floor + 1) = retained (floor + 1) log := by
  refine ext_get? fun k => ?_
  rw [get?_erase, get?_retained, get?_retained]
  by_cases heq : k = floor + 1
  · simp [heq]
  have hiff : floor < k ↔ floor + 1 < k := by omega
  simp [heq, hiff]

theorem retained_nil (floor : Nat) : retained floor ([] : List α) = OrdMap.empty := by
  refine ext_get? fun k => ?_
  rw [get?_retained]
  simp

end

variable {n : Nat}

section

variable {α : Type u} {position : α → Nat} {log : List α}

/-- Every element of a log names its own number. -/
def Numbered (position : α → Nat) (log : List α) : Prop :=
  ∀ i a, log[i]? = some a → position a = i + 1

section

variable (h : Numbered position log)

include h

theorem Numbered.mem_take {a : α}
    (ha : a ∈ log.take n) : position a ≤ n := by
  obtain ⟨i, hi⟩ := mem_iff_getElem?.mp ha
  rw [getElem?_take] at hi
  split at hi
  · have hposition := h i a hi
    omega
  · cases hi

theorem Numbered.mem_drop {a : α}
    (ha : a ∈ log.drop n) : n < position a := by
  obtain ⟨i, hi⟩ := mem_iff_getElem?.mp ha
  rw [getElem?_drop] at hi
  have hposition := h _ a hi
  omega

/-- The elements numbered up to a bound are the first ones. -/
theorem Numbered.filter_le (n : Nat) : log.filter (fun a => position a ≤ n) = log.take n := by
  conv_lhs => rw [← take_append_drop n log]
  rw [filter_append, filter_eq_self.mpr, filter_eq_nil_iff.mpr, append_nil]
  · intro a ha
    have hlt := h.mem_drop ha
    simpa using hlt
  intro a ha
  simpa using h.mem_take ha

/-- Of a contiguous part, those above a number are again a contiguous part. -/
theorem Numbered.filter_slice {above : Nat}
    (hfirst : first ≤ above) (hlast : above ≤ first + n) :
    ((log.drop first).take n).filter (fun a => above < position a) =
    (log.drop above).take (first + n - above) := by
  have hsplit : n = (above - first) + (first + n - above) := by omega
  conv_lhs => rw [hsplit]
  rw [take_add, drop_drop, Nat.add_sub_cancel' hfirst, filter_append,
    filter_eq_nil_iff.mpr, filter_eq_self.mpr, nil_append]
  · intro a ha
    simpa using h.mem_drop (mem_of_mem_take ha)
  intro a ha
  rw [← drop_take] at ha
  have hle := h.mem_take (mem_of_mem_drop ha)
  simpa using hle

end

/-- Reading consecutive numbers collects consecutive elements. -/
theorem filterMap_range'_eq {elements : List α} {read : Nat → Option α}
    (h : ∀ i a, elements[i]? = some a → read (first + i) = some a) :
    (List.range' first elements.length).filterMap read = elements := by
  induction elements generalizing first with
  | nil => rfl
  | cons a _ ih =>
    have hhead : read first = some a := h 0 a rfl
    rw [length_cons, range'_succ, filterMap_cons_some hhead, ih]
    intro i b hb
    rw [Nat.add_assoc, Nat.add_comm 1 i]
    exact h (i + 1) b hb

end

end Keldra.Foundation
