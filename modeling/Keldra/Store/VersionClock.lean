import Mathlib.Tactic.Common
import Keldra.Store.Model

/-!
# The version clock

Version identifiers order the versions of a path and are unique within a node.
An identifier holds the milliseconds since the store's own epoch, the node and a
sequence number.  The clock never gives out an identifier below one it has given
out or learned of, also when the system clock stands still or moves back.
-/

namespace Keldra.Store

open Foundation

def nodeBits : Nat := 10

def sequenceBits : Nat := 12

def maxSequence : Nat := 2 ^ sequenceBits - 1

/-- The epoch of version identifiers, 2026-01-01T00:00:00Z. -/
def customEpochMillis : Nat := 1767225600000

structure VersionClock where
  nodeId : Nat
  millisecond : Nat
  sequence : Nat
  highWatermark : VersionId
deriving DecidableEq, Repr

namespace VersionClock

/-- A clock as the store opens it, behind the persisted high watermark. -/
def withHighWatermark (nodeId : Nat) (highWatermark : Option VersionId) : VersionClock :=
  { nodeId, millisecond := 0, sequence := 0, highWatermark := highWatermark.getD 0 }

/-- The millisecond and the sequence number of the next identifier. -/
def tick (clock : VersionClock) (logical : Nat) : Except String (Nat × Nat) :=
  if logical = clock.millisecond then
    if clock.sequence = maxSequence then do
      let logical ← okOr (checkedAdd64 logical 1) "version timestamp overflow"
      pure (logical, 0)
    else
      pure (logical, clock.sequence + 1)
  else
    pure (logical, 0)

/-- The next identifier, as a natural number; `nextAt64` is the source's word. -/
def nextAt
    (clock : VersionClock) (unixMillis : Nat) : Except String (VersionId × VersionClock) := do
  rejectIf (unixMillis < customEpochMillis) "system clock predates the Keldra version epoch"
  let (logical, sequence) ← clock.tick (max (unixMillis - customEpochMillis) clock.millisecond)
  let value := logical <<< (nodeBits + sequenceBits) ||| clock.nodeId <<< sequenceBits ||| sequence
  if value ≤ clock.highWatermark then do
    let logical ← okOr (checkedAdd64 (clock.highWatermark >>> (nodeBits + sequenceBits)) 1)
      "version timestamp overflow"
    let value := logical <<< (nodeBits + sequenceBits) ||| clock.nodeId <<< sequenceBits
    pure (value, { clock with millisecond := logical, sequence := 0, highWatermark := value })
  else
    pure (value, { clock with millisecond := logical, sequence, highWatermark := value })

/-- The low 64 bits of a number. -/
def word (value : Nat) : Nat :=
  value % 2 ^ 64

theorem word_of_lt {value : Nat} (h : value < 2 ^ 64) : word value = value :=
  Nat.mod_eq_of_lt h

/-- The next identifier with the 64-bit shifts of the source, which drop the bits above. -/
def nextAt64
    (clock : VersionClock) (unixMillis : Nat) : Except String (VersionId × VersionClock) := do
  rejectIf (unixMillis < customEpochMillis) "system clock predates the Keldra version epoch"
  let (logical, sequence) ← clock.tick (max (unixMillis - customEpochMillis) clock.millisecond)
  let value := word (logical <<< (nodeBits + sequenceBits)) |||
    word (clock.nodeId <<< sequenceBits) ||| sequence
  if value ≤ clock.highWatermark then do
    let logical ← okOr (checkedAdd64 (clock.highWatermark >>> (nodeBits + sequenceBits)) 1)
      "version timestamp overflow"
    let value := word (logical <<< (nodeBits + sequenceBits)) |||
      word (clock.nodeId <<< sequenceBits)
    pure (value, { clock with millisecond := logical, sequence := 0, highWatermark := value })
  else
    pure (value, { clock with millisecond := logical, sequence, highWatermark := value })

/-- A new identifier is above everything the clock has seen. -/
theorem nextAt_eq_ok {clock next : VersionClock} {unixMillis : Nat} {id : VersionId}
    (h : clock.nextAt unixMillis = .ok (id, next)) :
    clock.highWatermark < id ∧ next.highWatermark = id := by
  simp only [nextAt, ok_rules, Prod.exists] at h
  obtain ⟨-, _, _, -, h⟩ := h
  split at h
  · simp only [ok_rules, checkedAdd64_eq_some] at h
    obtain ⟨_, ⟨-, rfl⟩, rfl, rfl⟩ := h
    refine ⟨?_, rfl⟩
    -- the next millisecond alone is already above the watermark
    refine lt_of_lt_of_le ?_ Nat.left_le_or
    rw [Nat.shiftLeft_eq, Nat.shiftRight_eq_div_pow, Nat.mul_comm]
    exact Nat.lt_mul_div_succ clock.highWatermark (Nat.two_pow_pos _)
  rename_i habove
  obtain ⟨rfl, rfl⟩ := h
  exact ⟨Nat.lt_of_not_le habove, rfl⟩

theorem le_nextAt {unixMillis : Nat} {clock next : VersionClock} {id : VersionId}
    (h : clock.nextAt unixMillis = .ok (id, next)) :
    clock.highWatermark ≤ next.highWatermark := by
  obtain ⟨hid, hclock⟩ := nextAt_eq_ok h
  exact hid.le.trans hclock.ge

/-- An identifier that fits its 64 bits is the one that the source computes. -/
theorem nextAt64_eq {clock next : VersionClock} {unixMillis : Nat} {id : VersionId}
    (h : clock.nextAt unixMillis = .ok (id, next)) (hid : id < 2 ^ 64) :
    clock.nextAt64 unixMillis = .ok (id, next) := by
  have hlater := (nextAt_eq_ok h).1
  simp only [nextAt, ok_rules, Prod.exists] at h
  obtain ⟨hepoch, logical, sequence, htick, h⟩ := h
  -- the first value is at most the new identifier, on either branch
  have hfirst : logical <<< (nodeBits + sequenceBits) ||| clock.nodeId <<< sequenceBits <
      2 ^ 64 := by
    refine Nat.left_le_or.trans_lt (b := _ ||| sequence) ?_
    split at h
    · rename_i hbelow
      exact (hbelow.trans_lt hlater).trans hid
    · cases h
      exact hid
  have htime := word_of_lt (Nat.left_le_or.trans_lt hfirst)
  have hnode := word_of_lt (Nat.right_le_or.trans_lt hfirst)
  simp only [nextAt64, ok_rules, Prod.exists]
  refine ⟨hepoch, logical, sequence, htick, ?_⟩
  rw [htime, hnode]
  split at h
  · rename_i hbelow
    rw [if_pos hbelow]
    simp only [ok_rules, checkedAdd64_eq_some] at h ⊢
    obtain ⟨_, ⟨hroom, rfl⟩, rfl, rfl⟩ := h
    refine ⟨_, ⟨hroom, rfl⟩, ?_⟩
    rw [word_of_lt (Nat.left_le_or.trans_lt hid)]
    exact ⟨rfl, rfl⟩
  · rename_i habove
    rw [if_neg habove]
    exact h

end VersionClock

end Keldra.Store
