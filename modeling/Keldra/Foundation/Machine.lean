import Mathlib

/-!
# Machine integers

Machine integers are natural numbers or integers where only their bounds
matter, and fixed-width words where their encoding does.  The bounds are stated
where the code checks them.
-/

namespace Keldra.Foundation

/-- Largest value of a pointer-sized unsigned integer. -/
def usizeMax : Nat := 2 ^ 64 - 1

def i64Min : Int := -(2 ^ 63)
def i64Max : Int := 2 ^ 63 - 1

/-- Addition that fails above the pointer-sized range. -/
def checkedAddUsize (a b : Nat) : Option Nat :=
  if a + b ≤ usizeMax then some (a + b) else none

/-- Words are ordered as the numbers they stand for. -/
instance linearOrderUInt64 : LinearOrder UInt64 where
  le_refl := UInt64.le_refl
  le_trans _ _ _ := UInt64.le_trans
  le_antisymm _ _ := UInt64.le_antisymm
  le_total := UInt64.le_total
  lt_iff_le_not_ge a b := by
    simp only [UInt64.lt_iff_toNat_lt, UInt64.le_iff_toNat_le]
    omega
  toDecidableLE := inferInstance
  toDecidableLT := inferInstance
  toDecidableEq := inferInstance

/-- Word addition that fails on overflow. -/
def checkedAddU64 (a b : UInt64) : Option UInt64 :=
  if a.toNat + b.toNat < 2 ^ 64 then some (a + b) else none

theorem checkedAddU64_eq_some {a b c : UInt64} :
    checkedAddU64 a b = some c ↔ a.toNat + b.toNat = c.toNat := by
  unfold checkedAddU64
  split
  · rename_i hfits
    rw [Option.some.injEq, ← UInt64.toNat_inj, UInt64.toNat_add, Nat.mod_eq_of_lt hfits]
  rename_i hfits
  have hbound : c.toNat < 2 ^ 64 := c.toNat_lt
  simp only [reduceCtorEq, false_iff]
  omega

end Keldra.Foundation
