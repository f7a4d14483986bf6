import Keldra.Foundation.Checks

/-!
# Two computations with the same outcome

`Agrees R x y` relates two fallible computations that fail with the same error,
or both end with results related by `R`.  The rules follow the shape of the
computations, as for a single one.
-/

namespace Keldra.Foundation

universe u v

section

variable {ε : Type u} {α α' β β' : Type v}

/-- The same error, or related results. -/
inductive Agrees (R : α → α' → Prop) : Except ε α → Except ε α' → Prop
  | error (e : ε) : Agrees R (.error e) (.error e)
  | ok {a : α} {a' : α'} (related : R a a') : Agrees R (.ok a) (.ok a')

variable {R : α → α' → Prop} {S : β → β' → Prop}

theorem agrees_of_eq
    {R : α → α → Prop} {x y : Except ε α} (h : x = y) (hrefl : ∀ a, y = .ok a → R a a) :
    Agrees R x y := by
  subst h
  cases x with
  | error e => exact .error e
  | ok a => exact .ok (hrefl a rfl)

theorem Agrees.bind {x : Except ε α} {y : Except ε α'} {f : α → Except ε β} {g : α' → Except ε β'}
    (hxy : Agrees R x y) (hfg : ∀ a a', x = .ok a → y = .ok a' → R a a' → Agrees S (f a) (g a')) :
    Agrees S (x >>= f) (y >>= g) := by
  cases hxy with
  | error e => exact .error e
  | ok hrelated => exact hfg _ _ rfl rfl hrelated

/-- A step that both computations share. -/
theorem Agrees.bind_same {f : α → Except ε β} {g : α → Except ε β'} {x y : Except ε α} (hxy : x = y)
    (hfg : ∀ a, x = .ok a → Agrees S (f a) (g a)) : Agrees S (x >>= f) (y >>= g) := by
  subst hxy
  cases x with
  | error e => exact .error e
  | ok a => exact hfg a rfl

end

end Keldra.Foundation
