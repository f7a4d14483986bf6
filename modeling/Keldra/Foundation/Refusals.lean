import Keldra.Foundation.Checks

/-!
# Errors a computation cannot end with

`Avoids e x` says that `x` does not fail with `e`.  The rules follow the shape
of a computation, so that only the steps that could fail with `e` are left.
-/

namespace Keldra.Foundation

universe u v w

section

variable {ε : Type u} {α β : Type v}

/-- The computation does not fail with the given error. -/
def Avoids (e : ε) (x : Except ε α) : Prop :=
  x ≠ .error e

variable {e e' : ε}

@[simp] theorem avoids_ok {a : α} : Avoids e (.ok a) := by
  simp [Avoids]

@[simp] theorem avoids_pure {a : α} : Avoids e (pure a : Except ε α) :=
  avoids_ok

@[simp] theorem avoids_error : Avoids e (.error e' : Except ε α) ↔ e' ≠ e := by
  simp [Avoids]

theorem avoids_of_eq_ok (h : x = .ok a) : Avoids e x := by
  rw [h]
  exact avoids_ok

theorem avoids_rejectIf {c : Prop} [Decidable c] (h : e' ≠ e) :
    Avoids e (rejectIf c e' : Except ε PUnit.{v + 1}) := by
  unfold rejectIf
  split
  · exact avoids_error.mpr h
  · exact avoids_ok

theorem avoids_okOr (h : e' ≠ e) : Avoids e (okOr x e') := by
  cases x with
  | none => exact avoids_error.mpr h
  | some a => exact avoids_ok

theorem Avoids.bind
    {x : Except ε α} {f : α → Except ε β} (hx : Avoids e x) (hf : ∀ a, x = .ok a → Avoids e (f a)) :
    Avoids e (x >>= f) := by
  cases x with
  | error =>
    intro heq
    cases heq
    exact hx rfl
  | ok a => exact hf a rfl

theorem Avoids.guard {c : Prop} [Decidable c] (h : e' ≠ e)
    (hf : Avoids e (f ⟨⟩)) : Avoids e (rejectIf c e' >>= f) :=
  (avoids_rejectIf h).bind fun _ _ => hf

theorem avoids_mapError
    {ε' : Type w} {relabel : ε' → ε} {x : Except ε' α} (h : ∀ e', relabel e' ≠ e) :
    Avoids e (x.mapError relabel) := by
  cases x with
  | error e' => exact avoids_error.mpr (h e')
  | ok a => exact avoids_ok

theorem avoids_foldlM {γ : Type w} {step : β → γ → Except ε β} {elements : List γ}
    (hstep : ∀ before a, Avoids e (step before a)) (before : β) :
    Avoids e (elements.foldlM step before) := by
  induction elements generalizing before with
  | nil => exact avoids_ok
  | cons a _ ih =>
    rw [List.foldlM_cons]
    exact (hstep before a).bind fun after _ => ih after

end

end Keldra.Foundation
