import Mathlib.Data.List.Induction
import Mathlib.Tactic.Common

/-!
# Runs of a deterministic machine

A machine is a step function from a state and an input to the next state and
an output.  This module defines its runs over input lists and the two
induction rules used for safety properties: one over plain invariants, and one
over facts that relate the inputs consumed so far to the state reached, along
input lists drawn from a prefix-closed class.
-/

namespace Keldra.Foundation

universe u v w

section

variable {σ : Type u} {ι : Type v} {ο : Type w} (step : σ → ι → σ × ο)

/-- State reached by consuming the inputs from left to right. -/
def runFrom (s : σ) : List ι → σ
  | [] => s
  | i :: rest => runFrom (step s i).1 rest

/-- Outputs produced along the way, in order. -/
def outputsFrom (s : σ) : List ι → List ο
  | [] => []
  | i :: rest => (step s i).2 :: outputsFrom (step s i).1 rest

theorem runFrom_append (s : σ) (before after : List ι) :
    runFrom step s (before ++ after) = runFrom step (runFrom step s before) after := by
  induction before generalizing s with
  | nil => rfl
  | cons i _ ih => exact ih (step s i).1

theorem outputsFrom_append (s : σ) (before after : List ι) :
    outputsFrom step s (before ++ after) = outputsFrom step s before ++
    outputsFrom step (runFrom step s before) after := by
  induction before generalizing s with
  | nil => rfl
  | cons i _ ih => simp only [List.cons_append, outputsFrom, runFrom, ih]

theorem runFrom_snoc (s : σ) (done : List ι) (i : ι) :
    runFrom step s (done ++ [i]) = (step (runFrom step s done) i).1 := by
  rw [runFrom_append]
  rfl

theorem outputsFrom_snoc (s : σ) (done : List ι) (i : ι) : outputsFrom step s (done ++ [i]) =
    outputsFrom step s done ++ [(step (runFrom step s done) i).2] := by
  rw [outputsFrom_append]
  rfl

/-- Input lists whose prefixes are again admissible. -/
def PrefixClosed (P : List ι → Prop) : Prop :=
  ∀ done i, P (done ++ [i]) → P done

theorem prefixClosed_pairwise (r : ι → ι → Prop) :
    PrefixClosed (fun inputs : List ι => inputs.Pairwise r) := by
  intro _ i h
  exact (List.pairwise_append.mp h).1

theorem prefixClosed_true : PrefixClosed (fun _ : List ι => True) :=
  fun _ _ _ => trivial

variable {step}

/--
A relation between the inputs consumed so far and the state reached holds of
every admissible run if it holds at the start and every step keeps it.
-/
theorem runFrom_induction
    {P : List ι → Prop} (hclosed : PrefixClosed P) {motive : List ι → σ → Prop} {s : σ}
    (start : motive [] s) (next : ∀ done i, P (done ++ [i]) → motive done (runFrom step s done) →
    motive (done ++ [i]) (step (runFrom step s done) i).1) (inputs : List ι) (hok : P inputs) :
    motive inputs (runFrom step s inputs) := by
  induction inputs using List.reverseRecOn with
  | nil => exact start
  | append_singleton done i ih =>
    rw [runFrom_snoc]
    exact next done i hok (ih (hclosed done i hok))

/-- A property of states that every step keeps holds along every run. -/
theorem runFrom_invariant {s : σ} {motive : σ → Prop} (start : motive s)
    (next : ∀ t i, motive t → motive (step t i).1) (inputs : List ι) :
    motive (runFrom step s inputs) :=
  runFrom_induction (motive := fun _ t => motive t) prefixClosed_true start
    (fun _ i _ h => next _ i h) inputs trivial

end

end Keldra.Foundation
