import Mathlib

/-!
# Guard sequences

Pure validators are sequences of guards in `Except`.  This module provides the
two guard forms used by such validators and the rules that read a successful
sequence back as the conjunction of what its guards established.
-/

namespace Keldra.Foundation

universe u v w

section

variable {ε : Type u} {α β : Type v}

/-- Fail with `e` exactly when the condition holds. -/
def rejectIf (c : Prop) [Decidable c] (e : ε) : Except ε PUnit.{v + 1} :=
  if c then .error e else .ok ⟨⟩

/-- The value of an option, or the given error. -/
def okOr (x : Option α) (e : ε) : Except ε α :=
  match x with
  | some a => .ok a
  | none => .error e

@[simp] theorem rejectIf_eq_ok {c : Prop} [Decidable c] {e : ε} {u : PUnit.{v + 1}} :
    rejectIf c e = .ok u ↔ ¬ c := by
  unfold rejectIf
  by_cases h : c <;> simp [h]

@[simp] theorem okOr_eq_ok {x : Option α} {e : ε} {a : α} : okOr x e = .ok a ↔ x = some a := by
  cases x <;> simp [okOr]

/-- A sequence succeeds exactly when each of its steps does. -/
@[simp] theorem bind_eq_ok {x : Except ε α} {f : α → Except ε β} {b : β} :
    (x >>= f) = .ok b ↔ ∃ a, x = .ok a ∧ f a = .ok b := by
  cases x <;> simp [bind, Except.bind]

@[simp] theorem pure_eq_ok {a b : α} : (pure a : Except ε α) = .ok b ↔ a = b :=
  ⟨Except.ok.inj, congrArg Except.ok⟩

@[simp] theorem exists_unit_eq_ok {x : Except ε PUnit.{v + 1}} {p : PUnit.{v + 1} → Prop} :
    (∃ u, x = .ok u ∧ p u) ↔ x = .ok ⟨⟩ ∧ p ⟨⟩ := by
  constructor
  · rintro ⟨⟨⟩, hx, hp⟩
    exact ⟨hx, hp⟩
  rintro ⟨hx, hp⟩
  exact ⟨⟨⟩, hx, hp⟩

/-- The rules that read a successful sequence back, as one simp set. -/
theorem ok_rules : (∀ {ε α β : Type} {x : Except ε α} {f : α → Except ε β} {b : β},
    (x >>= f) = .ok b ↔ ∃ a, x = .ok a ∧ f a = .ok b) ∧
    (∀ {ε α : Type} {a b : α}, (pure a : Except ε α) = .ok b ↔ a = b) ∧
    (∀ {ε : Type} {c : Prop} [Decidable c] {e : ε} {u : Unit}, rejectIf c e = .ok u ↔ ¬ c) ∧
    (∀ {ε α : Type} {x : Option α} {e : ε} {a : α}, okOr x e = .ok a ↔ x = some a) ∧
    (∀ {ε : Type} {x : Except ε Unit} {p : Unit → Prop},
    (∃ u, x = .ok u ∧ p u) ↔ x = .ok ⟨⟩ ∧ p ⟨⟩) ∧ (∀ {p : Prop}, (∃ _ : Unit, p) ↔ p) ∧
    ∀ {α β : Type} {a c : α} {b d : β}, (a, b) = (c, d) ↔ a = c ∧ b = d :=
  ⟨bind_eq_ok, pure_eq_ok, rejectIf_eq_ok, okOr_eq_ok, exists_unit_eq_ok, exists_const _,
    Prod.mk_inj⟩

/-- Relabelling the error of a check does not change when it succeeds. -/
theorem mapError_eq_ok {ε' : Type w} {relabel : ε → ε'} {x : Except ε α} {a : α} :
    x.mapError relabel = .ok a ↔ x = .ok a := by
  rcases x with e | b
  · simp [Except.mapError]
  · simp [Except.mapError]

/-- A scan succeeds exactly when every element passes. -/
theorem forM_eq_ok {check : β → Except ε PUnit} {elements : List β} :
    elements.forM check = .ok ⟨⟩ ↔ ∀ a ∈ elements, check a = .ok ⟨⟩ := by
  induction elements with
  | nil => simp [pure, Except.pure]
  | cons a _ ih =>
    simp only [List.forM_eq_forM, List.forM_cons] at ih ⊢
    rw [bind_eq_ok, exists_unit_eq_ok, ih, List.forall_mem_cons]

/-- What every step of a fold keeps, a successful fold keeps. -/
theorem foldlM_preserves
    {γ : Type w} {step : β → γ → Except ε β} {elements : List γ} {invariant : β → Prop}
    (hstep : ∀ before, ∀ a ∈ elements, ∀ after,
    invariant before → step before a = .ok after → invariant after)
    {before after : β} (hbefore : invariant before) (h : elements.foldlM step before = .ok after) :
    invariant after := by
  induction elements generalizing before with
  | nil =>
    cases h
    exact hbefore
  | cons a _ ih =>
    rw [List.foldlM_cons, bind_eq_ok] at h
    obtain ⟨middle, hmiddle, hrest⟩ := h
    have hkeep : invariant middle := hstep before a (by simp) middle hbefore hmiddle
    refine ih ?_ hkeep hrest
    intro s b hb s'
    exact hstep s b (List.mem_cons_of_mem _ hb) s'

/-- A successful traversal relates the elements to their images in order. -/
theorem mapM_eq_ok {γ : Type w} {f : γ → Except ε β} {elements : List γ} {images : List β} :
    elements.mapM f = .ok images ↔ List.Forall₂ (fun a b => f a = .ok b) elements images := by
  induction elements generalizing images with
  | nil =>
    rw [List.mapM_nil, pure_eq_ok, List.forall₂_nil_left_iff]
    exact eq_comm
  | cons a _ ih =>
    simp only [List.mapM_cons, bind_eq_ok, pure_eq_ok]
    constructor
    · rintro ⟨b, hb, _, hbs, rfl⟩
      exact List.Forall₂.cons hb (ih.mp hbs)
    intro h
    cases h with
    | cons hb hbs => exact ⟨_, hb, _, ih.mpr hbs, rfl⟩

end

end Keldra.Foundation
