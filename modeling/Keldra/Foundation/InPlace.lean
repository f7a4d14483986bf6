import Keldra.Foundation.Refusals

/-!
# Code that edits its state in place

A call reads its state, runs checks and writes.  A check that fails ends the call, and
what was written before it stays written.  The rules read an accepted call back as what
its checks established, and say when a refused call has written nothing: all its checks
come before its first write.
-/

namespace Keldra.Foundation

section

variable {σ ε α β : Type}

/-- The state that a call leaves, and what it answers. -/
def perform (edit : ExceptT ε (StateM σ) α) (s : σ) : σ × Except ε α :=
  (edit.run.run s).swap

variable {s t : σ} {a : α} {b : β} {x : Except ε α} {f : α → ExceptT ε (StateM σ) β}

/-- A check leaves the state as it is, whichever way it ends. -/
theorem perform_check : perform (liftM x >>= f) s =
    match x with
    | .ok a => perform (f a) s
    | .error e => (s, .error e) := by
  cases x <;> rfl

/-- The rules that read an accepted call back, as one simp set. -/
theorem edit_rules :
    (∀ {σ ε β : Type} {s : σ} {f : σ → ExceptT ε (StateM σ) β},
      perform (get >>= f) s = perform (f s) s) ∧
    (∀ {σ ε β : Type} {s : σ} {g : σ → σ} {f : PUnit → ExceptT ε (StateM σ) β},
      perform (modify g >>= f) s = perform (f ⟨⟩) (g s)) ∧
    (∀ {σ ε α β : Type} {s t : σ} {b : β} {x : Except ε α} {f : α → ExceptT ε (StateM σ) β},
      perform (liftM x >>= f) s = (t, .ok b) ↔ ∃ a, x = .ok a ∧ perform (f a) s = (t, .ok b)) ∧
    (∀ {σ ε α : Type} {s t : σ} {a b : α},
      perform (pure a : ExceptT ε (StateM σ) α) s = (t, .ok b) ↔ s = t ∧ a = b) := by
  refine ⟨rfl, rfl, @fun σ ε α β s t b x f => ?_, @fun σ ε α s t a b => ?_⟩
  · cases x <;> simp [perform_check]
  · change (s, Except.ok a) = (t, .ok b) ↔ _
    simp

/-- A refused call leaves the state as it was. -/
def KeepsRefused (s : σ) (edit : ExceptT ε (StateM σ) α) : Prop :=
  ∀ t e, perform edit s = (t, .error e) → t = s

/-- A call without checks. -/
def Accepts (edit : ExceptT ε (StateM σ) α) : Prop :=
  ∀ s, ∃ t a, perform edit s = (t, .ok a)

theorem accepts_pure : Accepts (pure a : ExceptT ε (StateM σ) α) :=
  fun s => ⟨s, a, rfl⟩

theorem Accepts.write {g : σ → σ} {f : PUnit → ExceptT ε (StateM σ) β} (h : Accepts (f ⟨⟩)) :
    Accepts (modify g >>= f) :=
  fun s => h (g s)

theorem Accepts.keepsRefused {edit : ExceptT ε (StateM σ) α} (h : Accepts edit) :
    KeepsRefused s edit := by
  intro t e hrefused
  obtain ⟨_, _, haccepted⟩ := h s
  cases haccepted.symm.trans hrefused

theorem KeepsRefused.read {f : σ → ExceptT ε (StateM σ) β} (h : KeepsRefused s (f s)) :
    KeepsRefused s (get >>= f) :=
  h

theorem KeepsRefused.check (h : ∀ a, KeepsRefused s (f a)) : KeepsRefused s (liftM x >>= f) := by
  intro t e hrefused
  rw [perform_check] at hrefused
  split at hrefused
  · exact h _ t e hrefused
  · exact (Prod.mk.inj hrefused).1.symm

variable {error : ε}

theorem avoids_perform_get {f : σ → ExceptT ε (StateM σ) β}
    (h : Avoids error (perform (f s) s).2) : Avoids error (perform (get >>= f) s).2 :=
  h

theorem avoids_perform_modify {g : σ → σ} {f : PUnit → ExceptT ε (StateM σ) β}
    (h : Avoids error (perform (f ⟨⟩) (g s)).2) : Avoids error (perform (modify g >>= f) s).2 :=
  h

theorem avoids_perform_pure : Avoids error (perform (pure a) s).2 :=
  avoids_ok

theorem avoids_perform_check (hcheck : Avoids error x)
    (h : ∀ a, x = .ok a → Avoids error (perform (f a) s).2) :
    Avoids error (perform (liftM x >>= f) s).2 := by
  rw [perform_check]
  split
  · exact h _ rfl
  · exact avoids_error.mpr (avoids_error.mp hcheck)

end

end Keldra.Foundation
