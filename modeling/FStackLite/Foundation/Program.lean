import Mathlib.Data.List.Basic

/-!
# Programs over a state

A program reads and changes a state and returns a value, or it fails.  `Returns` says
that a program does return from a state, with a value and a state as described.  It has
one rule for each way to put programs together, so that what is known of the parts of a
program is used without unfolding them.
-/

namespace FStackLite
namespace Foundation

/-- A program over the states `σ` that returns an `α` or fails with an `ε`. -/
abbrev Program (σ ε α : Type) := StateT σ (Except ε) α

namespace Program

variable {σ ε α β : Type} {x : Program σ ε α} {f : α -> Program σ ε β} {s : σ}
    {P Q : α -> σ -> Prop} {a : α}

/-- The program returns, and its value and the state that it leaves satisfy `Q`. -/
def Returns (x : Program σ ε α) (s : σ) (Q : α -> σ -> Prop) : Prop :=
  exists a s', x.run s = .ok (a, s') ∧ Q a s'

@[simp]
theorem returns_bind {Q : β -> σ -> Prop} :
    Returns (x >>= f) s Q <-> Returns x s fun a t => Returns (f a) t Q := by
  unfold Returns
  rw [StateT.run_bind]
  cases x.run s with
  | error e =>
      constructor
      · rintro ⟨b, s', hrun, _⟩
        contradiction
      · rintro ⟨a, t, hrun, _⟩
        contradiction
  | ok p =>
      constructor
      · intro h
        exact ⟨p.1, p.2, rfl, h⟩
      · rintro ⟨a, t, hrun, h⟩
        injection hrun with hrun
        rw [hrun]
        exact h

theorem Returns.imp (h : Returns x s P) (hPQ : forall a t, P a t -> Q a t) : Returns x s Q := by
  rcases h with ⟨a, t, hrun, hP⟩
  exact ⟨a, t, hrun, hPQ a t hP⟩

theorem Returns.bind {Q : β -> σ -> Prop} (hx : Returns x s P)
    (hf : forall a t, P a t -> Returns (f a) t Q) : Returns (x >>= f) s Q :=
  returns_bind.mpr (hx.imp hf)

theorem Returns.of_run (h : Returns x s P) {s' : σ} (hrun : x.run s = .ok (a, s')) : P a s' := by
  rcases h with ⟨b, t, hrun', hP⟩
  rw [hrun] at hrun'
  injection hrun' with heq
  injection heq with ha hs
  rw [ha, hs]
  exact hP

theorem returns_ok {s' : σ} (hrun : x.run s = .ok (a, s')) : Returns x s Q <-> Q a s' := by
  constructor
  · intro h
    exact h.of_run hrun
  · intro hQ
    exact ⟨a, s', hrun, hQ⟩

@[simp]
theorem returns_pure : Returns (pure a : Program σ ε α) s Q <-> Q a s :=
  returns_ok rfl

@[simp]
theorem returns_get {Q : σ -> σ -> Prop} : Returns (get : Program σ ε σ) s Q <-> Q s s :=
  returns_ok rfl

@[simp]
theorem returns_modify {g : σ -> σ} {Q : PUnit -> σ -> Prop} :
    Returns (modify g : Program σ ε PUnit) s Q <-> Q ⟨⟩ (g s) :=
  returns_ok rfl

end Program
end Foundation
end FStackLite
