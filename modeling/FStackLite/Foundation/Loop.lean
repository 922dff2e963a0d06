import Mathlib.Order.WellFounded

/-!
# Fuelled loops

A loop of an imperative program is run with a fuel argument and returns
`none` when the fuel runs out or when its body fails.  Nested loops share
one fuel, so a body may itself depend on the fuel.  The total-correctness rule
of this module is stated once, for every loop: an invariant together with a
well-founded decrease gives a result that no longer depends on the fuel once
there is enough of it.
-/

namespace FStackLite
namespace Foundation

universe u v

/-!
## Results that are stable in the fuel
-/

def Converges {α : Type u} (f : Nat -> Option α) (a : α) : Prop :=
  exists n0, forall n, n0 ≤ n -> f n = some a

namespace Converges

variable {α : Type u}

theorem of_some {a : α} : Converges (fun _ => some a) a :=
  ⟨0, fun _ _ => rfl⟩

theorem of_eq {f : Nat -> Option α} {a : α} (h : forall n, f n = some a) : Converges f a :=
  ⟨0, fun n _ => h n⟩

theorem of_succ {f g : Nat -> Option α} {a : α} (h : forall n, f (n + 1) = g n)
    (hg : Converges g a) : Converges f a := by
  rcases hg with ⟨n0, hg⟩
  refine ⟨n0 + 1, ?_⟩
  intro n hn
  cases n with
  | zero => contradiction
  | succ n =>
      rw [h]
      exact hg n (Nat.le_of_succ_le_succ hn)

theorem unique {f : Nat -> Option α} {a b : α} (ha : Converges f a) (hb : Converges f b) :
    a = b := by
  rcases ha with ⟨na, ha⟩
  rcases hb with ⟨nb, hb⟩
  have hsame := (ha (max na nb) (Nat.le_max_left na nb)).symm.trans
    (hb (max na nb) (Nat.le_max_right na nb))
  injection hsame

theorem bind {β : Type v} {f : Nat -> Option α} {a : α} {g : α -> Nat -> Option β} {b : β}
    (hf : Converges f a) (hg : Converges (g a) b) :
    Converges (fun n => (f n).bind fun x => g x n) b := by
  rcases hf with ⟨nf, hf⟩
  rcases hg with ⟨ng, hg⟩
  refine ⟨max nf ng, ?_⟩
  intro n hn
  have hnf : f n = some a := hf n (by omega)
  have hng : g a n = some b := hg n (by omega)
  show (f n).bind (fun x => g x n) = some b
  rw [hnf]
  exact hng

theorem map {β : Type v} {f : Nat -> Option α} {a : α} (hf : Converges f a) (g : α -> β) :
    Converges (fun n => (f n).map g) (g a) := by
  rcases hf with ⟨nf, hf⟩
  refine ⟨nf, ?_⟩
  intro n hn
  show (f n).map g = some (g a)
  rw [hf n hn]
  rfl

end Converges

/-!
## The loop combinator
-/

inductive LoopStep (σ : Type u) (ρ : Type v) where
  | next (s : σ)
  | done (r : ρ)

/-- At most `k` passes of a body. -/
def loopN {σ : Type u} {ρ : Type v} (body : σ -> Option (LoopStep σ ρ)) : Nat -> σ -> Option ρ
  | 0, _ => none
  | k + 1, s =>
      match body s with
      | none => none
      | some (LoopStep.done r) => some r
      | some (LoopStep.next s') => loopN body k s'

def loop {σ : Type u} {ρ : Type v} (body : Nat -> σ -> Option (LoopStep σ ρ))
    (fuel : Nat) (s : σ) : Option ρ :=
  loopN (body fuel) fuel s

section Rules

variable {σ : Type u} {ρ : Type v} {s : σ} {Inv : σ -> Prop} {Post : ρ -> Prop}
    {body : Nat -> σ -> Option (LoopStep σ ρ)}

theorem loopN_succ_done {body : σ -> Option (LoopStep σ ρ)} {k : Nat} {r : ρ}
    (h : body s = some (LoopStep.done r)) : loopN body (k + 1) s = some r := by
  simp only [loopN, h]

theorem loopN_succ_next {body : σ -> Option (LoopStep σ ρ)} {k : Nat} {s' : σ}
    (h : body s = some (LoopStep.next s')) : loopN body (k + 1) s = loopN body k s' := by
  simp only [loopN, h]

/--
The result of a loop holds for every large enough pair of a fuel for the body
and a number of passes; the two are separated so that an induction over the
passes leaves the fuel of the body alone.
-/
def LoopConverges (body : Nat -> σ -> Option (LoopStep σ ρ)) (s : σ) (r : ρ) : Prop :=
  exists n0, forall n k, n0 ≤ n -> n0 ≤ k -> loopN (body n) k s = some r

namespace LoopConverges

variable {body : Nat -> σ -> Option (LoopStep σ ρ)} {s s' : σ} {r : ρ}

theorem of_done (h : Converges (fun n => body n s) (LoopStep.done r)) : LoopConverges body s r := by
  rcases h with ⟨n0, hr⟩
  refine ⟨n0 + 1, ?_⟩
  intro n k hn hk
  rcases Nat.exists_eq_add_of_lt hk with ⟨j, rfl⟩
  exact loopN_succ_done (hr n (by omega))

theorem of_next (h : Converges (fun n => body n s) (LoopStep.next s'))
    (hrest : LoopConverges body s' r) : LoopConverges body s r := by
  rcases h with ⟨n0, hs'⟩
  rcases hrest with ⟨n1, hr⟩
  refine ⟨max n0 n1 + 1, ?_⟩
  intro n k hn hk
  rcases Nat.exists_eq_add_of_lt hk with ⟨j, rfl⟩
  rw [loopN_succ_next (hs' n (by omega))]
  exact hr n _ (by omega) (by omega)

theorem converges (h : LoopConverges body s r) : Converges (fun n => loop body n s) r := by
  rcases h with ⟨n0, hr⟩
  exact ⟨n0, fun n hn => hr n n hn hn⟩

end LoopConverges

theorem loopN_converges {lt : σ -> σ -> Prop} (hwf : WellFounded lt) (hbody : forall s, Inv s ->
      (exists r, Converges (fun n => body n s) (LoopStep.done r) ∧ Post r) ∨
      (exists s', Converges (fun n => body n s) (LoopStep.next s') ∧
        Inv s' ∧ lt s' s)) : forall s, Inv s -> exists r, Post r ∧ LoopConverges body s r := by
  intro s
  induction s using hwf.induction with
  | _ s ih =>
      intro hs
      rcases hbody s hs with hdone | hnext
      · rcases hdone with ⟨r, hr, hpost⟩
        exact ⟨r, hpost, LoopConverges.of_done hr⟩
      · rcases hnext with ⟨s', hs', hinv, hlt⟩
        rcases ih s' hlt hinv with ⟨r, hpost, hr⟩
        exact ⟨r, hpost, LoopConverges.of_next hs' hr⟩

theorem loop_converges {lt : σ -> σ -> Prop} (hwf : WellFounded lt) (hbody : forall s, Inv s ->
      (exists r, Converges (fun n => body n s) (LoopStep.done r) ∧ Post r) ∨
      (exists s', Converges (fun n => body n s) (LoopStep.next s') ∧
        Inv s' ∧ lt s' s)) (hs : Inv s) :
    exists r, Converges (fun n => loop body n s) r ∧ Post r := by
  rcases loopN_converges hwf hbody s hs with ⟨r, hpost, hr⟩
  exact ⟨r, hr.converges, hpost⟩

theorem loop_converges_of_measure (size : σ -> Nat) (hbody : forall s, Inv s ->
      (exists r, Converges (fun n => body n s) (LoopStep.done r) ∧ Post r) ∨
      (exists s', Converges (fun n => body n s) (LoopStep.next s') ∧
        Inv s' ∧ size s' < size s)) (hs : Inv s) :
    exists r, Converges (fun n => loop body n s) r ∧ Post r :=
  loop_converges (InvImage.wf size Nat.lt_wfRel.wf) hbody hs

theorem loop_post {n : Nat}
    (hnext : forall s s', Inv s -> body n s = some (LoopStep.next s') -> Inv s')
    (hdone : forall s r, Inv s -> body n s = some (LoopStep.done r) -> Post r) {r : ρ}
    (hs : Inv s) (h : loop body n s = some r) : Post r := by
  have hpasses : forall k s, Inv s -> loopN (body n) k s = some r -> Post r := by
    intro k
    induction k with
    | zero =>
        intro s _ hnone
        contradiction
    | succ k ih =>
        intro s hs hrun
        cases hbody : body n s with
        | none => simp [loopN, hbody] at hrun
        | some step =>
            cases step with
            | next s' =>
                rw [loopN_succ_next hbody] at hrun
                exact ih s' (hnext s s' hs hbody) hrun
            | done r' =>
                rw [loopN_succ_done hbody] at hrun
                cases hrun
                exact hdone s r hs hbody
  exact hpasses n s hs h

end Rules

end Foundation
end FStackLite
