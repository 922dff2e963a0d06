import Mathlib.Data.List.Basic

/-!
# Cutting a sequence into chunks of one size

Every chunk but the last one is full, and the last one is not empty.  A sequence
can be cut in only one way.
-/

namespace FStackLite
namespace Foundation

universe u

variable {α : Type u} {n : Nat}

/-- All chunks have size `n`, except that the last one may be smaller. -/
inductive Chunked (n : Nat) : List (List α) -> Prop where
  | last {c : List α} (pos : 0 < c.length) (le : c.length ≤ n) : Chunked n [c]
  | cons {c : List α} {L : List (List α)} (full : c.length = n) (rest : Chunked n L) :
      Chunked n (c :: L)

namespace Chunked

variable {L : List (List α)}

theorem flatten_ne_nil (h : Chunked n L) : L.flatten ≠ [] := by
  induction h with
  | last pos le =>
      rw [List.flatten_singleton]
      exact List.length_pos_iff.mp pos
  | cons full rest ih =>
      rw [List.flatten_cons]
      intro hnil
      exact ih (List.append_eq_nil_iff.mp hnil).2

theorem snoc (hfull : forall c, c ∈ L -> c.length = n) {c : List α} (pos : 0 < c.length)
    (le : c.length ≤ n) : Chunked n (L ++ [c]) := by
  induction L with
  | nil => exact Chunked.last pos le
  | cons d L ih =>
      exact Chunked.cons (hfull d List.mem_cons_self)
        (ih fun e he => hfull e (List.mem_cons_of_mem d he))

theorem front (h : Chunked n L) : forall c, c ∈ L.dropLast -> c.length = n := by
  induction h with
  | last pos le =>
      intro c hc
      contradiction
  | @cons d L full rest ih =>
      intro c hc
      cases L with
      | nil => contradiction
      | cons e L =>
          rw [List.dropLast_cons_cons] at hc
          cases hc with
          | head => exact full
          | tail _ hc => exact ih c hc

theorem getLast (h : Chunked n L) :
    forall c, L.getLast? = some c -> 0 < c.length ∧ c.length ≤ n := by
  induction h with
  | last pos le =>
      intro c hc
      cases hc
      exact ⟨pos, le⟩
  | @cons d L full rest ih =>
      intro c hc
      cases L with
      | nil => exact absurd rfl rest.flatten_ne_nil
      | cons e L =>
          rw [List.getLast?_cons_cons] at hc
          exact ih c hc

theorem not_last_of_cons {c d : List α} (le : c.length ≤ n) (full : d.length = n)
    (rest : Chunked n L) : c ≠ d ++ L.flatten := by
  intro heq
  have hlen := congrArg List.length heq
  have hpos := List.length_pos_iff.mpr rest.flatten_ne_nil
  rw [List.length_append] at hlen
  omega

theorem unique {L' : List (List α)} (h : Chunked n L) (h' : Chunked n L')
    (heq : L.flatten = L'.flatten) : L = L' := by
  induction h generalizing L' with
  | @last c pos le =>
      rw [List.flatten_singleton] at heq
      cases h' with
      | last pos' le' =>
          rw [List.flatten_singleton] at heq
          rw [heq]
      | cons full' rest' =>
          rw [List.flatten_cons] at heq
          exact absurd heq (not_last_of_cons le full' rest')
  | @cons c L full rest ih =>
      rw [List.flatten_cons] at heq
      cases h' with
      | last pos' le' =>
          rw [List.flatten_singleton] at heq
          exact absurd heq.symm (not_last_of_cons le' full rest)
      | cons full' rest' =>
          rw [List.flatten_cons] at heq
          rcases List.append_inj heq (full.trans full'.symm) with ⟨rfl, hrest⟩
          rw [ih rest' hrest]

end Chunked

end Foundation
end FStackLite
