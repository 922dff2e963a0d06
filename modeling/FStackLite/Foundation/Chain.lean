import Mathlib.Data.List.Nodup
import Mathlib.Logic.Function.Basic

/-!
# Null-terminated chains

A chain is what a program walks when it follows a `next` member until the null
pointer.  The relation between the memory and the list of the members is
deterministic, so that a chain never visits a member twice.
-/

namespace FStackLite
namespace Foundation

universe u

/-- Following `next` from `start` visits these members and then ends. -/
inductive Chain {α : Type u} (next : α -> Option α) : Option α -> List α -> Prop where
  | nil : Chain next none []
  | cons {a : α} {as : List α} (tail : Chain next (next a) as) :
      Chain next (some a) (a :: as)

namespace Chain

variable {α : Type u} {next next' : α -> Option α} {start : Option α} {a : α} {as : List α}

theorem nil_inv (h : Chain next start []) : start = none := by
  cases h
  rfl

theorem cons_inv (h : Chain next start (a :: as)) : start = some a ∧ Chain next (next a) as := by
  cases h with
  | cons tail => exact ⟨rfl, tail⟩

theorem none_inv (h : Chain next none as) : as = [] := by
  cases h
  rfl

theorem some_inv (h : Chain next (some a) as) :
    exists rest, as = a :: rest ∧ Chain next (next a) rest := by
  cases h with
  | cons tail => exact ⟨_, rfl, tail⟩

theorem unique {bs : List α} (ha : Chain next start as) (hb : Chain next start bs) : as = bs := by
  induction ha generalizing bs with
  | nil => exact (none_inv hb).symm
  | cons tail ih =>
      rcases some_inv hb with ⟨rest, rfl, hrest⟩
      rw [ih hrest]

theorem split {front back : List α} (h : Chain next start (front ++ a :: back)) :
    Chain next (some a) (a :: back) := by
  induction front generalizing start with
  | nil =>
      rcases cons_inv h with ⟨rfl, htail⟩
      exact Chain.cons htail
  | cons b front ih =>
      rcases cons_inv h with ⟨-, htail⟩
      exact ih htail

theorem nodup (h : Chain next start as) : as.Nodup := by
  induction h with
  | nil => exact List.nodup_nil
  | @cons a as tail ih =>
      rw [List.nodup_cons]
      constructor
      · intro hmem
        rcases List.append_of_mem hmem with ⟨front, back, rfl⟩
        have hloop := congrArg List.length (unique (Chain.cons tail) (split tail))
        simp only [List.length_cons, List.length_append] at hloop
        omega
      · exact ih

theorem congr (h : Chain next start as) (hsame : forall a, a ∈ as -> next' a = next a) :
    Chain next' start as := by
  induction h with
  | nil => exact Chain.nil
  | @cons a as tail ih =>
      have hhead : next' a = next a := hsame a List.mem_cons_self
      apply Chain.cons
      rw [hhead]
      exact ih fun b hb => hsame b (List.mem_cons_of_mem a hb)

theorem last_next {z : α} (h : Chain next start (as ++ [z])) : next z = none :=
  nil_inv (cons_inv (split h)).2

theorem snoc {y z : α} (h : Chain next start (as ++ [y])) (hlink : next' y = some z)
    (hend : next' z = none) (hsame : forall a, a ∈ as -> next' a = next a) :
    Chain next' start (as ++ [y, z]) := by
  induction as generalizing start with
  | nil =>
      rcases cons_inv h with ⟨rfl, -⟩
      apply Chain.cons
      rw [hlink]
      apply Chain.cons
      rw [hend]
      exact Chain.nil
  | cons a as ih =>
      rcases cons_inv h with ⟨rfl, htail⟩
      have hhead : next' a = next a := hsame a List.mem_cons_self
      apply Chain.cons
      rw [hhead]
      exact ih htail fun b hb => hsame b (List.mem_cons_of_mem a hb)

end Chain

end Foundation
end FStackLite
