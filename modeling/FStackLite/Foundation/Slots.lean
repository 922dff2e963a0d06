import Mathlib.Data.List.OfFn
import Mathlib.Logic.Function.Basic

/-!
# The first slots of an array

An array that is filled from its start, next to a count of the slots in use, holds a list.
-/

namespace FStackLite
namespace Foundation

universe u v

variable {α : Type u} {β : Type v} {cap n : Nat}

def firstSlots (slots : Fin cap -> α) (n : Nat) : List α :=
  (List.ofFn slots).take n

@[simp] theorem firstSlots_zero (slots : Fin cap -> α) : firstSlots slots 0 = [] :=
  List.take_zero

theorem firstSlots_succ (slots : Fin cap -> α) (h : n < cap) :
    firstSlots slots (n + 1) = firstSlots slots n ++ [slots ⟨n, h⟩] := by
  have hlength : n < (List.ofFn slots).length := by
    rw [List.length_ofFn]
    exact h
  rw [firstSlots, firstSlots, List.take_succ_eq_append_getElem hlength, List.getElem_ofFn]

theorem firstSlots_map (f : α -> β) (slots : Fin cap -> α) :
    (firstSlots slots n).map f = firstSlots (fun i => f (slots i)) n := by
  rw [firstSlots, firstSlots, List.map_take, List.map_ofFn]
  rfl

theorem firstSlots_congr {slots slots' : Fin cap -> α}
    (h : forall i : Fin cap, i.val < n -> slots i = slots' i) :
    firstSlots slots n = firstSlots slots' n := by
  induction n with
  | zero => simp
  | succ n ih =>
      have hrest := ih fun i hi => h i (Nat.lt_succ_of_lt hi)
      cases Nat.lt_or_ge n cap with
      | inl hn =>
          rw [firstSlots_succ slots hn, firstSlots_succ slots' hn, hrest,
            h ⟨n, hn⟩ (Nat.lt_succ_self n)]
      | inr hn =>
          have hall : slots = slots' := by
            funext i
            exact h i (Nat.lt_succ_of_lt (Nat.lt_of_lt_of_le i.isLt hn))
          rw [hall]

theorem firstSlots_push {slots slots' : Fin cap -> α} (h : n < cap)
    (hslots : forall i : Fin cap, i.val < n -> slots' i = slots i) :
    firstSlots slots' (n + 1) = firstSlots slots n ++ [slots' ⟨n, h⟩] := by
  rw [firstSlots_succ slots' h, firstSlots_congr hslots]

end Foundation
end FStackLite
