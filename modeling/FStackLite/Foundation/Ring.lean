import Mathlib.Data.List.OfFn
import Mathlib.Data.List.Rotate
import Mathlib.Logic.Function.Basic

/-!
# Circular arrays

An array that is written at a place that moves round it is a queue of fixed length.  What is
written comes in behind, and what it replaces, the oldest, goes out in front.
-/

namespace FStackLite
namespace Foundation
namespace Ring

universe u

variable {α : Type u} {cap : Nat}

/-- The contents, the oldest first, when `head` is the place that is written next. -/
def view (slots : Fin cap -> α) (head : Fin cap) : List α :=
  (List.ofFn slots).rotate head

/-- The place behind `head`. -/
def next (head : Fin cap) : Fin cap :=
  if h : head.val + 1 < cap then ⟨head.val + 1, h⟩ else ⟨0, head.pos⟩

theorem ofFn_update (slots : Fin cap -> α) (i : Fin cap) (a : α) :
    List.ofFn (Function.update slots i a) = (List.ofFn slots).set i a := by
  apply List.ext_getElem
  · simp
  · intro k hk _
    rw [List.getElem_ofFn, List.getElem_set, List.getElem_ofFn, Function.update_apply]
    simp only [Fin.ext_iff, eq_comm (a := k)]

theorem view_perm (slots : Fin cap -> α) (head : Fin cap) :
    (view slots head).Perm (List.ofFn slots) :=
  List.rotate_perm _ _

def younger (slots : Fin cap -> α) (head : Fin cap) : List α :=
  (List.ofFn slots).drop (head + 1) ++ (List.ofFn slots).take head

theorem view_eq (slots : Fin cap -> α) (head : Fin cap) :
    view slots head = slots head :: younger slots head := by
  have hlt : head.val < (List.ofFn slots).length := by
    rw [List.length_ofFn]
    exact head.isLt
  rw [view, List.rotate_eq_drop_append_take (Nat.le_of_lt hlt), List.drop_eq_getElem_cons hlt,
    List.getElem_ofFn]
  rfl

theorem rotate_next (slots : Fin cap -> α) (head : Fin cap) :
    view slots (next head) = (List.ofFn slots).rotate (head + 1) := by
  unfold next
  split
  · rfl
  · next hlast =>
      have hcap : head.val + 1 = (List.ofFn slots).length := by
        rw [List.length_ofFn]
        exact Nat.le_antisymm head.isLt (Nat.not_lt.mp hlast)
      rw [hcap, List.rotate_length]
      exact List.rotate_zero _

theorem view_put (slots : Fin cap -> α) (head : Fin cap) (a : α) :
    view (Function.update slots head a) (next head) = younger slots head ++ [a] := by
  have hlt : head.val < (List.ofFn slots).length := by
    rw [List.length_ofFn]
    exact head.isLt
  have hle : head.val + 1 ≤ ((List.ofFn slots).set head a).length := by
    rw [List.length_set]
    exact hlt
  rw [rotate_next, ofFn_update, List.rotate_eq_drop_append_take hle,
    List.drop_set_of_lt (Nat.lt_succ_self _), List.take_set, List.take_succ_eq_append_getElem hlt,
    List.set_append_right _ _ (by simp), younger, List.append_assoc]
  simp

end Ring
end Foundation
end FStackLite
