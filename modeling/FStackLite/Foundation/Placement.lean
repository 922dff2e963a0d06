import Mathlib.Data.List.Nodup
import Mathlib.Data.List.Perm.Basic
import Mathlib.Logic.Function.Basic

/-!
# Lists that hold what a map places in them

Several lists share a set of items.  A map says in which spot each item is, and a
list tracks a set of spots if it holds exactly the items placed there, each of
them once.  Moving an item is one update of the map.
-/

namespace FStackLite
namespace Foundation

variable {alpha spot : Type}

structure Tracks (list : List alpha) (place : alpha -> spot) (here : spot -> Prop) : Prop where
  nodup : list.Nodup
  mem_iff : forall x, x ∈ list <-> here (place x)

namespace Tracks

variable {list list' : List alpha} {place : alpha -> spot} {here : spot -> Prop}

theorem nil (hnone : forall x, ¬ here (place x)) : Tracks [] place here := by
  constructor
  · exact List.nodup_nil
  · intro x
    simp [hnone x]

theorem perm (h : Tracks list place here) (hperm : list.Perm list') : Tracks list' place here := by
  constructor
  · exact hperm.nodup_iff.mp h.nodup
  · intro x
    rw [<- hperm.mem_iff]
    exact h.mem_iff x

variable {x : alpha}

theorem index_unique (h : Tracks list place here) {i j : Nat} (hi : list[i]? = some x)
    (hj : list[j]? = some x) : i = j := by
  have hlt : i < list.length := (List.getElem?_eq_some_iff.mp hi).1
  exact (List.getElem?_inj hlt h.nodup).mp (hi.trans hj.symm)

variable [DecidableEq alpha] {new : spot}

theorem keep (h : Tracks list place here) (hsame : here new <-> here (place x)) :
    Tracks list (Function.update place x new) here := by
  constructor
  · exact h.nodup
  · intro y
    by_cases heq : y = x
    · subst heq
      rw [Function.update_self, hsame]
      exact h.mem_iff y
    · rw [Function.update_of_ne heq]
      exact h.mem_iff y

theorem cons (h : Tracks list place here) (hout : ¬ here (place x)) (hin : here new) :
    Tracks (x :: list) (Function.update place x new) here := by
  constructor
  · apply List.nodup_cons.mpr
    constructor
    · intro hx
      exact hout ((h.mem_iff x).mp hx)
    · exact h.nodup
  · intro y
    by_cases heq : y = x
    · subst heq
      simpa using hin
    · rw [Function.update_of_ne heq, <- h.mem_iff y]
      simp [heq]

theorem snoc (h : Tracks list place here) (hout : ¬ here (place x)) (hin : here new) :
    Tracks (list ++ [x]) (Function.update place x new) here :=
  (h.cons hout hin).perm (List.perm_append_singleton x list).symm

theorem uncons (h : Tracks (x :: list) place here) (hout : ¬ here new) :
    Tracks list (Function.update place x new) here := by
  have hnodup := List.nodup_cons.mp h.nodup
  constructor
  · exact hnodup.2
  · intro y
    by_cases heq : y = x
    · subst heq
      simp [hnodup.1, hout]
    · rw [Function.update_of_ne heq, <- h.mem_iff y]
      simp [heq]

theorem erase (h : Tracks list place here) (hx : x ∈ list) (hout : ¬ here new) :
    Tracks (list.erase x) (Function.update place x new) here :=
  (h.perm (List.perm_cons_erase hx)).uncons hout

end Tracks

end Foundation
end FStackLite
