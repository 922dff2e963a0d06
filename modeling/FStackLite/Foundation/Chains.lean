import Mathlib.Data.List.GetD
import Mathlib.Data.List.Nodup
import Mathlib.Data.List.Perm.Basic
import Mathlib.Logic.Function.Basic

/-!
# Hash tables with chains

A table is a list of chains.  An element stands in the chain that its key leads to, and
a search walks through one chain only.  The table as a whole is a set of elements: what
is put in or taken out is told by rearrangements of all chains behind each other.
-/

namespace FStackLite
namespace Foundation
namespace Chains

variable {α κ : Type} {t : List (List α)}

def chain (t : List (List α)) (i : Nat) : List α :=
  t.getD i []

/-- `LIST_INSERT_HEAD` into the chain at a place. -/
def insertAt (i : Nat) (x : α) (t : List (List α)) : List (List α) :=
  t.modify i (x :: ·)

/-- `LIST_REMOVE` from whichever chain has the element. -/
def removeAll [BEq α] (x : α) (t : List (List α)) : List (List α) :=
  t.map (·.erase x)

def empty (size : Nat) : List (List α) :=
  List.replicate size []

@[simp]
theorem length_insertAt (i : Nat) (x : α) (t : List (List α)) :
    (insertAt i x t).length = t.length :=
  List.length_modify _ _ _

@[simp]
theorem length_removeAll [BEq α] (x : α) (t : List (List α)) : (removeAll x t).length = t.length :=
  List.length_map _

@[simp]
theorem length_empty (size : Nat) : (empty size : List (List α)).length = size :=
  List.length_replicate

@[simp]
theorem flatten_empty (size : Nat) : (empty size : List (List α)).flatten = [] := by
  simp [empty]

theorem mem_flatten_iff {x : α} : x ∈ t.flatten <-> exists i, x ∈ chain t i := by
  constructor
  · intro h
    rcases List.mem_flatten.mp h with ⟨c, hc, hx⟩
    rcases List.getElem_of_mem hc with ⟨i, hi, rfl⟩
    exact ⟨i, by rwa [chain, List.getD_eq_getElem t [] hi]⟩
  · rintro ⟨i, hx⟩
    cases Nat.lt_or_ge i t.length with
    | inl hi =>
        rw [chain, List.getD_eq_getElem t [] hi] at hx
        exact List.mem_flatten.mpr ⟨t[i], List.getElem_mem hi, hx⟩
    | inr hi =>
        rw [chain, List.getD_eq_default t [] hi] at hx
        contradiction

theorem chain_insertAt {i : Nat} (j : Nat) (x : α) (hi : i < t.length) :
    chain (insertAt i x t) j = if j = i then x :: chain t j else chain t j := by
  unfold chain insertAt
  rw [List.getD_eq_getElem?_getD, List.getElem?_modify, List.getD_eq_getElem?_getD]
  grind

theorem chain_removeAll [BEq α] (x : α) (t : List (List α)) (i : Nat) :
    chain (removeAll x t) i = (chain t i).erase x := by
  unfold chain removeAll
  rw [List.getD_eq_getElem?_getD, List.getElem?_map, List.getD_eq_getElem?_getD]
  cases t[i]? with
  | none => rfl
  | some c => rfl

theorem chain_empty (size i : Nat) : chain (empty size : List (List α)) i = [] := by
  unfold chain empty
  rw [List.getD_eq_getElem?_getD, List.getElem?_replicate]
  split <;> rfl

theorem perm_insertAt {i : Nat} (hi : i < t.length) (x : α) :
    (insertAt i x t).flatten.Perm (x :: t.flatten) := by
  induction t generalizing i with
  | nil => exact absurd hi (Nat.not_lt_zero i)
  | cons head rest ih =>
      cases i with
      | zero => exact List.Perm.refl _
      | succ i =>
          have hrest := ih (Nat.lt_of_succ_lt_succ hi)
          show (head ++ (insertAt i x rest).flatten).Perm (x :: (head ++ rest.flatten))
          exact (hrest.append_left head).trans List.perm_middle

theorem perm_removeAll [DecidableEq α] {x : α} (h : t.flatten.Nodup) :
    (removeAll x t).flatten.Perm (t.flatten.erase x) := by
  induction t with
  | nil => exact List.Perm.refl _
  | cons head rest ih =>
      rw [List.flatten_cons, List.nodup_append'] at h
      have hrest := ih h.2.1
      show (head.erase x ++ (removeAll x rest).flatten).Perm ((head ++ rest.flatten).erase x)
      by_cases hx : x ∈ head
      · rw [List.erase_append_left _ hx]
        rw [List.erase_of_not_mem (h.2.2 hx)] at hrest
        exact hrest.append_left _
      · rw [List.erase_append_right _ hx, List.erase_of_not_mem hx]
        exact hrest.append_left _

/-!
## Tables by key

The place of a key depends on the size of the table, which is never empty.
-/

/-- The table holds the elements that have a key, each once and in the chain of its key. -/
structure Holds (place : Nat -> κ -> Nat) (key : α -> Option κ) (t : List (List α)) : Prop where
  nodup : t.flatten.Nodup
  mem : forall x, x ∈ t.flatten <-> (key x).isSome = true
  placed : forall i x k, x ∈ chain t i -> key x = some k -> place t.length k = i
  size : 0 < t.length

namespace Holds

variable {place : Nat -> κ -> Nat} {key : α -> Option κ} {t : List (List α)} {x : α} {k : κ}

theorem empty {size : Nat} (hsize : 0 < size) :
    Holds place (fun _ : α => none) (Chains.empty size) := by
  refine ⟨by simp, by simp, ?_, by simpa using hsize⟩
  intro i x k hx
  rw [chain_empty] at hx
  contradiction

theorem mem_chain (h : Holds place key t) (hk : key x = some k) :
    x ∈ chain t (place t.length k) := by
  have hmem : x ∈ t.flatten := (h.mem x).mpr (by rw [hk]; rfl)
  rcases mem_flatten_iff.mp hmem with ⟨i, hi⟩
  rw [h.placed i x k hi hk]
  exact hi

theorem perm {t' : List (List α)} (h : Holds place key t) (h' : Holds place key t') :
    t.flatten.Perm t'.flatten := by
  rw [List.perm_ext_iff_of_nodup h.nodup h'.nodup]
  intro x
  rw [h.mem, h'.mem]

section

variable [DecidableEq α]

theorem remove (h : Holds place key t) (x : α) :
    Holds place (Function.update key x none) (removeAll x t) := by
  have hperm := perm_removeAll (x := x) h.nodup
  refine ⟨hperm.nodup_iff.mpr (h.nodup.erase x), ?_, ?_, by simpa using h.size⟩
  · intro y
    rw [hperm.mem_iff, h.nodup.mem_erase_iff, h.mem]
    grind
  · intro i y k hy hk
    rw [chain_removeAll] at hy
    rw [length_removeAll]
    exact h.placed i y k (List.mem_of_mem_erase hy) (by grind)

theorem length_remove (h : Holds place key t) (hk : key x = some k) :
    (removeAll x t).flatten.length + 1 = t.flatten.length := by
  have hmem : x ∈ t.flatten := (h.mem x).mpr (by rw [hk]; rfl)
  rw [(perm_removeAll h.nodup).length_eq, List.length_erase_of_mem hmem]
  exact Nat.sub_add_cancel (List.length_pos_of_mem hmem)

theorem add (h : Holds place key t) (hx : key x = none) (hlt : place t.length k < t.length) :
    Holds place (Function.update key x (some k)) (insertAt (place t.length k) x t) := by
  have hperm := perm_insertAt hlt x
  have hnew : x ∉ t.flatten := by simp [h.mem, hx]
  refine ⟨hperm.nodup_iff.mpr (List.nodup_cons.mpr ⟨hnew, h.nodup⟩), ?_, ?_, by simpa using h.size⟩
  · intro y
    rw [hperm.mem_iff, List.mem_cons, h.mem]
    grind
  · intro i y k' hy hk
    rw [chain_insertAt _ _ hlt] at hy
    rw [length_insertAt]
    have hold := h.placed i y k'
    have hmem : y ∈ chain t i -> y ∈ t.flatten := fun hy => mem_flatten_iff.mpr ⟨i, hy⟩
    grind

end

end Holds

end Chains
end Foundation
end FStackLite
