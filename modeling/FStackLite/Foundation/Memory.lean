import Mathlib.Data.List.GetD
import Mathlib.Data.List.TakeDrop

/-!
# Bytes in blocks

Memory as a family of blocks, with a pointer into a block as the block and an
offset.  Reading and storing are stated for whole byte strings: a store is
visible to a read of the same range, and to no read in another block.
-/

namespace FStackLite
namespace Foundation

universe u

structure Ptr (β : Type u) where
  block : β
  off : Nat
  deriving DecidableEq, Repr

abbrev Memory (β : Type u) := β -> Nat -> UInt8

namespace Ptr

variable {β : Type u}

/-- The pointer `n` bytes further. -/
def advance (p : Ptr β) (n : Nat) : Ptr β :=
  { p with off := p.off + n }

@[simp] theorem advance_block (p : Ptr β) (n : Nat) : (p.advance n).block = p.block := rfl

@[simp] theorem advance_off (p : Ptr β) (n : Nat) : (p.advance n).off = p.off + n := rfl

end Ptr

namespace Memory

variable {β : Type u}

/-- The `n` bytes from `p` on. -/
def read (mem : Memory β) (p : Ptr β) (n : Nat) : List UInt8 :=
  (List.range n).map fun i => mem p.block (p.off + i)

@[simp] theorem length_read (mem : Memory β) (p : Ptr β) (n : Nat) :
    (read mem p n).length = n := by
  simp [read]

theorem getElem?_read (mem : Memory β) (p : Ptr β) {n i : Nat} (h : i < n) :
    (read mem p n)[i]? = some (mem p.block (p.off + i)) := by
  simp [read, h]

theorem read_drop_take (mem : Memory β) (p : Ptr β) {n k c : Nat} (h : k + c ≤ n) :
    ((read mem p n).drop k).take c = read mem (p.advance k) c := by
  apply List.ext_getElem?
  intro i
  by_cases hi : i < c
  · rw [List.getElem?_take_of_lt hi, List.getElem?_drop, getElem?_read mem p (by omega),
      getElem?_read mem (p.advance k) hi, Ptr.advance_block, Ptr.advance_off, Nat.add_assoc]
  · rw [List.getElem?_eq_none (by rw [List.length_take]; omega),
      List.getElem?_eq_none (by rw [length_read]; omega)]

variable [DecidableEq β]

/-- Storing these bytes from `p` on. -/
def write (mem : Memory β) (p : Ptr β) (bytes : List UInt8) : Memory β :=
  fun b o =>
    if b = p.block ∧ p.off ≤ o ∧ o < p.off + bytes.length then
      bytes.getD (o - p.off) 0
    else
      mem b o

theorem write_nil (mem : Memory β) (p : Ptr β) : write mem p [] = mem := by
  funext b o
  unfold write
  rw [if_neg]
  intro h
  have hlt := h.2.2
  rw [List.length_nil] at hlt
  omega

theorem write_append (mem : Memory β) (p : Ptr β) (xs ys : List UInt8) :
    write (write mem p xs) (p.advance xs.length) ys = write mem p (xs ++ ys) := by
  funext b o
  unfold write
  rw [Ptr.advance_block, Ptr.advance_off, List.length_append]
  by_cases hin : b = p.block ∧ p.off ≤ o ∧ o < p.off + (xs.length + ys.length)
  · rw [if_pos hin]
    by_cases hfirst : o < p.off + xs.length
    · rw [if_neg (by omega), if_pos ⟨hin.1, hin.2.1, hfirst⟩,
        List.getD_append _ _ _ _ (by omega)]
    · rw [if_pos ⟨hin.1, by omega, by omega⟩, List.getD_append_right _ _ _ _ (by omega)]
      congr 1
      omega
  · rw [if_neg hin]
    by_cases hblock : b = p.block
    · have hrange : ¬ (p.off ≤ o ∧ o < p.off + (xs.length + ys.length)) :=
        fun h => hin ⟨hblock, h⟩
      rw [if_neg (by omega), if_neg (by omega)]
    · rw [if_neg (fun h => hblock h.1), if_neg (fun h => hblock h.1)]

theorem read_write_of_ne (mem : Memory β) {p q : Ptr β} (h : q.block ≠ p.block)
    (bytes : List UInt8) (n : Nat) : read (write mem p bytes) q n = read mem q n := by
  unfold read
  apply List.map_congr_left
  intro i _
  unfold write
  rw [if_neg fun hin => h hin.1]

theorem read_write_self (mem : Memory β) (p : Ptr β) (bytes : List UInt8) :
    read (write mem p bytes) p bytes.length = bytes := by
  apply List.ext_getElem?
  intro i
  by_cases hi : i < bytes.length
  · rw [getElem?_read _ p hi]
    unfold write
    rw [if_pos ⟨rfl, by omega, by omega⟩, Nat.add_sub_cancel_left,
      List.getD_eq_getElem bytes 0 hi, List.getElem?_eq_getElem hi]
  · rw [List.getElem?_eq_none (by rw [length_read]; omega), List.getElem?_eq_none (by omega)]

end Memory

end Foundation
end FStackLite
