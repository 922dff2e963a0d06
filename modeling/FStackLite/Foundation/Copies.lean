import FStackLite.Foundation.Bytes
import Mathlib.Logic.Function.Basic
import Mathlib.Data.List.Basic

/-!
# Copies byte by byte

A list of pairs says which byte goes where.  Copying a range at once is copying its
bytes one after the other, when the source is not the memory that is written.
-/

namespace FStackLite
namespace Foundation
namespace Bytes

/-- Each pair names a byte of the source and the place that it is copied to. -/
def copyEach (src : Bytes) : List (Nat × Nat) -> Bytes -> Bytes
  | [], dst => dst
  | (a, b) :: moves, dst => copyEach src moves (Function.update dst b (src a))

@[simp] theorem copyEach_nil (src dst : Bytes) : copyEach src [] dst = dst := rfl

theorem copyEach_append (src : Bytes) (moves moves' : List (Nat × Nat)) (dst : Bytes) :
    copyEach src (moves ++ moves') dst = copyEach src moves' (copyEach src moves dst) := by
  induction moves generalizing dst with
  | nil => rfl
  | cons move moves ih => rw [List.cons_append, copyEach, copyEach, ih]

theorem copyEach_range (src : Bytes) (a b n : Nat) (dst : Bytes) :
    copyEach src ((List.range' a n).zip (List.range' b n)) dst = dst.store b n (src.drop a) := by
  induction n generalizing a b dst with
  | zero =>
      funext k
      have hout : k < b ∨ b + 0 ≤ k := by omega
      exact (store_outside hout).symm
  | succ n ih =>
      rw [List.range'_succ, List.range'_succ, List.zip_cons_cons, copyEach, ih]
      funext k
      by_cases heq : k = b
      · subst heq
        have hbefore : k < k + 1 ∨ k + 1 + n ≤ k := by omega
        have hfirst : dst.store k (n + 1) (src.drop a) (k + 0) = src.drop a 0 :=
          store_inside (Nat.succ_pos n)
        rw [store_outside hbefore, Function.update_self]
        exact hfirst.symm
      · simp only [store, drop, Function.update_of_ne heq]
        by_cases hin : b + 1 ≤ k ∧ k < b + 1 + n
        · have hin' : b ≤ k ∧ k < b + (n + 1) := by omega
          rw [if_pos hin, if_pos hin']
          congr 1
          omega
        · have hout' : ¬ (b ≤ k ∧ k < b + (n + 1)) := by omega
          rw [if_neg hin, if_neg hout']

theorem store_store_add (mem src : Bytes) (off m n : Nat) :
    (mem.store off m src).store (off + m) n (src.drop m) = mem.store off (m + n) src := by
  funext k
  simp only [store, drop]
  by_cases hsecond : off + m ≤ k ∧ k < off + m + n
  · have hboth : off ≤ k ∧ k < off + (m + n) := by omega
    rw [if_pos hsecond, if_pos hboth]
    congr 1
    omega
  · rw [if_neg hsecond]
    by_cases hfirst : off ≤ k ∧ k < off + m
    · have hboth : off ≤ k ∧ k < off + (m + n) := by omega
      rw [if_pos hfirst, if_pos hboth]
    · have hboth : ¬ (off ≤ k ∧ k < off + (m + n)) := by omega
      rw [if_neg hfirst, if_neg hboth]

theorem drop_drop (mem : Bytes) (m n : Nat) : (mem.drop m).drop n = mem.drop (m + n) := by
  funext k
  simp only [drop, Nat.add_assoc]

end Bytes
end Foundation
end FStackLite
