import Mathlib.Tactic.Ring

/-!
# A block of bytes

The bytes from an address on, as far as anyone looks.  A copy into the block changes the
bytes of its range and no others; its source is taken as it was before the copy, so that
the two may overlap.
-/

namespace FStackLite
namespace Foundation

abbrev Bytes := Nat -> UInt8

namespace Bytes

def drop (mem : Bytes) (off : Nat) : Bytes :=
  fun k => mem (off + k)

/-- A copy of `n` bytes to an offset. -/
def store (mem : Bytes) (off n : Nat) (src : Bytes) : Bytes :=
  fun k => if off ≤ k ∧ k < off + n then src (k - off) else mem k

variable {n off m start : Nat} {mem src : Bytes}

theorem store_outside {k : Nat} (h : k < off ∨ off + n ≤ k) : mem.store off n src k = mem k := by
  have hout : ¬ (off ≤ k ∧ k < off + n) := by omega
  exact if_neg hout

theorem store_inside {k : Nat} (h : k < n) : mem.store off n src (off + k) = src k := by
  have hin : off ≤ off + k ∧ off + k < off + n := by omega
  rw [store, if_pos hin, Nat.add_sub_cancel_left]

/-- The number that `n` bytes hold, the lowest byte first. -/
def num (mem : Bytes) (off : Nat) : Nat -> Nat
  | 0 => 0
  | n + 1 => (mem off).toNat + 256 * num mem (off + 1) n

/-- A number of `n` bytes. -/
def putNum (mem : Bytes) (off n v : Nat) : Bytes :=
  mem.store off n fun k => UInt8.ofNat (v / 256 ^ k)

theorem num_congr {mem' : Bytes} (h : forall k, off ≤ k -> k < off + n -> mem' k = mem k) :
    mem'.num off n = mem.num off n := by
  induction n generalizing off with
  | zero => rfl
  | succ n ih =>
      rw [num, num, h off (Nat.le_refl _) (by omega), ih]
      intro k hlo hhi
      exact h k (by omega) (by omega)

theorem num_store_outside (h : start + m ≤ off ∨ off + n ≤ start) :
    (mem.store off n src).num start m = mem.num start m := by
  apply num_congr
  intro k hlo hhi
  exact store_outside (by omega)

theorem num_putNum_outside {v : Nat} (h : start + m ≤ off ∨ off + n ≤ start) :
    (mem.putNum off n v).num start m = mem.num start m :=
  num_store_outside h

theorem num_two (mem : Bytes) (off : Nat) :
    mem.num off 2 = (mem off).toNat + 256 * (mem (off + 1)).toNat := by
  simp [num]

theorem num_store_inside (h : start + m ≤ n) :
    (mem.store off n src).num (off + start) m = src.num start m := by
  induction m generalizing start with
  | zero => rfl
  | succ m ih => rw [num, num, store_inside (by omega), Nat.add_assoc, ih (by omega)]

theorem num_drop (mem : Bytes) (off start n : Nat) :
    (mem.drop off).num start n = mem.num (off + start) n := by
  induction n generalizing start with
  | zero => rfl
  | succ n ih =>
      rw [num, num, ih, Nat.add_assoc]
      rfl

theorem num_add (mem : Bytes) (off n m : Nat) :
    mem.num off (n + m) = mem.num off n + 256 ^ n * mem.num (off + n) m := by
  induction n generalizing off with
  | zero => simp [num]
  | succ n ih =>
      have hoff : off + 1 + n = off + (n + 1) := by omega
      rw [Nat.succ_add, num, num, ih, hoff, Nat.pow_succ]
      ring

theorem num_lt (mem : Bytes) (off n : Nat) : mem.num off n < 256 ^ n := by
  induction n generalizing off with
  | zero => exact Nat.one_pos
  | succ n ih =>
      have hrest := ih (off + 1)
      have hbyte := (mem off).toNat_lt
      rw [num, Nat.pow_succ]
      omega

theorem num_putNum (mem : Bytes) (off n v : Nat) :
    (mem.putNum off n v).num off n = v % 256 ^ n := by
  have hinside : (mem.putNum off n v).num (off + 0) n =
      num (fun k => UInt8.ofNat (v / 256 ^ k)) 0 n :=
    num_store_inside (Nat.le_of_eq (Nat.zero_add n))
  rw [Nat.add_zero] at hinside
  rw [hinside]
  clear hinside
  induction n with
  | zero => rw [num, Nat.pow_zero, Nat.mod_one]
  | succ n ih =>
      rw [num_add, ih, Nat.zero_add, num, num, UInt8.toNat_ofNat', Nat.mul_zero, Nat.add_zero]
      exact Nat.mod_mul.symm

theorem num_two_putNum (mem : Bytes) (off v : Nat) : (mem.putNum off 2 v).num off 2 = v % 2 ^ 16 :=
  num_putNum mem off 2 v

end Bytes

end Foundation
end FStackLite
