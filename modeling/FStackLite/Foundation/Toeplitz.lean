import Mathlib.Data.Nat.Bitwise

/-!
# Toeplitz hashing

The Toeplitz hash of a bit string is the sum modulo two of the windows of the key that
begin at the string's one bits.  A window is read from the key with its first bit as
the most significant one, so the next window is the last one shifted by one place with
the next key bit behind it.
-/

namespace FStackLite
namespace Foundation
namespace Toeplitz

variable (key : Nat -> Bool) {w : Nat}

/-- The `w` key bits from `n` on. -/
def window (n : Nat) : (w : Nat) -> BitVec w
  | 0 => 0#0
  | w + 1 => (window n w).concat (key (n + w))

theorem getLsbD_window (n w k : Nat) (hk : k < w) :
    (window key n w).getLsbD k = key (n + (w - 1 - k)) := by
  induction w generalizing k with
  | zero => contradiction
  | succ w ih =>
      rw [window, BitVec.getLsbD_concat]
      cases k with
      | zero => simp
      | succ k =>
          rw [if_neg (Nat.succ_ne_zero k), Nat.succ_sub_one, ih k (Nat.lt_of_succ_lt_succ hk)]
          congr 2
          omega

def shiftIn {w : Nat} (v : BitVec w) (bit : Bool) : BitVec w :=
  if bit then v <<< 1 ||| 1#w else v <<< 1

theorem getLsbD_shiftIn (v : BitVec w) (bit : Bool) (k : Nat) (hk : k < w) :
    (shiftIn v bit).getLsbD k = if k = 0 then bit else v.getLsbD (k - 1) := by
  cases bit with
  | false =>
      cases k with
      | zero => simp [shiftIn]
      | succ k => simp [shiftIn, hk, BitVec.getLsbD_eq_getElem (Nat.lt_of_succ_lt hk)]
  | true =>
      cases k with
      | zero => simp [shiftIn, hk]
      | succ k => simp [shiftIn, hk, BitVec.getLsbD_eq_getElem (Nat.lt_of_succ_lt hk)]

theorem shiftIn_window (n w : Nat) :
    shiftIn (window key n w) (key (n + w)) = window key (n + 1) w := by
  apply BitVec.eq_of_getLsbD_eq
  intro k hk
  rw [getLsbD_shiftIn _ _ k hk, getLsbD_window key (n + 1) w k hk]
  cases k with
  | zero =>
      rw [if_pos rfl]
      congr 1
      omega
  | succ k =>
      rw [if_neg (Nat.succ_ne_zero k), Nat.succ_sub_one,
        getLsbD_window key n w k (Nat.lt_of_succ_lt hk)]
      congr 1
      omega

/-- The hash of a bit string whose first bit meets the window at `n`. -/
def hash (w : Nat) : Nat -> List Bool -> BitVec w
  | _, [] => 0#w
  | n, bit :: bits => (if bit then window key n w else 0#w) ^^^ hash w (n + 1) bits

theorem hash_append (w n : Nat) (bits bits' : List Bool) :
    hash key w n (bits ++ bits') = hash key w n bits ^^^ hash key w (n + bits.length) bits' := by
  induction bits generalizing n with
  | nil => simp [hash]
  | cons bit bits ih =>
      rw [List.cons_append, hash, hash, ih, BitVec.xor_assoc, List.length_cons]
      congr 3
      omega

variable {key}

theorem window_congr {key' : Nat -> Bool} {n : Nat}
    (h : forall k, n ≤ k -> k < n + w -> key k = key' k) : window key n w = window key' n w := by
  apply BitVec.eq_of_getLsbD_eq
  intro k hk
  rw [getLsbD_window key n w k hk, getLsbD_window key' n w k hk]
  exact h _ (by omega) (by omega)

theorem hash_congr {key' : Nat -> Bool} {n : Nat} {bits : List Bool}
    (h : forall k, n ≤ k -> k + 1 < n + bits.length + w -> key k = key' k) :
    hash key w n bits = hash key' w n bits := by
  induction bits generalizing n with
  | nil => rfl
  | cons bit bits ih =>
      rw [List.length_cons] at h
      have hwindow : window key n w = window key' n w :=
        window_congr fun k hk hk' => h k hk (by omega)
      have hrest : hash key w (n + 1) bits = hash key' w (n + 1) bits :=
        ih fun k hk hk' => h k (by omega) (by omega)
      rw [hash, hash, hwindow, hrest]

theorem hash_zipWith (key : Nat -> Bool) (w n : Nat) {bits bits' : List Bool}
    (h : bits.length = bits'.length) :
    hash key w n (List.zipWith Bool.xor bits bits') = hash key w n bits ^^^ hash key w n bits' := by
  induction bits generalizing n bits' with
  | nil =>
      rw [List.length_nil, eq_comm, List.length_eq_zero_iff] at h
      rw [h]
      exact BitVec.xor_zero.symm
  | cons bit bits ih =>
      cases bits' with
      | nil => contradiction
      | cons bit' bits' =>
          rw [List.zipWith_cons_cons, hash, hash, hash, ih (n + 1) (Nat.succ.inj h)]
          have hbit : (if (bit ^^ bit') = true then window key n w else 0#w) =
              (if bit = true then window key n w else 0#w) ^^^
                (if bit' = true then window key n w else 0#w) := by
            cases bit <;> cases bit' <;> simp
          rw [hbit]
          ac_rfl

end Toeplitz
end Foundation
end FStackLite
