import FStackLite.Foundation.Bytes

/-!
# Elements written at a cursor

Elements of one size are written one after the other, each at a cursor that is moved behind it.
What an element becomes may depend on the bytes that were there.
-/

namespace FStackLite
namespace Foundation

structure Cursor where
  mem : Bytes
  next : Nat

namespace Cursor

universe u

variable {ε : Type u} {n off : Nat}

def put (size : Nat) (element : ε -> Bytes -> Bytes) (c : Cursor) (e : ε) : Cursor :=
  ⟨c.mem.store c.next size (element e (c.mem.drop c.next)), c.next + size⟩

/-- The elements are in the block from an offset on, and all other bytes are as before. -/
structure Filled (size : Nat) (element : ε -> Bytes -> Bytes) (mem : Bytes) (start : Nat)
    (es : List ε) (c : Cursor) : Prop where
  next : c.next = start + size * es.length
  elements : forall i e, es[i]? = some e -> forall k, k < size ->
    c.mem (start + size * i + k) = element e (mem.drop (start + size * i)) k
  others : forall k, k < start ∨ start + size * es.length ≤ k -> c.mem k = mem k

theorem drop_store {mem src : Bytes} {start : Nat} (h : off + n ≤ start) :
    (mem.store off n src).drop start = mem.drop start := by
  funext k
  exact Bytes.store_outside (Or.inr (Nat.le_trans h (Nat.le_add_right start k)))

theorem store_zero (mem src : Bytes) (off : Nat) : mem.store off 0 src = mem := by
  funext k
  have hout : k < off ∨ off + 0 ≤ k := Nat.lt_or_ge k off
  exact Bytes.store_outside hout

theorem store_add (mem src : Bytes) (off n m : Nat) :
    mem.store off (n + m) src = (mem.store off n src).store (off + n) m (src.drop n) := by
  funext k
  by_cases hsecond : off + n ≤ k ∧ k < off + n + m
  · have hall : off ≤ k ∧ k < off + (n + m) := by omega
    rw [Bytes.store, Bytes.store, if_pos hall, if_pos hsecond, Bytes.drop]
    congr 1
    omega
  · have hout : k < off + n ∨ off + n + m ≤ k := by omega
    rw [Bytes.store_outside hout, Bytes.store, Bytes.store]
    by_cases hfirst : off ≤ k ∧ k < off + n
    · have hall : off ≤ k ∧ k < off + (n + m) := by omega
      rw [if_pos hfirst, if_pos hall]
    · have hall : ¬ (off ≤ k ∧ k < off + (n + m)) := by omega
      rw [if_neg hfirst, if_neg hall]

theorem store_congr {mem src src' : Bytes} (h : forall k, k < n -> src k = src' k) :
    mem.store off n src = mem.store off n src' := by
  funext k
  rw [Bytes.store, Bytes.store]
  split
  · next hin =>
      exact h _ (by omega)
  · rfl

theorem store_drop_self (mem : Bytes) (off n : Nat) : mem.store off n (mem.drop off) = mem := by
  funext k
  rw [Bytes.store]
  split
  · next hin =>
      rw [Bytes.drop, Nat.add_sub_cancel' hin.1]
  · rfl

/-- A number that is put into an element is put into the block where the element is. -/
theorem store_putNum (mem element : Bytes) {o m : Nat} (v : Nat) (h : o + m ≤ n) :
    mem.store off n (element.putNum o m v) = (mem.store off n element).putNum (off + o) m v := by
  funext k
  simp only [Bytes.putNum, Bytes.store]
  by_cases hin : off + o ≤ k ∧ k < off + o + m
  · have hall : off ≤ k ∧ k < off + n := by omega
    have helement : o ≤ k - off ∧ k - off < o + m := by omega
    rw [if_pos hall, if_pos helement, if_pos hin, Nat.sub_sub]
  · rw [if_neg hin]
    split
    · have helement : ¬ (o ≤ k - off ∧ k - off < o + m) := by omega
      rw [if_neg helement]
    · rfl

theorem filled_foldl (size : Nat) (element : ε -> Bytes -> Bytes) (es : List ε) (c : Cursor) :
    Filled size element c.mem c.next es (es.foldl (put size element) c) := by
  induction es generalizing c with
  | nil => exact ⟨rfl, fun i e h => absurd h (by simp), fun _ _ => rfl⟩
  | cons e es ih =>
      have hrest := ih (put size element c e)
      have hnext : (put size element c e).next = c.next + size := rfl
      have hlength : size * (e :: es).length = size + size * es.length := by
        rw [List.length_cons, Nat.mul_succ, Nat.add_comm]
      refine ⟨?_, ?_, ?_⟩
      · rw [List.foldl_cons, hrest.next, hnext, hlength, Nat.add_assoc]
      · intro i e' he k hk
        rw [List.foldl_cons]
        cases i with
        | zero =>
            injection he with he
            rw [Nat.mul_zero, Nat.add_zero, <- he, hrest.others _ (Or.inl (by omega))]
            exact Bytes.store_inside hk
        | succ i =>
            have helement := hrest.elements i e' he k hk
            have hplace : c.next + size + size * i = c.next + size * (i + 1) := by
              rw [Nat.mul_succ]
              omega
            rw [hnext, hplace] at helement
            rw [helement, put, drop_store (by omega)]
      · intro k hk
        rw [hlength] at hk
        rw [List.foldl_cons, hrest.others k (by omega)]
        exact Bytes.store_outside (by omega)

end Cursor

end Foundation
end FStackLite
