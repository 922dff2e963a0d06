import Mathlib.Data.Nat.Notation

/-!
# The rings of DPDK

A ring is a queue.  `rte_ring` is not part of this repository: when its functions succeed and
how many objects they take is a parameter, with the documented behaviour stated as
`RteRing.Documented`.
-/

namespace FStackLite

structure RteRing where
  /-- Whether `rte_ring_enqueue` succeeds on a ring with so many objects. -/
  enqueues : Nat -> Bool
  /-- Whether `rte_ring_dequeue` does. -/
  dequeues : Nat -> Bool
  /-- What `rte_ring_dequeue_burst` returns for `count`, when `visible` of the objects are seen. -/
  burst : (visible count objects : Nat) -> Nat

structure RteRing.Documented (capacity : Nat) (ring : RteRing) : Prop where
  enqueue : forall n, ring.enqueues n = true <-> n < capacity
  dequeue : forall n, ring.dequeues n = true <-> 0 < n
  burst : forall visible count n, ring.burst visible count n ≤ min count n

def RteRing.ofCapacity (capacity : Nat) : RteRing :=
  ⟨(· < capacity), (0 < ·), fun visible count n => min visible (min count n)⟩

theorem RteRing.ofCapacity_documented (capacity : Nat) :
    (RteRing.ofCapacity capacity).Documented capacity :=
  ⟨fun _ => decide_eq_true_iff, fun _ => decide_eq_true_iff, fun _ _ _ => Nat.min_le_right _ _⟩

end FStackLite
