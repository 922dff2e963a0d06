import Mathlib.Data.List.Nodup
import Mathlib.Data.List.Perm.Lattice

/-!
# Pools of items that are handed out and given back

An allocator decides, request by request, whether a request is served and with
which item; all that is known of it is that an item in use is never handed out
again.  The arena is the ledger beside it: the items in use, the number of
requests so far, and the items in the order in which they were handed out and in
which they were given back.  An item that is given back although it is not in
use still appears in that log, so that a double release can be read off it.
-/

namespace FStackLite
namespace Foundation

universe u

structure Allocator (α : Type u) where
  /-- Whether the request with this number is served. -/
  ok : Nat -> Bool
  /-- The item it is served with, given the items in use. -/
  pick : Nat -> List α -> α
  fresh : forall k used, pick k used ∉ used

structure Arena (α : Type u) where
  used : List α
  asked : Nat
  served : List α
  freed : List α
  nodup : used.Nodup

namespace Arena

variable {α : Type u}

def item (a : Allocator α) (z : Arena α) : α :=
  a.pick z.asked z.used

theorem item_not_mem (a : Allocator α) (z : Arena α) : z.item a ∉ z.used :=
  a.fresh z.asked z.used

def take (a : Allocator α) (z : Arena α) : Arena α :=
  { used := z.item a :: z.used
    asked := z.asked + 1
    served := z.served ++ [z.item a]
    freed := z.freed
    nodup := List.nodup_cons.mpr ⟨z.item_not_mem a, z.nodup⟩ }

def refuse (z : Arena α) : Arena α :=
  { z with asked := z.asked + 1 }

def alloc (a : Allocator α) (z : Arena α) : Option α × Arena α :=
  if a.ok z.asked then (some (z.item a), z.take a) else (none, z.refuse)

variable {z : Arena α}

theorem alloc_of_ok {a : Allocator α} (h : a.ok z.asked = true) :
    z.alloc a = (some (z.item a), z.take a) := by
  unfold alloc
  rw [if_pos h]

theorem alloc_of_not_ok {a : Allocator α} (h : a.ok z.asked ≠ true) :
    z.alloc a = (none, z.refuse) := by
  unfold alloc
  rw [if_neg h]

@[simp] theorem take_asked (a : Allocator α) (z : Arena α) :
    (z.take a).asked = z.asked + 1 := rfl

@[simp] theorem take_used (a : Allocator α) (z : Arena α) :
    (z.take a).used = z.item a :: z.used := rfl

/-!
## Giving items back
-/

def servedSince (z z' : Arena α) : List α :=
  z'.served.drop z.served.length

theorem servedSince_of_append {z' : Arena α} {xs : List α} (h : z'.served = z.served ++ xs) :
    z.servedSince z' = xs := by
  unfold servedSince
  rw [h, List.drop_left]

def freedSince (z z' : Arena α) : List α :=
  z'.freed.drop z.freed.length

theorem freedSince_of_append {z' : Arena α} {xs : List α} (h : z'.freed = z.freed ++ xs) :
    z.freedSince z' = xs := by
  unfold freedSince
  rw [h, List.drop_left]

variable [DecidableEq α]

def free (x : α) (z : Arena α) : Arena α :=
  { z with
    used := z.used.erase x
    freed := z.freed ++ [x]
    nodup := z.nodup.erase x }

def freeAll (xs : List α) (z : Arena α) : Arena α :=
  { z with
    used := z.used.diff xs
    freed := z.freed ++ xs
    nodup := z.nodup.diff }

end Arena

/-!
## Items handed out in a row
-/

namespace Arena

variable {α : Type u}

/-- Exactly these items were handed out, in this order, and none given back. -/
structure Takes (z : Arena α) (xs : List α) (z' : Arena α) : Prop where
  used : z'.used = xs.reverse ++ z.used
  served : z'.served = z.served ++ xs
  freed : z'.freed = z.freed

namespace Takes

variable {z z' z'' : Arena α} {xs ys : List α}

theorem refl (z : Arena α) : Takes z [] z :=
  ⟨rfl, (List.append_nil _).symm, rfl⟩

theorem trans (h : Takes z xs z') (h' : Takes z' ys z'') : Takes z (xs ++ ys) z'' := by
  constructor
  · rw [h'.used, h.used, List.reverse_append, List.append_assoc]
  · rw [h'.served, h.served, List.append_assoc]
  · rw [h'.freed, h.freed]

theorem take (a : Allocator α) (z : Arena α) : Takes z [z.item a] (z.take a) :=
  ⟨rfl, rfl, rfl⟩

theorem refuse (z : Arena α) : Takes z [] z.refuse :=
  ⟨rfl, (List.append_nil _).symm, rfl⟩

theorem nodup (h : Takes z xs z') : xs.Nodup := by
  have hused := z'.nodup
  rw [h.used] at hused
  exact List.nodup_reverse.mp (List.Nodup.of_append_left hused)

theorem not_mem (h : Takes z xs z') {x : α} (hx : x ∈ xs) : x ∉ z.used := by
  have hused := z'.nodup
  rw [h.used] at hused
  exact List.disjoint_of_nodup_append hused (List.mem_reverse.mpr hx)

theorem mem_used (h : Takes z xs z') {x : α} : x ∈ z'.used <-> x ∈ xs ∨ x ∈ z.used := by
  rw [h.used, List.mem_append, List.mem_reverse]

theorem perm (h : Takes z xs z') : z'.used.Perm (xs ++ z.used) := by
  rw [h.used]
  exact (List.reverse_perm xs).append_right z.used

end Takes

end Arena

end Foundation
end FStackLite
