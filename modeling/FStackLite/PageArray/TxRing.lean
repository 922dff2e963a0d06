import FStackLite.Foundation.Ring
import Mathlib.Data.List.ReduceOption

/-!
# The transmit ring

An mbuf whose data the driver has been given stays in a ring that runs along with the
descriptors of the driver, one slot for each segment.  It is freed when the ring comes round
to its last slot again.
-/

namespace FStackLite
namespace PageArray

open Foundation

abbrev txQueueSize : Nat := 512

/-- `struct mbuf_txring`, and the mbufs that were freed from it. -/
structure MbufTxring (Bsd : Type) where
  mTable : Fin txQueueSize -> Option Bsd
  head : UInt16
  freed : List Bsd

inductive TxringFault where
  /-- The table is indexed behind its end. -/
  | outside
  /-- `ff_txring_pop fatal error!` -/
  | panic
deriving DecidableEq

def headInc (h : UInt16) : UInt16 :=
  if txQueueSize ≤ (h + 1).toNat then 0 else h + 1

def headDec (h : UInt16) : UInt16 :=
  if ((h - 1).toNat : Int) < 0 then 511 else h - 1

namespace MbufTxring

variable {Bsd : Type}

/-- The slot that `head` says. -/
def slot (q : MbufTxring Bsd) : Except TxringFault (Fin txQueueSize) :=
  if h : q.head.toNat < txQueueSize then .ok ⟨q.head.toNat, h⟩ else .error .outside

/-- The body of the loop of `ff_txring_enqueue`. -/
def skipSlot (q : MbufTxring Bsd) : Except TxringFault (MbufTxring Bsd) :=
  match q.slot with
  | .error e => .error e
  | .ok i =>
      match q.mTable i with
      | none => .ok { q with head := headInc q.head }
      | some b =>
          .ok
            { mTable := Function.update q.mTable i none
              head := headInc q.head
              freed := q.freed ++ [b] }

def skipSlots : Nat -> MbufTxring Bsd -> Except TxringFault (MbufTxring Bsd)
  | 0, q => .ok q
  | n + 1, q =>
      match q.skipSlot with
      | .error e => .error e
      | .ok q' => skipSlots n q'

def lastSlot (q : MbufTxring Bsd) (p : Option Bsd) : Except TxringFault (MbufTxring Bsd) :=
  match q.slot with
  | .error e => .error e
  | .ok i =>
      .ok
        { mTable := Function.update q.mTable i p
          head := headInc q.head
          freed := q.freed ++ (q.mTable i).toList }

end MbufTxring

open MbufTxring

variable {Bsd : Type}

def ffTxringEnqueue (q : MbufTxring Bsd) (p : Option Bsd) (segNum : Int) :
    Except TxringFault (MbufTxring Bsd) :=
  match skipSlots (segNum - 1).toNat q with
  | .error e => .error e
  | .ok q' => q'.lastSlot p

namespace MbufTxring

def stepBack (q : MbufTxring Bsd) : MbufTxring Bsd :=
  { q with head := headDec q.head }

/-- The body of the loop of `ff_txring_pop`. -/
def popSlot (q : MbufTxring Bsd) (i : Nat) : Except TxringFault (MbufTxring Bsd) :=
  match q.stepBack.slot with
  | .error e => .error e
  | .ok j =>
      match q.mTable j with
      | none => if i = 0 then .error .panic else .ok q.stepBack
      | some b =>
          if 0 < i then
            .error .panic
          else
            .ok
              { q.stepBack with
                mTable := Function.update q.mTable j none
                freed := q.freed ++ [b] }

/-- The loop, with `n` slots left. -/
def popSlots : Nat -> Nat -> MbufTxring Bsd -> Except TxringFault (MbufTxring Bsd)
  | 0, _, q => .ok q
  | n + 1, i, q =>
      match q.popSlot i with
      | .error e => .error e
      | .ok q' => popSlots n (i + 1) q'

end MbufTxring

def ffTxringPop (q : MbufTxring Bsd) (num : Int) : Except TxringFault (MbufTxring Bsd) :=
  popSlots num.toNat 0 q

/-- A ring after `ff_txring_init`. -/
def ffTxringInit : MbufTxring Bsd where
  mTable _ := none
  head := 0
  freed := []

/-!
## Slots

A call fills one slot after the other, all but the last with the null pointer.
-/

namespace MbufTxring

def store (q : MbufTxring Bsd) (i : Fin txQueueSize) (a : Option Bsd) : MbufTxring Bsd where
  mTable := Function.update q.mTable i a
  head := headInc q.head
  freed := q.freed ++ (q.mTable i).toList

def fill : List (Option Bsd) -> MbufTxring Bsd -> Except TxringFault (MbufTxring Bsd)
  | [], q => .ok q
  | a :: w, q =>
      match q.slot with
      | .error e => .error e
      | .ok i => fill w (q.store i a)

variable {q : MbufTxring Bsd}

theorem slot_eq (h : q.head.toNat < txQueueSize) : q.slot = .ok ⟨q.head.toNat, h⟩ :=
  dif_pos h

theorem slot_val {i : Fin txQueueSize} (h : q.slot = .ok i) : i.val = q.head.toNat := by
  unfold slot at h
  split at h
  · injection h with h
    rw [<- h]
  · contradiction

theorem fill_append (w w' : List (Option Bsd)) (q : MbufTxring Bsd) :
    fill (w ++ w') q = (fill w q).bind (fill w') := by
  induction w generalizing q with
  | nil => rfl
  | cons a w ih =>
      rw [List.cons_append, fill, fill]
      split
      · rfl
      · exact ih _

theorem skipSlot_eq {i : Fin txQueueSize} (h : q.slot = .ok i) :
    q.skipSlot = .ok (q.store i none) := by
  unfold skipSlot
  rw [h]
  cases hentry : q.mTable i with
  | none =>
      have hsame : Function.update q.mTable i none = q.mTable :=
        Function.update_eq_self_iff.mpr hentry.symm
      simp [store, hsame, hentry]
  | some b => simp [store, hentry]

theorem skipSlots_eq (n : Nat) (q : MbufTxring Bsd) :
    skipSlots n q = fill (List.replicate n none) q := by
  induction n generalizing q with
  | zero => rfl
  | succ n ih =>
      rw [skipSlots, List.replicate_succ, fill]
      cases hslot : q.slot with
      | error e => simp [skipSlot, hslot]
      | ok i => simp [skipSlot_eq hslot, ih]

theorem lastSlot_eq (q : MbufTxring Bsd) (p : Option Bsd) : q.lastSlot p = fill [p] q := by
  unfold lastSlot fill
  split
  · rfl
  · rfl

end MbufTxring

def callSlots (p : Option Bsd) (s : Nat) : List (Option Bsd) :=
  List.replicate (s - 1) none ++ [p]

theorem length_callSlots (p : Option Bsd) {s : Nat} (hs : 1 ≤ s) : (callSlots p s).length = s := by
  rw [callSlots, List.length_append, List.length_replicate, List.length_singleton,
    Nat.sub_add_cancel hs]

theorem ffTxringEnqueue_eq (q : MbufTxring Bsd) (p : Option Bsd) (s : Nat) :
    ffTxringEnqueue q p s = fill (callSlots p s) q := by
  have hcount : ((s : Int) - 1).toNat = s - 1 := by omega
  rw [ffTxringEnqueue, callSlots, fill_append, hcount, skipSlots_eq]
  cases fill (List.replicate (s - 1) none) q with
  | error e => rfl
  | ok q' => exact lastSlot_eq q' p

end PageArray
end FStackLite
