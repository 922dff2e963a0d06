import FStackLite.PageArray.TxRing
import Mathlib.Algebra.BigOperators.Group.List.Basic
import Mathlib.Tactic.Ring

/-!
# The delay of the transmit ring

The slots that calls fill are numbered from the first one on.  An mbuf is known by the number
of its last slot, and it leaves the ring when the 512th slot after that one is filled.
-/

namespace FStackLite
namespace PageArray

open Foundation
open MbufTxring

variable {Bsd : Type} {c : Bsd × Nat} {calls : List (Bsd × Nat)}

/-!
## The ring as a queue
-/

namespace MbufTxring

def Views (q : MbufTxring Bsd) (v : List (Option Bsd)) : Prop :=
  exists i, q.slot = .ok i ∧ Ring.view q.mTable i = v

variable {q : MbufTxring Bsd}

theorem headInc_next {i : Fin txQueueSize} (h : q.slot = .ok i) :
    (headInc q.head).toNat = (Ring.next i).val := by
  have hval := slot_val h
  have hlt : i.val < 512 := i.isLt
  have hsucc : (q.head + 1).toNat = i.val + 1 := by
    rw [UInt16.toNat_add, <- hval]
    exact Nat.mod_eq_of_lt (Nat.lt_trans (Nat.add_lt_add_right hlt 1) (by decide))
  unfold headInc Ring.next
  rw [hsucc]
  split
  · next hlast =>
      rw [dif_neg (Nat.not_lt.mpr hlast)]
      rfl
  · next hmore =>
      rw [dif_pos (Nat.not_le.mp hmore), hsucc]

theorem store_slot {i : Fin txQueueSize} (h : q.slot = .ok i) (a : Option Bsd) :
    (q.store i a).slot = .ok (Ring.next i) := by
  have hhead : (q.store i a).head.toNat = (Ring.next i).val := headInc_next h
  have hlt : (q.store i a).head.toNat < txQueueSize := by
    rw [hhead]
    exact (Ring.next i).isLt
  rw [slot_eq hlt]
  congr 1
  exact Fin.ext hhead

theorem fill_views {v w : List (Option Bsd)} (h : q.Views v) :
    exists q', fill w q = .ok q' ∧ q'.Views ((v ++ w).drop w.length) ∧
      q'.freed = q.freed ++ ((v ++ w).take w.length).reduceOption := by
  induction w generalizing v q with
  | nil =>
      refine ⟨q, rfl, ?_, ?_⟩
      · rwa [List.append_nil, List.length_nil, List.drop_zero]
      · rw [List.length_nil, List.take_zero, List.reduceOption_nil, List.append_nil]
  | cons a w ih =>
      rcases h with ⟨i, hslot, hview⟩
      have hstored : (q.store i a).Views (Ring.younger q.mTable i ++ [a]) :=
        ⟨Ring.next i, store_slot hslot a, Ring.view_put q.mTable i a⟩
      rcases ih hstored with ⟨q', hfill, hviews, hfreed⟩
      have hv : v ++ a :: w = q.mTable i :: (Ring.younger q.mTable i ++ [a] ++ w) := by
        rw [<- hview, Ring.view_eq, List.cons_append, List.append_assoc, List.singleton_append]
      refine ⟨q', ?_, ?_, ?_⟩
      · rw [fill, hslot]
        exact hfill
      · rw [hv, List.length_cons, List.drop_succ_cons]
        exact hviews
      · rw [hv, List.length_cons, List.take_succ_cons, hfreed]
        cases hentry : q.mTable i with
        | none => simp [store, hentry]
        | some b => simp [store, hentry]

theorem ffTxringInit_views :
    (ffTxringInit : MbufTxring Bsd).Views (List.replicate txQueueSize none) := by
  refine ⟨⟨0, by decide⟩, rfl, ?_⟩
  rw [Ring.view, ffTxringInit, List.ofFn_const]
  exact List.rotate_zero _

end MbufTxring

/-- Calls with an mbuf and the number of its segments, one after the other. -/
def enqueueAll : List (Bsd × Nat) -> MbufTxring Bsd -> Except TxringFault (MbufTxring Bsd)
  | [], q => .ok q
  | c :: calls, q =>
      match ffTxringEnqueue q (some c.1) c.2 with
      | .error e => .error e
      | .ok q' => enqueueAll calls q'

def slotsUsed (calls : List (Bsd × Nat)) : Nat :=
  (calls.map Prod.snd).sum

/-- The mbufs with the number of their last slot, when `n` slots were used before. -/
def lastSlots : Nat -> List (Bsd × Nat) -> List (Bsd × Nat)
  | _, [] => []
  | n, c :: calls => (c.1, n + c.2) :: lastSlots (n + c.2) calls

/-- Every call is for a packet that has segments, at most as many as the ring has slots. -/
def ValidCalls (calls : List (Bsd × Nat)) : Prop :=
  forall c, c ∈ calls -> 1 ≤ c.2 ∧ c.2 ≤ txQueueSize

def allSlots (calls : List (Bsd × Nat)) : List (Option Bsd) :=
  calls.flatMap fun c => callSlots (some c.1) c.2

theorem ValidCalls.head (h : ValidCalls (c :: calls)) : 1 ≤ c.2 :=
  (h c List.mem_cons_self).1

theorem ValidCalls.tail (h : ValidCalls (c :: calls)) : ValidCalls calls :=
  fun c' hc' => h c' (List.mem_cons_of_mem c hc')

theorem enqueueAll_eq (calls : List (Bsd × Nat)) (q : MbufTxring Bsd) :
    enqueueAll calls q = fill (allSlots calls) q := by
  induction calls generalizing q with
  | nil => rfl
  | cons c calls ih =>
      rw [enqueueAll, ffTxringEnqueue_eq, allSlots, List.flatMap_cons, fill_append]
      cases fill (callSlots (some c.1) c.2) q with
      | error e => rfl
      | ok q' => exact ih q'

theorem length_allSlots (h : ValidCalls calls) : (allSlots calls).length = slotsUsed calls := by
  induction calls with
  | nil => rfl
  | cons c calls ih =>
      rw [allSlots, List.flatMap_cons, List.length_append, length_callSlots _ h.head]
      exact congrArg (c.2 + ·) (ih h.tail)

theorem lastSlots_gt (h : ValidCalls calls) {n : Nat} {e : Bsd × Nat} (he : e ∈ lastSlots n calls) :
    n < e.2 := by
  induction calls generalizing n with
  | nil => contradiction
  | cons c calls ih =>
      have hpos := h.head
      rcases List.mem_cons.mp he with rfl | he
      · exact Nat.lt_add_of_pos_right hpos
      · exact Nat.lt_of_le_of_lt (Nat.le_add_right n c.2) (ih h.tail he)

theorem lastSlots_cons_ge (h : ValidCalls (c :: calls)) {n : Nat} {e : Bsd × Nat}
    (he : e ∈ lastSlots n (c :: calls)) : n + c.2 ≤ e.2 := by
  rcases List.mem_cons.mp he with rfl | he
  · exact Nat.le_refl _
  · exact Nat.le_of_lt (lastSlots_gt h.tail he)

theorem reduceOption_blank (n : Nat) : (List.replicate n (none : Option Bsd)).reduceOption = [] :=
  List.reduceOption_replicate_none

theorem allSlots_cons (c : Bsd × Nat) (calls : List (Bsd × Nat)) :
    allSlots (c :: calls) = List.replicate (c.2 - 1) none ++ some c.1 :: allSlots calls := by
  rw [allSlots, List.flatMap_cons, callSlots, List.append_assoc, List.singleton_append]
  rfl

theorem allSlots_reduce (n : Nat) (calls : List (Bsd × Nat)) :
    (allSlots calls).reduceOption = (lastSlots n calls).map Prod.fst := by
  induction calls generalizing n with
  | nil => rfl
  | cons c calls ih =>
      rw [allSlots_cons, List.reduceOption_append, reduceOption_blank, List.nil_append,
        List.reduceOption_cons_of_some, lastSlots, List.map_cons, ih (n + c.2)]

/-- The mbufs whose last slot is among the first `k`. -/
theorem allSlots_take (h : ValidCalls calls) (n k : Nat) : ((allSlots calls).take k).reduceOption =
      ((lastSlots n calls).filter fun e => e.2 ≤ n + k).map Prod.fst := by
  induction calls generalizing n k with
  | nil =>
      rw [allSlots, List.flatMap_nil, List.take_nil]
      rfl
  | cons c calls ih =>
      have hpos := h.head
      cases Nat.lt_or_ge k c.2 with
      | inl hlt =>
          have hnone : forall e, e ∈ lastSlots n (c :: calls) -> ¬ decide (e.2 ≤ n + k) = true := by
            intro e he hle
            have hslot := lastSlots_cons_ge h he
            have hle := of_decide_eq_true hle
            omega
          rw [List.filter_eq_nil_iff.mpr hnone, allSlots_cons,
            List.take_append_of_le_length (by rw [List.length_replicate]; omega),
            List.take_replicate, reduceOption_blank]
          rfl
      | inr hge =>
          have hrest : n + k = n + c.2 + (k - c.2) := by omega
          have htake : k = (List.replicate (c.2 - 1) (none : Option Bsd)).length +
              ((k - c.2) + 1) := by
            rw [List.length_replicate]
            omega
          rw [allSlots_cons, lastSlots, List.filter_cons,
            if_pos (decide_eq_true (Nat.add_le_add_left hge n)),
            hrest, List.map_cons, <- ih h.tail]
          conv_lhs => rw [htake]
          rw [List.take_length_add_append, List.reduceOption_append, reduceOption_blank,
            List.take_succ_cons, List.reduceOption_cons_of_some, List.nil_append]

theorem lastSlots_increasing (h : ValidCalls calls) (n : Nat) :
    (lastSlots n calls).Pairwise fun e e' => e.2 < e'.2 := by
  induction calls generalizing n with
  | nil => exact List.Pairwise.nil
  | cons c calls ih =>
      exact List.Pairwise.cons (fun e he => lastSlots_gt h.tail he) (ih h.tail (n + c.2))

theorem filter_le_append_filter_lt {β : Type} (f : β -> Nat) {l : List β}
    (h : l.Pairwise fun x y => f x < f y) (t : Nat) :
    (l.filter fun x => f x ≤ t) ++ (l.filter fun x => t < f x) = l := by
  induction h with
  | nil => rfl
  | @cons x l hlater _ ih =>
      rw [List.filter_cons, List.filter_cons]
      cases Nat.lt_or_ge t (f x) with
      | inr hle =>
          rw [if_pos (decide_eq_true hle), decide_eq_false (Nat.not_lt.mpr hle),
            if_neg Bool.false_ne_true, List.cons_append, ih]
      | inl hlt =>
          have hbehind : forall y, y ∈ l -> t < f y := fun y hy => Nat.lt_trans hlt (hlater y hy)
          have hfront : (l.filter fun y => f y ≤ t) = [] :=
            List.filter_eq_nil_iff.mpr fun y hy hle =>
              Nat.not_le.mpr (hbehind y hy) (of_decide_eq_true hle)
          have hrest : (l.filter fun y => t < f y) = l :=
            List.filter_eq_self.mpr fun y hy => decide_eq_true (hbehind y hy)
          rw [if_pos (decide_eq_true hlt), decide_eq_false (Nat.not_le.mpr hlt),
            if_neg Bool.false_ne_true, hfront, hrest, List.nil_append]

theorem allSlots_drop (h : ValidCalls calls) (n k : Nat) : ((allSlots calls).drop k).reduceOption =
      ((lastSlots n calls).filter fun e => n + k < e.2).map Prod.fst := by
  have hall : ((allSlots calls).take k).reduceOption ++ ((allSlots calls).drop k).reduceOption =
      (lastSlots n calls).map Prod.fst := by
    rw [<- List.reduceOption_append, List.take_append_drop, allSlots_reduce n]
  have hcut := filter_le_append_filter_lt Prod.snd (lastSlots_increasing h n) (n + k)
  rw [<- hcut, List.map_append, allSlots_take h n k] at hall
  exact List.append_cancel_left hall

/-- Those up to `b` are those up to `a` and then those between. -/
theorem filter_split {entries : List (Bsd × Nat)} (h : entries.Pairwise fun e e' => e.2 < e'.2)
    (delay : Nat) {a b : Nat} (hab : a ≤ b) : (entries.filter fun e => e.2 + delay ≤ b) =
      (entries.filter fun e => e.2 + delay ≤ a) ++
        entries.filter fun e => a < e.2 + delay ∧ e.2 + delay ≤ b := by
  have hlater : (entries.filter fun e => e.2 + delay ≤ b).Pairwise
      fun e e' => e.2 + delay < e'.2 + delay :=
    (h.imp fun hlt => Nat.add_lt_add_right hlt delay).filter _
  have hcut := filter_le_append_filter_lt (fun e : Bsd × Nat => e.2 + delay) hlater a
  rw [List.filter_filter, List.filter_filter] at hcut
  rw [<- hcut]
  congr 1
  · refine List.filter_congr fun e _ => ?_
    rw [<- Bool.decide_and, decide_eq_decide]
    exact ⟨fun hle => hle.1, fun hle => ⟨hle, Nat.le_trans hle hab⟩⟩
  · exact List.filter_congr fun e _ => (Bool.decide_and _ _).symm

theorem blank_take (m n i : Nat) (w : List (Option Bsd)) :
    ((List.replicate m none ++ (w ++ List.replicate i none)).take n).reduceOption =
      (w.take (n - m)).reduceOption := by
  rw [List.take_append, List.length_replicate, List.take_replicate, List.reduceOption_append,
    reduceOption_blank, List.nil_append, List.take_append, List.reduceOption_append,
    List.take_replicate, reduceOption_blank, List.append_nil]

theorem blank_drop (m n i : Nat) (w : List (Option Bsd)) :
    ((List.replicate m none ++ (w ++ List.replicate i none)).drop n).reduceOption =
      (w.drop (n - m)).reduceOption := by
  rw [List.drop_append, List.length_replicate, List.drop_replicate, List.reduceOption_append,
    reduceOption_blank, List.nil_append, List.drop_append, List.reduceOption_append,
    List.drop_replicate, reduceOption_blank, List.append_nil]

/-- The mbufs whose last slot was used again, when `n` slots were used. -/
def expired (calls : List (Bsd × Nat)) (n : Nat) : List Bsd :=
  ((lastSlots 0 calls).filter fun e => e.2 + txQueueSize ≤ n).map Prod.fst

/-- The mbufs whose last slot is one of the last 512 of `n` slots. -/
def waiting (calls : List (Bsd × Nat)) (n : Nat) : List Bsd :=
  ((lastSlots 0 calls).filter fun e => n < e.2 + txQueueSize).map Prod.fst

theorem expired_eq (h : ValidCalls calls) (n : Nat) :
    expired calls n = ((allSlots calls).take (n - txQueueSize)).reduceOption := by
  rw [allSlots_take h 0, expired]
  refine congrArg (List.map Prod.fst) (List.filter_congr ?_)
  intro e he
  have hpos := lastSlots_gt h he
  rw [decide_eq_decide]
  omega

theorem waiting_eq (h : ValidCalls calls) (n : Nat) :
    waiting calls n = ((allSlots calls).drop (n - txQueueSize)).reduceOption := by
  rw [allSlots_drop h 0, waiting]
  refine congrArg (List.map Prod.fst) (List.filter_congr ?_)
  intro e he
  have hpos := lastSlots_gt h he
  rw [decide_eq_decide]
  omega

/-- The ring after calls, and after `i` more slots without an mbuf. -/
theorem enqueueAll_state (h : ValidCalls calls) (i : Nat) :
    exists q, (enqueueAll calls ffTxringInit).bind (skipSlots i) = .ok q ∧
      q.freed = expired calls (slotsUsed calls + i) ∧
      (List.ofFn q.mTable).reduceOption.Perm (waiting calls (slotsUsed calls + i)) := by
  rcases fill_views (w := allSlots calls ++ List.replicate i none) ffTxringInit_views with
    ⟨q, hfill, ⟨j, _, hview⟩, hfreed⟩
  have hlength : (allSlots calls ++ List.replicate i none).length = slotsUsed calls + i := by
    rw [List.length_append, List.length_replicate, length_allSlots h]
  have hskip : (skipSlots i : MbufTxring Bsd -> _) = fill (List.replicate i none) :=
    funext (skipSlots_eq i)
  refine ⟨q, ?_, ?_, ?_⟩
  · rw [enqueueAll_eq, hskip, <- fill_append, hfill]
  · rw [hfreed, hlength, blank_take, expired_eq h]
    exact List.nil_append _
  · rw [waiting_eq h, <- blank_drop txQueueSize (slotsUsed calls + i) i, <- hlength, <- hview]
    exact ((Ring.view_perm q.mTable j).filterMap id).symm

theorem enqueueAll_skip_zero (calls : List (Bsd × Nat)) (q : MbufTxring Bsd) :
    (enqueueAll calls q).bind (skipSlots 0) = enqueueAll calls q := by
  cases enqueueAll calls q with
  | error e => rfl
  | ok q' => rfl

theorem enqueueAll_append (calls : List (Bsd × Nat)) (p : Bsd) (s : Nat) (q : MbufTxring Bsd) :
    enqueueAll (calls ++ [(p, s)]) q =
      (enqueueAll calls q).bind fun q' => ffTxringEnqueue q' (some p) s := by
  rw [enqueueAll_eq, enqueueAll_eq, allSlots, List.flatMap_append, List.flatMap_singleton,
    fill_append]
  congr 1
  funext q'
  exact (ffTxringEnqueue_eq q' (some p) s).symm

theorem slotsUsed_append (calls : List (Bsd × Nat)) (p : Bsd) (s : Nat) :
    slotsUsed (calls ++ [(p, s)]) = slotsUsed calls + s := by
  rw [slotsUsed, List.map_append, List.sum_append]
  rfl

theorem lastSlots_append (n : Nat) (calls : List (Bsd × Nat)) (p : Bsd) (s : Nat) :
    lastSlots n (calls ++ [(p, s)]) = lastSlots n calls ++ [(p, n + slotsUsed calls + s)] := by
  induction calls generalizing n with
  | nil => rfl
  | cons c calls ih =>
      rw [List.cons_append, lastSlots, ih, lastSlots, List.cons_append, Nat.add_assoc n]
      rfl

theorem expired_append (calls : List (Bsd × Nat)) (p : Bsd) (s : Nat) :
    expired (calls ++ [(p, s)]) (slotsUsed calls + s) = expired calls (slotsUsed calls + s) := by
  have hlast : ¬ decide (0 + slotsUsed calls + s + txQueueSize ≤ slotsUsed calls + s) = true := by
    intro hle
    have hle := of_decide_eq_true hle
    have hsize : 0 < txQueueSize := Nat.succ_pos 511
    omega
  rw [expired, lastSlots_append, List.filter_append, List.filter_cons, if_neg hlast,
    List.filter_nil, List.append_nil]
  rfl

theorem expired_split (h : ValidCalls calls) {a b : Nat} (hab : a ≤ b) :
    expired calls b = expired calls a ++ ((lastSlots 0 calls).filter fun e =>
      a < e.2 + txQueueSize ∧ e.2 + txQueueSize ≤ b).map Prod.fst := by
  rw [expired, expired, <- List.map_append]
  exact congrArg (List.map Prod.fst) (filter_split (lastSlots_increasing h 0) txQueueSize hab)

/-!
At any time between two calls, or when the next one has filled `i` slots, exactly the mbufs
whose last slot is one of the last 512 are in the ring, and all before them have been freed,
once each.  A call frees those for which it fills the 512th slot after their last one.
-/
theorem txring_delay (calls : List (Bsd × Nat)) (h : ValidCalls calls) :
    (forall i, i < txQueueSize ->
      exists q, (enqueueAll calls ffTxringInit).bind (skipSlots i) = .ok q ∧
        q.freed = expired calls (slotsUsed calls + i) ∧
        (List.ofFn q.mTable).reduceOption.Perm (waiting calls (slotsUsed calls + i))) ∧
    (forall (p : Bsd) (s : Nat), 1 ≤ s -> s ≤ txQueueSize ->
      exists q q', enqueueAll calls ffTxringInit = .ok q ∧ ffTxringEnqueue q (some p) s = .ok q' ∧
        q'.freed = q.freed ++ ((lastSlots 0 calls).filter fun e =>
          slotsUsed calls < e.2 + txQueueSize ∧
            e.2 + txQueueSize ≤ slotsUsed calls + s).map Prod.fst) := by
  constructor
  · intro i _
    exact enqueueAll_state h i
  · intro p s hs hle
    have hmore : ValidCalls (calls ++ [(p, s)]) := by
      intro c hc
      rcases List.mem_append.mp hc with hc | hc
      · exact h c hc
      · rw [List.mem_singleton.mp hc]
        exact ⟨hs, hle⟩
    rcases enqueueAll_state h 0 with ⟨q, hq, hfreed, _⟩
    rcases enqueueAll_state hmore 0 with ⟨q', hq', hfreed', _⟩
    rw [enqueueAll_skip_zero] at hq hq'
    rw [enqueueAll_append, hq] at hq'
    refine ⟨q, q', hq, hq', ?_⟩
    rw [hfreed', hfreed, Nat.add_zero, Nat.add_zero, slotsUsed_append, expired_append]
    exact expired_split h (Nat.le_add_right _ s)

theorem txring_delay_two :
    exists q, (enqueueAll [(7, 1), (8, 512)] ffTxringInit).bind (skipSlots 0) = .ok q ∧
      q.freed = [7] := by
  have hvalid : ValidCalls [(7, 1), (8, 512)] := by
    simp [ValidCalls, txQueueSize]
  rcases (txring_delay [(7, 1), (8, 512)] hvalid).1 0 (by decide) with ⟨q, hq, hfreed, _⟩
  exact ⟨q, hq, hfreed⟩

end PageArray
end FStackLite
