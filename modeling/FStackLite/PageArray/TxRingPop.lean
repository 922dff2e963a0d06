import FStackLite.PageArray.TxRing

/-!
# Taking an mbuf back from the transmit ring

`ff_txring_pop` goes back over the slots that the last call has filled.  Below the slot 0 it
does not find the end of the table, as `head` is an unsigned number.
-/

namespace FStackLite
namespace PageArray

open Foundation
open MbufTxring

variable {Bsd : Type}

/-!
## Straight runs of slots
-/

namespace MbufTxring

/-- The contents of `n` slots from the slot `k` on. -/
def slotsFrom (table : Fin txQueueSize -> Option Bsd) (k n : Nat) : List (Option Bsd) :=
  ((List.ofFn table).drop k).take n

variable {n i : Nat} {q : MbufTxring Bsd}

theorem mem_slotsFrom {table : Fin txQueueSize -> Option Bsd} {k : Nat} {a : Option Bsd}
    (h : a ∈ slotsFrom table k n) : exists i, table i = a :=
  (List.mem_ofFn' _ _).mp (List.mem_of_mem_drop (List.mem_of_mem_take h))

theorem slotsFrom_succ (table : Fin txQueueSize -> Option Bsd) (i : Fin txQueueSize) (n : Nat) :
    slotsFrom table i (n + 1) = table i :: slotsFrom table (i + 1) n := by
  have hlt : i.val < (List.ofFn table).length := by
    rw [List.length_ofFn]
    exact i.isLt
  rw [slotsFrom, List.drop_eq_getElem_cons hlt, List.take_succ_cons, List.getElem_ofFn]
  rfl

theorem slotsFrom_update (table : Fin txQueueSize -> Option Bsd) (i : Fin txQueueSize)
    (a : Option Bsd) (n : Nat) :
    slotsFrom (Function.update table i a) (i + 1) n = slotsFrom table (i + 1) n := by
  rw [slotsFrom, Ring.ofFn_update, List.drop_set_of_lt (Nat.lt_succ_self _)]
  rfl

theorem headInc_straight {h : UInt16} (hlt : h.toNat + 1 < txQueueSize) :
    (headInc h).toNat = h.toNat + 1 := by
  have hsucc : (h + 1).toNat = h.toNat + 1 := by
    rw [UInt16.toNat_add]
    exact Nat.mod_eq_of_lt (Nat.lt_trans hlt (by decide))
  rw [headInc, hsucc, if_neg (Nat.not_le.mpr hlt), hsucc]

theorem fill_straight {w : List (Option Bsd)} (h : q.head.toNat + w.length < txQueueSize) :
    exists q', fill w q = .ok q' ∧ q'.head.toNat = q.head.toNat + w.length ∧
      (forall i : Fin txQueueSize, i.val < q.head.toNat -> q'.mTable i = q.mTable i) ∧
      (forall (i : Fin txQueueSize) (k : Nat), i.val = q.head.toNat + k -> k < w.length ->
        w[k]? = some (q'.mTable i)) ∧
      q'.freed = q.freed ++ (slotsFrom q.mTable q.head.toNat w.length).reduceOption := by
  induction w generalizing q with
  | nil =>
      refine ⟨q, rfl, rfl, fun i _ => rfl, ?_, ?_⟩
      · intro i k _ hk
        contradiction
      · rw [slotsFrom, List.length_nil, List.take_zero, List.reduceOption_nil, List.append_nil]
  | cons a w ih =>
      rw [List.length_cons] at h
      have hlt : q.head.toNat < txQueueSize := by omega
      have hhead : (q.store ⟨_, hlt⟩ a).head.toNat = q.head.toNat + 1 := headInc_straight (by omega)
      rcases ih (q := q.store ⟨_, hlt⟩ a) (by omega) with ⟨q', hfill, hend, hbelow, hw, hfreed⟩
      rw [hhead] at hend hbelow hw hfreed
      refine ⟨q', ?_, ?_, ?_, ?_, ?_⟩
      · rw [fill, slot_eq hlt]
        exact hfill
      · rw [hend, List.length_cons]
        omega
      · intro i hi
        rw [hbelow i (Nat.lt_succ_of_lt hi)]
        exact Function.update_of_ne (fun heq => Nat.lt_irrefl _ (by rwa [heq] at hi)) _ _
      · intro i k hi hk
        cases k with
        | zero =>
            have hfirst : i = ⟨q.head.toNat, hlt⟩ := Fin.ext hi
            rw [hbelow i (by omega), hfirst, List.getElem?_cons_zero]
            exact congrArg some (Function.update_self (⟨_, hlt⟩ : Fin txQueueSize) a q.mTable).symm
        | succ k =>
            rw [List.getElem?_cons_succ]
            exact hw i k (by omega) (Nat.lt_of_succ_lt_succ hk)
      · rw [hfreed, List.length_cons, slotsFrom_succ q.mTable ⟨_, hlt⟩]
        rw [show (q.store ⟨_, hlt⟩ a).mTable = Function.update q.mTable ⟨_, hlt⟩ a from rfl,
          slotsFrom_update q.mTable ⟨_, hlt⟩ a]
        cases hentry : q.mTable ⟨_, hlt⟩ with
        | none => simp [store, hentry]
        | some b => simp [store, hentry]

theorem stepBack_pos (hn : q.head.toNat = n + 1) : q.stepBack.head.toNat = n := by
  have hle : (1 : UInt16) ≤ q.head := by
    rw [UInt16.le_iff_toNat_le, hn]
    exact Nat.le_add_left 1 n
  have hdec : (q.head - 1).toNat = n := by
    rw [UInt16.toNat_sub_of_le _ _ hle, hn]
    rfl
  rw [stepBack, headDec, if_neg (Int.not_lt.mpr (Int.natCast_nonneg _)), hdec]

theorem stepBack_slot (hn : q.head.toNat = n + 1) (hlt : n < txQueueSize) :
    q.stepBack.slot = .ok ⟨n, hlt⟩ := by
  have hback := stepBack_pos hn
  rw [slot_eq (hback ▸ hlt)]
  exact congrArg Except.ok (Fin.ext hback)

theorem popSlot_blank (hn : q.head.toNat = n + 1) (hlt : n < txQueueSize)
    (hblank : q.mTable ⟨n, hlt⟩ = none) (hi : i ≠ 0) : q.popSlot i = .ok q.stepBack := by
  simp only [popSlot, stepBack_slot hn hlt, hblank, hi, if_false]

theorem popSlot_first {b : Bsd} (hn : q.head.toNat = n + 1) (hlt : n < txQueueSize)
    (hentry : q.mTable ⟨n, hlt⟩ = some b) : q.popSlot 0 =
      .ok ⟨Function.update q.mTable ⟨n, hlt⟩ none, q.stepBack.head, q.freed ++ [b]⟩ := by
  simp only [popSlot, stepBack_slot hn hlt, hentry, Nat.lt_irrefl, if_false]

theorem popSlot_head {q' : MbufTxring Bsd} (h : q.popSlot i = .ok q') :
    q'.head = q.stepBack.head := by
  unfold popSlot at h
  split at h
  · contradiction
  · split at h
    · split at h
      · contradiction
      · injection h with h
        rw [<- h]
    · split at h
      · contradiction
      · injection h with h
        rw [<- h]

theorem popSlot_zero (hzero : q.head.toNat = 0) (i : Nat) : q.popSlot i = .error .outside := by
  have hhead : q.head = 0 := UInt16.toNat_inj.mp hzero
  have hback : q.stepBack.head.toNat = 65535 := by
    rw [stepBack, hhead]
    rfl
  have hslot : q.stepBack.slot = .error .outside := by
    apply dif_neg
    rw [hback]
    decide
  rw [popSlot, hslot]

theorem popSlots_blank (hi : i ≠ 0) (hn : n ≤ q.head.toNat) (hlt : q.head.toNat ≤ txQueueSize)
    (hblank : forall j : Fin txQueueSize, q.head.toNat ≤ j.val + n -> j.val < q.head.toNat ->
      q.mTable j = none) : exists q', popSlots n i q = .ok q' ∧ q'.head.toNat + n = q.head.toNat ∧
      q'.freed = q.freed := by
  induction n generalizing i q with
  | zero => exact ⟨q, rfl, rfl, rfl⟩
  | succ n ih =>
      rcases Nat.exists_eq_succ_of_ne_zero (Nat.ne_zero_of_lt hn) with ⟨m, hm⟩
      have hback := stepBack_pos hm
      have hlast : m < txQueueSize := by omega
      have hnone : q.mTable ⟨m, hlast⟩ = none := by
        apply hblank
        · show q.head.toNat ≤ m + (n + 1)
          omega
        · show m < q.head.toNat
          omega
      have hpop := popSlot_blank hm hlast hnone hi
      rcases ih (q := q.stepBack) (Nat.succ_ne_zero i) (by omega) (by omega)
        (fun j hj hj' => hblank j (by omega) (by omega)) with ⟨q', hq', hend, hfreed⟩
      refine ⟨q', ?_, ?_, hfreed⟩
      · rw [popSlots, hpop]
        exact hq'
      · omega

/-- No more slots can be popped than there are below `head`. -/
theorem popSlots_below {q' : MbufTxring Bsd} (hn : q.head.toNat < n)
    (hlt : q.head.toNat ≤ txQueueSize) : popSlots n i q ≠ .ok q' := by
  intro hpop
  induction n generalizing i q with
  | zero => contradiction
  | succ n ih =>
      rw [popSlots] at hpop
      cases hhead : q.head.toNat with
      | zero =>
          rw [popSlot_zero hhead] at hpop
          contradiction
      | succ m =>
          have hback := stepBack_pos hhead
          split at hpop
          · contradiction
          · next q1 hq1 =>
              rw [<- popSlot_head hq1] at hback
              exact ih (by omega) (by omega) hpop

end MbufTxring

namespace MbufTxring

theorem headInc_mod {h : UInt16} (hlt : h.toNat < txQueueSize) :
    (headInc h).toNat = (h.toNat + 1) % txQueueSize := by
  cases Nat.lt_or_ge (h.toNat + 1) txQueueSize with
  | inl hmore => rw [headInc_straight hmore, Nat.mod_eq_of_lt hmore]
  | inr hlast =>
      have hend : h.toNat + 1 = txQueueSize := Nat.le_antisymm hlt hlast
      have hsucc : (h + 1).toNat = txQueueSize := by
        rw [UInt16.toNat_add]
        exact (congrArg (· % 2 ^ 16) hend).trans (by decide)
      rw [headInc, hsucc, if_pos (Nat.le_refl _), hend, Nat.mod_self]
      rfl

theorem fill_head {w : List (Option Bsd)} {q q' : MbufTxring Bsd}
    (hlt : q.head.toNat < txQueueSize) (h : fill w q = .ok q') :
    q'.head.toNat = (q.head.toNat + w.length) % txQueueSize := by
  induction w generalizing q with
  | nil =>
      injection h with h
      rw [<- h, List.length_nil, Nat.add_zero, Nat.mod_eq_of_lt hlt]
  | cons a w ih =>
      rw [fill, slot_eq hlt] at h
      have hnext : (q.store ⟨_, hlt⟩ a).head.toNat = (q.head.toNat + 1) % txQueueSize :=
        headInc_mod hlt
      have hnextlt : (q.store ⟨_, hlt⟩ a).head.toNat < txQueueSize := by
        rw [hnext]
        exact Nat.mod_lt _ (by decide)
      rw [ih hnextlt h, hnext, Nat.mod_add_mod, List.length_cons, Nat.add_assoc,
        Nat.add_comm 1 w.length]

end MbufTxring

def enqueueAndPop (q : MbufTxring Bsd) (p : Bsd) (s : Nat) : Except TxringFault (MbufTxring Bsd) :=
  (ffTxringEnqueue q (some p) s).bind fun q' => ffTxringPop q' s

/-- The mbuf is freed once, and `head` is where it was. -/
def PopsBack [DecidableEq Bsd] (q : MbufTxring Bsd) (p : Bsd) (s : Nat) : Prop :=
  exists q' frees, enqueueAndPop q p s = .ok q' ∧ q'.head = q.head ∧
    q'.freed = q.freed ++ frees ∧ frees.count p = 1

theorem enqueueAndPop_straight {q : MbufTxring Bsd} (p : Bsd) {s : Nat} (hs : 1 ≤ s)
    (hend : q.head.toNat + s < txQueueSize) :
    exists q', enqueueAndPop q p s = .ok q' ∧ q'.head = q.head ∧
      q'.freed = q.freed ++ ((slotsFrom q.mTable q.head.toNat s).reduceOption ++ [p]) := by
  have hlength := length_callSlots (some p) hs
  rcases fill_straight (w := callSlots (some p) s) (by rwa [hlength]) with
    ⟨q1, hfill, hhead, _, hslots, hfreed⟩
  rw [hlength] at hhead hslots hfreed
  rcases Nat.exists_eq_add_of_le' hs with ⟨n, rfl⟩
  have hhead' : q1.head.toNat = q.head.toNat + n + 1 := hhead
  have hlt : q.head.toNat + n < txQueueSize := by omega
  have hlast : q1.mTable ⟨q.head.toNat + n, hlt⟩ = some p := by
    have hentry := hslots ⟨q.head.toNat + n, hlt⟩ n rfl (Nat.lt_succ_self n)
    rw [callSlots, List.getElem?_append_right (by simp), List.length_replicate] at hentry
    simpa using hentry.symm
  have hpop := popSlot_first hhead' hlt hlast
  have hback := stepBack_pos hhead'
  have hblank : forall j : Fin txQueueSize, q.head.toNat ≤ j.val -> j.val < q.head.toNat + n ->
      Function.update q1.mTable ⟨q.head.toNat + n, hlt⟩ none j = none := by
    intro j hj hj'
    have hne : j ≠ ⟨q.head.toNat + n, hlt⟩ := fun heq => Nat.lt_irrefl _ (by rwa [heq] at hj')
    have hentry := hslots j (j.val - q.head.toNat) (by omega) (by omega)
    rw [callSlots, List.getElem?_append_left (by rw [List.length_replicate]; omega),
      List.getElem?_replicate_of_lt (by omega)] at hentry
    rw [Function.update_of_ne hne]
    exact (Option.some.inj hentry).symm
  rcases popSlots_blank (n := n) (i := 1)
      (q := ⟨Function.update q1.mTable ⟨q.head.toNat + n, hlt⟩ none, q1.stepBack.head,
        q1.freed ++ [p]⟩)
      Nat.one_ne_zero (by simp only; omega) (by simp only; omega)
      (fun j hj hj' => hblank j (by simp only [hback] at hj; omega)
        (by simp only [hback] at hj'; omega)) with
    ⟨q', hq', hhead'', hfreed'⟩
  refine ⟨q', ?_, ?_, ?_⟩
  · rw [enqueueAndPop, ffTxringEnqueue_eq, hfill]
    show popSlots (n + 1) 0 q1 = .ok q'
    rw [popSlots, hpop]
    exact hq'
  · apply UInt16.toNat_inj.mp
    simp only [hback] at hhead''
    omega
  · rw [hfreed', hfreed, List.append_assoc]

theorem enqueueAndPop_wrapped {q : MbufTxring Bsd} (p : Bsd) {s : Nat} (hs : 1 ≤ s)
    (hle : s ≤ txQueueSize) (hlt : q.head.toNat < txQueueSize)
    (hend : txQueueSize ≤ q.head.toNat + s) (q' : MbufTxring Bsd) :
    enqueueAndPop q p s ≠ .ok q' := by
  rw [enqueueAndPop, ffTxringEnqueue_eq]
  cases hfill : fill (callSlots (some p) s) q with
  | error e =>
      intro h
      contradiction
  | ok q1 =>
      have hhead := fill_head hlt hfill
      rw [length_callSlots _ hs, Nat.mod_eq_sub_mod hend, Nat.mod_eq_of_lt (by omega)] at hhead
      exact popSlots_below (by rw [hhead, Int.toNat_natCast]; omega) (by omega)

theorem txring_pop_iff [DecidableEq Bsd] (q : MbufTxring Bsd) (p : Bsd) (s : Nat)
    (hhead : q.head.toNat < txQueueSize) (hs : 1 ≤ s) (hle : s ≤ txQueueSize) : PopsBack q p s <->
      q.head.toNat + s < txQueueSize ∧ some p ∉ slotsFrom q.mTable q.head.toNat s := by
  cases Nat.lt_or_ge (q.head.toNat + s) txQueueSize with
  | inr hend =>
      constructor
      · intro h
        rcases h with ⟨q', _, hq', _⟩
        exact absurd hq' (enqueueAndPop_wrapped p hs hle hhead hend q')
      · intro h
        exact absurd h.1 (Nat.not_lt.mpr hend)
  | inl hend =>
      rcases enqueueAndPop_straight p hs hend with ⟨q', hq', hback, hfreed⟩
      have hcount : forall frees, q'.freed = q.freed ++ frees ->
          frees.count p = (slotsFrom q.mTable q.head.toNat s).reduceOption.count p + 1 := by
        intro frees hfrees
        rw [hfreed] at hfrees
        rw [<- List.append_cancel_left hfrees, List.count_append, List.count_singleton_self]
      have hmem : some p ∉ slotsFrom q.mTable q.head.toNat s <->
          (slotsFrom q.mTable q.head.toNat s).reduceOption.count p = 0 := by
        rw [List.count_eq_zero, List.reduceOption_mem_iff]
      constructor
      · intro h
        rcases h with ⟨q'', frees, hq'', _, hfrees, hone⟩
        rw [hq'] at hq''
        injection hq'' with hq''
        have hfrees := hcount frees (hq''.symm ▸ hfrees)
        exact ⟨hend, hmem.mpr (by omega)⟩
      · intro h
        refine ⟨q', _, hq', hback, hfreed, ?_⟩
        rw [hcount _ hfreed, hmem.mp h.2]

theorem txring_pop_inside : PopsBack { (ffTxringInit : MbufTxring Nat) with head := 5 } 7 3 := by
  apply (txring_pop_iff _ 7 3 (by decide) (by decide) (by decide)).mpr
  refine ⟨by decide, ?_⟩
  intro hmem
  rcases mem_slotsFrom hmem with ⟨i, hi⟩
  exact Option.some_ne_none 7 hi.symm

/-- The last slot of the table is filled, so that `head` is 0 when it is taken back. -/
theorem txring_pop_wraps :
    enqueueAndPop { (ffTxringInit : MbufTxring Nat) with head := 511 } 7 1 = .error .outside ∧
      ¬ PopsBack { (ffTxringInit : MbufTxring Nat) with head := 511 } 7 1 := by
  have hfails : enqueueAndPop { (ffTxringInit : MbufTxring Nat) with head := 511 } 7 1 =
      .error .outside := rfl
  refine ⟨hfails, ?_⟩
  intro h
  rcases h with ⟨q', _, hq', _⟩
  rw [hfails] at hq'
  contradiction

end PageArray
end FStackLite
