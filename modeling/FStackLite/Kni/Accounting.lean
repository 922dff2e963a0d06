import FStackLite.RteRing
import Mathlib.Data.List.TakeDrop
import Mathlib.Tactic.Ring

/-!
# The counters of a kernel interface

Packets for the kernel are put on a ring by `ff_kni_enqueue` and handed over by `kni_process_tx`;
packets from the kernel are sent by `kni_process_rx`.  What is not accepted is freed, and four
counters of the port tell what became of the packets.
-/

namespace FStackLite
namespace Kni

variable {α : Type}

/-- `struct kni_interface_stats` -/
structure Stats where
  rxPackets : UInt64
  rxDropped : UInt64
  txPackets : UInt64
  txDropped : UInt64

inductive Fate where
  | forwarded
  | freed
deriving DecidableEq

/--
The port, and a record of it: the mbufs that were given to `ff_kni_enqueue` and those that came
from the kernel, and what became of them, in the order in which it happened.
-/
structure Port (α : Type) where
  stat : Stats
  ring : List α
  enqueued : List α
  received : List α
  rxDone : List (α × Fate)
  txDone : List (α × Fate)

/-- A burst of which some are accepted; the loop frees the others up to the number `nb`. -/
def settle (pkts : List α) (nb accepted : Nat) : List (α × Fate) :=
  (pkts.take accepted).map (·, .forwarded) ++ ((pkts.take nb).drop accepted).map (·, .freed)

def ffKniEnqueue (rte : RteRing) (pkt : α) (p : Port α) : Port α :=
  if rte.enqueues p.ring.length then
    { p with enqueued := p.enqueued ++ [pkt], ring := p.ring ++ [pkt] }
  else
    { p with enqueued := p.enqueued ++ [pkt], rxDone := p.rxDone ++ [(pkt, .freed)] }

/-- The numbers are `uint16_t`; `rte_kni_handle_request` has nothing to do with mbufs. -/
def kniProcessTx (rte : RteRing) (count visible kniAccepts : Nat) (p : Port α) : Port α :=
  let burst := rte.burst visible count p.ring.length
  let nbTx := burst % 2 ^ 16
  let nbKniTx := min kniAccepts nbTx
  let dropped :=
    if nbKniTx < nbTx then p.stat.rxDropped + UInt64.ofNat (nbTx - nbKniTx) else p.stat.rxDropped
  { p with
    stat :=
      { p.stat with
        rxDropped := dropped
        rxPackets := p.stat.rxPackets + UInt64.ofNat nbKniTx }
    ring := p.ring.drop burst
    rxDone := p.rxDone ++ settle (p.ring.take burst) nbTx nbKniTx }

def kniProcessRx (count : Nat) (fromKernel : List α) (nicAccepts : Nat) (p : Port α) : Port α :=
  let taken := fromKernel.take count
  let nbKniRx := taken.length % 2 ^ 16
  if 0 < nbKniRx then
    let nbRx := min nicAccepts nbKniRx
    let dropped :=
      if nbRx < nbKniRx then p.stat.txDropped + UInt64.ofNat (nbKniRx - nbRx) else p.stat.txDropped
    { p with
      stat :=
        { p.stat with
          txDropped := dropped
          txPackets := p.stat.txPackets + UInt64.ofNat nbRx }
      received := p.received ++ taken
      txDone := p.txDone ++ settle taken nbKniRx nbRx }
  else
    { p with received := p.received ++ taken }

/-!
## Calls
-/

inductive Call (α : Type) where
  | enqueue (pkt : α)
  | processTx (count visible kniAccepts : Nat)
  | processRx (count : Nat) (fromKernel : List α) (nicAccepts : Nat)

def Call.serve (rte : RteRing) (p : Port α) : Call α -> Port α
  | enqueue pkt => ffKniEnqueue rte pkt p
  | processTx count visible kniAccepts => kniProcessTx rte count visible kniAccepts p
  | processRx count fromKernel nicAccepts => kniProcessRx count fromKernel nicAccepts p

/-- The ring has room, and a burst is not more than a `uint16_t` counts. -/
def Call.Fits (rte : RteRing) (capacity : Nat) (p : Port α) : Call α -> Prop
  | enqueue _ => p.ring.length < capacity
  | processTx count visible _ => rte.burst visible count p.ring.length < 2 ^ 16
  | processRx count fromKernel _ => (fromKernel.take count).length < 2 ^ 16

def AllFit (rte : RteRing) (capacity : Nat) : List (Call α) -> Port α -> Prop
  | [], _ => True
  | c :: cs, p => c.Fits rte capacity p ∧ AllFit rte capacity cs (c.serve rte p)

def Throughout (rte : RteRing) (P : Port α -> Prop) : List (Call α) -> Port α -> Prop
  | [], p => P p
  | c :: cs, p => P p ∧ Throughout rte P cs (c.serve rte p)

def countOf (fate : Fate) (done : List (α × Fate)) : Nat :=
  done.countP fun d => d.2 = fate

/--
Every mbuf but those on the ring is forwarded or freed once and in order, and the counters have
grown by what was forwarded and freed.
-/
structure Accounted (start : Stats) (p : Port α) : Prop where
  rxOrder : p.rxDone.map Prod.fst ++ p.ring = p.enqueued
  txOrder : p.txDone.map Prod.fst = p.received
  rxPackets : p.stat.rxPackets = start.rxPackets + UInt64.ofNat (countOf .forwarded p.rxDone)
  txPackets : p.stat.txPackets = start.txPackets + UInt64.ofNat (countOf .forwarded p.txDone)
  dropped : p.stat.rxDropped + p.stat.txDropped =
    start.rxDropped + start.txDropped +
      UInt64.ofNat (countOf .freed p.rxDone + countOf .freed p.txDone)

def Port.start (stat : Stats) (ring : List α) : Port α where
  stat := stat
  ring := ring
  enqueued := ring
  received := []
  rxDone := []
  txDone := []

/-!
## Bursts
-/

section Bursts

variable {pkts : List α} {nb accepted : Nat}

theorem settle_map_fst (h : accepted ≤ nb) :
    (settle pkts nb accepted).map Prod.fst = pkts.take nb := by
  have hfirst : pkts.take accepted = (pkts.take nb).take accepted := by
    rw [List.take_take, Nat.min_eq_left h]
  rw [settle, List.map_append, List.map_map, List.map_map]
  simp only [Function.comp_def, List.map_id']
  rw [hfirst, List.take_append_drop]

theorem countOf_append (fate : Fate) (done done' : List (α × Fate)) :
    countOf fate (done ++ done') = countOf fate done + countOf fate done' :=
  List.countP_append

theorem countOf_map (fate fate' : Fate) (pkts : List α) :
    countOf fate (pkts.map (·, fate')) = if fate' = fate then pkts.length else 0 := by
  rw [countOf, List.countP_map]
  split
  · next h =>
      simp [Function.comp_def, h]
  · next h =>
      simp [Function.comp_def, h]

theorem countOf_forwarded_settle (h : accepted ≤ nb) (hnb : nb ≤ pkts.length) :
    countOf .forwarded (settle pkts nb accepted) = accepted := by
  rw [settle, countOf_append, countOf_map, countOf_map, if_pos rfl, if_neg (by decide),
    Nat.add_zero, List.length_take, Nat.min_eq_left (Nat.le_trans h hnb)]

theorem countOf_freed_settle (hnb : nb ≤ pkts.length) :
    countOf .freed (settle pkts nb accepted) = nb - accepted := by
  rw [settle, countOf_append, countOf_map, countOf_map, if_neg (by decide), if_pos rfl,
    Nat.zero_add, List.length_drop, List.length_take, Nat.min_eq_left hnb]

theorem add_dropped (v : UInt64) (n m : Nat) :
    (if n < m then v + UInt64.ofNat (m - n) else v) = v + UInt64.ofNat (m - n) := by
  split
  · rfl
  · next h =>
      rw [Nat.sub_eq_zero_of_le (Nat.not_lt.mp h)]
      exact (UInt64.add_zero v).symm

end Bursts

/-!
## Steps
-/

section Steps

variable {rte : RteRing} {capacity : Nat} {start : Stats} {p : Port α}

theorem accounted_enqueue_iff (hdoc : rte.Documented capacity) (h : Accounted start p) (pkt : α) :
    Accounted start (ffKniEnqueue rte pkt p) <-> p.ring.length < capacity := by
  rw [<- hdoc.enqueue]
  constructor
  · intro hafter
    by_contra hfull
    have hdropped := hafter.dropped
    rw [ffKniEnqueue, if_neg hfull] at hdropped
    simp only at hdropped
    rw [h.dropped, countOf_append, Nat.add_right_comm, UInt64.add_right_inj,
      UInt64.ofNat_add _ (countOf .freed [_]), UInt64.left_eq_add] at hdropped
    have hone : (1 : UInt64) = 0 := hdropped
    exact absurd hone (by decide)
  · intro hroom
    rw [ffKniEnqueue, if_pos hroom]
    refine ⟨?_, h.txOrder, h.rxPackets, h.txPackets, h.dropped⟩
    simp only
    rw [<- List.append_assoc, h.rxOrder]

theorem take_mod_eq_iff (pkts : List α) :
    pkts.take (pkts.length % 2 ^ 16) = pkts <-> pkts.length < 2 ^ 16 := by
  rw [List.take_eq_self_iff]
  omega

theorem mod_le_length (pkts : List α) : pkts.length % 2 ^ 16 ≤ pkts.length :=
  Nat.mod_le _ _

theorem accounted_processTx_iff (hdoc : rte.Documented capacity) (h : Accounted start p)
    (count visible kniAccepts : Nat) :
    Accounted start (kniProcessTx rte count visible kniAccepts p) <->
      rte.burst visible count p.ring.length < 2 ^ 16 := by
  have hle := Nat.le_trans (hdoc.burst visible count p.ring.length) (Nat.min_le_right _ _)
  unfold kniProcessTx
  generalize rte.burst visible count p.ring.length = burst at hle ⊢
  have htaken : (p.ring.take burst).length = burst := List.length_take_of_le hle
  have hring := List.take_append_drop burst p.ring
  have hnb : burst % 2 ^ 16 ≤ (p.ring.take burst).length := by
    rw [htaken]
    exact Nat.mod_le _ _
  have hshort := take_mod_eq_iff (p.ring.take burst)
  have haccepted := Nat.min_le_right kniAccepts (burst % 2 ^ 16)
  rw [htaken] at hshort
  rw [<- hshort]
  constructor
  · intro hafter
    have horder := hafter.rxOrder
    simp only [List.map_append, settle_map_fst haccepted] at horder
    rw [List.append_assoc, <- h.rxOrder, List.append_cancel_left_eq] at horder
    exact List.append_cancel_right (horder.trans hring.symm)
  · intro hall
    refine ⟨?_, h.txOrder, ?_, h.txPackets, ?_⟩
    · simp only [List.map_append, settle_map_fst haccepted, hall]
      rw [List.append_assoc, hring, h.rxOrder]
    · simp only [countOf_append, countOf_forwarded_settle haccepted hnb]
      rw [h.rxPackets, UInt64.ofNat_add, UInt64.add_assoc]
    · simp only [countOf_append, countOf_freed_settle hnb, add_dropped]
      rw [UInt64.add_assoc, UInt64.add_comm (UInt64.ofNat _), <- UInt64.add_assoc, h.dropped,
        Nat.add_right_comm, UInt64.ofNat_add _ (_ - _), UInt64.add_assoc]

theorem accounted_processRx_iff (h : Accounted start p) (count : Nat) (fromKernel : List α)
    (nicAccepts : Nat) : Accounted start (kniProcessRx count fromKernel nicAccepts p) <->
      (fromKernel.take count).length < 2 ^ 16 := by
  have hnb := mod_le_length (fromKernel.take count)
  have haccepted := Nat.min_le_right nicAccepts ((fromKernel.take count).length % 2 ^ 16)
  rw [<- take_mod_eq_iff]
  simp only [kniProcessRx]
  split
  · constructor
    · intro hafter
      have horder := hafter.txOrder
      simp only [List.map_append, settle_map_fst haccepted] at horder
      rw [<- h.txOrder] at horder
      exact List.append_cancel_left horder
    · intro hall
      refine ⟨h.rxOrder, ?_, h.rxPackets, ?_, ?_⟩
      · simp only [List.map_append, settle_map_fst haccepted, hall, h.txOrder]
      · simp only [countOf_append, countOf_forwarded_settle haccepted hnb]
        rw [h.txPackets, UInt64.ofNat_add, UInt64.add_assoc]
      · simp only [countOf_append, countOf_freed_settle hnb, add_dropped]
        rw [<- UInt64.add_assoc, h.dropped, <- Nat.add_assoc, UInt64.ofNat_add _ (_ - _),
          UInt64.add_assoc]
  · next hzero =>
      have hnone : (fromKernel.take count).length % 2 ^ 16 = 0 := Nat.eq_zero_of_not_pos hzero
      rw [hnone, List.take_zero]
      constructor
      · intro hafter
        have horder := hafter.txOrder
        simp only at horder
        rw [h.txOrder, List.self_eq_append_right] at horder
        exact horder.symm
      · intro hempty
        refine ⟨h.rxOrder, ?_, h.rxPackets, h.txPackets, h.dropped⟩
        simp only
        rw [<- hempty, List.append_nil, h.txOrder]

theorem accounted_serve_iff (hdoc : rte.Documented capacity) (h : Accounted start p) (c : Call α) :
    Accounted start (c.serve rte p) <-> c.Fits rte capacity p := by
  cases c with
  | enqueue pkt => exact accounted_enqueue_iff hdoc h pkt
  | processTx count visible kniAccepts =>
      exact accounted_processTx_iff hdoc h count visible kniAccepts
  | processRx count fromKernel nicAccepts =>
      exact accounted_processRx_iff h count fromKernel nicAccepts

theorem throughout_iff_allFit (hdoc : rte.Documented capacity) (h : Accounted start p)
    (calls : List (Call α)) :
    Throughout rte (Accounted start) calls p <-> AllFit rte capacity calls p := by
  induction calls generalizing p with
  | nil => exact iff_of_true h trivial
  | cons c calls ih =>
      constructor
      · intro hrun
        have hnext : Accounted start (c.serve rte p) := by
          cases calls with
          | nil => exact hrun.2
          | cons _ _ => exact hrun.2.1
        exact ⟨(accounted_serve_iff hdoc h c).mp hnext, (ih hnext).mp hrun.2⟩
      · intro hfits
        have hnext := (accounted_serve_iff hdoc h c).mpr hfits.1
        exact ⟨h, (ih hnext).mpr hfits.2⟩

end Steps

theorem accounted_start (stat : Stats) (ring : List α) : Accounted stat (Port.start stat ring) where
  rxOrder := rfl
  txOrder := rfl
  rxPackets := (UInt64.add_zero _).symm
  txPackets := (UInt64.add_zero _).symm
  dropped := (UInt64.add_zero _).symm

/--
All the way through a sequence of calls every mbuf is accounted for if and only if each mbuf that
is enqueued finds room on the ring and each burst is one that a `uint16_t` counts.
-/
theorem kni_conservation_iff (rte : RteRing) (capacity : Nat) (hdoc : rte.Documented capacity)
    (stat : Stats) (ring : List α) (calls : List (Call α)) :
    Throughout rte (Accounted stat) calls (Port.start stat ring) <->
      AllFit rte capacity calls (Port.start stat ring) :=
  throughout_iff_allFit hdoc (accounted_start stat ring) calls

/-- The kernel takes one mbuf of two; a third comes later, and one from the kernel is sent. -/
theorem kni_conservation_burst : Throughout (.ofCapacity 2) (Accounted ⟨0, 0, 0, 0⟩)
      [.enqueue 1, .enqueue 2, .processTx 32 2 1, .enqueue 3, .processRx 32 [4] 1]
      (Port.start ⟨0, 0, 0, 0⟩ ([] : List Nat)) :=
  (kni_conservation_iff _ 2 (RteRing.ofCapacity_documented 2) _ _ _).mpr
    ⟨(by decide : 0 < 2), (by decide : 1 < 2), (by decide : 2 < 2 ^ 16), (by decide : 0 < 2),
      (by decide : 1 < 2 ^ 16), trivial⟩

/-- The second mbuf does not find room on a ring of one, and no counter tells that it is freed. -/
theorem kni_full_ring :
    ((Call.enqueue 2).serve (.ofCapacity 1) ((Call.enqueue 1).serve (.ofCapacity 1)
        (Port.start ⟨0, 0, 0, 0⟩ []))).rxDone = [(2, Fate.freed)] ∧
      ((Call.enqueue 2).serve (.ofCapacity 1) ((Call.enqueue 1).serve (.ofCapacity 1)
        (Port.start ⟨0, 0, 0, 0⟩ []))).stat = ⟨0, 0, 0, 0⟩ ∧
      ¬ Throughout (.ofCapacity 1) (Accounted ⟨0, 0, 0, 0⟩) [.enqueue 1, .enqueue 2]
        (Port.start ⟨0, 0, 0, 0⟩ ([] : List Nat)) := by
  refine ⟨rfl, rfl, ?_⟩
  intro h
  have hdropped := h.2.2.dropped
  contradiction

end Kni
end FStackLite
