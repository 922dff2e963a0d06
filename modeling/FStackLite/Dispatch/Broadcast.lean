import FStackLite.Constants
import FStackLite.Dispatch.Process
import Mathlib.Algebra.Order.BigOperators.Group.List
import Mathlib.Algebra.Order.Ring.Nat
import Mathlib.Data.List.Count
import Mathlib.Data.List.Nodup
import Mathlib.Logic.Function.Basic

/-!
# Neighbour discovery on all queues

Each queue of a port is served by a process of its own, with its own stack.  A packet that
asks for neighbours, or answers, is meant for all of them.  The queues exchange packets
through rings, one for each queue, which the processes empty in between their other work.
-/

namespace FStackLite
namespace Dispatch

/-!
## Routes

Where a packet goes if no allocation fails and every ring has room.
-/

def plentiful : Env :=
  ⟨fun _ => true, fun _ => true⟩

def IsNeighbour (inet6 : Bool) (p : Packet) : Prop :=
  p.filter = .arp ∨ (inet6 = true ∧ p.filter = .ndp)

instance (inet6 : Bool) (p : Packet) : Decidable (IsNeighbour inet6 p) :=
  inferInstanceAs (Decidable (p.filter = .arp ∨ (inet6 = true ∧ p.filter = .ndp)))

def Config.otherQueues (cfg : Config) : List Nat :=
  (if cfg.pktsFromRing then [] else List.range cfg.nbQueues).filter (· ≠ cfg.queueId)

def deliverRoutes (cfg : Config) (p : Packet) : List Dest :=
  if IsNeighbour cfg.inet6 p then
    cfg.otherQueues.map (fun j => .ring j) ++
      (if cfg.kni && cfg.enableKni && cfg.primary then [.kni] else []) ++ [.stack]
  else if cfg.kni && cfg.enableKni &&
      ((p.filter = .kni && cfg.kniAccept) || (p.filter = .unknown && !cfg.kniAccept)) then
    [.kni]
  else
    [.stack]

def routes (cfg : Config) (p : Packet) : List Dest :=
  if cfg.asksDispatcher then
    if p.dispatch = dispatchResponse then
      [.transmit]
    else if p.dispatch = dispatchError ∨ (cfg.nbQueues : Int) ≤ p.dispatch then
      [.free]
    else if p.dispatch ≠ cfg.queueId then
      [.ring p.dispatch]
    else
      deliverRoutes cfg p
  else
    deliverRoutes cfg p

def St.dests (st : St) : List Dest :=
  st.given.map Prod.snd

section

variable (b : Buf) (d : Dest) (st : St)

theorem dests_give : (give b d st).dests = st.dests ++ [d] := by
  simp [St.dests, give]

theorem dests_ffKniEnqueue : (ffKniEnqueue plentiful b st).dests = st.dests ++ [.kni] :=
  dests_give b .kni _

theorem dests_dispatchTo (index : Int) :
    (dispatchTo plentiful index b st).dests = st.dests ++ [.ring index] :=
  dests_give b (.ring index) _

theorem cloneSegs_complete (more : Nat) (segs : List Nat) (allocs : Nat) :
    (cloneSegs plentiful more segs allocs).2.1 = true := by
  induction more generalizing segs allocs with
  | zero => rfl
  | succ more ih => exact ih (segs ++ [allocs]) (allocs + 1)

theorem dests_cloneTo (moreSegs : Nat) {hand : Buf -> St -> St}
    (hhand : forall b st, (hand b st).dests = st.dests ++ [d]) :
    (cloneTo plentiful moreSegs hand st).dests = st.dests ++ [d] := by
  have hclone : exists clone st', pktmbufDeepClone plentiful moreSegs st = (some clone, st') ∧
      st'.given = st.given := by
    refine ⟨.clone (cloneSegs plentiful moreSegs [st.allocs] (st.allocs + 1)).1, { st with
      allocs := (cloneSegs plentiful moreSegs [st.allocs] (st.allocs + 1)).2.2
      made := st.made ++ [(cloneSegs plentiful moreSegs [st.allocs] (st.allocs + 1)).1] }, ?_, rfl⟩
    unfold pktmbufDeepClone
    simp only [cloneSegs_complete, if_true]
    rfl
  rcases hclone with ⟨clone, st', hclone, hgiven⟩
  rw [cloneTo, hclone]
  show (hand clone st').dests = _
  rw [hhand, St.dests, hgiven]
  rfl

theorem dests_cloneToQueues (queueId moreSegs : Nat) (queues : List Nat) :
    (cloneToQueues plentiful queueId moreSegs queues st).dests =
      st.dests ++ (queues.filter (· ≠ queueId)).map fun j => .ring j := by
  induction queues generalizing st with
  | nil => simp [cloneToQueues]
  | cons j rest ih =>
      unfold cloneToQueues
      split
      · next hj =>
          rw [ih, List.filter_cons_of_neg (by simp [hj])]
      · next hj =>
          rw [ih, dests_cloneTo (.ring j) st moreSegs (fun b st => dests_dispatchTo b st j),
            List.filter_cons_of_pos (by simp [hj]), List.map_cons, List.append_assoc]
          rfl

theorem dests_deliver (cfg : Config) (i : Nat) (p : Packet) :
    (deliver plentiful cfg i p st).dests = st.dests ++ deliverRoutes cfg p := by
  unfold deliver deliverRoutes IsNeighbour
  split
  · dsimp only
    split
    · rw [dests_give, dests_cloneTo .kni _ p.moreSegs dests_ffKniEnqueue, dests_cloneToQueues]
      simp only [Config.otherQueues, List.append_assoc]
    · rw [dests_give, dests_cloneToQueues]
      simp only [Config.otherQueues, List.append_assoc, List.append_nil]
  · split
    · exact dests_ffKniEnqueue (.input i) st
    · exact dests_give (.input i) .stack st

theorem dests_processPacket (cfg : Config) (i : Nat) (p : Packet) :
    (processPacket plentiful cfg i p st).dests = st.dests ++ routes cfg p := by
  unfold processPacket routes
  split
  · split
    · exact dests_give (.input i) .transmit st
    · split
      · exact dests_give (.input i) .free st
      · split
        · exact dests_dispatchTo (.input i) st p.dispatch
        · exact dests_deliver st cfg i p
  · exact dests_deliver st cfg i p

end

theorem dests_processFrom (cfg : Config) (bufs : List Packet) (i : Nat) (st : St) :
    (processFrom plentiful cfg i bufs st).dests = st.dests ++ bufs.flatMap (routes cfg) := by
  induction bufs generalizing i st with
  | nil => exact (List.append_nil _).symm
  | cons p rest ih =>
      rw [processFrom, ih, dests_processPacket, List.append_assoc, List.flatMap_cons]

theorem dests_processPackets (cfg : Config) (bufs : List Packet) :
    (processPackets plentiful cfg bufs).dests = bufs.flatMap (routes cfg) :=
  dests_processFrom cfg bufs 0 St.start

/-!
## The queues of a port
-/

/-- What the processes have in common, and which of them is the primary one. -/
structure Setup where
  nbQueues : Nat
  dispatcher : Bool
  inet6 : Bool
  kni : Bool
  enableKni : Bool
  kniAccept : Bool
  primary : Nat -> Bool

def Setup.config (setup : Setup) (queueId : Nat) (pktsFromRing : Bool) : Config where
  nbQueues := setup.nbQueues
  queueId := queueId
  pktsFromRing := pktsFromRing
  dispatcher := setup.dispatcher
  inet6 := setup.inet6
  kni := setup.kni
  enableKni := setup.enableKni
  kniAccept := setup.kniAccept
  primary := setup.primary queueId

structure Frame where
  id : Nat
  packet : Packet
deriving DecidableEq, Repr

structure Net where
  rings : Nat -> List Frame
  delivered : Nat -> List Frame

def Net.start : Net :=
  ⟨fun _ => [], fun _ => []⟩

def Net.enqueue (net : Net) (index : Int) (f : Frame) : Net :=
  if 0 ≤ index then
    { net with rings := Function.update net.rings index.toNat (net.rings index.toNat ++ [f]) }
  else
    net

def Net.ffVethInput (net : Net) (queueId : Nat) (f : Frame) : Net :=
  { net with delivered := Function.update net.delivered queueId (net.delivered queueId ++ [f]) }

def Net.handOn (queueId : Nat) (f : Frame) (net : Net) : Dest -> Net
  | .ring index => net.enqueue index f
  | .stack => net.ffVethInput queueId f
  | _ => net

/-- The process of a queue goes through a packet of its hardware queue or of its ring. -/
def Net.process (setup : Setup) (queueId : Nat) (pktsFromRing : Bool) (net : Net) (f : Frame) :
    Net :=
  (processPackets plentiful (setup.config queueId pktsFromRing) [f.packet]).dests.foldl
    (Net.handOn queueId f) net

def Net.processDispatchRing (setup : Setup) (queueId : Nat) (net : Net) : Net :=
  ((net.rings queueId).take maxPktBurst).foldl (Net.process setup queueId true)
    { net with rings := Function.update net.rings queueId ((net.rings queueId).drop maxPktBurst) }

inductive Action where
  | receive (queueId : Nat) (f : Frame)
  | drain (queueId : Nat)

def Net.step (setup : Setup) (net : Net) : Action -> Net
  | .receive queueId f => net.process setup queueId false f
  | .drain queueId => net.processDispatchRing setup queueId

def Net.run (setup : Setup) (actions : List Action) : Net :=
  actions.foldl (Net.step setup) Net.start

def receptions (f : Frame) (actions : List Action) : List Nat :=
  actions.filterMap fun
    | .receive queueId g => if g = f then some queueId else none
    | .drain _ => none

/-!
## Copies
-/

section

variable (queueId : Nat) (f g : Frame) (net : Net) (j : Nat)

theorem count_update {α : Type} [DecidableEq α] (lists : Nat -> List α) (i j : Nat) (a b : α) :
    (Function.update lists i (lists i ++ [a]) j).count b =
      (lists j).count b + if a = b ∧ i = j then 1 else 0 := by
  by_cases hi : i = j
  · subst hi
    rw [Function.update_self, List.count_append, List.count_singleton]
    simp only [beq_iff_eq, and_true]
  · rw [Function.update_of_ne (Ne.symm hi), if_neg (fun h => hi h.2), Nat.add_zero]

theorem count_handOn_ring (d : Dest) : ((net.handOn queueId g d).rings j).count f =
      (net.rings j).count f + if g = f ∧ d = .ring j then 1 else 0 := by
  cases d with
  | ring index =>
      have hindex : Dest.ring index = .ring j <-> 0 ≤ index ∧ index.toNat = j := by
        rw [Dest.ring.injEq]
        omega
      simp only [hindex]
      rw [Net.handOn, Net.enqueue]
      split
      · next hpos =>
          simp only [count_update, hpos, true_and]
      · next hneg =>
          rw [if_neg (fun h => hneg h.2.1), Nat.add_zero]
  | _ => simp [Net.handOn, Net.ffVethInput]

theorem count_handOn_stack (d : Dest) : ((net.handOn queueId g d).delivered j).count f =
      (net.delivered j).count f + if (g = f ∧ queueId = j) ∧ d = .stack then 1 else 0 := by
  cases d with
  | stack =>
      rw [Net.handOn, Net.ffVethInput, count_update]
      simp only [and_true]
  | ring index =>
      rw [Net.handOn, Net.enqueue]
      split
      · simp
      · simp
  | _ => simp [Net.handOn]

/-- A count that goes up with each copy for `e` counts the copies for `e`. -/
theorem count_foldl_handOn {m : Net -> Nat} {counted : Prop} [Decidable counted] {e : Dest}
    (hstep : forall net d, m (net.handOn queueId g d) =
      m net + if counted ∧ d = e then 1 else 0) (ds : List Dest) :
    m (ds.foldl (Net.handOn queueId g) net) = m net + if counted then ds.count e else 0 := by
  induction ds generalizing net with
  | nil => simp
  | cons d ds ih =>
      rw [List.foldl_cons, ih, hstep, List.count_cons, Nat.add_assoc]
      congr 1
      cases Decidable.em counted with
      | inl hcounted => simp [hcounted, Nat.add_comm]
      | inr hcounted => simp only [hcounted, if_false, false_and]

theorem count_process_ring (setup : Setup) (pktsFromRing : Bool) :
    ((net.process setup queueId pktsFromRing g).rings j).count f = (net.rings j).count f +
        if g = f then (routes (setup.config queueId pktsFromRing) g.packet).count (.ring j)
        else 0 := by
  rw [Net.process, dests_processPackets, List.flatMap_singleton]
  exact count_foldl_handOn queueId g net (m := fun net => (net.rings j).count f)
    (fun net d => count_handOn_ring queueId f g net j d) _

theorem count_process_stack (setup : Setup) (pktsFromRing : Bool) :
    ((net.process setup queueId pktsFromRing g).delivered j).count f = (net.delivered j).count f +
        if g = f ∧ queueId = j then
          (routes (setup.config queueId pktsFromRing) g.packet).count .stack
        else 0 := by
  rw [Net.process, dests_processPackets, List.flatMap_singleton]
  exact count_foldl_handOn queueId g net (m := fun net => (net.delivered j).count f)
    (fun net d => count_handOn_stack queueId f g net j d) _

end

/-!
## Routes of neighbour packets
-/

section

variable {setup : Setup} {queueId : Nat} {p : Packet}

theorem ring_not_mem_routes (index : Int) : .ring index ∉ routes (setup.config queueId true) p := by
  have hnone : (setup.config queueId true).otherQueues = [] := rfl
  have hring : .ring index ∉ deliverRoutes (setup.config queueId true) p := by
    unfold deliverRoutes
    rw [hnone]
    split
    · split
      · simp
      · simp
    · split
      · simp
      · simp
  exact hring

theorem count_kni {e : Dest} (he : e ≠ .kni) (c : Bool) :
    (if c then [Dest.kni] else []).count e = 0 := by
  cases c with
  | false => rfl
  | true =>
      exact List.count_eq_zero.mpr fun hmem => he (List.mem_singleton.mp hmem)

theorem count_stack_deliverRoutes {cfg : Config} (h : IsNeighbour cfg.inet6 p) :
    (deliverRoutes cfg p).count .stack = 1 := by
  rw [deliverRoutes, if_pos h, List.count_append, List.count_append]
  have hrings : (cfg.otherQueues.map fun (j : Nat) => Dest.ring j).count .stack = 0 := by
    rw [List.count_eq_zero, List.mem_map]
    rintro ⟨j, _, hj⟩
    contradiction
  rw [hrings, count_kni (by simp)]
  rfl

theorem count_ring_deliverRoutes {j : Nat} (hj : j < setup.nbQueues)
    (h : IsNeighbour setup.inet6 p) :
    (deliverRoutes (setup.config queueId false) p).count (.ring j) =
      if queueId = j then 0 else 1 := by
  have hinj : Function.Injective fun (i : Nat) => Dest.ring i := by
    intro i i' hi
    injection hi with hi
    exact Int.ofNat_inj.mp hi
  have hqueues : (setup.config queueId false).otherQueues =
      (List.range setup.nbQueues).filter (· ≠ queueId) := rfl
  have hother : (setup.config queueId false).otherQueues.count j = if queueId = j then 0 else 1 := by
    rw [hqueues, (List.nodup_range.filter _).count]
    simp only [List.mem_filter, List.mem_range, hj, true_and, decide_eq_true_eq, ne_eq]
    split
    · next hne =>
        rw [if_neg (Ne.symm hne)]
    · next heq =>
        rw [if_pos (Decidable.not_not.mp heq).symm]
  have hneighbour : IsNeighbour (setup.config queueId false).inet6 p := h
  rw [deliverRoutes, if_pos hneighbour, List.count_append, List.count_append,
    List.count_map_of_injective _ _ hinj j, hother,
    count_kni (by simp)]
  rfl

def Kept (setup : Setup) (p : Packet) (queueId : Nat) : Prop :=
  setup.dispatcher = false ∨ p.dispatch = queueId

instance (setup : Setup) (p : Packet) (queueId : Nat) : Decidable (Kept setup p queueId) :=
  inferInstanceAs (Decidable (setup.dispatcher = false ∨ p.dispatch = queueId))

def Ranged (setup : Setup) (p : Packet) : Prop :=
  setup.dispatcher = true -> 0 ≤ p.dispatch ∧ p.dispatch < setup.nbQueues

theorem routes_in_range (h : Ranged setup p) : routes (setup.config queueId false) p =
      if Kept setup p queueId then deliverRoutes (setup.config queueId false) p
      else [.ring p.dispatch] := by
  have hasks : (setup.config queueId false).asksDispatcher = setup.dispatcher := rfl
  rw [routes, hasks]
  cases hdispatcher : setup.dispatcher with
  | false =>
      have hkept : Kept setup p queueId := Or.inl hdispatcher
      rw [if_pos hkept]
      rfl
  | true =>
      rcases h hdispatcher with ⟨hpos, hlt⟩
      have hresponse : p.dispatch ≠ dispatchResponse := by
        unfold dispatchResponse
        omega
      have herror : ¬ (p.dispatch = dispatchError ∨
          ((setup.config queueId false).nbQueues : Int) ≤ p.dispatch) := by
        show ¬ (p.dispatch = dispatchError ∨ (setup.nbQueues : Int) ≤ p.dispatch)
        unfold dispatchError
        omega
      rw [if_pos rfl, if_neg hresponse, if_neg herror]
      cases Decidable.em (p.dispatch = queueId) with
      | inl hown =>
          have hkept : Kept setup p queueId := Or.inr hown
          rw [if_pos hkept, if_neg]
          exact fun hother => hother hown
      | inr hother =>
          have hmoved : ¬ Kept setup p queueId := by
            rintro (hnone | hown)
            · rw [hdispatcher] at hnone
              contradiction
            · exact hother hown
          rw [if_neg hmoved, if_pos]
          exact hother

/-- The copies of a neighbour packet that the process of `queueId` makes for queue `j`. -/
def share (setup : Setup) (p : Packet) (j queueId : Nat) : Nat :=
  if Kept setup p queueId ∨ p.dispatch = j then 1 else 0

theorem copies_routes {j : Nat} (hj : j < setup.nbQueues)
    (h : IsNeighbour setup.inet6 p) (hrange : Ranged setup p) :
    (routes (setup.config queueId false) p).count (.ring j) +
        (if queueId = j then (routes (setup.config queueId false) p).count .stack else 0) =
      share setup p j queueId := by
  by_cases hkept : Kept setup p queueId
  · rw [routes_in_range hrange, if_pos hkept, count_ring_deliverRoutes hj h, count_stack_deliverRoutes h,
      share, if_pos (Or.inl hkept)]
    split
    · rfl
    · rfl
  · rw [routes_in_range hrange, if_neg hkept, share, List.count_singleton]
    simp [hkept]

end

/-!
## Drains
-/

section

variable {setup : Setup} {queueId : Nat} {net : Net} {f : Frame}

theorem foldl_handOn_rings {ds : List Dest} (h : forall index, .ring index ∉ ds) :
    (ds.foldl (Net.handOn queueId f) net).rings = net.rings := by
  induction ds generalizing net with
  | nil => rfl
  | cons d ds ih =>
      rw [List.foldl_cons, ih fun index hmem => h index (List.mem_cons_of_mem d hmem)]
      cases d with
      | ring index => exact absurd List.mem_cons_self (h index)
      | _ => rfl

theorem process_rings (f : Frame) : (net.process setup queueId true f).rings = net.rings := by
  rw [Net.process, dests_processPackets, List.flatMap_singleton]
  exact foldl_handOn_rings ring_not_mem_routes

theorem foldl_process_rings (frames : List Frame) :
    (frames.foldl (Net.process setup queueId true) net).rings = net.rings := by
  induction frames generalizing net with
  | nil => rfl
  | cons f frames ih => rw [List.foldl_cons, ih, process_rings]

theorem drain_rings (setup : Setup) (net : Net) (queueId : Nat) :
    (net.processDispatchRing setup queueId).rings =
      Function.update net.rings queueId ((net.rings queueId).drop maxPktBurst) :=
  foldl_process_rings _

theorem routes_from_ring (p : Packet) :
    routes (setup.config queueId true) p = deliverRoutes (setup.config queueId true) p :=
  rfl

theorem count_foldl_process_stack (h : IsNeighbour setup.inet6 f.packet) (frames : List Frame)
    (j : Nat) : ((frames.foldl (Net.process setup queueId true) net).delivered j).count f =
      (net.delivered j).count f + if queueId = j then frames.count f else 0 := by
  induction frames generalizing net with
  | nil => simp
  | cons g frames ih =>
      rw [List.foldl_cons, ih, count_process_stack, List.count_cons]
      by_cases hj : queueId = j
      · by_cases hg : g = f
        · subst hg
          have hone : (routes (setup.config queueId true) g.packet).count .stack = 1 := by
            rw [routes_from_ring]
            exact count_stack_deliverRoutes h
          simp only [hj, and_self, if_true, beq_self_eq_true]
          rw [<- hj, hone]
          omega
        · simp [hj, hg]
      · simp [hj]

def Net.copies (net : Net) (f : Frame) (j : Nat) : Nat :=
  (net.rings j).count f + (net.delivered j).count f

theorem copies_drain (h : IsNeighbour setup.inet6 f.packet) (j : Nat) :
    (net.processDispatchRing setup queueId).copies f j = net.copies f j := by
  rw [Net.copies, Net.copies, drain_rings, Net.processDispatchRing, count_foldl_process_stack h]
  by_cases hj : queueId = j
  · subst hj
    have hsplit : (net.rings queueId).count f =
        ((net.rings queueId).take maxPktBurst).count f +
          ((net.rings queueId).drop maxPktBurst).count f := by
      rw [<- List.count_append, List.take_append_drop]
    rw [Function.update_self, if_pos rfl, hsplit]
    dsimp only
    omega
  · rw [Function.update_of_ne (Ne.symm hj), if_neg hj, Nat.add_zero]

theorem copies_receive {g : Frame} (h : IsNeighbour setup.inet6 f.packet)
    (hrange : Ranged setup f.packet) {j : Nat} (hj : j < setup.nbQueues) :
    (net.process setup queueId false g).copies f j =
      net.copies f j + if g = f then share setup f.packet j queueId else 0 := by
  rw [Net.copies, count_process_ring, count_process_stack, Net.copies]
  by_cases hg : g = f
  · subst hg
    rw [<- copies_routes hj h hrange]
    simp only [if_true, true_and]
    omega
  · simp [hg]

/-!
## Runs
-/

theorem copies_run (h : IsNeighbour setup.inet6 f.packet) (hrange : Ranged setup f.packet)
    {j : Nat} (hj : j < setup.nbQueues) (actions : List Action) :
    (actions.foldl (Net.step setup) net).copies f j =
      net.copies f j + ((receptions f actions).map (share setup f.packet j)).sum := by
  induction actions generalizing net with
  | nil => simp [receptions]
  | cons a actions ih =>
      rw [List.foldl_cons, ih]
      cases a with
      | receive queueId g =>
          rw [Net.step, copies_receive h hrange hj]
          by_cases hg : g = f
          · simp [receptions, hg, Nat.add_assoc]
          · simp [receptions, hg]
      | drain queueId =>
          rw [Net.step, copies_drain h]
          simp [receptions]

end

theorem eq_one_of_sum {l : List Nat} {g : Nat -> Nat} (hle : forall q, g q ≤ 1)
    (hsum : (l.map g).sum = l.length) : forall q, q ∈ l -> g q = 1 := by
  induction l with
  | nil =>
      intro q hq
      contradiction
  | cons q l ih =>
      have hrest : (l.map g).sum ≤ l.length := by
        simpa using List.sum_le_card_nsmul (l.map g) 1 (by simpa using fun q _ => hle q)
      have hq := hle q
      simp only [List.map_cons, List.sum_cons, List.length_cons] at hsum
      intro q' hq'
      rcases List.mem_cons.mp hq' with rfl | hq'
      · omega
      · exact ih (by omega) q' hq'

theorem count_delivered (setup : Setup) (actions : List Action) {f : Frame}
    (hneighbour : IsNeighbour setup.inet6 f.packet) (hrange : Ranged setup f.packet)
    {j : Nat} (hj : j < setup.nbQueues) (hdrained : (Net.run setup actions).rings j = []) :
    ((Net.run setup actions).delivered j).count f =
      ((receptions f actions).map (share setup f.packet j)).sum := by
  have hcopies : (Net.run setup actions).copies f j = Net.start.copies f j +
      ((receptions f actions).map (share setup f.packet j)).sum :=
    copies_run hneighbour hrange hj actions
  rw [Net.copies, hdrained] at hcopies
  simpa [Net.copies, Net.start] using hcopies

theorem share_le (setup : Setup) (p : Packet) (j queueId : Nat) : share setup p j queueId ≤ 1 := by
  unfold share
  split
  · exact Nat.le_refl 1
  · exact Nat.zero_le 1

/--
When all rings are empty, every stack has been given a neighbour packet as often as it was
received, exactly if each time it was left to the queue that it was received from.  Drains
never put a packet into a ring.
-/
theorem neighbour_broadcast (setup : Setup) (actions : List Action) (f : Frame)
    (hqueues : forall queueId, queueId ∈ receptions f actions -> queueId < setup.nbQueues)
    (hneighbour : IsNeighbour setup.inet6 f.packet) (hrange : Ranged setup f.packet)
    (hdrained : forall j, j < setup.nbQueues -> (Net.run setup actions).rings j = []) :
    ((forall j, j < setup.nbQueues ->
        ((Net.run setup actions).delivered j).count f = (receptions f actions).length) <->
      forall queueId, queueId ∈ receptions f actions -> Kept setup f.packet queueId) ∧
    forall (net : Net) queueId, (net.processDispatchRing setup queueId).rings =
      Function.update net.rings queueId ((net.rings queueId).drop maxPktBurst) := by
  refine ⟨?_, drain_rings setup⟩
  constructor
  · intro hall queueId hmem
    have hlt := hqueues queueId hmem
    have hsum := hall queueId hlt
    rw [count_delivered setup actions hneighbour hrange hlt (hdrained queueId hlt)] at hsum
    have hone := eq_one_of_sum (share_le setup f.packet queueId) hsum queueId hmem
    unfold share at hone
    split at hone
    · next hkept =>
        rcases hkept with hkept | hown
        · exact hkept
        · exact Or.inr hown
    · contradiction
  · intro hkept j hj
    have hshares : (receptions f actions).map (share setup f.packet j) =
        (receptions f actions).map fun _ => 1 := by
      apply List.map_congr_left
      intro queueId hmem
      rw [share, if_pos (Or.inl (hkept queueId hmem))]
    rw [count_delivered setup actions hneighbour hrange hj (hdrained j hj), hshares]
    simp

def twoQueues : Setup :=
  ⟨2, true, true, false, false, false, fun queueId => queueId == 0⟩

/-- An ARP packet that the dispatcher leaves to queue `dispatch`. -/
def arpFor (dispatch : Int) : Frame :=
  ⟨7, 0, dispatch, .arp⟩

theorem neighbour_broadcast_kept :
    ((Net.run twoQueues [.receive 0 (arpFor 0), .drain 1]).delivered 0).count (arpFor 0) = 1 ∧
      ((Net.run twoQueues [.receive 0 (arpFor 0), .drain 1]).delivered 1).count (arpFor 0) = 1 := by
  have hall := (neighbour_broadcast twoQueues [.receive 0 (arpFor 0), .drain 1] (arpFor 0)
    (by decide) (by decide) (fun _ => by decide) (by decide)).1.mpr (by decide)
  exact ⟨hall 0 (by decide), hall 1 (by decide)⟩

/-- A packet that the dispatcher moves to the other queue is only given to the stack there. -/
theorem neighbour_moved : (Net.run twoQueues [.receive 0 (arpFor 1), .drain 1]).delivered 0 = [] ∧
      (Net.run twoQueues [.receive 0 (arpFor 1), .drain 1]).delivered 1 = [arpFor 1] ∧
      forall j, j < 2 -> (Net.run twoQueues [.receive 0 (arpFor 1), .drain 1]).rings j = [] := by
  exact ⟨by decide, by decide, by decide⟩

end Dispatch
end FStackLite
