import Mathlib.Data.List.Induction
import Mathlib.Data.List.Perm.Basic
import FStackLite.TxQueue.Order

/-!
# The mbufs of the page array

With a page array a packet refers to the data of a BSD mbuf, which stands next to the packet
in the table and is released with it.  `send_single_packet` leaves that column as it is, and
a conversion that fails empties the table.
-/

namespace FStackLite
namespace TxQueue

open Foundation

variable {Pkt Bsd : Type} {setup : Setup Pkt} {s s' : St Pkt Bsd} {port : Port}

/-!
## A send that fails
-/

/-- The packets of a port wait as before, and leave when the port is drained. -/
structure KeepsQueue (setup : Setup Pkt) (s : St Pkt Bsd) (port : Port) (s' : St Pkt Bsd) :
    Prop where
  len : (s'.port port).table.len = (s.port port).table.len
  packets : (s'.port port).queued = (s.port port).queued
  later : forall txPorts, port ∈ txPorts.map Prod.fst ->
    ((s'.drain setup txPorts).port port).left = (s.port port).left ++ (s.port port).queued

theorem failed_left (s : St Pkt Bsd) (port : Port) (b : Option Bsd) :
    (((s.ffMbufFree port b).setLen port 0).port port).left = (s.port port).left := by
  rw [St.setLen_self, <- ffMbufFree_left s port b port]
  rfl

theorem failed_len (s : St Pkt Bsd) (port : Port) (b : Option Bsd) :
    (((s.ffMbufFree port b).setLen port 0).port port).table.len = 0 := by
  rw [St.setLen_self]

theorem failed_send_keeps_queue (hbuild : setup.pageArray = true) {m : Option Bsd}
    {head : Option Pkt} (hfails : m = none ∨ head = none) (accepted : Nat) :
    exists s', s.ffDpdkIfSend setup port m head accepted = some s' ∧
      (KeepsQueue setup s port s' <-> (s.port port).table.len = 0) := by
  refine ⟨_, St.ffDpdkIfSend_fails hbuild hfails, ?_⟩
  constructor
  · intro hkeeps
    rw [<- hkeeps.len, failed_len]
  · intro hempty
    have hqueued : forall t : St Pkt Bsd, (t.port port).table.len = 0 ->
        (t.port port).queued = [] := by
      intro t hlen
      rw [TxPort.queued, hlen, firstSlots_zero]
    refine ⟨?_, ?_, ?_⟩
    · rw [failed_len, hempty]
    · rw [hqueued s hempty, hqueued _ (failed_len s port m)]
    · intro txPorts hport
      rw [left_of_drained _ hport, failed_left, hqueued s hempty, hqueued _ (failed_len s port m)]

def pageSetup : Setup Nat :=
  ⟨true, fun _ => 60, fun _ => 1⟩

theorem failed_send_keeps_queue_empty :
    exists s', (start 0 : St Nat Nat).ffDpdkIfSend pageSetup 0 (some 1) none 0 = some s' ∧
      KeepsQueue pageSetup (start 0) 0 s' := by
  have hfails : exists s', (start 0 : St Nat Nat).ffDpdkIfSend pageSetup 0 (some 1) none 0 = some s' ∧
      (KeepsQueue pageSetup (start 0) 0 s' <-> ((start 0 : St Nat Nat).port 0).table.len = 0) :=
    failed_send_keeps_queue rfl (Or.inr rfl) 0
  rcases hfails with ⟨s', hsend, hkeeps⟩
  exact ⟨s', hsend, hkeeps.mpr rfl⟩

/-- A packet waits, a send fails, and the next drain does not find the packet. -/
theorem failed_send_loses_packet :
    exists s s' : St Nat Nat, run pageSetup [.single 0 7 0] (start 0) = some s ∧
      s.ffDpdkIfSend pageSetup 0 none none 0 = some s' ∧ (s.port 0).queued = [7] ∧
      ((s'.drain pageSetup [(0, 1)]).port 0).left = [] ∧ ¬ KeepsQueue pageSetup s 0 s' := by
  refine ⟨_, _, rfl, rfl, by decide, by decide, ?_⟩
  intro hkeeps
  exact absurd hkeeps.len (by decide)

/-!
## Mbufs
-/

def Event.mbuf : Event Pkt Bsd -> Option Bsd
  | .ringed b _ => some b
  | .bsdFreed b => some b
  | .bsdDone b => some b
  | _ => none

def TxPort.released (p : TxPort Pkt Bsd) : List Bsd :=
  p.log.filterMap Event.mbuf

def TxPort.pending (p : TxPort Pkt Bsd) : List Bsd :=
  (p.table.slots true p.table.len).filterMap Prod.snd

/-- The mbuf that an action passes to `ff_dpdk_if_send`. -/
def Action.mbuf (port : Port) : Action Pkt Bsd -> Option Bsd
  | .single _ _ _ => none
  | .send p m _ _ => if p = port then m else none
  | .drain _ => none

def passed (port : Port) (actions : List (Action Pkt Bsd)) : List Bsd :=
  actions.filterMap (Action.mbuf port)

theorem mbufs_column (setup : Setup Pkt) :
    Column setup (Event.mbuf : Event Pkt Bsd -> Option Bsd) Prod.snd where
  sent slots := by
    have hsent : (slots.map fun slot => (Event.sent slot.1 : Event Pkt Bsd)).filterMap
        Event.mbuf = [] := by
      rw [List.filterMap_map, List.filterMap_eq_nil_iff]
      exact fun slot _ => rfl
    have hringed : (fun slot : Pkt × Option Bsd =>
        (slot.2.map fun b => (Event.ringed b (setup.nbSegs slot.1) : Event Pkt Bsd)).bind
          Event.mbuf) = Prod.snd := by
      funext slot
      rcases slot with ⟨m, b⟩
      cases b with
      | none => rfl
      | some b => rfl
    rw [sentEvents, List.filterMap_append, hsent, List.nil_append, List.filterMap_filterMap,
      hringed]
  freed slots := by
    induction slots with
    | nil => rfl
    | cons slot slots ih =>
        rcases slot with ⟨m, b⟩
        have hslot : (Event.freed m :: (b.map Event.bsdFreed).toList).filterMap Event.mbuf =
            b.toList := by
          cases b with
          | none => rfl
          | some b => rfl
        rw [freedEvents, List.flatMap_cons, List.filterMap_append, hslot,
          <- List.singleton_append, List.filterMap_append, filterMap_singleton, <- ih]
        rfl

/-!
## Steps
-/

/-- The action finds no mbuf of another packet in its row, and does not lose any. -/
def Clean (s : St Pkt Bsd) : Action Pkt Bsd -> Prop
  | .single port _ _ => forall h : (s.port port).table.len < maxPktBurst,
      (s.port port).table.bsdMTable ⟨_, h⟩ = none
  | .send port m head _ => m = none ∨ head = none -> (s.port port).pending = []
  | .drain _ => True

def Balanced (s : St Pkt Bsd) (mbufs : Port -> List Bsd) : Prop :=
  forall q, ((s.port q).released ++ (s.port q).pending).Perm (mbufs q)

section

variable (hbuild : setup.pageArray = true) {accepted : Nat} {m : Pkt} {mbufs : Port -> List Bsd}

include hbuild

theorem ledger_single (hlen : (s.port port).table.len < maxPktBurst)
    (hsend : s.sendSinglePacket setup m port accepted = some s') (q : Port) :
    (s'.port q).released ++ (s'.port q).pending = (s.port q).released ++ (s.port q).pending ++
        if port = q then ((s.port port).table.bsdMTable ⟨_, hlen⟩).toList else [] := by
  have hledger := (mbufs_column setup).sendSinglePacket hlen hsend q
  rw [hbuild] at hledger
  exact hledger

theorem ledger_converted {b : Bsd} (hlen : (s.port port).table.len < maxPktBurst)
    (hsend : s.ffDpdkIfSend setup port (some b) (some m) accepted = some s') (q : Port) :
    (s'.port q).released ++ (s'.port q).pending =
      (s.port q).released ++ (s.port q).pending ++ if port = q then [b] else [] := by
  have hledger := (mbufs_column setup).ffDpdkIfSend hbuild hlen hsend q
  rw [hbuild] at hledger
  exact hledger

omit hbuild in
theorem ledger_failed (s : St Pkt Bsd) (port : Port) (m : Option Bsd) (q : Port) :
    ((((s.ffMbufFree port m).setLen port 0).port q).released ++
        (((s.ffMbufFree port m).setLen port 0).port q).pending) =
      if port = q then (s.port port).released ++ m.toList
      else (s.port q).released ++ (s.port q).pending := by
  by_cases hq : q = port
  · subst hq
    have hfreed : (m.map Event.bsdDone).toList.filterMap
        (Event.mbuf : Event Pkt Bsd -> Option Bsd) = m.toList := by
      cases m with
      | none => rfl
      | some b => rfl
    rw [if_pos rfl, St.setLen_self, St.ffMbufFree, St.setPort_self, TxPort.released,
      List.filterMap_append, hfreed]
    exact List.append_nil _
  · rw [if_neg (Ne.symm hq), St.setLen_other hq, St.ffMbufFree, St.setPort_other hq]

theorem ledger_drain (txPorts : List (Port × Nat)) (q : Port) :
    ((s.drain setup txPorts).port q).released ++ ((s.drain setup txPorts).port q).pending =
      (s.port q).released ++ (s.port q).pending := by
  have hledger := (mbufs_column setup).drain s txPorts q
  rw [hbuild] at hledger
  exact hledger

omit hbuild in
theorem balanced_failed_iff {m : Option Bsd} (hs : Balanced s mbufs) :
    Balanced ((s.ffMbufFree port m).setLen port 0)
        (fun q => mbufs q ++ (if port = q then m else none).toList) <->
      (s.port port).pending = [] := by
  constructor
  · intro hs'
    have hcount : _ = (mbufs port ++ (if port = port then m else none).toList).length :=
      (hs' port).length_eq
    have hbefore := (hs port).length_eq
    rw [ledger_failed, if_pos rfl, if_pos rfl, List.length_append, List.length_append] at hcount
    rw [List.length_append] at hbefore
    apply List.eq_nil_of_length_eq_zero
    omega
  · intro hempty q
    have hq := hs q
    rw [ledger_failed]
    by_cases heq : port = q
    · subst heq
      rw [hempty, List.append_nil] at hq
      beta_reduce
      rw [if_pos rfl, if_pos rfl]
      exact hq.append_right _
    · beta_reduce
      rw [if_neg heq, if_neg heq]
      simpa using hq

theorem balanced_single_iff (hlen : (s.port port).table.len < maxPktBurst)
    (hsend : s.sendSinglePacket setup m port accepted = some s') (hs : Balanced s mbufs) :
    Balanced s' mbufs <-> (s.port port).table.bsdMTable ⟨_, hlen⟩ = none := by
  have hledger := ledger_single hbuild hlen hsend
  constructor
  · intro hs'
    have hcount := (hs' port).length_eq
    have hbefore := (hs port).length_eq
    rw [hledger, if_pos rfl, List.length_append] at hcount
    apply Option.toList_eq_nil_iff.mp
    apply List.eq_nil_of_length_eq_zero
    omega
  · intro hnone q
    rw [hledger, hnone]
    simpa using hs q

theorem balanced_converted {b : Bsd} (hlen : (s.port port).table.len < maxPktBurst)
    (hsend : s.ffDpdkIfSend setup port (some b) (some m) accepted = some s')
    (hs : Balanced s mbufs) :
    Balanced s' fun q => mbufs q ++ (if port = q then some b else none).toList := by
  intro q
  have hmbuf : (if port = q then some b else none).toList = if port = q then [b] else [] := by
    split
    · rfl
    · rfl
  beta_reduce
  rw [ledger_converted hbuild hlen hsend, hmbuf]
  exact (hs q).append_right _

theorem balanced_step_iff {a : Action Pkt Bsd} (hroomy : s.Roomy)
    (hstep : step setup s a = some s') (hs : Balanced s mbufs) :
    Balanced s' (fun q => mbufs q ++ (a.mbuf q).toList) <-> Clean s a := by
  cases a with
  | single port m accepted =>
      simp only [Action.mbuf, Option.toList_none, List.append_nil]
      rw [balanced_single_iff hbuild (hroomy port) hstep hs]
      exact ⟨fun hnone _ => hnone, fun hclean => hclean (hroomy port)⟩
  | send port m head accepted =>
      have hfails : m = none ∨ head = none ->
          (Balanced s' (fun q => mbufs q ++ (if port = q then m else none).toList) <->
            (m = none ∨ head = none -> (s.port port).pending = [])) := by
        intro hnone
        rw [step, St.ffDpdkIfSend_fails hbuild hnone] at hstep
        injection hstep with hstep
        rw [<- hstep, balanced_failed_iff hs]
        exact ⟨fun hempty _ => hempty, fun h => h hnone⟩
      cases m with
      | none => exact hfails (Or.inl rfl)
      | some b =>
          cases head with
          | none => exact hfails (Or.inr rfl)
          | some m =>
              have hclean : Clean s (.send port (some b) (some m) accepted) := by
                rintro (hnone | hnone)
                · contradiction
                · contradiction
              exact ⟨fun _ => hclean, fun _ => balanced_converted hbuild (hroomy port) hstep hs⟩
  | drain txPorts =>
      injection hstep with hstep
      rw [<- hstep]
      simp only [Action.mbuf, Option.toList_none, List.append_nil, Clean, iff_true]
      intro q
      rw [ledger_drain hbuild]
      exact hs q

theorem released_of_drained (s : St Pkt Bsd) {txPorts : List (Port × Nat)}
    (h : port ∈ txPorts.map Prod.fst) : ((s.drain setup txPorts).port port).released =
      (s.port port).released ++ (s.port port).pending := by
  have hempty : ((s.drain setup txPorts).port port).pending = [] := by
    rw [TxPort.pending, drain_len h, MbufTable.slots, firstSlots_zero]
    rfl
  rw [<- ledger_drain hbuild, hempty, List.append_nil]

end

/-!
## Runs
-/

theorem run_concat (done : List (Action Pkt Bsd)) (a : Action Pkt Bsd) (s : St Pkt Bsd) :
    run setup (done ++ [a]) s = (run setup done s).bind fun s' => step setup s' a := by
  induction done generalizing s with
  | nil =>
      rw [List.nil_append, run, run]
      simp [run]
  | cons b done ih =>
      rw [List.cons_append, run, run]
      cases step setup s b with
      | none => rfl
      | some next => exact ih next

theorem roomy_run (hroomy : s.Roomy) {actions : List (Action Pkt Bsd)}
    (hrun : run setup actions s = some s') : s'.Roomy := by
  induction actions generalizing s with
  | nil =>
      injection hrun with hrun
      exact hrun ▸ hroomy
  | cons a actions ih =>
      rcases hroomy.step a with ⟨next, hstep, hnext⟩
      rw [run, hstep] at hrun
      exact ih hnext hrun

theorem passed_concat (done : List (Action Pkt Bsd)) (a : Action Pkt Bsd) :
    (fun port => passed port (done ++ [a])) =
      fun port => passed port done ++ (a.mbuf port).toList := by
  funext port
  rw [passed, List.filterMap_append, filterMap_singleton]
  rfl

/-- If the main loop drained the port now, each mbuf would have been released once. -/
def ReleasedOnce (setup : Setup Pkt) (s : St Pkt Bsd) (mbufs : Port -> List Bsd) : Prop :=
  forall port txPorts, port ∈ txPorts.map Prod.fst ->
    ((s.drain setup txPorts).port port).released.Perm (mbufs port)

theorem releasedOnce_iff (hbuild : setup.pageArray = true) (s : St Pkt Bsd)
    (mbufs : Port -> List Bsd) : ReleasedOnce setup s mbufs <-> Balanced s mbufs := by
  constructor
  · intro honce q
    have hdrained := honce q [(q, 0)] List.mem_cons_self
    rwa [released_of_drained hbuild s List.mem_cons_self] at hdrained
  · intro hs port txPorts hport
    rw [released_of_drained hbuild s hport]
    exact hs port

theorem balanced_run (hbuild : setup.pageArray = true) {null : Pkt}
    {actions : List (Action Pkt Bsd)} (hclean : forall done a, done ++ [a] <+: actions ->
      forall s, run setup done (start null) = some s -> Clean s a)
    (hrun : run setup actions (start null) = some s) :
    Balanced s fun port => passed port actions := by
  induction actions using List.reverseRecOn generalizing s with
  | nil =>
      injection hrun with hrun
      rw [<- hrun]
      intro q
      exact List.Perm.refl []
  | append_singleton done a ih =>
      rw [run_concat] at hrun
      rcases Option.bind_eq_some_iff.mp hrun with ⟨before, hdone, hstep⟩
      have hbefore : Balanced before fun port => passed port done := by
        apply ih _ hdone
        intro done' a' hpart
        exact hclean done' a' (hpart.trans (List.prefix_append done [a]))
      have hroomy := roomy_run (roomy_start null) hdone
      rw [passed_concat]
      exact (balanced_step_iff hbuild hroomy hstep hbefore).mpr
        (hclean done a (List.prefix_refl _) before hdone)

/--
Throughout a run each mbuf that was passed is released once exactly if no packet is put next
to the mbuf of another one, and no conversion fails while mbufs wait.
-/
theorem bsd_mbuf_ownership (pktLen : Pkt -> UInt32) (nbSegs : Pkt -> UInt16) (null : Pkt)
    (actions : List (Action Pkt Bsd)) : (forall done, done <+: actions ->
      forall s, run ⟨true, pktLen, nbSegs⟩ done (start null) = some s ->
        ReleasedOnce ⟨true, pktLen, nbSegs⟩ s fun port => passed port done) <->
      (forall done a, done ++ [a] <+: actions ->
        forall s, run ⟨true, pktLen, nbSegs⟩ done (start null) = some s -> Clean s a) := by
  constructor
  · intro honce done a hpart s hrun
    have hroomy := roomy_run (roomy_start null) hrun
    have hnext : exists s', step ⟨true, pktLen, nbSegs⟩ s a = some s' ∧ s'.Roomy := hroomy.step a
    rcases hnext with ⟨s', hstep, _⟩
    have hbefore := (releasedOnce_iff rfl s _).mp
      (honce done ((List.prefix_append done [a]).trans hpart) s hrun)
    have hrun' : run ⟨true, pktLen, nbSegs⟩ (done ++ [a]) (start null) = some s' := by
      rw [run_concat, hrun]
      exact hstep
    have hafter := (releasedOnce_iff rfl s' _).mp (honce (done ++ [a]) hpart s' hrun')
    rw [passed_concat] at hafter
    exact (balanced_step_iff rfl hroomy hstep hbefore).mp hafter
  · intro hclean done hpart s hrun
    apply (releasedOnce_iff rfl s _).mpr
    apply balanced_run rfl _ hrun
    intro done' a hpart'
    exact hclean done' a (hpart'.trans hpart)

/-- The packet of a dispatcher is sent in the row of an mbuf, which goes into the ring twice. -/
theorem bsd_mbuf_released_twice : exists s : St Nat Nat, run pageSetup
        [.send 0 (some 1) (some 10) 0, .drain [(0, 1)], .single 0 20 0, .drain [(0, 1)]]
        (start 0) = some s ∧ (s.port 0).log = [.sent 10, .ringed 1 1, .sent 20, .ringed 1 1] :=
  ⟨_, rfl, by decide⟩

end TxQueue
end FStackLite
