import FStackLite.TxQueue.Ledger

/-!
# Every packet leaves once and in order

Without a page array all packets come through `send_single_packet`.
-/

namespace FStackLite
namespace TxQueue

open Foundation

variable {Pkt Bsd : Type} {setup : Setup Pkt} {s s' : St Pkt Bsd} {port : Port}

/-!
## Packets
-/

def Event.packet : Event Pkt Bsd -> Option Pkt
  | .sent m => some m
  | .freed m => some m
  | _ => none

def Event.accepted : Event Pkt Bsd -> Option Pkt
  | .sent m => some m
  | _ => none

def TxPort.left (p : TxPort Pkt Bsd) : List Pkt :=
  p.log.filterMap Event.packet

def TxPort.sent (p : TxPort Pkt Bsd) : List Pkt :=
  p.log.filterMap Event.accepted

def TxPort.queued (p : TxPort Pkt Bsd) : List Pkt :=
  firstSlots p.table.mTable p.table.len

/-- The packet that an action adds to a table, in the build without a page array. -/
def Action.packet (port : Port) : Action Pkt Bsd -> Option Pkt
  | .single p m _ => if p = port then some m else none
  | .send p _ head _ => if p = port then head else none
  | .drain _ => none

def submitted (port : Port) (actions : List (Action Pkt Bsd)) : List Pkt :=
  actions.filterMap (Action.packet port)

theorem packets_column (setup : Setup Pkt) :
    Column setup (Event.packet : Event Pkt Bsd -> Option Pkt) (fun slot => some slot.1) where
  sent slots := by
    have hringed : (slots.filterMap fun slot =>
        (slot.2.map fun b => (Event.ringed b (setup.nbSegs slot.1) : Event Pkt Bsd)).bind
          Event.packet) = [] := by
      rw [List.filterMap_eq_nil_iff]
      rintro ⟨m, b⟩ _
      cases b with
      | none => rfl
      | some b => rfl
    rw [sentEvents, List.filterMap_append, List.filterMap_map, List.filterMap_filterMap, hringed,
      List.append_nil]
    rfl
  freed slots := by
    induction slots with
    | nil => rfl
    | cons slot slots ih =>
        rcases slot with ⟨m, b⟩
        have hslot : (Event.freed m :: (b.map Event.bsdFreed).toList).filterMap Event.packet =
            [m] := by
          cases b with
          | none => rfl
          | some b => rfl
        rw [freedEvents, List.flatMap_cons, List.filterMap_append, hslot]
        exact congrArg (m :: ·) ih

theorem ledger_packets (pageArray : Bool) (p : TxPort Pkt Bsd) :
    p.ledger pageArray Event.packet (fun slot => some slot.1) = p.left ++ p.queued := by
  rw [TxPort.ledger, TxPort.left, TxPort.queued, MbufTable.slots, List.filterMap_eq_map',
    firstSlots_map]
  rfl

/-- The packets that the driver takes are among those that leave, in the same order. -/
theorem sent_sublist (p : TxPort Pkt Bsd) : p.sent.Sublist p.left := by
  unfold TxPort.sent TxPort.left
  induction p.log with
  | nil => exact List.Sublist.refl []
  | cons e log ih =>
      cases e with
      | sent m => exact ih.cons_cons m
      | freed m => exact ih.cons m
      | ringed b nbSegs => exact ih
      | bsdFreed b => exact ih
      | bsdDone b => exact ih

/-!
## Steps
-/

def Gains (s : St Pkt Bsd) (q : Port) (packets : List Pkt) (s' : St Pkt Bsd) : Prop :=
  (s'.port q).left ++ (s'.port q).queued = (s.port q).left ++ (s.port q).queued ++ packets

theorem Gains.trans {s₁ s₂ s₃ : St Pkt Bsd} {q : Port} {packets more : List Pkt}
    (h : Gains s₁ q packets s₂) (hmore : Gains s₂ q more s₃) : Gains s₁ q (packets ++ more) s₃ := by
  unfold Gains at *
  rw [hmore, h, List.append_assoc]

theorem Gains.refl (s : St Pkt Bsd) (q : Port) : Gains s q [] s :=
  (List.append_nil _).symm

theorem ffMbufFree_left (s : St Pkt Bsd) (port : Port) (b : Option Bsd) (q : Port) :
    ((s.ffMbufFree port b).port q).left = (s.port q).left := by
  by_cases hq : q = port
  · have hnone : (b.map Event.bsdDone).toList.filterMap
        (Event.packet : Event Pkt Bsd -> Option Pkt) = [] := by
      cases b with
      | none => rfl
      | some b => rfl
    rw [hq, St.ffMbufFree, St.setPort_self, TxPort.left, List.filterMap_append, hnone,
      List.append_nil]
    rfl
  · rw [St.ffMbufFree, St.setPort_other hq]

theorem Gains.ffMbufFree {b : Option Bsd} {q : Port} {packets : List Pkt}
    (h : Gains (s.ffMbufFree port b) q packets s') : Gains s q packets s' := by
  unfold Gains TxPort.queued at *
  rw [h, ffMbufFree_left, St.ffMbufFree_table]

theorem gains_sendSinglePacket {m : Pkt} {accepted : Nat}
    (hlen : (s.port port).table.len < maxPktBurst)
    (hsend : s.sendSinglePacket setup m port accepted = some s') (q : Port) :
    Gains s q (if port = q then some m else none).toList s' := by
  have hledger := (packets_column setup).sendSinglePacket hlen hsend q
  rw [ledger_packets, ledger_packets] at hledger
  unfold Gains
  rw [hledger]
  split
  · rfl
  · rfl

theorem gains_step (hbuild : setup.pageArray = false) (hroomy : s.Roomy) {a : Action Pkt Bsd}
    (hstep : step setup s a = some s') (q : Port) : Gains s q (a.packet q).toList s' := by
  cases a with
  | single port m accepted => exact gains_sendSinglePacket (hroomy port) hstep q
  | send port b head accepted =>
      rw [step, St.ffDpdkIfSend_plain hbuild] at hstep
      refine Gains.ffMbufFree (b := b) (?_ : Gains (s.ffMbufFree port b) q _ s')
      cases head with
      | none =>
          injection hstep with hstep
          rw [Action.packet, ite_self, <- hstep]
          exact Gains.refl _ q
      | some m => exact gains_sendSinglePacket (hroomy.ffMbufFree port b port) hstep q
  | drain txPorts =>
      injection hstep with hstep
      have hledger := (packets_column setup).drain s txPorts q
      rw [ledger_packets, ledger_packets, hstep] at hledger
      unfold Gains
      rw [hledger]
      exact (List.append_nil _).symm

theorem submitted_cons (q : Port) (a : Action Pkt Bsd) (actions : List (Action Pkt Bsd)) :
    submitted q (a :: actions) = (a.packet q).toList ++ submitted q actions := by
  rw [<- List.singleton_append, submitted, List.filterMap_append, filterMap_singleton]
  rfl

theorem gains_run (hbuild : setup.pageArray = false) (hroomy : s.Roomy)
    (actions : List (Action Pkt Bsd)) : exists s', run setup actions s = some s' ∧ s'.Roomy ∧
      forall q, Gains s q (submitted q actions) s' := by
  induction actions generalizing s with
  | nil => exact ⟨s, rfl, hroomy, Gains.refl s⟩
  | cons a actions ih =>
      rcases hroomy.step a with ⟨next, hstep, hnext⟩
      rcases ih hnext with ⟨s', hrun, hs', hrest⟩
      refine ⟨s', ?_, hs', ?_⟩
      · rw [run, hstep]
        exact hrun
      · intro q
        rw [submitted_cons]
        exact (gains_step hbuild hroomy hstep q).trans (hrest q)

/-!
## Runs from the start
-/

theorem left_of_drained (s : St Pkt Bsd) {txPorts : List (Port × Nat)}
    (h : port ∈ txPorts.map Prod.fst) :
    ((s.drain setup txPorts).port port).left = (s.port port).left ++ (s.port port).queued := by
  have hledger := (packets_column setup).drain s txPorts port
  rw [ledger_packets, ledger_packets] at hledger
  have hempty : ((s.drain setup txPorts).port port).queued = [] := by
    rw [TxPort.queued, drain_len h, firstSlots_zero]
  rw [<- hledger, hempty, List.append_nil]

/--
A run does not write behind the end of a table.  The packets that a port was given have left
it in their order, each handed to the driver or freed, except for those that wait, of which
there are fewer than a burst; and the next drain of the port does the same with these.
-/
theorem transmit_queue_conservation (pktLen : Pkt -> UInt32) (nbSegs : Pkt -> UInt16) (null : Pkt)
    (actions : List (Action Pkt Bsd)) :
    exists s', run ⟨false, pktLen, nbSegs⟩ actions (start null) = some s' ∧
      forall port, (s'.port port).table.len < maxPktBurst ∧
        (s'.port port).left ++ (s'.port port).queued = submitted port actions ∧
        (s'.port port).sent.Sublist (submitted port actions) ∧
        forall txPorts, port ∈ txPorts.map Prod.fst ->
          ((s'.drain ⟨false, pktLen, nbSegs⟩ txPorts).port port).left =
            submitted port actions := by
  have hspec : exists s', run ⟨false, pktLen, nbSegs⟩ actions (start null) = some s' ∧ s'.Roomy ∧
      forall q, Gains (start null) q (submitted q actions) s' := 
        gains_run rfl (roomy_start null) actions
  rcases hspec with ⟨s', hrun, hroomy, hgains⟩
  refine ⟨s', hrun, fun port => ?_⟩
  have hledger : (s'.port port).left ++ (s'.port port).queued = submitted port actions :=
    hgains port
  refine ⟨hroomy port, hledger, ?_, ?_⟩
  · rw [<- hledger]
    exact (sent_sublist _).trans (List.sublist_append_left _ _)
  · intro txPorts hport
    rw [left_of_drained s' hport, hledger]

end TxQueue
end FStackLite
