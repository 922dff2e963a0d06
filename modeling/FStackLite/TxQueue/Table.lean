import FStackLite.Constants
import FStackLite.Foundation.Slots

/-!
# The transmit tables

Packets wait in a table of their port until it is full, or until the main loop drains it.
Then they are handed to the driver, which takes a first part of them, and the others are
freed.  In the build with a page array the table has a second column, with the BSD mbufs
whose data the packets refer to.
-/

namespace FStackLite
namespace TxQueue

open Foundation

abbrev Port := Fin rteMaxEthports

structure Setup (Pkt : Type) where
  /-- Built with `FF_USE_PAGE_ARRAY`. -/
  pageArray : Bool
  pktLen : Pkt -> UInt32
  nbSegs : Pkt -> UInt16

structure MbufTable (Pkt Bsd : Type) where
  len : Nat
  mTable : Fin maxPktBurst -> Pkt
  bsdMTable : Fin maxPktBurst -> Option Bsd

inductive Event (Pkt Bsd : Type) where
  /-- `rte_eth_tx_burst` has taken the packet. -/
  | sent (m : Pkt)
  /-- `send_burst` has freed the packet. -/
  | freed (m : Pkt)
  /-- `ff_enq_tx_bsdmbuf` has put the mbuf into the transmit ring. -/
  | ringed (b : Bsd) (nbSegs : UInt16)
  /-- `send_burst` has freed the mbuf. -/
  | bsdFreed (b : Bsd)
  /-- `ff_dpdk_if_send` has freed the mbuf, which is not in the table. -/
  | bsdDone (b : Bsd)
deriving DecidableEq

structure TxPort (Pkt Bsd : Type) where
  table : MbufTable Pkt Bsd
  log : List (Event Pkt Bsd)

/-- The counters of sent packets in `ff_traffic`. -/
structure Traffic where
  txPackets : UInt64
  txBytes : UInt64

structure St (Pkt Bsd : Type) where
  port : Port -> TxPort Pkt Bsd
  traffic : Traffic

variable {Pkt Bsd : Type}

/-!
## Bursts
-/

def MbufTable.slot (pageArray : Bool) (t : MbufTable Pkt Bsd) (i : Fin maxPktBurst) :
    Pkt × Option Bsd :=
  (t.mTable i, if pageArray then t.bsdMTable i else none)

def MbufTable.slots (pageArray : Bool) (t : MbufTable Pkt Bsd) (n : Nat) :
    List (Pkt × Option Bsd) :=
  firstSlots (t.slot pageArray) n

def Traffic.count (setup : Setup Pkt) (traffic : Traffic) (packets : List Pkt) : Traffic where
  txPackets := traffic.txPackets + UInt64.ofNat packets.length
  txBytes := packets.foldl (fun bytes m => bytes + (setup.pktLen m).toUInt64) traffic.txBytes

def sentEvents (setup : Setup Pkt) (slots : List (Pkt × Option Bsd)) : List (Event Pkt Bsd) :=
  slots.map (fun slot => .sent slot.1) ++
    slots.filterMap (fun slot => slot.2.map fun b => .ringed b (setup.nbSegs slot.1))

def freedEvents (slots : List (Pkt × Option Bsd)) : List (Event Pkt Bsd) :=
  slots.flatMap fun slot => .freed slot.1 :: (slot.2.map .bsdFreed).toList

namespace St

def setPort (s : St Pkt Bsd) (port : Port) (p : TxPort Pkt Bsd) : St Pkt Bsd :=
  { s with port := Function.update s.port port p }

def setLen (s : St Pkt Bsd) (port : Port) (len : Nat) : St Pkt Bsd :=
  s.setPort port { s.port port with table := { (s.port port).table with len := len } }

/-- The driver takes a first part of the packets; `accepted` is how many it would take. -/
def sendBurst (setup : Setup Pkt) (s : St Pkt Bsd) (n : Nat) (port : Port) (accepted : Nat) :
    St Pkt Bsd :=
  let p := s.port port
  let slots := p.table.slots setup.pageArray n
  let ret := min accepted n
  { s.setPort port { p with
      log := p.log ++ sentEvents setup (slots.take ret) ++ freedEvents (slots.drop ret) } with
    traffic := s.traffic.count setup ((slots.take ret).map Prod.fst) }

/-!
## Senders

A result of `none` is a write behind the end of the table.
-/

/-- The end of `send_single_packet` and of `ff_dpdk_if_send`. -/
def storeLen (setup : Setup Pkt) (s : St Pkt Bsd) (port : Port) (len accepted : Nat) : St Pkt Bsd :=
  if len = maxPktBurst then
    (s.sendBurst setup maxPktBurst port accepted).setLen port 0
  else
    s.setLen port len

def sendSinglePacket (setup : Setup Pkt) (s : St Pkt Bsd) (m : Pkt) (port : Port)
    (accepted : Nat) : Option (St Pkt Bsd) :=
  let p := s.port port
  if h : p.table.len < maxPktBurst then
    let table := { p.table with mTable := Function.update p.table.mTable ⟨p.table.len, h⟩ m }
    some ((s.setPort port { p with table := table }).storeLen setup port (p.table.len + 1) accepted)
  else
    none

def ffMbufFree (s : St Pkt Bsd) (port : Port) (m : Option Bsd) : St Pkt Bsd :=
  s.setPort port { s.port port with log := (s.port port).log ++ (m.map .bsdDone).toList }

/--
Puts the packet `head` that was made of the mbuf into the table.  No mbuf, or none that a
packet could be made of, gives the length 0.
-/
def ffIfSendOnepkt (s : St Pkt Bsd) (port : Port) (m : Option Bsd) (head : Option Pkt) :
    Option (St Pkt Bsd × Nat) :=
  let p := s.port port
  match m, head with
  | none, _ => some (s, 0)
  | some b, none => some (s.ffMbufFree port (some b), 0)
  | some b, some head =>
      if h : p.table.len < maxPktBurst then
        let table := { p.table with
          mTable := Function.update p.table.mTable ⟨p.table.len, h⟩ head
          bsdMTable := Function.update p.table.bsdMTable ⟨p.table.len, h⟩ (some b) }
        some (s.setPort port { p with table := table }, p.table.len + 1)
      else
        none

/-- Without a page array the mbuf is copied into `head`, and freed. -/
def ffDpdkIfSend (setup : Setup Pkt) (s : St Pkt Bsd) (port : Port) (m : Option Bsd)
    (head : Option Pkt) (accepted : Nat) : Option (St Pkt Bsd) :=
  if setup.pageArray then
    (ffIfSendOnepkt s port m head).map fun sent => sent.1.storeLen setup port sent.2 accepted
  else
    match head with
    | none => some (s.ffMbufFree port m)
    | some head => (s.ffMbufFree port m).sendSinglePacket setup head port accepted

/-- What the main loop does to one port of `tx_port_id`. -/
def drainPort (setup : Setup Pkt) (s : St Pkt Bsd) (port : Port) (accepted : Nat) : St Pkt Bsd :=
  if (s.port port).table.len = 0 then
    s
  else
    (s.sendBurst setup (s.port port).table.len port accepted).setLen port 0

def drain (setup : Setup Pkt) (s : St Pkt Bsd) (txPorts : List (Port × Nat)) : St Pkt Bsd :=
  txPorts.foldl (fun s tx => s.drainPort setup tx.1 tx.2) s

end St

/-!
## Runs
-/

inductive Action (Pkt Bsd : Type) where
  /-- A packet that the dispatcher answers with, or another one that is there already. -/
  | single (port : Port) (m : Pkt) (accepted : Nat)
  /-- The stack sends an mbuf, which is converted to `head`. -/
  | send (port : Port) (m : Option Bsd) (head : Option Pkt) (accepted : Nat)
  /-- The main loop drains the ports in `tx_port_id`. -/
  | drain (txPorts : List (Port × Nat))

def step (setup : Setup Pkt) (s : St Pkt Bsd) : Action Pkt Bsd -> Option (St Pkt Bsd)
  | .single port m accepted => s.sendSinglePacket setup m port accepted
  | .send port m head accepted => s.ffDpdkIfSend setup port m head accepted
  | .drain txPorts => some (s.drain setup txPorts)

def run (setup : Setup Pkt) : List (Action Pkt Bsd) -> St Pkt Bsd -> Option (St Pkt Bsd)
  | [], s => some s
  | a :: rest, s => (step setup s a).bind (run setup rest)

/-- The tables at the start, where `null` stands in all slots. -/
def start (null : Pkt) : St Pkt Bsd where
  port _ := ⟨⟨0, fun _ => null, fun _ => none⟩, []⟩
  traffic := ⟨0, 0⟩

end TxQueue
end FStackLite
