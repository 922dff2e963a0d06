import Mathlib.Data.List.Basic
import Mathlib.Data.Int.Notation

/-!
# The receive path of a queue

`process_packets` takes a batch of received packets and hands each of them on: to the
dispatcher's choice of queue, to the transmit queue, to the kernel interface, to the
stack, or back to its pool.  ARP packets (and neighbour discovery packets) are cloned
for the other queues and for the kernel interface.

What the calls into DPDK return is given by an environment that is indexed by the
number of the call: whether `rte_pktmbuf_alloc` has an mbuf, and whether
`rte_ring_enqueue` has room.
-/

namespace FStackLite
namespace Dispatch

/-- The values of `enum FilterReturn`. -/
inductive FilterReturn where
  | unknown
  | arp
  | kni
  | ndp
deriving DecidableEq, Repr

/-- `FF_DISPATCH_ERROR` -/
def dispatchError : Int := -1

/-- `FF_DISPATCH_RESPONSE` -/
def dispatchResponse : Int := -2

/--
A received packet: the segments behind its first one, what the registered dispatcher
returns for it and what `protocol_filter` returns for it.
-/
structure Packet where
  moreSegs : Nat
  dispatch : Int
  filter : FilterReturn
deriving DecidableEq, Repr

structure Config where
  nbQueues : Nat
  queueId : Nat
  pktsFromRing : Bool
  /-- `packet_dispatcher` is registered. -/
  dispatcher : Bool
  /-- Built with `INET6`. -/
  inet6 : Bool
  /-- Built with `FF_KNI`. -/
  kni : Bool
  enableKni : Bool
  kniAccept : Bool
  /-- `rte_eal_process_type() == RTE_PROC_PRIMARY` -/
  primary : Bool

structure Env where
  alloc : Nat -> Bool
  enqueue : Nat -> Bool

/--
An mbuf chain: a packet of the batch, by its place in the batch, or a clone, by its
segments.  A segment of a clone is named by the call that allocated it.
-/
inductive Buf where
  | input (i : Nat)
  | clone (segs : List Nat)
deriving DecidableEq, Repr

inductive Dest where
  | free
  | ring (index : Int)
  | kni
  | transmit
  | stack
deriving DecidableEq, Repr

structure St where
  /-- What was handed on, and where to. -/
  given : List (Buf × Dest)
  /-- The indices that `dispatch_ring[port_id]` was read at. -/
  rings : List Int
  /-- The clones that were allocated, also in part. -/
  made : List (List Nat)
  allocs : Nat
  enqueues : Nat

def St.start : St := ⟨[], [], [], 0, 0⟩

def give (b : Buf) (d : Dest) (st : St) : St :=
  { st with given := st.given ++ [(b, d)] }

/-- `rte_ring_enqueue`, and `rte_pktmbuf_free` if the ring has no room. -/
def enqueueOrFree (env : Env) (b : Buf) (d : Dest) (st : St) : St :=
  let st' := { st with enqueues := st.enqueues + 1 }
  if env.enqueue st.enqueues then give b d st' else give b .free st'

def dispatchTo (env : Env) (index : Int) (b : Buf) (st : St) : St :=
  enqueueOrFree env b (.ring index) { st with rings := st.rings ++ [index] }

def ffKniEnqueue (env : Env) (b : Buf) (st : St) : St :=
  enqueueOrFree env b .kni st

/-!
## Clones
-/

/-- The loop of `pktmbuf_deep_clone`: the segments allocated, and whether all were. -/
def cloneSegs (env : Env) : Nat -> List Nat -> Nat -> List Nat × Bool × Nat
  | 0, segs, allocs => (segs, true, allocs)
  | more + 1, segs, allocs =>
      if env.alloc allocs then
        cloneSegs env more (segs ++ [allocs]) (allocs + 1)
      else
        (segs, false, allocs + 1)

def pktmbufDeepClone (env : Env) (moreSegs : Nat) (st : St) : Option Buf × St :=
  if env.alloc st.allocs then
    let (segs, complete, allocs) := cloneSegs env moreSegs [st.allocs] (st.allocs + 1)
    let st' := { st with allocs := allocs, made := st.made ++ [segs] }
    if complete then
      (some (.clone segs), st')
    else
      (none, give (.clone segs) .free st')
  else
    (none, { st with allocs := st.allocs + 1 })

def cloneTo (env : Env) (moreSegs : Nat) (hand : Buf -> St -> St) (st : St) : St :=
  match pktmbufDeepClone env moreSegs st with
  | (some clone, st') => hand clone st'
  | (none, st') => st'

def cloneToQueues (env : Env) (queueId moreSegs : Nat) : List Nat -> St -> St
  | [], st => st
  | j :: rest, st =>
      if j = queueId then
        cloneToQueues env queueId moreSegs rest st
      else
        cloneToQueues env queueId moreSegs rest (cloneTo env moreSegs (dispatchTo env j) st)

/-!
## One packet
-/

def deliver (env : Env) (cfg : Config) (i : Nat) (p : Packet) (st : St) : St :=
  if p.filter = .arp ∨ (cfg.inet6 = true ∧ p.filter = .ndp) then
    let queues := if cfg.pktsFromRing then [] else List.range cfg.nbQueues
    let cloned := cloneToQueues env cfg.queueId p.moreSegs queues st
    let shared :=
      if cfg.kni && cfg.enableKni && cfg.primary then
        cloneTo env p.moreSegs (ffKniEnqueue env) cloned
      else
        cloned
    give (.input i) .stack shared
  else if cfg.kni && cfg.enableKni &&
      ((p.filter = .kni && cfg.kniAccept) || (p.filter = .unknown && !cfg.kniAccept)) then
    ffKniEnqueue env (.input i) st
  else
    give (.input i) .stack st

def Config.asksDispatcher (cfg : Config) : Bool :=
  !cfg.pktsFromRing && cfg.dispatcher

def processPacket (env : Env) (cfg : Config) (i : Nat) (p : Packet) (st : St) : St :=
  if cfg.asksDispatcher then
    if p.dispatch = dispatchResponse then
      give (.input i) .transmit st
    else if p.dispatch = dispatchError ∨ (cfg.nbQueues : Int) ≤ p.dispatch then
      give (.input i) .free st
    else if p.dispatch ≠ cfg.queueId then
      dispatchTo env p.dispatch (.input i) st
    else
      deliver env cfg i p st
  else
    deliver env cfg i p st

/-- The packets of the batch from the place `i` on. -/
def processFrom (env : Env) (cfg : Config) : Nat -> List Packet -> St -> St
  | _, [], st => st
  | i, p :: rest, st => processFrom env cfg (i + 1) rest (processPacket env cfg i p st)

def processPackets (env : Env) (cfg : Config) (bufs : List Packet) : St :=
  processFrom env cfg 0 bufs St.start

end Dispatch
end FStackLite
