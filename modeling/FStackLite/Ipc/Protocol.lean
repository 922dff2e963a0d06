import FStackLite.RteRing
import Mathlib.Logic.Function.Basic

/-!
# The tools and the server exchange messages

A tool process (`sysctl`, `ifconfig`, `route`, `top`, ...) takes a message from the
pool it shares with the server, fills it with a request, puts it into the input
ring and polls the output ring of the message's type until its own message comes
back.  The server's main loop handles one message of the input ring at a time and
puts it into the output ring of its type.

Every operation on a ring or on the pool is one action, and so is every access to
a message that another process may be using too.
-/

namespace FStackLite
namespace Ipc

/-!
## Messages
-/

/-- The values of `enum FF_MSG_TYPE`. -/
inductive MsgType where
  | unknown
  | sysctl
  | ioctl
  | ioctl6
  | route
  | top
  | ngctl
  | ipfwCtl
  | traffic
deriving DecidableEq, Repr

abbrev MsgRef := Nat

abbrev ClientId := Nat

/-- Names one request of one client: requests are numbered as they are written. -/
abbrev Ticket := Nat

/--
What the argument union and the data buffer of a message hold: what `ff_msg_init`
left there, a request, or the server's reply to a request.
-/
inductive Body where
  | blank
  | request (ticket : Ticket)
  | reply (ticket : Ticket)
deriving DecidableEq, Repr

structure Msg where
  msgType : MsgType
  result : Int
  body : Body
deriving DecidableEq, Repr

/-- The handlers that `handle_msg` is compiled with, and the rings of the library. -/
structure Build where
  inet6 : Bool
  netgraph : Bool
  ipfw : Bool
  ring : RteRing

def enotsup : Int := 95

def Body.answered : Body -> Body
  | .blank => .blank
  | .request ticket => .reply ticket
  | .reply ticket => .reply ticket

/--
The result that `handle_msg` stores.  `err` is what the call into the stack leads
to: 0, or `errno` if the call fails.
-/
def handleResult (build : Build) (err : Int) : MsgType -> Int
  | .sysctl => err
  | .ioctl => err
  | .ioctl6 => if build.inet6 then err else enotsup
  | .route => err
  | .top => 0
  | .ngctl => if build.netgraph then err else enotsup
  | .ipfwCtl => if build.ipfw then err else enotsup
  | .traffic => 0
  | .unknown => enotsup

def handleMsg (build : Build) (err : Int) (msg : Msg) : Msg :=
  { msg with result := handleResult build err msg.msgType, body := msg.body.answered }

/-!
## The request functions

They differ in the type of the message and in whether they look at `result` before
they return success.
-/

structure Call where
  msgType : MsgType
  checksResult : Bool
  known : msgType ≠ .unknown

def sysctl : Call := ⟨.sysctl, true, by decide⟩

def ioctlVa (inet6 : Bool) : Call :=
  ⟨if inet6 then .ioctl6 else .ioctl, true, by cases inet6 <;> decide⟩

def rtioctl : Call := ⟨.route, true, by decide⟩

def cpuStatus : Call := ⟨.top, false, by decide⟩

def ngctl : Call := ⟨.ngctl, true, by decide⟩

def ipfwCtl : Call := ⟨.ipfwCtl, true, by decide⟩

def trafficStatus : Call := ⟨.traffic, false, by decide⟩

def Call.succeeds (call : Call) (msg : Msg) : Bool :=
  !call.checksResult || msg.result == 0

/-!
## Processes

The state of a client is its place in the request function.
-/

inductive Client where
  /-- Not in a request function. -/
  | idle
  /-- `ff_ipc_msg_alloc` has returned `msg`. -/
  | holding (call : Call) (msg : MsgRef)
  /-- The request is written to `msg`. -/
  | ready (call : Call) (msg : MsgRef) (ticket : Ticket)
  /-- `msg` is sent; `ff_ipc_recv` is called next. -/
  | waiting (call : Call) (msg : MsgRef) (ticket : Ticket)
  /-- In `ff_ipc_recv`, after `attempts` empty polls of the ring of type `ring`. -/
  | receiving (call : Call) (msg : MsgRef) (ticket : Ticket) (ring : MsgType) (attempts : Nat)
  /-- `ff_ipc_recv` has returned `retmsg`, which is not `msg`. -/
  | foreign (call : Call) (msg : MsgRef) (ticket : Ticket) (retmsg : MsgRef)
  /-- `ff_ipc_recv` has returned `msg`. -/
  | received (call : Call) (msg : MsgRef) (ticket : Ticket)
  /-- At the last `ff_ipc_msg_free (msg)`. -/
  | closing (msg : MsgRef)

/-- The variable `msg` of the request function. -/
def Client.msg : Client -> Option MsgRef
  | .idle => none
  | .holding _ msg => some msg
  | .ready _ msg _ => some msg
  | .waiting _ msg _ => some msg
  | .receiving _ msg _ _ _ => some msg
  | .foreign _ msg _ _ => some msg
  | .received _ msg _ => some msg
  | .closing msg => some msg

/--
The message that the client has in its hands.  A message that is sent is not, until
it comes out of a ring or the client turns to freeing it.
-/
def Client.held : Client -> Option MsgRef
  | .idle => none
  | .holding _ msg => some msg
  | .ready _ msg _ => some msg
  | .waiting _ _ _ => none
  | .receiving _ _ _ _ _ => none
  | .foreign _ _ _ retmsg => some retmsg
  | .received _ msg _ => some msg
  | .closing msg => some msg

/-- The state of the server is its place in `process_msg_ring`. -/
inductive Server where
  | idle
  | taken (msg : MsgRef)
  | handled (msg : MsgRef)

def Server.msg : Server -> Option MsgRef
  | .idle => none
  | .taken msg => some msg
  | .handled msg => some msg

/-- A request function has returned success to `client`, having read `read`. -/
structure Success where
  client : ClientId
  ticket : Ticket
  read : Body
deriving DecidableEq, Repr

/--
The shared memory and the processes.  The ring of type `unknown` is `ring[0]`, the
input ring.  `issued` counts the requests written so far and `successes` lists the
calls that returned success.
-/
structure Sys where
  pool : List MsgRef
  rings : MsgType -> List MsgRef
  memory : MsgRef -> Msg
  server : Server
  clients : ClientId -> Client
  issued : Nat
  successes : List Success

namespace Sys

def setClient (s : Sys) (c : ClientId) (client : Client) : Sys :=
  { s with clients := Function.update s.clients c client }

def setMsg (s : Sys) (m : MsgRef) (msg : Msg) : Sys :=
  { s with memory := Function.update s.memory m msg }

def setRing (s : Sys) (ty : MsgType) (ring : List MsgRef) : Sys :=
  { s with rings := Function.update s.rings ty ring }

end Sys

/-!
## The pool and the rings
-/

def msgRingSize : Nat := 32

def nbProcs : Nat := 1

def maxAttemptsNum : Nat := 1000

def rteRingEnqueue (ring : RteRing) (s : Sys) (ty : MsgType) (m : MsgRef) : Option Sys :=
  if ring.enqueues (s.rings ty).length then some (s.setRing ty (s.rings ty ++ [m])) else none

def rteRingDequeue (ring : RteRing) (s : Sys) (ty : MsgType) : Option (MsgRef × Sys) :=
  match s.rings ty with
  | [] => none
  | m :: rest => if ring.dequeues (rest.length + 1) then some (m, s.setRing ty rest) else none

def ffIpcMsgAlloc (s : Sys) (m : MsgRef) : Option Sys :=
  if m ∈ s.pool then some { s with pool := s.pool.erase m } else none

def ffIpcMsgFree (s : Sys) (m : MsgRef) : Sys :=
  { s with pool := m :: s.pool }

def ffIpcSend (ring : RteRing) (s : Sys) (m : MsgRef) : Option Sys :=
  rteRingEnqueue ring s .unknown m

/-- The state that `init_msg_ring` sets up. -/
def initMsgRing : Sys where
  pool := List.range (msgRingSize * 2 * nbProcs)
  rings := fun _ => []
  memory := fun _ => ⟨.unknown, 0, .blank⟩
  server := .idle
  clients := fun _ => .idle
  issued := 0
  successes := []

/-!
## Actions
-/

inductive Action where
  /-- Client `c` enters a request function and takes `m` from the pool. -/
  | alloc (c : ClientId) (call : Call) (m : MsgRef)
  /-- The pool is empty and the function returns `ENOMEM`. -/
  | allocFails (c : ClientId)
  /-- The arguments do not fit the message: it is freed and the function fails. -/
  | refuse (c : ClientId)
  /-- The type and the arguments of the request are written. -/
  | fill (c : ClientId)
  | send (c : ClientId)
  /--
  `ff_ipc_send` finds no ring, or a full one, or a last check of the arguments fails
  (`ioctl_va`, `ngctl`): the message is freed.
  -/
  | sendFails (c : ClientId)
  /-- `ff_ipc_recv` is called with the type that now stands in the message. -/
  | receive (c : ClientId)
  /-- A poll of the output ring that finds it empty and is not the last. -/
  | miss (c : ClientId)
  /-- A poll of the output ring that takes a message. -/
  | dequeue (c : ClientId)
  /-- A message that is not the client's own is freed, at the head of the loop. -/
  | freeForeign (c : ClientId)
  /-- `ff_ipc_recv` returns a negative value, after however many polls. -/
  | giveUp (c : ClientId)
  /-- The client reads the reply out of its message. -/
  | read (c : ClientId)
  /-- The client frees its message and returns. -/
  | free (c : ClientId)
  /-- `process_msg_ring` takes a message from the input ring. -/
  | serverTake
  /-- The handler of the message's type runs. -/
  | serverHandle (err : Int)
  /-- The message goes to the ring of its type; a full ring loses it. -/
  | serverReply

/-- The request functions write the type and the arguments and leave `result` alone. -/
def fillMsg (call : Call) (ticket : Ticket) (msg : Msg) : Msg :=
  { msg with msgType := call.msgType, body := .request ticket }

def readReply (s : Sys) (c : ClientId) (call : Call) (m : MsgRef) (ticket : Ticket) : Sys :=
  if call.succeeds (s.memory m) then
    { s with successes := s.successes ++ [⟨c, ticket, (s.memory m).body⟩] }
  else s

def step (build : Build) (s : Sys) : Action -> Option Sys
  | .alloc c call m =>
      match s.clients c with
      | .idle => (ffIpcMsgAlloc s m).map (fun s' => s'.setClient c (.holding call m))
      | _ => none
  | .allocFails c =>
      match s.clients c with
      | .idle => if s.pool = [] then some s else none
      | _ => none
  | .refuse c =>
      match s.clients c with
      | .holding _ m => some ((ffIpcMsgFree s m).setClient c .idle)
      | _ => none
  | .fill c =>
      match s.clients c with
      | .holding call m =>
          some ({ s.setMsg m (fillMsg call s.issued (s.memory m)) with
            issued := s.issued + 1 }.setClient c (.ready call m s.issued))
      | _ => none
  | .send c =>
      match s.clients c with
      | .ready call m ticket =>
          (ffIpcSend build.ring s m).map (fun s' => s'.setClient c (.waiting call m ticket))
      | _ => none
  | .sendFails c =>
      match s.clients c with
      | .ready _ m _ => some ((ffIpcMsgFree s m).setClient c .idle)
      | _ => none
  | .receive c =>
      match s.clients c with
      | .waiting call m ticket =>
          some (s.setClient c (.receiving call m ticket (s.memory m).msgType 0))
      | _ => none
  | .miss c =>
      match s.clients c with
      | .receiving call m ticket ty attempts =>
          if rteRingDequeue build.ring s ty = none ∧ attempts + 1 < maxAttemptsNum then
            some (s.setClient c (.receiving call m ticket ty (attempts + 1)))
          else none
      | _ => none
  | .dequeue c =>
      match s.clients c with
      | .receiving call m ticket ty _ =>
          (rteRingDequeue build.ring s ty).map (fun out =>
            if m = out.1 then out.2.setClient c (.received call m ticket)
            else out.2.setClient c (.foreign call m ticket out.1))
      | _ => none
  | .freeForeign c =>
      match s.clients c with
      | .foreign call m ticket retmsg =>
          some ((ffIpcMsgFree s retmsg).setClient c (.waiting call m ticket))
      | _ => none
  | .giveUp c =>
      match s.clients c with
      | .receiving _ m _ _ _ => some (s.setClient c (.closing m))
      | _ => none
  | .read c =>
      match s.clients c with
      | .received call m ticket => some ((readReply s c call m ticket).setClient c (.closing m))
      | _ => none
  | .free c =>
      match s.clients c with
      | .closing m => some ((ffIpcMsgFree s m).setClient c .idle)
      | _ => none
  | .serverTake =>
      match s.server with
      | .idle =>
          (rteRingDequeue build.ring s .unknown).map
            (fun out => { out.2 with server := .taken out.1 })
      | _ => none
  | .serverHandle err =>
      match s.server with
      | .taken m =>
          some { s.setMsg m (handleMsg build err (s.memory m)) with server := .handled m }
      | _ => none
  | .serverReply =>
      match s.server with
      | .handled m =>
          some { (rteRingEnqueue build.ring s (s.memory m).msgType m).getD s with server := .idle }
      | _ => none

def run (build : Build) : List Action -> Sys -> Option Sys
  | [], s => some s
  | a :: rest, s => (step build s a).bind (run build rest)

/-!
## What an action does
-/

inductive Step (build : Build) (s : Sys) : Action -> Sys -> Prop where
  | alloc {c : ClientId} {call : Call} {m : MsgRef} (client : s.clients c = .idle)
      (pooled : m ∈ s.pool) :
      Step build s (.alloc c call m)
        ({ s with pool := s.pool.erase m }.setClient c (.holding call m))
  | allocFails {c : ClientId} (client : s.clients c = .idle) (empty : s.pool = []) :
      Step build s (.allocFails c) s
  | refuse {c : ClientId} {call : Call} {m : MsgRef} (client : s.clients c = .holding call m) :
      Step build s (.refuse c) ((ffIpcMsgFree s m).setClient c .idle)
  | fill {c : ClientId} {call : Call} {m : MsgRef} (client : s.clients c = .holding call m) :
      Step build s (.fill c) ({ s.setMsg m (fillMsg call s.issued (s.memory m)) with
        issued := s.issued + 1 }.setClient c (.ready call m s.issued))
  | send {c : ClientId} {call : Call} {m : MsgRef} {ticket : Ticket}
      (client : s.clients c = .ready call m ticket)
      (room : build.ring.enqueues (s.rings .unknown).length = true) :
      Step build s (.send c)
        ((s.setRing .unknown (s.rings .unknown ++ [m])).setClient c (.waiting call m ticket))
  | sendFails {c : ClientId} {call : Call} {m : MsgRef} {ticket : Ticket}
      (client : s.clients c = .ready call m ticket) :
      Step build s (.sendFails c) ((ffIpcMsgFree s m).setClient c .idle)
  | receive {c : ClientId} {call : Call} {m : MsgRef} {ticket : Ticket}
      (client : s.clients c = .waiting call m ticket) :
      Step build s (.receive c)
        (s.setClient c (.receiving call m ticket (s.memory m).msgType 0))
  | miss {c : ClientId} {call : Call} {m : MsgRef} {ticket : Ticket} {ty : MsgType}
      {attempts : Nat} (client : s.clients c = .receiving call m ticket ty attempts)
      (empty : rteRingDequeue build.ring s ty = none) (more : attempts + 1 < maxAttemptsNum) :
      Step build s (.miss c) (s.setClient c (.receiving call m ticket ty (attempts + 1)))
  | dequeueOwn {c : ClientId} {call : Call} {m : MsgRef} {ticket : Ticket} {ty : MsgType}
      {attempts : Nat} {rest : List MsgRef}
      (client : s.clients c = .receiving call m ticket ty attempts)
      (ring : s.rings ty = m :: rest) :
      Step build s (.dequeue c) ((s.setRing ty rest).setClient c (.received call m ticket))
  | dequeueForeign {c : ClientId} {call : Call} {m retmsg : MsgRef} {ticket : Ticket}
      {ty : MsgType} {attempts : Nat} {rest : List MsgRef}
      (client : s.clients c = .receiving call m ticket ty attempts)
      (ring : s.rings ty = retmsg :: rest) (other : m ≠ retmsg) :
      Step build s (.dequeue c)
        ((s.setRing ty rest).setClient c (.foreign call m ticket retmsg))
  | freeForeign {c : ClientId} {call : Call} {m retmsg : MsgRef} {ticket : Ticket}
      (client : s.clients c = .foreign call m ticket retmsg) :
      Step build s (.freeForeign c)
        ((ffIpcMsgFree s retmsg).setClient c (.waiting call m ticket))
  | giveUp {c : ClientId} {call : Call} {m : MsgRef} {ticket : Ticket} {ty : MsgType}
      {attempts : Nat} (client : s.clients c = .receiving call m ticket ty attempts) :
      Step build s (.giveUp c) (s.setClient c (.closing m))
  | read {c : ClientId} {call : Call} {m : MsgRef} {ticket : Ticket}
      (client : s.clients c = .received call m ticket) :
      Step build s (.read c) ((readReply s c call m ticket).setClient c (.closing m))
  | free {c : ClientId} {m : MsgRef} (client : s.clients c = .closing m) :
      Step build s (.free c) ((ffIpcMsgFree s m).setClient c .idle)
  | serverTake {m : MsgRef} {rest : List MsgRef} (server : s.server = .idle)
      (ring : s.rings .unknown = m :: rest) (seen : build.ring.dequeues (rest.length + 1) = true) :
      Step build s .serverTake { s.setRing .unknown rest with server := .taken m }
  | serverHandle {m : MsgRef} {err : Int} (server : s.server = .taken m) :
      Step build s (.serverHandle err)
        { s.setMsg m (handleMsg build err (s.memory m)) with server := .handled m }
  | serverReply {m : MsgRef} (server : s.server = .handled m)
      (room : build.ring.enqueues (s.rings (s.memory m).msgType).length = true) :
      Step build s .serverReply
        { s.setRing (s.memory m).msgType (s.rings (s.memory m).msgType ++ [m]) with
          server := .idle }
  | serverLose {m : MsgRef} (server : s.server = .handled m)
      (full : ¬ build.ring.enqueues (s.rings (s.memory m).msgType).length = true) :
      Step build s .serverReply { s with server := .idle }

section

variable {build : Build} {s s' : Sys} {c : ClientId}

theorem step_alloc {call : Call} {m : MsgRef} (h : step build s (.alloc c call m) = some s') :
    Step build s (.alloc c call m) s' := by
  cases hclient : s.clients c with
  | idle =>
      by_cases hm : m ∈ s.pool
      · simp only [step, hclient, ffIpcMsgAlloc, if_pos hm, Option.map_some,
          Option.some.injEq] at h
        rw [<- h]
        exact Step.alloc hclient hm
      · simp [step, hclient, ffIpcMsgAlloc, hm] at h
  | _ => simp [step, hclient] at h

theorem step_send (h : step build s (.send c) = some s') : Step build s (.send c) s' := by
  cases hclient : s.clients c with
  | ready call m ticket =>
      simp only [step, hclient, ffIpcSend, rteRingEnqueue] at h
      split at h
      · next hroom =>
          simp only [Option.map_some, Option.some.injEq] at h
          rw [<- h]
          exact Step.send hclient hroom
      · cases h
  | _ => simp [step, hclient] at h

/-- The head of the ring is the message that the client waits for, or another one. -/
theorem step_dequeue (h : step build s (.dequeue c) = some s') : Step build s (.dequeue c) s' := by
  cases hclient : s.clients c with
  | receiving call m ticket ty attempts =>
      cases hring : s.rings ty with
      | nil => simp [step, hclient, rteRingDequeue, hring] at h
      | cons r rest =>
          simp only [step, hclient, rteRingDequeue, hring, Option.map_eq_some_iff,
            Option.ite_none_right_eq_some, Option.some.injEq] at h
          rcases h with ⟨_, ⟨_, rfl⟩, h⟩
          rw [<- h]
          by_cases heq : m = r
          · subst heq
            rw [if_pos rfl]
            exact Step.dequeueOwn hclient hring
          · rw [if_neg heq]
            exact Step.dequeueForeign hclient hring heq
  | _ => simp [step, hclient] at h

theorem step_serverTake (h : step build s .serverTake = some s') : Step build s .serverTake s' := by
  cases hserver : s.server with
  | idle =>
      cases hring : s.rings .unknown with
      | nil => simp [step, hserver, rteRingDequeue, hring] at h
      | cons m rest =>
          simp only [step, hserver, rteRingDequeue, hring, Option.map_eq_some_iff,
            Option.ite_none_right_eq_some, Option.some.injEq] at h
          rcases h with ⟨_, ⟨hseen, rfl⟩, h⟩
          rw [<- h]
          exact Step.serverTake hserver hring hseen
  | _ => simp [step, hserver] at h

theorem step_serverReply (h : step build s .serverReply = some s') :
    Step build s .serverReply s' := by
  cases hserver : s.server with
  | handled m =>
      simp only [step, hserver, Option.some.injEq] at h
      rw [<- h]
      unfold rteRingEnqueue
      split
      · next hroom => exact Step.serverReply hserver hroom
      · next hfull => exact Step.serverLose hserver hfull
  | _ => simp [step, hserver] at h

end

theorem step_cases {build : Build} {s s' : Sys} {a : Action} (h : step build s a = some s') :
    Step build s a s' := by
  cases a with
  | alloc c call m => exact step_alloc h
  | allocFails c =>
      cases hclient : s.clients c with
      | idle =>
          simp only [step, hclient, Option.ite_none_right_eq_some, Option.some.injEq] at h
          rw [<- h.2]
          exact Step.allocFails hclient h.1
      | _ => simp [step, hclient] at h
  | refuse c =>
      cases hclient : s.clients c with
      | holding call m =>
          simp only [step, hclient, Option.some.injEq] at h
          rw [<- h]
          exact Step.refuse hclient
      | _ => simp [step, hclient] at h
  | fill c =>
      cases hclient : s.clients c with
      | holding call m =>
          simp only [step, hclient, Option.some.injEq] at h
          rw [<- h]
          exact Step.fill hclient
      | _ => simp [step, hclient] at h
  | send c => exact step_send h
  | sendFails c =>
      cases hclient : s.clients c with
      | ready call m ticket =>
          simp only [step, hclient, Option.some.injEq] at h
          rw [<- h]
          exact Step.sendFails hclient
      | _ => simp [step, hclient] at h
  | receive c =>
      cases hclient : s.clients c with
      | waiting call m ticket =>
          simp only [step, hclient, Option.some.injEq] at h
          rw [<- h]
          exact Step.receive hclient
      | _ => simp [step, hclient] at h
  | miss c =>
      cases hclient : s.clients c with
      | receiving call m ticket ty attempts =>
          simp only [step, hclient, Option.ite_none_right_eq_some, Option.some.injEq] at h
          rw [<- h.2]
          exact Step.miss hclient h.1.1 h.1.2
      | _ => simp [step, hclient] at h
  | dequeue c => exact step_dequeue h
  | freeForeign c =>
      cases hclient : s.clients c with
      | foreign call m ticket retmsg =>
          simp only [step, hclient, Option.some.injEq] at h
          rw [<- h]
          exact Step.freeForeign hclient
      | _ => simp [step, hclient] at h
  | giveUp c =>
      cases hclient : s.clients c with
      | receiving call m ticket ty attempts =>
          simp only [step, hclient, Option.some.injEq] at h
          rw [<- h]
          exact Step.giveUp hclient
      | _ => simp [step, hclient] at h
  | read c =>
      cases hclient : s.clients c with
      | received call m ticket =>
          simp only [step, hclient, Option.some.injEq] at h
          rw [<- h]
          exact Step.read hclient
      | _ => simp [step, hclient] at h
  | free c =>
      cases hclient : s.clients c with
      | closing m =>
          simp only [step, hclient, Option.some.injEq] at h
          rw [<- h]
          exact Step.free hclient
      | _ => simp [step, hclient] at h
  | serverTake => exact step_serverTake h
  | serverHandle err =>
      cases hserver : s.server with
      | taken m =>
          simp only [step, hserver, Option.some.injEq] at h
          rw [<- h]
          exact Step.serverHandle hserver
      | _ => simp [step, hserver] at h
  | serverReply => exact step_serverReply h

/-!
## Where a message is
-/

inductive Location where
  | pool (index : Nat)
  | ring (ty : MsgType) (index : Nat)
  | client (c : ClientId)
  | server
deriving DecidableEq

def Sys.At (s : Sys) : Location -> MsgRef -> Prop
  | .pool i, m => s.pool[i]? = some m
  | .ring ty i, m => (s.rings ty)[i]? = some m
  | .client c, m => (s.clients c).held = some m
  | .server, m => s.server.msg = some m

/--
No message is in two locations, the pool holds no message twice, and a call that
returned success has read the server's reply to its own request.
-/
structure Lawful (s : Sys) : Prop where
  exclusive : forall m p q, s.At p m -> s.At q m -> p = q
  pooled_once : s.pool.Nodup
  own_reply : forall e, e ∈ s.successes -> e.read = .reply e.ticket

end Ipc
end FStackLite
