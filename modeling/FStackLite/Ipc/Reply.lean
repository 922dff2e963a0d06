import FStackLite.Ipc.Protocol

/-!
# The reply of the server

`handle_msg` puts a message into the ring that the message's own type field selects.  The
field is written by another process, so it is an arbitrary number here, and the rings are an
array that such a number may miss.
-/

namespace FStackLite
namespace Ipc
namespace Reply

/-!
## The server
-/

abbrev ffMsgNum : Nat := 9

/-- A value of `enum FF_MSG_TYPE`, as the index of its ring. -/
def ringOf : MsgType -> Fin ffMsgNum
  | .unknown => 0
  | .sysctl => 1
  | .ioctl => 2
  | .ioctl6 => 3
  | .route => 4
  | .top => 5
  | .ngctl => 6
  | .ipfwCtl => 7
  | .traffic => 8

/-- An `enum` without negative constants is an `unsigned int`. -/
def value (ty : MsgType) : UInt32 :=
  UInt32.ofNat (ringOf ty).val

structure FfMsg where
  msgType : UInt32
  result : Int
  body : Body
deriving DecidableEq, Repr

def handleResult (build : Build) (err : Int) (msgType : UInt32) : Int :=
  if msgType = value .sysctl then
    err
  else if msgType = value .ioctl ∨ (build.inet6 ∧ msgType = value .ioctl6) then
    err
  else if msgType = value .route then
    err
  else if msgType = value .top then
    0
  else if build.netgraph ∧ msgType = value .ngctl then
    err
  else if build.ipfw ∧ msgType = value .ipfwCtl then
    err
  else if msgType = value .traffic then
    0
  else
    enotsup

def handle (build : Build) (err : Int) (msg : FfMsg) : FfMsg :=
  { msg with result := handleResult build err msg.msgType, body := msg.body.answered }

/-- The rings of one process, `ring[0]` for its input, and what else holds messages. -/
structure Server where
  ring : Fin ffMsgNum -> List MsgRef
  pool : List MsgRef
  memory : MsgRef -> FfMsg

inductive Outcome where
  | done (s : Server)
  /-- `ring[index]` is not in the array. -/
  | outside (index : Nat)

def enqueue (rte : RteRing) (ring : List MsgRef) (m : MsgRef) : List MsgRef :=
  if rte.enqueues ring.length then ring ++ [m] else ring

def Server.setRing (s : Server) (i : Fin ffMsgNum) (ring : List MsgRef) : Server :=
  { s with ring := Function.update s.ring i ring }

def Server.setMsg (s : Server) (m : MsgRef) (msg : FfMsg) : Server :=
  { s with memory := Function.update s.memory m msg }

@[simp] theorem Server.setRing_memory (s : Server) (i : Fin ffMsgNum) (ring : List MsgRef) :
    (s.setRing i ring).memory = s.memory :=
  rfl

theorem Server.setRing_self (s : Server) (i : Fin ffMsgNum) (ring : List MsgRef) :
    (s.setRing i ring).ring i = ring := by
  simp [Server.setRing]

theorem Server.setRing_other {s : Server} {i j : Fin ffMsgNum} {ring : List MsgRef} (h : j ≠ i) :
    (s.setRing i ring).ring j = s.ring j := by
  simp [Server.setRing, h]

/-- Nothing is made of what `rte_ring_enqueue` returns. -/
def handleMsg (build : Build) (err : Int) (s : Server) (m : MsgRef) : Outcome :=
  let index := (s.memory m).msgType.toNat
  if h : index < ffMsgNum then
    .done ((s.setMsg m (handle build err (s.memory m))).setRing ⟨index, h⟩
      (enqueue build.ring (s.ring ⟨index, h⟩) m))
  else
    .outside index

def processMsgRing (build : Build) (err : Int) (s : Server) : Outcome :=
  match s.ring 0 with
  | [] => .done s
  | m :: rest =>
      if build.ring.dequeues (rest.length + 1) then handleMsg build err (s.setRing 0 rest) m
      else .done s

/-!
## Where messages are
-/

inductive Place where
  | ring (i : Fin ffMsgNum)
  | pool
deriving DecidableEq

def Server.held (s : Server) : Place -> List MsgRef
  | .ring i => s.ring i
  | .pool => s.pool

/-- The message has been put into one place, and nothing else has been moved. -/
def PutInto (s : Server) (m : MsgRef) (place : Place) (s' : Server) : Prop :=
  forall p x, (s'.held p).count x = (s.held p).count x + if p = place ∧ x = m then 1 else 0

def Replied (s : Server) (m : MsgRef) : Outcome -> Prop
  | .done s' => exists place, place ≠ .ring 0 ∧ PutInto s m place s'
  | .outside _ => False

def CanReply (s : Server) (msgType : UInt32) : Prop :=
  exists i : Fin ffMsgNum, i ≠ 0 ∧ msgType.toNat = i.val ∧ (s.ring i).length < msgRingSize - 1

section

variable {build : Build} {err : Int} {s : Server} {m : MsgRef} {i : Fin ffMsgNum}

theorem handleMsg_ring (h : (s.memory m).msgType.toNat = i.val) : handleMsg build err s m =
      .done ((s.setMsg m (handle build err (s.memory m))).setRing i
        (enqueue build.ring (s.ring i) m)) := by
  have hi : (s.memory m).msgType.toNat < ffMsgNum := h ▸ i.isLt
  have heq : (⟨(s.memory m).msgType.toNat, hi⟩ : Fin ffMsgNum) = i := Fin.ext h
  rw [handleMsg, dif_pos hi, heq]

theorem handleMsg_outside (h : ¬ (s.memory m).msgType.toNat < ffMsgNum) :
    handleMsg build err s m = .outside (s.memory m).msgType.toNat :=
  dif_neg h

theorem putInto_ring {msg : FfMsg} (hroom : build.ring.enqueues (s.ring i).length = true) :
    PutInto s m (.ring i) ((s.setMsg m msg).setRing i (enqueue build.ring (s.ring i) m)) := by
  intro p x
  cases p with
  | pool => simp [Server.held, Server.setRing, Server.setMsg]
  | ring j =>
      by_cases hj : j = i
      · subst hj
        simp only [Server.held, Server.setRing_self, enqueue, if_pos hroom, List.count_append,
          List.count_singleton, beq_iff_eq, true_and]
        simp only [eq_comm]
      · simp [Server.held, Server.setRing_other hj, Server.setMsg, hj]

/-- A message that is on the input ring again, or nowhere, is not put into another place. -/
theorem not_putInto {msg : FfMsg} {place : Place} (hplace : place ≠ .ring 0)
    (h : i = 0 ∨ ¬ build.ring.enqueues (s.ring i).length = true) :
    ¬ PutInto s m place ((s.setMsg m msg).setRing i (enqueue build.ring (s.ring i) m)) := by
  intro hput
  have hcount := hput place m
  rw [if_pos ⟨rfl, rfl⟩] at hcount
  have hsame : ((s.setMsg m msg).setRing i (enqueue build.ring (s.ring i) m)).held place =
      s.held place := by
    cases place with
    | pool => rfl
    | ring j =>
        by_cases hj : j = i
        · subst hj
          have hfull : ¬ build.ring.enqueues (s.ring j).length = true := by
            rcases h with hzero | hfull
            · exact absurd (congrArg Place.ring hzero) hplace
            · exact hfull
          rw [Server.held, Server.setRing_self, enqueue, if_neg hfull]
          rfl
        · rw [Server.held, Server.setRing_other hj]
          rfl
  rw [hsame] at hcount
  omega

theorem replied_iff (hdoc : build.ring.Documented (msgRingSize - 1)) :
    Replied s m (handleMsg build err s m) <-> CanReply s (s.memory m).msgType := by
  by_cases hi : (s.memory m).msgType.toNat < ffMsgNum
  · rw [handleMsg_ring (i := ⟨(s.memory m).msgType.toNat, hi⟩) rfl]
    constructor
    · rintro ⟨place, hplace, hput⟩
      refine ⟨⟨_, hi⟩, ?_, rfl, ?_⟩
      · intro hzero
        exact not_putInto hplace (Or.inl hzero) hput
      · rw [<- hdoc.enqueue]
        apply Decidable.byContradiction
        intro hfull
        exact not_putInto hplace (Or.inr hfull) hput
    · rintro ⟨i, hzero, htype, hroom⟩
      have hi' : (⟨(s.memory m).msgType.toNat, hi⟩ : Fin ffMsgNum) = i := Fin.ext htype
      rw [hi']
      refine ⟨.ring i, ?_, putInto_ring ((hdoc.enqueue _).mpr hroom)⟩
      rintro ⟨⟩
      contradiction
  · rw [handleMsg_outside hi]
    refine ⟨False.elim, ?_⟩
    rintro ⟨i, _, htype, _⟩
    exact hi (htype ▸ i.isLt)

/--
A message of the input ring ends in an output ring exactly if its type is that of an output
ring with room for it.
-/
theorem server_reply_law (hdoc : build.ring.Documented (msgRingSize - 1)) {rest : List MsgRef}
    (hring : s.ring 0 = m :: rest) : Replied (s.setRing 0 rest) m (processMsgRing build err s) <->
      CanReply s (s.memory m).msgType := by
  have hhandle : processMsgRing build err s = handleMsg build err (s.setRing 0 rest) m := by
    rw [processMsgRing, hring]
    exact if_pos ((hdoc.dequeue _).mpr (Nat.succ_pos _))
  rw [hhandle, replied_iff hdoc, Server.setRing_memory]
  constructor
  · rintro ⟨i, hzero, htype, hroom⟩
    rw [Server.setRing_other hzero] at hroom
    exact ⟨i, hzero, htype, hroom⟩
  · rintro ⟨i, hzero, htype, hroom⟩
    have hother : (s.setRing 0 rest).ring i = s.ring i := Server.setRing_other hzero
    rw [<- hother] at hroom
    exact ⟨i, hzero, htype, hroom⟩

end

/-- One message on the input ring, of type `msgType`. -/
def oneMessage (msgType : UInt32) : Server where
  ring i := if i = 0 then [0] else []
  pool := []
  memory _ := ⟨msgType, 0, .request 0⟩

def inet6Build : Build :=
  ⟨true, false, false, .ofCapacity (msgRingSize - 1)⟩

/-- A request of `sysctl` is replied to. -/
theorem server_reply_law_sysctl : Replied ((oneMessage 1).setRing 0 []) 0
      (processMsgRing inet6Build 0 (oneMessage 1)) :=
  (server_reply_law (s := oneMessage 1) (RteRing.ofCapacity_documented _) rfl).mpr
    ⟨1, by decide, by decide, by decide⟩

/-- The type that `ff_msg_init` writes sends the message back to the input ring. -/
theorem server_reply_unknown :
    exists s, processMsgRing inet6Build 0 (oneMessage 0) = .done s ∧ s.ring 0 = [0] ∧
      ¬ Replied ((oneMessage 0).setRing 0 []) 0 (.done s) := by
  have hdone : processMsgRing inet6Build 0 (oneMessage 0) = _ :=
    handleMsg_ring (s := (oneMessage 0).setRing 0 []) (m := 0) (i := 0) rfl
  refine ⟨_, hdone, by decide, ?_⟩
  rintro ⟨place, hplace, hput⟩
  exact not_putInto hplace (Or.inl rfl) hput

/-!
## The messages of the tools

As long as the types are those of the `enum`, the server is that of the protocol.
-/

def FfMsg.ofMsg (msg : Msg) : FfMsg :=
  ⟨value msg.msgType, msg.result, msg.body⟩

def typeOf : Fin ffMsgNum -> MsgType
  | 0 => .unknown
  | 1 => .sysctl
  | 2 => .ioctl
  | 3 => .ioctl6
  | 4 => .route
  | 5 => .top
  | 6 => .ngctl
  | 7 => .ipfwCtl
  | 8 => .traffic

def ofSys (s : Sys) : Server where
  ring i := s.rings (typeOf i)
  pool := s.pool
  memory m := FfMsg.ofMsg (s.memory m)

theorem typeOf_ringOf (ty : MsgType) : typeOf (ringOf ty) = ty := by
  cases ty <;> rfl

theorem ringOf_typeOf : forall i, ringOf (typeOf i) = i := by
  decide

theorem value_toNat (ty : MsgType) : (value ty).toNat = (ringOf ty).val := by
  cases ty <;> rfl

theorem value_inj {ty ty' : MsgType} : value ty = value ty' <-> ty = ty' := by
  constructor
  · intro h
    have hring : ringOf ty = ringOf ty' := by
      apply Fin.ext
      rw [<- value_toNat, <- value_toNat, h]
    rw [<- typeOf_ringOf ty, hring, typeOf_ringOf]
  · rintro rfl
    rfl

theorem handle_ofMsg (build : Build) (err : Int) (msg : Msg) :
    handle build err (FfMsg.ofMsg msg) = FfMsg.ofMsg (Ipc.handleMsg build err msg) := by
  rcases msg with ⟨msgType, result, body⟩
  cases msgType with
  | _ =>
      simp [handle, handleResult, FfMsg.ofMsg, Ipc.handleMsg, Ipc.handleResult, value_inj]

theorem ofSys_setRing (s : Sys) (ty : MsgType) (ring : List MsgRef) :
    ofSys (s.setRing ty ring) = (ofSys s).setRing (ringOf ty) ring := by
  have hring : (ofSys (s.setRing ty ring)).ring = ((ofSys s).setRing (ringOf ty) ring).ring := by
    funext i
    by_cases hi : i = ringOf ty
    · rw [hi, Server.setRing_self]
      simp [ofSys, typeOf_ringOf, Sys.setRing]
    · have hty : typeOf i ≠ ty := by
        rintro rfl
        exact hi (ringOf_typeOf i).symm
      rw [Server.setRing_other hi]
      simp [ofSys, Sys.setRing, hty]
  simpa [Server.setRing, ofSys, Sys.setRing] using hring

theorem ofSys_setMsg (s : Sys) (m : MsgRef) (msg : Msg) :
    ofSys (s.setMsg m msg) = (ofSys s).setMsg m (FfMsg.ofMsg msg) := by
  have hmemory : (fun x => FfMsg.ofMsg (Function.update s.memory m msg x)) =
      Function.update (fun x => FfMsg.ofMsg (s.memory x)) m (FfMsg.ofMsg msg) :=
    Function.comp_update FfMsg.ofMsg s.memory m msg
  simp [ofSys, Sys.setMsg, Server.setMsg, hmemory]

/-- The server puts a message of the tools into the ring of its type, or loses it. -/
theorem handleMsg_ofSys (build : Build) (err : Int) (s : Sys) (m : MsgRef) :
    handleMsg build err (ofSys s) m =
      .done (ofSys ((s.setMsg m (Ipc.handleMsg build err (s.memory m))).setRing
        (s.memory m).msgType (enqueue build.ring (s.rings (s.memory m).msgType) m))) := by
  have htype : ((ofSys s).memory m).msgType.toNat = (ringOf (s.memory m).msgType).val :=
    value_toNat (s.memory m).msgType
  have hring : (ofSys s).ring (ringOf (s.memory m).msgType) = s.rings (s.memory m).msgType :=
    congrArg s.rings (typeOf_ringOf (s.memory m).msgType)
  have hmsg : handle build err ((ofSys s).memory m) =
      FfMsg.ofMsg (Ipc.handleMsg build err (s.memory m)) := handle_ofMsg build err (s.memory m)
  rw [handleMsg_ring htype, hring, hmsg, ofSys_setRing, ofSys_setMsg]

/-- The three actions of the server are a call of `process_msg_ring`. -/
theorem processMsgRing_refines {build : Build} {err : Int} {s s' : Sys}
    (h : run build [.serverTake, .serverHandle err, .serverReply] s = some s') :
    processMsgRing build err (ofSys s) = .done (ofSys s') := by
  simp only [run, Option.bind_eq_some_iff] at h
  rcases h with ⟨taken, htake, handled, hhandle, replied, hreply, hsys⟩
  injection hsys with hsys
  subst hsys
  cases step_cases htake with
  | @serverTake m rest _ hring hseen =>
      cases step_cases hhandle with
      | serverHandle hserver =>
          cases hserver
          have htaken : processMsgRing build err (ofSys s) =
              handleMsg build err (ofSys (s.setRing .unknown rest)) m := by
            have hinput : (ofSys s).ring 0 = m :: rest := hring
            rw [processMsgRing, hinput, ofSys_setRing]
            exact if_pos hseen
          rw [htaken, handleMsg_ofSys]
          cases step_cases hreply with
          | serverReply hserver hroom =>
              cases hserver
              simp only [Sys.setMsg, Sys.setRing, Function.update_self, Ipc.handleMsg] at hroom ⊢
              rw [enqueue, if_pos hroom]
              rfl
          | serverLose hserver hfull =>
              cases hserver
              simp only [Sys.setMsg, Sys.setRing, Function.update_self, Ipc.handleMsg] at hfull ⊢
              rw [enqueue, if_neg hfull, Function.update_eq_self]
              rfl

end Reply
end Ipc
end FStackLite
