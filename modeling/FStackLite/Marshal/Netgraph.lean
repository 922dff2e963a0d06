import FStackLite.Marshal.Request

/-!
# Requests of the netgraph tools

`ngctl` copies the arguments of a call into a message: their structure first, and behind
it what the structure points to.  The places are computed with pointers, in units of what
they point to, and the check that everything fits adds up bytes.
-/

namespace FStackLite
namespace Marshal

open Foundation (Span)

/-- `sizeof(struct socket_args)`; every member takes a register. -/
def sizeofSocketArgs : Nat := 24

def sizeofCloseArgs : Nat := 8

/-- The size of `struct bind_args` and of `struct connect_args`. -/
def sizeofBindArgs : Nat := 24

def sizeofSendtoArgs : Nat := 48

def sizeofRecvfromArgs : Nat := 48

def sizeofSockaddr : Nat := 16

def sizeofSocklen : Nat := 4

/-- An `int` with the value of a `socklen_t`, as the length of a copy. -/
def intSize (n : UInt32) : Nat :=
  if n.toNat < 2 ^ 31 then n.toNat else sizeMod - 2 ^ 32 + n.toNat

inductive NgCall where
  | socket
  | close
  | bind (addrlen : UInt32)
  | connect (addrlen : UInt32)
  | sendto (len : UInt64) (addrlen : UInt32)
  | recvfrom (len : UInt64) (addrlen : UInt32)
deriving DecidableEq, Repr

/-- The length that `ng_socket` and the others pass to `ngctl`. -/
def NgCall.datalen : NgCall -> Nat
  | .socket => sizeofSocketArgs
  | .close => sizeofCloseArgs
  | .bind addrlen => sizeofBindArgs + addrlen.toNat
  | .connect addrlen => sizeofBindArgs + addrlen.toNat
  | .sendto len addrlen => (sizeofSendtoArgs + len.toNat + addrlen.toNat) % sizeMod
  | .recvfrom len addrlen =>
      (sizeofRecvfromArgs + len.toNat + addrlen.toNat + sizeofSocklen) % sizeMod

def NgCall.argsSize : NgCall -> Nat
  | .socket => sizeofSocketArgs
  | .close => sizeofCloseArgs
  | .bind _ => sizeofBindArgs
  | .connect _ => sizeofBindArgs
  | .sendto _ _ => sizeofSendtoArgs
  | .recvfrom _ _ => sizeofRecvfromArgs

/--
What is laid out behind the structure: `from` is a pointer to addresses and `fromlenaddr`
one to lengths, and both are moved by numbers of bytes.
-/
def NgCall.regions (data : Nat) : NgCall -> List Span
  | .socket => []
  | .close => []
  | .bind addrlen => [⟨data + sizeofBindArgs, intSize addrlen⟩]
  | .connect addrlen => [⟨data + sizeofBindArgs, intSize addrlen⟩]
  | .sendto len addrlen =>
      let buf := data + sizeofSendtoArgs
      [⟨buf, len.toNat⟩, ⟨buf + len.toNat, intSize addrlen⟩]
  | .recvfrom len addrlen =>
      let buf := data + sizeofRecvfromArgs
      [⟨buf, len.toNat⟩, ⟨buf + sizeofSockaddr * len.toNat, addrlen.toNat⟩,
        ⟨buf + sizeofSocklen * (len.toNat + addrlen.toNat), sizeofSocklen⟩]

/-- How the exchange ends; `ret` is what the server's call returned, with a length of the address. -/
inductive NgExchange where
  | sendFailed
  | recvFailed
  | reply (result ret : Int) (fromlen : UInt32)
deriving DecidableEq, Repr

def NgCall.copiedBack (data : Nat) (fromlen : UInt32) : NgCall -> List Span
  | .recvfrom len addrlen =>
      let buf := data + sizeofRecvfromArgs
      [⟨buf, len.toNat⟩, ⟨buf + sizeofSockaddr * len.toNat, fromlen.toNat⟩,
        ⟨buf + sizeofSocklen * (len.toNat + addrlen.toNat), sizeofSocklen⟩]
  | _ => []

/-- The ranges of the message that are written, and those that are copied back. -/
structure NgEffect where
  writes : List Span
  copied : List Span
  ret : Int
  errno : Option Int
deriving DecidableEq, Repr

def ngAnswer (call : NgCall) (data : Nat) (writes : List Span) : NgExchange -> NgEffect
  | .sendFailed => ⟨writes, [], -1, some epipe⟩
  | .recvFailed => ⟨writes, [], -1, some epipe⟩
  | .reply result ret fromlen =>
      if result ≠ 0 then
        ⟨writes, [], -1, some result⟩
      else
        ⟨writes, call.copiedBack data fromlen, ret, none⟩

def ngctl (call : NgCall) (msg : Option Msg) (exchange : NgExchange) : NgEffect :=
  match msg with
  | none => ⟨[], [], -1, some enomem⟩
  | some msg =>
      if msg.bufLen < call.datalen then
        ⟨[], [], -1, some einval⟩
      else
        ngAnswer call msg.bufAddr (⟨msg.bufAddr, call.argsSize⟩ :: call.regions msg.bufAddr)
          exchange

/-!
## Receiving
-/

def NgCall.Accepted (call : NgCall) (msg : Msg) : Prop :=
  call.datalen ≤ msg.bufLen

/--
What is laid out behind the structure is apart, starts behind the structure and ends
inside the buffer.
-/
structure LaidOut (call : NgCall) (msg : Msg) : Prop where
  apart : (call.regions msg.bufAddr).Pairwise Span.Disjoint
  behind : forall r, r ∈ call.regions msg.bufAddr -> msg.bufAddr + call.argsSize ≤ r.start
  inside : forall r, r ∈ call.regions msg.bufAddr -> r.start + r.len ≤ msg.bufAddr + msg.bufLen

/-- What `ngctl` writes for a request that it accepts. -/
theorem ngctl_writes {call : NgCall} {msg : Msg} (h : call.Accepted msg) (exchange : NgExchange) :
    (ngctl call (some msg) exchange).writes =
      ⟨msg.bufAddr, call.argsSize⟩ :: call.regions msg.bufAddr := by
  have hanswer : forall writes, (ngAnswer call msg.bufAddr writes exchange).writes = writes := by
    intro writes
    cases exchange with
    | sendFailed => rfl
    | recvFailed => rfl
    | reply result ret fromlen =>
        simp only [ngAnswer]
        split
        · rfl
        · rfl
  simp only [ngctl, if_neg (Nat.not_lt.mpr h), hanswer]

section

variable {msg : Msg} {len : UInt64} {addrlen : UInt32}

/--
A request to receive is laid out as it should be if and only if sixteen times the length
of the data, and four times the length of the data and of the address, are inside the
buffer, and the address and its length do not meet.
-/
theorem recvfrom_laidOut_iff : LaidOut (.recvfrom len addrlen) msg <->
      48 + 16 * len.toNat + addrlen.toNat ≤ msg.bufLen ∧
        52 + 4 * (len.toNat + addrlen.toNat) ≤ msg.bufLen ∧
        (addrlen.toNat = 0 ∨ addrlen.toNat < 3 * len.toNat ∨ 4 * len.toNat ≤ addrlen.toNat) := by
  have hregions : (NgCall.recvfrom len addrlen).regions msg.bufAddr =
      [⟨msg.bufAddr + 48, len.toNat⟩, ⟨msg.bufAddr + 48 + 16 * len.toNat, addrlen.toNat⟩,
        ⟨msg.bufAddr + 48 + 4 * (len.toNat + addrlen.toNat), 4⟩] := rfl
  have hargs : (NgCall.recvfrom len addrlen).argsSize = 48 := rfl
  constructor
  · rintro ⟨hapart, _, hinside⟩
    rw [hregions] at hapart hinside
    simp only [List.pairwise_cons, List.forall_mem_cons, Span.disjoint_iff] at hapart
    simp only [List.forall_mem_cons] at hinside
    omega
  · rintro ⟨hsource, hlength, hmeet⟩
    constructor
    · rw [hregions]
      simp only [List.pairwise_cons, List.forall_mem_cons, List.not_mem_nil, false_implies,
        implies_true, List.Pairwise.nil, and_true, Span.disjoint_iff]
      omega
    · rw [hregions, hargs]
      simp only [List.forall_mem_cons, List.not_mem_nil, false_implies, implies_true, and_true]
      omega
    · rw [hregions]
      simp only [List.forall_mem_cons, List.not_mem_nil, false_implies, implies_true, and_true]
      omega

theorem netgraph_receive_marshalling (haccepted : (NgCall.recvfrom len addrlen).Accepted msg)
    (exchange : NgExchange) : (ngctl (.recvfrom len addrlen) (some msg) exchange).writes =
        ⟨msg.bufAddr, sizeofRecvfromArgs⟩ :: (NgCall.recvfrom len addrlen).regions msg.bufAddr ∧
      (LaidOut (.recvfrom len addrlen) msg <-> 48 + 16 * len.toNat + addrlen.toNat ≤ msg.bufLen ∧
          52 + 4 * (len.toNat + addrlen.toNat) ≤ msg.bufLen ∧
          (addrlen.toNat = 0 ∨ addrlen.toNat < 3 * len.toNat ∨ 4 * len.toNat ≤ addrlen.toNat)) :=
  ⟨ngctl_writes haccepted exchange, recvfrom_laidOut_iff⟩

end

/-- A message in the state that `ff_msg_init` leaves it in. -/
def freshMsg : Msg :=
  ⟨.unknown, 0, maxMsgBufSize - sizeofMsg, sizeofMsg, .blank⟩

/-- Sixty-four bytes and an address of sixteen. -/
theorem netgraph_receive_marshalling_short :
    (NgCall.recvfrom 64 16).Accepted freshMsg ∧ LaidOut (.recvfrom 64 16) freshMsg := by
  have haccepted : (NgCall.recvfrom 64 16).Accepted freshMsg := by
    unfold NgCall.Accepted
    decide
  exact ⟨haccepted, (netgraph_receive_marshalling haccepted .sendFailed).2.mpr (by decide)⟩

/-- A request for 1000 bytes is accepted, and the address is put behind the buffer. -/
theorem netgraph_receive_overrun :
    (NgCall.recvfrom 1000 16).Accepted freshMsg ∧ ¬ LaidOut (.recvfrom 1000 16) freshMsg := by
  constructor
  · unfold NgCall.Accepted
    decide
  · intro h
    have hinside := h.inside ⟨freshMsg.bufAddr + 48 + 16 * 1000, 16⟩ (by decide)
    revert hinside
    decide

end Marshal
end FStackLite
