import FStackLite.Foundation.Span
import FStackLite.Ipc.Protocol

/-!
# The message pool and its buffers

A message is an element of a pool in shared memory: a header, `struct ff_msg`, and
behind it the buffer that a tool fills with the data of its request.  The header holds
the address and the size of the buffer, `buf_addr` and `buf_len`, which `ff_msg_init`
sets when the pool is created.

Addresses are natural numbers, with the address 0 for `NULL`.  Sums of sizes are
taken modulo `2 ^ 64`, as in `size_t`.
-/

namespace FStackLite
namespace Marshal

open Foundation (Span)

/-- The values of `size_t`. -/
def sizeMod : Nat := 2 ^ 64

/-- `sizeof(struct ff_msg)`: 24 bytes and a union of 48, padded to two cache lines. -/
def sizeofMsg : Nat := 128

/-- `MAX_MSG_BUF_SIZE`, the size of an element of the pool. -/
def maxMsgBufSize : Nat := 10240

abbrev MsgRef := Nat

structure SysctlArgs where
  name : Nat
  namelen : Nat
  old : Nat
  oldlenp : Nat
  new : Nat
  newlen : Nat
deriving DecidableEq, Repr

structure IoctlArgs where
  cmd : Nat
  data : Nat
deriving DecidableEq, Repr

structure RouteArgs where
  fib : Int
  len : Nat
  maxlen : Nat
  data : Nat
deriving DecidableEq, Repr

/-- The union of `struct ff_msg`, as far as the request functions below use it. -/
inductive Args where
  | blank
  | sysctl (args : SysctlArgs)
  | ioctl (args : IoctlArgs)
  | route (args : RouteArgs)
deriving DecidableEq, Repr

structure Msg where
  msgType : Ipc.MsgType
  result : Int
  bufLen : Nat
  bufAddr : Nat
  args : Args
deriving DecidableEq, Repr

def ffMsgInit (eltSize : Nat) (ref : MsgRef) (msg : Msg) : Msg :=
  { msg with
    msgType := .unknown
    bufAddr := ref + sizeofMsg
    bufLen := eltSize - sizeofMsg }

abbrev Pool := MsgRef -> Msg

def elementBuffer (ref : MsgRef) : Span :=
  ⟨ref + sizeofMsg, maxMsgBufSize - sizeofMsg⟩

@[simp] theorem elementBuffer_len (ref : MsgRef) :
    (elementBuffer ref).len = maxMsgBufSize - sizeofMsg := rfl

/-- `buf_addr` and `buf_len` are those that `ff_msg_init` sets. -/
def Msg.Initial (ref : MsgRef) (msg : Msg) : Prop :=
  msg.bufAddr = (elementBuffer ref).start ∧ msg.bufLen = (elementBuffer ref).len

instance (ref : MsgRef) (msg : Msg) : Decidable (msg.Initial ref) :=
  inferInstanceAs (Decidable (_ ∧ _))

theorem ffMsgInit_initial (ref : MsgRef) (msg : Msg) :
    (ffMsgInit maxMsgBufSize ref msg).Initial ref :=
  ⟨rfl, rfl⟩

def Pool.Initial (pool : Pool) : Prop :=
  forall ref, (pool ref).Initial ref

/-!
## Writes

Every copy into shared memory is recorded together with the buffer that the request
may use: the buffer of its element, or memory that it allocated for itself.
-/

structure Write where
  buffer : Span
  span : Span
deriving DecidableEq, Repr

def Write.Inside (w : Write) : Prop :=
  w.span.Within w.buffer.start w.buffer.len

instance (w : Write) : Decidable w.Inside :=
  inferInstanceAs (Decidable (Span.Within _ _ _))

def writesTo (buffer : Span) (spans : List Span) : List Write :=
  spans.map fun span => ⟨buffer, span⟩

theorem writesTo_inside_iff {buffer : Span} {spans : List Span} :
    (forall w, w ∈ writesTo buffer spans -> w.Inside) <->
      forall s, s ∈ spans -> s.Within buffer.start buffer.len := by
  simp [writesTo, Write.Inside]

/-- The address up to which the buffer is filled, and the copies made so far. -/
structure Cursor where
  addr : Nat
  spans : List Span

namespace Cursor

def start (addr : Nat) : Cursor := ⟨addr, []⟩

/-- `memcpy(buf_addr, .., n); buf_addr += n;` -/
def put (n : Nat) (c : Cursor) : Cursor :=
  ⟨c.addr + n, c.spans ++ [⟨c.addr, n⟩]⟩

/-- What has been copied is laid out from `start` on, in pieces of these lengths. -/
def Holds (c : Cursor) (start : Nat) (lens : List Nat) : Prop :=
  c.addr = start + lens.sum ∧ c.spans = Foundation.layout start lens

theorem start_holds (addr : Nat) : (start addr).Holds addr [] :=
  ⟨rfl, rfl⟩

theorem Holds.put {c : Cursor} {addr : Nat} {lens : List Nat} (h : c.Holds addr lens) (n : Nat) :
    (c.put n).Holds addr (lens ++ [n]) := by
  rcases h with ⟨haddr, hspans⟩
  constructor
  · show c.addr + n = addr + (lens ++ [n]).sum
    rw [haddr, List.sum_append, List.sum_singleton, Nat.add_assoc]
  · show c.spans ++ [⟨c.addr, n⟩] = Foundation.layout addr (lens ++ [n])
    rw [Foundation.layout_append, hspans, haddr]
    rfl

end Cursor

end Marshal
end FStackLite
