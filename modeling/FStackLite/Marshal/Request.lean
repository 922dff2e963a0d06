import FStackLite.Constants
import FStackLite.Marshal.Message

/-!
# The request functions of the tools

`sysctl`, `ioctl_va` and `rtioctl` take a message from the pool, write a request into
its buffer, send it, wait for the reply and free the message.  What they call is given
as an environment: the message that `ff_ipc_msg_alloc` returns, the memory that
`rte_malloc` returns and how the exchange with the server ends.  The server answers
promptly and leaves `buf_addr` and `buf_len` alone.
-/

namespace FStackLite
namespace Marshal

open Foundation (Span)

def epipe : Int := 32

def enotty : Int := 25

inductive Exchange where
  /-- `ff_ipc_send` returns `ret`, which is negative. -/
  | sendFailed (ret : Int)
  /-- `ff_ipc_recv` returns `ret`, which is negative. -/
  | recvFailed (ret : Int)
  /-- The message comes back with this result; `len` is the `route.len` of the reply. -/
  | reply (result : Int) (len : Nat)
deriving DecidableEq, Repr

structure Env where
  alloc : Option MsgRef
  extra : Option Nat
  exchange : Exchange

/-- What a request function leaves behind; `errno` is `none` if it is not set. -/
structure Effect where
  pool : Pool
  writes : List Write
  ret : Int
  errno : Option Int

/-- An exit before anything is written: `errno = e; return -1;` -/
def Effect.refuse (pool : Pool) (e : Int) : Effect :=
  ⟨pool, [], -1, some e⟩

def Pool.set (pool : Pool) (ref : MsgRef) (msg : Msg) : Pool :=
  Function.update pool ref msg

def Args.setRouteLen (len : Nat) : Args -> Args
  | .route args => .route { args with len := len }
  | args => args

def Exchange.deliver : Exchange -> Msg -> Msg
  | .reply result len, msg => { msg with result := result, args := msg.args.setRouteLen len }
  | _, msg => msg

@[simp] theorem deliver_bufAddr (x : Exchange) (msg : Msg) :
    (x.deliver msg).bufAddr = msg.bufAddr := by
  cases x <;> rfl

@[simp] theorem deliver_bufLen (x : Exchange) (msg : Msg) :
    (x.deliver msg).bufLen = msg.bufLen := by
  cases x <;> rfl

/-- `ret` and `errno` of `ioctl_va` and `rtioctl`, which fail with -1. -/
def Exchange.outcome (success : Nat -> Int) : Exchange -> Int × Option Int
  | .sendFailed _ => (-1, some epipe)
  | .recvFailed _ => (-1, some epipe)
  | .reply result len => if result = 0 then (success len, none) else (-1, some result)

/-- `ret` and `errno` of `sysctl`, which returns what the failed call returned. -/
def Exchange.sysctlOutcome : Exchange -> Int × Option Int
  | .sendFailed ret => (ret, some epipe)
  | .recvFailed ret => (ret, some epipe)
  | .reply result _ => if result = 0 then (0, none) else (-1, some result)

/-!
## `sysctl`
-/

/--
The arguments of `sysctl`: whether `old` and `new` are given, and the value that
`oldlenp` points to if it is not `NULL`.
-/
structure Sysctl where
  namelen : Nat
  old : Bool
  oldlenp : Option Nat
  new : Bool
  newlen : Nat
deriving DecidableEq, Repr

namespace Sysctl

/-- `oldlen` is 0 unless both `old` and `oldlenp` are given. -/
def oldlen (args : Sysctl) : Nat :=
  if args.old then args.oldlenp.getD 0 else 0

def totalLen (args : Sysctl) : Nat :=
  (args.namelen + args.oldlen + args.newlen) % sizeMod

/-- `old != NULL && oldlenp == NULL` -/
def rejected (args : Sysctl) : Bool :=
  args.old && args.oldlenp.isNone

def build (args : Sysctl) (msg : Msg) : Msg × List Span :=
  let name := Cursor.start msg.bufAddr
  let afterName := name.put (args.namelen * 4)
  let hasNew := args.new && args.newlen != 0
  let afterNew := if hasNew then afterName.put args.newlen else afterName
  match args.oldlenp with
  | none =>
      ({ msg with
          msgType := .sysctl
          args := .sysctl
            { name := name.addr
              namelen := args.namelen
              old := 0
              oldlenp := 0
              new := if hasNew then afterName.addr else 0
              newlen := if hasNew then args.newlen else 0 } },
        afterNew.spans)
  | some oldlen =>
      let afterLen := afterNew.put 8
      let afterOld := if args.old then afterLen.put oldlen else afterLen
      ({ msg with
          msgType := .sysctl
          args := .sysctl
            { name := name.addr
              namelen := args.namelen
              old := if args.old then afterLen.addr else 0
              oldlenp := afterNew.addr
              new := if hasNew then afterName.addr else 0
              newlen := if hasNew then args.newlen else 0 } },
        afterOld.spans)

end Sysctl

/-- The code behind the label `error`: the buffer is put back if another one was used. -/
def restoreBuffer (original : Msg) (msg : Msg) : Msg :=
  if original.bufAddr = 0 then
    msg
  else
    { msg with bufAddr := original.bufAddr, bufLen := original.bufLen }

def sysctl (args : Sysctl) (env : Env) (pool : Pool) : Effect :=
  if args.rejected then
    Effect.refuse pool einval
  else
    match env.alloc with
    | none => Effect.refuse pool enomem
    | some ref =>
        let original := pool ref
        let outcome := env.exchange.sysctlOutcome
        if original.bufLen < args.totalLen then
          match env.extra with
          | none => Effect.refuse pool enomem
          | some extra =>
              let msg := { original with bufAddr := extra, bufLen := args.totalLen }
              let built := args.build msg
              let final := restoreBuffer original (env.exchange.deliver built.1)
              ⟨pool.set ref final, writesTo ⟨extra, args.totalLen⟩ built.2, outcome.1, outcome.2⟩
        else
          let built := args.build original
          ⟨pool.set ref (env.exchange.deliver built.1), writesTo (elementBuffer ref) built.2,
            outcome.1, outcome.2⟩

/-!
## `ioctl_va`
-/

def iocVoid : Nat := 0x20000000

def iocOut : Nat := 0x40000000

def iocIn : Nat := 0x80000000

def iocparmMax : Nat := 2 ^ 13

def iocparmLen (com : Nat) : Nat :=
  (com >>> 16) % 2 ^ 13

def afInet : Int := 2

def afInet6 : Int := 28

/--
The arguments of `ioctl_va`.  `offset` and `clen` are passed if `argc` is 3, `af` is
passed if `argc` is 1.
-/
structure Ioctl where
  com : Nat
  argc : Int
  af : Int
  offset : Nat
  clen : Nat
deriving DecidableEq, Repr

namespace Ioctl

def cmd (args : Ioctl) : Nat :=
  if 0xffffffff < args.com then args.com % 2 ^ 32 else args.com

def size (args : Ioctl) : Nat :=
  iocparmLen args.cmd

def family (args : Ioctl) : Int :=
  if args.argc = 1 then args.af else afInet

def msgType (inet6 : Bool) (args : Ioctl) : Option Ipc.MsgType :=
  if inet6 ∧ args.family = afInet6 then
    some .ioctl6
  else if args.family = afInet then
    some .ioctl
  else
    none

def badArgc (args : Ioctl) : Prop :=
  args.argc ≠ 0 ∧ args.argc ≠ 3 ∧ args.argc ≠ 1

/-- The commands that are answered with `ENOTTY`. -/
def badCommand (args : Ioctl) : Prop :=
  iocparmMax < args.size ∨ args.cmd &&& (iocIn ||| iocOut) = 0 ∨ args.size = 0 ∨
    args.cmd &&& iocVoid ≠ 0

instance (args : Ioctl) : Decidable args.badArgc :=
  inferInstanceAs (Decidable (_ ∧ _))

instance (args : Ioctl) : Decidable args.badCommand :=
  inferInstanceAs (Decidable (_ ∨ _))

def extraSpans (args : Ioctl) (data bufAddr : Nat) : List Span :=
  [⟨data + args.offset, 8⟩, ⟨bufAddr, args.clen⟩]

end Ioctl

def ioctlVa (inet6 : Bool) (args : Ioctl) (env : Env) (pool : Pool) : Effect :=
  if args.badArgc then
    Effect.refuse pool einval
  else if args.badCommand then
    ⟨pool, [], enotty, none⟩
  else
    match env.alloc with
    | none => Effect.refuse pool enomem
    | some ref =>
        let original := pool ref
        if original.bufLen < args.size then
          Effect.refuse pool enomem
        else
          match args.msgType inet6 with
          | none => Effect.refuse pool einval
          | some msgType =>
              let data := original.bufAddr
              let msg :=
                { original with
                  msgType := msgType
                  args := .ioctl ⟨args.cmd, data⟩
                  bufAddr := data + args.size }
              let copied := writesTo (elementBuffer ref) [⟨data, args.size⟩]
              if args.argc = 3 ∧ msg.bufLen < (args.size + args.clen) % sizeMod then
                ⟨pool.set ref msg, copied, -1, some enomem⟩
              else
                let more := if args.argc = 3 then args.extraSpans data msg.bufAddr else []
                let outcome := env.exchange.outcome fun _ => 0
                ⟨pool.set ref (env.exchange.deliver msg),
                  copied ++ writesTo (elementBuffer ref) more, outcome.1, outcome.2⟩

/-!
## `rtioctl`
-/

/-- The arguments of `rtioctl`, and the value of `rt_sofib`. -/
structure Rtioctl where
  len : Nat
  readLen : Nat
  fib : Int
deriving DecidableEq, Repr

def Rtioctl.maxlen (args : Rtioctl) (bufLen : Nat) : Nat :=
  let readLen := min args.readLen bufLen
  if readLen ≠ 0 then readLen else args.len

def rtioctl (args : Rtioctl) (env : Env) (pool : Pool) : Effect :=
  match env.alloc with
  | none => Effect.refuse pool enomem
  | some ref =>
      let original := pool ref
      if original.bufLen < args.len then
        Effect.refuse pool einval
      else
        let data := original.bufAddr
        let msg :=
          { original with
            msgType := .route
            args := .route ⟨args.fib, args.len, args.maxlen original.bufLen, data⟩
            bufAddr := data + args.len }
        let outcome := env.exchange.outcome fun len => len
        ⟨pool.set ref (env.exchange.deliver msg),
          writesTo (elementBuffer ref) [⟨data, args.len⟩], outcome.1, outcome.2⟩

end Marshal
end FStackLite
