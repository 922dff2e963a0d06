import FStackLite.Constants
import FStackLite.Route.MsgBuffer

/-!
# Requests for the routing table

`ff_rtioctl` copies a request of the caller into memory of its own, acts on it, and
copies the message back with the answer or an error in it.  The routing table, its
entries and the allocator are parameters.  The functions of the table do not write to the
message, and what they read of the addresses they are given is not recorded.
-/

namespace FStackLite
namespace Route

open Foundation (Bytes Span)

def rtmAdd : Nat := 1

def rtmDelete : Nat := 2

def rtmChange : Nat := 3

def rtmGet : Nat := 4

def esrch : Int := 3

def eprotonosupport : Int := 43

def eopnotsupp : Int := 45

def eafnosupport : Int := 47

def enobufs : Int := 55

def rtfDone : Nat := 6

def rtfLldata : Nat := 10

def rtfAnnounce : Nat := 14

structure Interface where
  index : Nat
  addr : Bytes
  /-- `rtm_get_jailed`: an error, or the address it chooses. -/
  ifa : Except Int Bytes
  pointToPoint : Bool
  dstaddr : Option Bytes

structure Entry where
  /-- The entry is not for the prison of the caller. -/
  denied : Bool
  key : Bytes
  gateway : Option Bytes
  mask : Option Bytes
  ifp : Option Interface
  /-- `rt_flags`, with `RTF_GWFLAG_COMPAT` translated. -/
  flags : Nat
  metrics : Bytes

structure Env where
  zones : Zones
  malloc : Nat -> Bool
  /-- No block is half of the address space. -/
  malloc_bound : forall size, 2 ^ 63 ≤ size -> malloc size = false
  /-- What the two blocks hold when they are allocated. -/
  fresh : Bytes
  freshReply : Bytes
  /-- What the local variables `ss` of `ff_rtioctl` and of `rtsock_msg_buffer` hold. -/
  stack : Bytes
  frame : Bytes
  pid : Nat
  llaRtOutput : Int
  /-- `rtrequest1_fib` to add or change: an error, or the index of the interface, if any. -/
  change : Except Int (Option Nat)
  delete : Except Int Entry
  /-- The addresses that `rtrequest1_fib` replaces, by `NULL` or by another one. -/
  replaced : Nat -> Option (Option Bytes)
  /-- There is a table for the family. -/
  table : Bool
  found : Option Entry
  /-- What the second search finds, for an announced address. -/
  announced : Option Entry

def Slot.ofOption : Option Bytes -> Slot
  | none => .absent
  | some sa => .elsewhere sa

def Env.rewrite (env : Env) (info : Info) : Info :=
  fun i =>
    match env.replaced i with
    | none => info i
    | some sa => .ofOption sa

structure Work where
  size : Nat
  mem : Bytes
  reads : List Read

def Work.read (w : Work) (off n : Nat) : Work :=
  { w with reads := w.reads ++ [⟨⟨off, n⟩, w.size⟩] }

def Work.readFamily (w : Work) (slot : Slot) : Work :=
  match slot with
  | .inside off => w.read (off + 1) 1
  | _ => w

def Work.write (w : Work) (off n v : Nat) : Work :=
  { w with mem := w.mem.putNum off n v }

/-- `rtm_index`, if there is one to write. -/
def Work.writeIndex (w : Work) (index : Option Nat) : Work :=
  match index with
  | some n => w.write 4 2 n
  | none => w

def Work.family (w : Work) (slot : Slot) : UInt8 :=
  slot.bytes none w.mem 1

structure Finish where
  work : Work
  info : Info
  error : Int
  deembed : Bool

/-!
## The end of a request
-/

/-- What the loop over the addresses leaves; `inet6` are the addresses it looks at. -/
structure Deembed where
  mem : Bytes
  reads : List Read
  inet6 : List Nat

def recoverAt (env : Env) (mem : Bytes) (off : Nat) : Bytes :=
  match sa6Recoverscope env.zones (env.stack.store 0 in6Size (mem.drop off)) with
  | some sin6 => mem.store off in6Size sin6
  | none => mem

def recoverScopes (env : Env) (size : Nat) (info : Info) : List Nat -> Bytes -> Deembed
  | [], mem => ⟨mem, [], []⟩
  | i :: rest, mem =>
      match info i with
      | .inside off =>
          if mem (off + 1) = afInet6 then
            let later := recoverScopes env size info rest (recoverAt env mem off)
            { later with
              reads := ⟨⟨off + 1, 1⟩, size⟩ :: ⟨⟨off, in6Size⟩, size⟩ :: later.reads
              inet6 := off :: later.inet6 }
          else
            let later := recoverScopes env size info rest mem
            { later with reads := ⟨⟨off + 1, 1⟩, size⟩ :: later.reads }
      | _ => recoverScopes env size info rest mem

/-- What a call returns and stores, and what it read of its working copies. -/
structure Outcome where
  error : Int
  plen : Nat
  /-- The number of bytes written to `data`, and the bytes. -/
  written : Nat
  data : Bytes
  reads : List Read

def recovered (env : Env) (f : Finish) : Work :=
  if f.deembed then
    let d := recoverScopes env f.work.size f.info (List.range rtaxMax) f.work.mem
    ⟨f.work.size, d.mem, f.work.reads ++ d.reads⟩
  else
    f.work

def Work.mark (w : Work) (error : Int) : Work :=
  if error ≠ 0 then
    w.write 24 4 error.toNat
  else
    (w.read 8 4).write 8 4 (w.mem.num 8 4 ||| 2 ^ rtfDone)

def flush (env : Env) (data : Bytes) (f : Finish) : Outcome :=
  let w := ((recovered env f).mark f.error).read 0 2
  let msglen := w.mem.num 0 2
  ⟨f.error, msglen, msglen, data.store 0 msglen w.mem, (w.read 0 msglen).reads⟩

/-!
## The answer
-/

/-- `rtsock_fix_netmask`, into the local variable `ss`. -/
def rtsockFixNetmask (stack dst smask : Bytes) : Bytes :=
  fun k =>
    if k = 0 then
      dst 0
    else if k = 1 then
      dst 1
    else if k < (smask 0).toNat then
      smask k
    else if k < (dst 0).toNat then
      0
    else
      stack k

def routeInfo (env : Env) (entry : Entry) (info : Info) : Info :=
  Function.update (Function.update (Function.update (Function.update info
    rtaxDst (.elsewhere entry.key))
    rtaxGateway (.ofOption entry.gateway))
    rtaxNetmask (.ofOption (entry.mask.map (rtsockFixNetmask env.stack entry.key))))
    rtaxGenmask .absent

def interfaceInfo (ifp : Interface) (ifa : Bytes) (info : Info) : Info :=
  let local' := Function.update (Function.update info rtaxIfp (.elsewhere ifp.addr))
    rtaxIfa (.elsewhere ifa)
  if ifp.pointToPoint then
    Function.update local' rtaxBrd (.ofOption ifp.dstaddr)
  else
    local'

def reportInfo (env : Env) (entry : Entry) (addrs : Nat) (info : Info) :
    Except Int (Info × Option Nat) :=
  let route := routeInfo env entry info
  if addrs.testBit rtaxIfp ∨ addrs.testBit rtaxIfa then
    match entry.ifp with
    | none =>
        .ok (Function.update (Function.update route rtaxIfp .absent) rtaxIfa .absent, none)
    | some ifp =>
        match ifp.ifa with
        | .error e => .error e
        | .ok ifa => .ok (interfaceInfo ifp ifa route, some ifp.index)
  else
    .ok (route, entry.ifp.map Interface.index)

def Env.scene (env : Env) (freed : Option Bytes) (size : Nat) : Scene :=
  ⟨env.zones, env.frame, freed, size⟩

def fillReply (env : Env) (type : Nat) (entry : Entry) (info : Info) (freed : Option Bytes)
    (w : Work) : Finish :=
  let b := rtsockMsgBuffer (env.scene freed w.size) type info (some ⟨w.size, false⟩) w.mem
  let answered : Work := ⟨w.size, ((b.mem.putNum 8 4 entry.flags).store 40 112 entry.metrics).putNum
    12 4 b.addrs, w.reads ++ b.reads⟩
  ⟨answered, info, 0, false⟩

/-- The answer with the given addresses, over the request or in a new block. -/
def answer (env : Env) (maxlen type : Nat) (entry : Entry) (info : Info) (w : Work) : Finish :=
  let sized := rtsockMsgBuffer (env.scene none w.size) type info none w.mem
  let w' : Work := { w with reads := w.reads ++ sized.reads }
  if maxlen < sized.len then
    ⟨w', info, enobufs, false⟩
  else if w.size < sized.len then
    if env.malloc sized.len then
      let msglen := w.mem.num 0 2
      fillReply env type entry info (some w.mem)
        ⟨sized.len, env.freshReply.store 0 msglen w.mem, ((w'.read 0 2).read 0 msglen).reads⟩
    else
      ⟨w', info, enobufs, false⟩
  else
    fillReply env type entry info none w'

/-- From the label `report` on. -/
def report (env : Env) (maxlen type : Nat) (entry : Entry) (info : Info) (w : Work) : Finish :=
  if entry.denied then
    ⟨w, info, esrch, false⟩
  else
    match reportInfo env entry (w.mem.num 12 4) info with
    | .error e => ⟨w.read 12 4, info, e, false⟩
    | .ok (info', index) => answer env maxlen type entry info' ((w.read 12 4).writeIndex index)

/-!
## The request
-/

inductive Verdict where
  /-- The error, the index for the header, and whether scopes are to be recovered. -/
  | done (error : Int) (index : Option Nat) (deembed : Bool) (info : Info)
  | report (entry : Entry) (info : Info)

/-- The gateway is one of the link layer, and the request is for that layer. -/
def forLinkLayer (flags : Nat) (gateway : Slot) (family : UInt8) : Bool :=
  match gateway with
  | .absent => false
  | _ => family == afLink && flags.testBit rtfLldata

def dispatch (env : Env) (type flags : Nat) (info : Info) (family : UInt8) : Verdict :=
  if type = rtmAdd ∨ type = rtmChange then
    match info rtaxGateway with
    | .absent => .done einval none false info
    | gateway =>
        if forLinkLayer flags gateway family then
          .done env.llaRtOutput none (decide (env.llaRtOutput = 0) && env.zones.deembed) info
        else
          match env.change with
          | .error e => .done e none false (env.rewrite info)
          | .ok index => .done 0 index (index.isSome && env.zones.deembed) (env.rewrite info)
  else if type = rtmDelete then
    if forLinkLayer flags (info rtaxGateway) family then
      .done env.llaRtOutput none (decide (env.llaRtOutput = 0) && env.zones.deembed) info
    else
      match env.delete with
      | .error e => .done e none env.zones.deembed (env.rewrite info)
      | .ok entry => .report entry (env.rewrite info)
  else if type = rtmGet then
    if env.table then
      match (if flags.testBit rtfAnnounce then env.announced else env.found) with
      | none => .done esrch none false info
      | some entry => .report entry info
    else
      .done eafnosupport none false info
  else
    .done eopnotsupp none false info

def xaddrsOf (env : Env) (len : Nat) (w : Work) : Xaddrs :=
  rtXaddrs env.zones (w.mem.num 12 4) len (List.range rtaxMax) headerSize w.mem

/-- What is known of a request; `inet6` are the addresses given to `sa6_embedscope`. -/
structure Examined where
  work : Work
  inet6 : List Nat
  verdict : Verdict

def examineAddrs (env : Env) (x : Xaddrs) (w : Work) : Examined :=
  let refused := Verdict.done einval none false x.info
  let gateway := x.info rtaxGateway
  match x.info rtaxDst with
  | .absent => ⟨w, x.inet6, refused⟩
  | dst =>
      if afMax ≤ w.family dst then
        ⟨w.readFamily dst, x.inet6, refused⟩
      else if afMax ≤ w.family gateway then
        ⟨(w.readFamily dst).readFamily gateway, x.inet6, refused⟩
      else
        ⟨((w.readFamily dst).readFamily gateway).read 3 1, x.inet6,
          dispatch env (w.mem 3).toNat (w.mem.num 8 4) x.info (w.family gateway)⟩

def Work.openRequest (w : Work) (env : Env) : Work :=
  (((w.read 2 1).write 16 4 env.pid).read 12 4).read 32 8

/-- The working copy after `rt_xaddrs`. -/
def Work.afterXaddrs (w : Work) (x : Xaddrs) : Work :=
  ⟨w.size, x.mem, w.reads ++ x.reads.map fun s => ⟨s, w.size⟩⟩

def examine (env : Env) (len : Nat) (w : Work) : Examined :=
  if w.mem 2 = UInt8.ofNat rtmVersion then
    let opened := w.openRequest env
    let x := xaddrsOf env len opened
    if x.accepted then
      examineAddrs env x ((opened.afterXaddrs x).read 8 4)
    else
      ⟨opened.afterXaddrs x, x.inet6, .done einval none false x.info⟩
  else
    ⟨w.read 2 1, [], .done eprotonosupport none false fun _ => .absent⟩

def handleRequest (env : Env) (maxlen len : Nat) (w : Work) : Finish :=
  let e := examine env len w
  match e.verdict with
  | .done error index deembed info => ⟨e.work.writeIndex index, info, error, deembed⟩
  | .report entry info => report env maxlen (e.work.mem 3).toNat entry info e.work

/-- `*plen` as an `int`. -/
def asInt (plen : Nat) : Int :=
  (plen : Int).bmod (2 ^ 32)

/-- `roundup2(len, 1024)` as an `int`, where a sum that is too large wraps around. -/
def allocLen (len : Int) : Int :=
  ((len + 1023).bmod (2 ^ 32)) / 1024 * 1024

/-- A size as `malloc` takes it. -/
def asSize (n : Int) : Nat :=
  (n % 2 ^ 64).toNat

def copyIn (env : Env) (data : Bytes) (plen : Nat) : Work :=
  ⟨asSize (allocLen (asInt plen)), env.fresh.store 0 (asInt plen).toNat data, []⟩

/-- The request is shorter than a header, as a comparison of unsigned numbers. -/
def isShort (plen : Nat) : Prop :=
  asSize (asInt plen) < headerSize

instance (plen : Nat) : Decidable (isShort plen) :=
  inferInstanceAs (Decidable (asSize (asInt plen) < headerSize))

def ffRtioctl (env : Env) (data : Bytes) (plen maxlen : UInt32) : Outcome :=
  let w := copyIn env data plen.toNat
  if env.malloc w.size then
    if isShort plen.toNat then
      flush env data ⟨w, fun _ => .absent, einval, false⟩
    else if asInt plen.toNat ≠ w.mem.num 0 2 then
      flush env data ⟨w.read 0 2, fun _ => .absent, einval, false⟩
    else
      flush env data (handleRequest env maxlen.toNat (asInt plen.toNat).toNat (w.read 0 2))
  else
    ⟨enobufs, plen.toNat, 0, data, []⟩

end Route
end FStackLite
