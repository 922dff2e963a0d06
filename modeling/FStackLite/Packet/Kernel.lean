import FStackLite.Packet.State

/-!
# The mbuf functions of the kernel

`m_get`, `m_gethdr` and `m_free` of `sys/mbuf.h`, `m_extadd`, `mb_free_ext` and
`m_freem` of `kern/kern_mbuf.c`, and `m_copydata` of `kern/uipc_mbuf.c`.  A
result of `none` stands for the dereference of a null pointer, or for a loop
that has used up its fuel.  The stack runs on one thread, so the atomic
operation on a reference count is an ordinary one.
-/

namespace FStackLite
namespace Packet

open Foundation

/-!
## Taking mbufs from the zone
-/

/-- `m_init`, with `M_PKTHDR` or without; the external storage keeps its old contents. -/
def mInit (m : MbufRef) (pkthdr : Bool) (old : Mbuf) : Mbuf :=
  { old with
    mNext := none
    mNextpkt := none
    mData := { block := Block.inner m, off := 0 }
    mLen := 0
    hasExt := false
    hasPkthdr := pkthdr
    noFree := false
    pkthdrLen := if pkthdr then 0 else old.pkthdrLen }

/-- `uma_zalloc_arg(zone_mbuf, &args, M_NOWAIT)`, whose constructor is `m_init`. -/
def umaZallocMbuf (env : Env) (pkthdr : Bool) (s : Sys) : Option MbufRef × Sys :=
  match s.zone.alloc env.zone with
  | (none, zone) => (none, { s with zone := zone })
  | (some m, zone) =>
      (some m, ({ s with zone := zone } : Sys).setMbuf m (mInit m pkthdr (s.mbufs m)))

/-- `m_get(M_NOWAIT, MT_DATA)`. -/
def mGet (env : Env) (s : Sys) : Option MbufRef × Sys :=
  umaZallocMbuf env false s

/-- `m_gethdr(M_NOWAIT, MT_DATA)`. -/
def mGethdr (env : Env) (s : Sys) : Option MbufRef × Sys :=
  umaZallocMbuf env true s

/-- `m_extadd(mb, buf, size, freef, arg1, NULL, 0, type)`. -/
def mExtadd (buf : Ptr) (size : Nat) (freef : Option ExtFree) (arg1 : Option RteRef)
    (type : ExtType) (mb : Mbuf) : Mbuf :=
  { mb with
    hasExt := true
    mData := buf
    ext :=
      { extBuf := buf
        extSize := size
        extFree := freef
        extArg1 := arg1
        extType := type
        extCount := if type = ExtType.extref then mb.ext.extCount else 1
        extCnt := mb.ext.extCnt
        embref := type != ExtType.extref } }

/-!
## Giving them back
-/

/-- `dpdk_ff_freef(m, arg1, arg2)` of `ff_dpdk/ff_dpdk.h`. -/
def dpdkFfFreef (env : Env) (arg1 : Option RteRef) (s : Sys) : Sys :=
  s.rtePktmbufFree env arg1

/-- `(*(m->m_ext.ext_free))(m, m->m_ext.ext_arg1, m->m_ext.ext_arg2)`. -/
def callExtFree (env : Env) (m : MbufRef) (s : Sys) : Option Sys :=
  match (s.mbufs m).ext.extFree with
  | none => none
  | some ExtFree.dpdkFfFreef => some (dpdkFfFreef env (s.mbufs m).ext.extArg1 s)
  | some (ExtFree.other f) => some (s.release (Release.callback f m))

/-- The switch of `mb_free_ext`, entered with the last reference. -/
def freeStorage (env : Env) (m mref : MbufRef) (s : Sys) : Option Sys :=
  match (s.mbufs m).ext.extType with
  | ExtType.packet => some (s.release (Release.pack mref))
  | ExtType.cluster =>
      some ((s.release (Release.cluster ExtType.cluster
        (s.mbufs m).ext.extBuf)).umaZfreeMbuf mref)
  | ExtType.jumbop =>
      some ((s.release (Release.cluster ExtType.jumbop
        (s.mbufs m).ext.extBuf)).umaZfreeMbuf mref)
  | ExtType.jumbo9 =>
      some ((s.release (Release.cluster ExtType.jumbo9
        (s.mbufs m).ext.extBuf)).umaZfreeMbuf mref)
  | ExtType.jumbo16 =>
      some ((s.release (Release.cluster ExtType.jumbo16
        (s.mbufs m).ext.extBuf)).umaZfreeMbuf mref)
  | ExtType.sfbuf =>
      some ((s.release (Release.sfExtFree ExtType.sfbuf m)).umaZfreeMbuf mref)
  | ExtType.sfbufNocache =>
      some ((s.release (Release.sfExtFree ExtType.sfbufNocache m)).umaZfreeMbuf mref)
  | ExtType.netDrv => (callExtFree env m s).map fun s' => s'.umaZfreeMbuf mref
  | ExtType.modType => (callExtFree env m s).map fun s' => s'.umaZfreeMbuf mref
  | ExtType.disposable => (callExtFree env m s).map fun s' => s'.umaZfreeMbuf mref
  | ExtType.extref => callExtFree env m s
  | ExtType.zero => some s
  | ExtType.unknown => some s

/-- `atomic_fetchadd_int(refcnt, -1)` on the count in `mref`. -/
def dropRef (s : Sys) (mref : MbufRef) : Sys :=
  s.setMbuf mref
    { s.mbufs mref with
      ext := { (s.mbufs mref).ext with
        extCount := (s.mbufs mref).ext.extCount - 1 } }

/-- The mbuf that holds the reference count of `m`. -/
def refHolder (s : Sys) (m : MbufRef) : Option MbufRef :=
  if (s.mbufs m).ext.embref then some m else (s.mbufs m).ext.extCnt

/-- `mb_free_ext(m)`. -/
def mbFreeExt (env : Env) (m : MbufRef) (s : Sys) : Option Sys :=
  match refHolder s m with
  | none => none
  | some mref =>
      let freembuf := !(s.mbufs m).noFree
      let stored :=
        if (s.mbufs mref).ext.extCount = 1 then freeStorage env m mref s
        else some (dropRef s mref)
      stored.map fun s' => if freembuf && m != mref then s'.umaZfreeMbuf m else s'

/-- `m_free(m)`; returns the next mbuf of the chain. -/
def mFree (env : Env) (m : MbufRef) (s : Sys) : Option (Option MbufRef × Sys) :=
  let n := (s.mbufs m).mNext
  let logged : Sys := { s with mFrees := s.mFrees ++ [m] }
  if (s.mbufs m).hasExt then
    (mbFreeExt env m logged).map fun s' => (n, s')
  else if (s.mbufs m).noFree then
    some (n, logged)
  else
    some (n, logged.umaZfreeMbuf m)

/-- One pass of the loop of `m_freem`. -/
def mFreemBody (env : Env) (x : Option MbufRef × Sys) :
    Option (LoopStep (Option MbufRef × Sys) Sys) :=
  match x.1 with
  | none => some (LoopStep.done x.2)
  | some m => (mFree env m x.2).map LoopStep.next

/-- `m_freem(m)`. -/
def mFreem (env : Env) (fuel : Nat) (m : Option MbufRef) (s : Sys) : Option Sys :=
  loop (fun _ => mFreemBody env) fuel (m, s)

/-!
## Copying data out of a chain

The offset and the length are not negative, as the function asserts.
-/

/-- The loop of `m_copydata` that skips the first `off` bytes. -/
def mCopydataSkip (s : Sys) (x : Option MbufRef × Nat) :
    Option (LoopStep (Option MbufRef × Nat) (Option MbufRef × Nat)) :=
  if x.2 = 0 then
    some (LoopStep.done x)
  else
    match x.1 with
    | none => none
    | some m =>
        if x.2 < (s.mbufs m).mLen then
          some (LoopStep.done x)
        else
          some (LoopStep.next ((s.mbufs m).mNext, x.2 - (s.mbufs m).mLen))

/-- The variables of the loop of `m_copydata` that copies. -/
structure CopyLoop where
  m : Option MbufRef
  off : Nat
  len : Nat
  cp : Ptr
  mem : Memory

/-- The loop of `m_copydata` that copies. -/
def mCopydataCopy (s : Sys) (x : CopyLoop) : Option (LoopStep CopyLoop Memory) :=
  if x.len = 0 then
    some (LoopStep.done x.mem)
  else
    match x.m with
    | none => none
    | some m =>
        let count := min ((s.mbufs m).mLen - x.off) x.len
        some (LoopStep.next
          { m := (s.mbufs m).mNext
            off := 0
            len := x.len - count
            cp := x.cp.advance count
            mem := bcopy x.mem ((s.mbufs m).mData.advance x.off) x.cp count })

/-- `m_copydata(m, off, len, cp)`. -/
def mCopydata (fuel : Nat) (m : Option MbufRef) (off len : Nat) (cp : Ptr) (s : Sys) : Option Sys :=
  match loop (fun _ => mCopydataSkip s) fuel (m, off) with
  | none => none
  | some (m', off') =>
      (loop (fun _ => mCopydataCopy s) fuel
        { m := m', off := off', len := len, cp := cp, mem := s.mem }).map
        fun mem => { s with mem := mem }

end Packet
end FStackLite
