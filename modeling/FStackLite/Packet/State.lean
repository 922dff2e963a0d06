import FStackLite.Foundation.Arena
import FStackLite.Foundation.Chain
import FStackLite.Foundation.Loop
import FStackLite.Foundation.Memory
import Mathlib.Tactic.Ring

/-!
# Two packet buffer systems

A packet is a chain of `struct mbuf` in the BSD stack (`sys/mbuf.h`) and a
chain of `struct rte_mbuf` in the driver.  This module has the data of both, the
memory the packet bytes lie in, and the ledgers of the mbuf zone and of the
packet pool.

The pool and its two functions `rte_pktmbuf_alloc` and `rte_pktmbuf_free` are
not part of this repository; they are parameters, with their documented
behaviour stated as `RteDocumented`.  Of the memory allocator behind
`zone_mbuf` only that an mbuf in use is not handed out again is known.
-/

namespace FStackLite
namespace Packet

open Foundation

/-- The address of a `struct mbuf`. -/
abbrev MbufRef := Nat

/-- The address of a `struct rte_mbuf`. -/
abbrev RteRef := Nat

/-!
## Memory

A pointer to packet bytes lies in the buffer of an `rte_mbuf`, in a cluster or
other storage of the stack, or in the mbuf itself (`m_dat`).
-/

inductive Block where
  | rte (r : RteRef)
  | storage (id : Nat)
  | inner (m : MbufRef)
  deriving DecidableEq, Repr

abbrev Ptr := Foundation.Ptr Block

abbrev Memory := Foundation.Memory Block

/-- `bcopy(src, dst, n)`. -/
def bcopy (mem : Memory) (src dst : Ptr) (n : Nat) : Memory :=
  mem.write dst (mem.read src n)

/-!
## The BSD mbuf
-/

/-- The values of `ext_type` that `mb_free_ext` tells apart, `0` included. -/
inductive ExtType where
  | zero
  | cluster
  | sfbuf
  | jumbop
  | jumbo9
  | jumbo16
  | packet
  | sfbufNocache
  | netDrv
  | modType
  | disposable
  | extref
  | unknown
  deriving DecidableEq, Repr

/-- The functions `ext_free` may point to. -/
inductive ExtFree where
  | dpdkFfFreef
  | other (f : Nat)
  deriving DecidableEq, Repr

/--
`struct m_ext`.  The union of the embedded count and the pointer to a count is
kept as two members; `ext_cnt` points at the `ext_count` of an mbuf, which is
the mbuf `mb_free_ext` gets back with `__containerof`.
-/
structure Ext where
  extCount : BitVec 32
  extCnt : Option MbufRef
  extBuf : Ptr
  extSize : Nat
  extType : ExtType
  /-- `ext_flags & EXT_FLAG_EMBREF` -/
  embref : Bool
  extFree : Option ExtFree
  extArg1 : Option RteRef

/--
`struct mbuf`.  The lengths of the data in an mbuf are never negative; the
length in the packet header has its C type, since the transmit path converts
it.
-/
structure Mbuf where
  mNext : Option MbufRef
  mNextpkt : Option MbufRef
  mData : Ptr
  mLen : Nat
  /-- `m_flags & M_EXT` -/
  hasExt : Bool
  /-- `m_flags & M_PKTHDR` -/
  hasPkthdr : Bool
  /-- `m_flags & M_NOFREE` -/
  noFree : Bool
  /-- `m_pkthdr.len` -/
  pkthdrLen : BitVec 32
  ext : Ext

/-!
## The rte mbuf
-/

/-- The members of `struct rte_mbuf` that the two conversions use. -/
structure RteMbuf where
  next : Option RteRef
  dataOff : Nat
  dataLen : BitVec 16
  pktLen : BitVec 32
  nbSegs : BitVec 16

/-!
## The system
-/

/-- What `mb_free_ext` hands to other parts of the kernel. -/
inductive Release where
  | pack (m : MbufRef)
  | cluster (t : ExtType) (buf : Ptr)
  | sfExtFree (t : ExtType) (m : MbufRef)
  | callback (f : Nat) (m : MbufRef)

/--
The memory and the ledgers.  `rteFrees` and `mFrees` list the arguments of the
calls of `rte_pktmbuf_free` and of `m_free`.
-/
structure Sys where
  mbufs : MbufRef -> Mbuf
  zone : Arena MbufRef
  rtes : RteRef -> RteMbuf
  pool : Arena RteRef
  mem : Memory
  rteFrees : List RteRef
  mFrees : List MbufRef
  releases : List Release

structure Env where
  zone : Allocator MbufRef
  pool : Allocator RteRef
  /-- What `rte_pktmbuf_alloc` makes of the old contents of an `rte_mbuf`. -/
  rteReset : RteMbuf -> RteMbuf
  /--
  What `rte_pktmbuf_free` gives back, and the `rte_mbuf`s afterwards, given the
  segments in use.
  -/
  rteFree : List RteRef -> (RteRef -> RteMbuf) -> RteRef ->
    List RteRef × (RteRef -> RteMbuf)

/-- The `next` links of the `rte_mbuf`s. -/
def rteNext (rtes : RteRef -> RteMbuf) (r : RteRef) : Option RteRef :=
  (rtes r).next

/-- The `m_next` links of the mbufs. -/
def Sys.mNext (s : Sys) (m : MbufRef) : Option MbufRef :=
  (s.mbufs m).mNext

def LinksWithin (rtes : RteRef -> RteMbuf) (inside : RteRef -> Prop) : Prop :=
  forall r, inside r -> forall q, rteNext rtes r = some q -> inside q

/--
The documented behaviour of the packet pool.  `rte_pktmbuf_alloc` returns one
empty segment.  `rte_pktmbuf_free` gives every segment of a chain in use back to
the pool; it follows the links and neither returns nor changes anything that
they do not lead to.
-/
structure RteDocumented (env : Env) : Prop where
  reset_next : forall old, (env.rteReset old).next = none
  reset_dataLen : forall old, (env.rteReset old).dataLen = 0
  free_chain : forall used rtes r segs, Chain (rteNext rtes) (some r) segs ->
    segs ⊆ used -> (env.rteFree used rtes r).1.Perm segs
  free_within : forall used rtes r inside, LinksWithin rtes inside -> inside r ->
    forall q, q ∈ (env.rteFree used rtes r).1 -> inside q
  free_frame : forall used rtes r inside, LinksWithin rtes inside -> inside r ->
    forall q, ¬ inside q -> (env.rteFree used rtes r).2 q = rtes q
  free_links : forall used rtes r inside, LinksWithin rtes inside -> inside r ->
    LinksWithin (env.rteFree used rtes r).2 inside

namespace Sys

def setMbuf (s : Sys) (m : MbufRef) (b : Mbuf) : Sys :=
  { s with mbufs := Function.update s.mbufs m b }

/-- Store into an `rte_mbuf`. -/
def setRte (s : Sys) (r : RteRef) (b : RteMbuf) : Sys :=
  { s with rtes := Function.update s.rtes r b }

/-- `rte_pktmbuf_mtod(r)`. -/
def rtePktmbufMtod (s : Sys) (r : RteRef) : Ptr :=
  { block := Block.rte r, off := (s.rtes r).dataOff }

/-- `rte_pktmbuf_alloc(mempool)`. -/
def rtePktmbufAlloc (env : Env) (s : Sys) : Option RteRef × Sys :=
  match s.pool.alloc env.pool with
  | (none, pool) => (none, { s with pool := pool })
  | (some r, pool) =>
      (some r, ({ s with pool := pool } : Sys).setRte r (env.rteReset (s.rtes r)))

/-- `rte_pktmbuf_free(r)`; the null pointer is ignored. -/
def rtePktmbufFree (env : Env) (r : Option RteRef) (s : Sys) : Sys :=
  match r with
  | none => s
  | some r =>
      { s with
        rtes := (env.rteFree s.pool.used s.rtes r).2
        pool := s.pool.freeAll (env.rteFree s.pool.used s.rtes r).1
        rteFrees := s.rteFrees ++ [r] }

/-- `uma_zfree(zone_mbuf, m)`. -/
def umaZfreeMbuf (s : Sys) (m : MbufRef) : Sys :=
  { s with zone := s.zone.free m }

def release (s : Sys) (x : Release) : Sys :=
  { s with releases := s.releases ++ [x] }

@[simp] theorem setMbuf_mbufs_self (s : Sys) (m : MbufRef) (b : Mbuf) :
    (s.setMbuf m b).mbufs m = b := by
  simp [setMbuf]

theorem setMbuf_mbufs_of_ne (s : Sys) {m x : MbufRef} (b : Mbuf) (h : x ≠ m) :
    (s.setMbuf m b).mbufs x = s.mbufs x := by
  simp [setMbuf, h]

@[simp] theorem setRte_rtes_self (s : Sys) (r : RteRef) (b : RteMbuf) :
    (s.setRte r b).rtes r = b := by
  simp [setRte]

theorem setRte_rtes_of_ne (s : Sys) {r x : RteRef} (b : RteMbuf) (h : x ≠ r) :
    (s.setRte r b).rtes x = s.rtes x := by
  simp [setRte, h]

theorem setRte_rtes_member {α : Type} (s : Sys) (member : RteMbuf -> α) {r : RteRef}
    {b : RteMbuf} (h : member b = member (s.rtes r)) (x : RteRef) :
    member ((s.setRte r b).rtes x) = member (s.rtes x) := by
  by_cases heq : x = r
  · subst heq
    rw [setRte_rtes_self, h]
  · rw [setRte_rtes_of_ne s b heq]

end Sys

/-!
## The bytes of a packet
-/

def dataOf (s : Sys) (ms : List MbufRef) : List UInt8 :=
  ms.flatMap fun m => s.mem.read (s.mbufs m).mData (s.mbufs m).mLen

def segmentBytes (s : Sys) (q : RteRef) : List UInt8 :=
  s.mem.read (s.rtePktmbufMtod q) (s.rtes q).dataLen.toNat

/-- The sum of `m_len` over a chain. -/
def totalLen (s : Sys) (ms : List MbufRef) : Nat :=
  (ms.map fun m => (s.mbufs m).mLen).sum

end Packet
end FStackLite
