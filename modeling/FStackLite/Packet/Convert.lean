import FStackLite.Packet.Kernel

/-!
# The conversions between the two buffer systems

`lib/ff_mbuf.c` and `ff_dpdk/ff_dpdk.h`, and the part of `ff_dpdk_if_send` in
`lib/ff_dpdk_if.c` that builds the packet.  The offload flags that
`ff_dpdk_if_send` then sets in the head of the packet, and the queue it puts the
packet into, are not modelled.
-/

namespace FStackLite
namespace Packet

open Foundation

/-!
## `lib/ff_mbuf.c`
-/

/-- `ff_mbuf_gethdr(pkt, total, data, len, freef)`. -/
def ffMbufGethdr (env : Env) (pkt : RteRef) (total : BitVec 16) (data : Ptr)
    (len : BitVec 16) (freef : ExtFree) (s : Sys) : Option MbufRef × Sys :=
  match mGethdr env s with
  | (none, s1) => (none, s1)
  | (some m, s1) =>
      (some m, s1.setMbuf m
        { mExtadd data len.toNat (some freef) (some pkt) ExtType.disposable (s1.mbufs m) with
          pkthdrLen := total.setWidth 32
          mLen := len.toNat
          mNext := none
          mNextpkt := none })

/-- `prev->m_next = mb`, unless `prev` is null. -/
def linkAfter (prev : Option MbufRef) (mb : MbufRef) (s : Sys) : Sys :=
  match prev with
  | none => s
  | some p => s.setMbuf p { s.mbufs p with mNext := some mb }

/-- `ff_mbuf_get(prev, data, len)`. -/
def ffMbufGet (env : Env) (prev : Option MbufRef) (data : Ptr) (len : BitVec 16)
    (s : Sys) : Option MbufRef × Sys :=
  match mGet env s with
  | (none, s1) => (none, s1)
  | (some mb, s1) =>
      (some mb, linkAfter prev mb (s1.setMbuf mb
        { mExtadd data len.toNat none none ExtType.zero (s1.mbufs mb) with
          mNext := none
          mNextpkt := none
          mLen := len.toNat }))

/-- `ff_mbuf_free(m)`. -/
def ffMbufFree (env : Env) (fuel : Nat) (m : Option MbufRef) (s : Sys) : Option Sys :=
  mFreem env fuel m s

/-- `ff_mbuf_copydata(m, data, off, len)`. -/
def ffMbufCopydata (fuel : Nat) (m : MbufRef) (data : Ptr) (off len : BitVec 32)
    (s : Sys) : Option (Int × Sys) :=
  if (off + len).toInt > (s.mbufs m).pkthdrLen.toInt then
    some (-1, s)
  else
    (mCopydata fuel (some m) off.toNat len.toNat data s).map fun s' => (0, s')

/-- `ff_mbuf_get_total_length(m)`. -/
def ffMbufGetTotalLength (m : MbufRef) (s : Sys) : BitVec 32 :=
  (s.mbufs m).pkthdrLen

/-!
## `dpdk_mbuf_to_ff`
-/

/-- The variables of the loop of `dpdk_mbuf_to_ff`. -/
structure RecvLoop where
  dpdkMP : Option RteRef
  ffMP : Option MbufRef
  sys : Sys

/-- One pass of the loop, with the head `ff_m` that `ff_mbuf_gethdr` gave. -/
def dpdkMbufToFfBody (env : Env) (dpdkM : RteRef) (ffM : Option MbufRef) (fuel : Nat)
    (x : RecvLoop) : Option (LoopStep RecvLoop (Option MbufRef × Sys)) :=
  match x.dpdkMP with
  | none => some (LoopStep.done (ffM, x.sys))
  | some p =>
      match ffMbufGet env x.ffMP (x.sys.rtePktmbufMtod p) (x.sys.rtes p).dataLen x.sys with
      | (none, s1) =>
          (ffMbufFree env fuel ffM s1).map fun s2 =>
            LoopStep.done (none, s2.rtePktmbufFree env (some dpdkM))
      | (some mb, s1) =>
          some (LoopStep.next { dpdkMP := (s1.rtes p).next, ffMP := some mb, sys := s1 })

/-- `dpdk_mbuf_to_ff(dpdk_m)`; `pkt_len` is passed as an `unsigned short`. -/
def dpdkMbufToFf (env : Env) (fuel : Nat) (dpdkM : RteRef) (s : Sys) :
    Option (Option MbufRef × Sys) :=
  match ffMbufGethdr env dpdkM ((s.rtes dpdkM).pktLen.setWidth 16)
      (s.rtePktmbufMtod dpdkM) (s.rtes dpdkM).dataLen ExtFree.dpdkFfFreef s with
  | (ffM, s1) =>
      loop (dpdkMbufToFfBody env dpdkM ffM) fuel
        { dpdkMP := (s1.rtes dpdkM).next, ffMP := ffM, sys := s1 }

/-!
## `dpdk_ff_to_mbuf`
-/

/-- `RTE_MBUF_DEFAULT_DATAROOM` -/
def rteMbufDefaultDataroom : BitVec 32 := 2048

/-- `head->nb_segs++` -/
def countSegment (head : RteRef) (s : Sys) : Sys :=
  s.setRte head { s.rtes head with nbSegs := (s.rtes head).nbSegs + 1 }

/-- `r->data_len = len` -/
def setDataLen (r : RteRef) (len : BitVec 32) (s : Sys) : Sys :=
  s.setRte r { s.rtes r with dataLen := len.setWidth 16 }

/-- `r->next = q` -/
def setNext (r : RteRef) (q : Option RteRef) (s : Sys) : Sys :=
  s.setRte r { s.rtes r with next := q }

/-- `head->pkt_len = len; head->nb_segs = 0` -/
def initHead (head : RteRef) (len : BitVec 32) (s : Sys) : Sys :=
  s.setRte head { s.rtes head with pktLen := len, nbSegs := 0 }

/-- `ff_m_len > RTE_MBUF_DEFAULT_DATAROOM ? RTE_MBUF_DEFAULT_DATAROOM : ff_m_len`, unsigned -/
def txChunk (ffMLen : BitVec 32) : BitVec 32 :=
  if ffMLen > rteMbufDefaultDataroom then rteMbufDefaultDataroom else ffMLen

/-- The variables of the loop of `dpdk_ff_to_mbuf`. -/
structure TxLoop where
  ffMLen : BitVec 32
  ffOff : BitVec 32
  dpdkMP : RteRef
  sys : Sys

def dpdkFfToMbufFail (env : Env) (m : MbufRef) (head : RteRef) (fuel : Nat) (s : Sys) :
    Option (LoopStep TxLoop (Option RteRef × Sys)) :=
  (ffMbufFree env fuel (some m) s).map fun s' =>
    LoopStep.done (none, s'.rtePktmbufFree env (some head))

def dpdkFfToMbufExtend (env : Env) (m : MbufRef) (head : RteRef) (fuel : Nat) (x : TxLoop) :
    Option (LoopStep TxLoop (Option RteRef × Sys)) :=
  if 0 < x.ffMLen then
    match x.sys.rtePktmbufAlloc env with
    | (none, s1) => dpdkFfToMbufFail env m head fuel (setNext x.dpdkMP none s1)
    | (some q, s1) =>
        some (LoopStep.next { x with dpdkMP := q, sys := setNext x.dpdkMP (some q) s1 })
  else
    some (LoopStep.next x)

def dpdkFfToMbufBody (env : Env) (m : MbufRef) (head : RteRef) (fuel : Nat) (x : TxLoop) :
    Option (LoopStep TxLoop (Option RteRef × Sys)) :=
  if 0 < x.ffMLen then
    let data := x.sys.rtePktmbufMtod x.dpdkMP
    let len := txChunk x.ffMLen
    match ffMbufCopydata fuel m data x.ffOff len x.sys with
    | none => none
    | some (ret, s1) =>
        if ret < 0 then
          dpdkFfToMbufFail env m head fuel s1
        else
          dpdkFfToMbufExtend env m head fuel
            { ffMLen := x.ffMLen - len
              ffOff := x.ffOff + len
              dpdkMP := x.dpdkMP
              sys := setDataLen x.dpdkMP len (countSegment head s1) }
  else
    (ffMbufFree env fuel (some m) x.sys).map fun s' => LoopStep.done (some head, s')

/-- `dpdk_ff_to_mbuf(mempool, m)`. -/
def dpdkFfToMbuf (env : Env) (fuel : Nat) (m : MbufRef) (s : Sys) : Option (Option RteRef × Sys) :=
  match s.rtePktmbufAlloc env with
  | (none, s1) => some (none, s1)
  | (some head, s1) =>
      loop (dpdkFfToMbufBody env m head) fuel
        { ffMLen := ffMbufGetTotalLength m s1
          ffOff := 0
          dpdkMP := head
          sys := initHead head (ffMbufGetTotalLength m s1) s1 }

/-!
## `ff_dpdk_if_send`
-/

/-- `total > RTE_MBUF_DEFAULT_DATAROOM ? RTE_MBUF_DEFAULT_DATAROOM : total`, signed -/
def ifSendChunk (total : BitVec 32) : BitVec 32 :=
  if total.toInt > rteMbufDefaultDataroom.toInt then rteMbufDefaultDataroom else total

/-- The variables of the loop of `ff_dpdk_if_send`. -/
structure IfSendLoop where
  total : BitVec 32
  off : BitVec 32
  cur : Option RteRef
  prev : Option RteRef
  sys : Sys

def ffDpdkIfSendFail (env : Env) (m : MbufRef) (head : RteRef) (fuel : Nat) (s : Sys) :
    Option (LoopStep IfSendLoop (Option RteRef × Sys)) :=
  (ffMbufFree env fuel (some m) (s.rtePktmbufFree env (some head))).map fun s' =>
    LoopStep.done (none, s')

/-- The segment to fill: `cur`, or a new one. -/
def ffDpdkIfSendCur (env : Env) (x : IfSendLoop) : Option RteRef × Sys :=
  match x.cur with
  | none => x.sys.rtePktmbufAlloc env
  | some c => (some c, x.sys)

/-- `if (prev != NULL) prev->next = cur` -/
def linkSegment (prev : Option RteRef) (cur : RteRef) (s : Sys) : Sys :=
  match prev with
  | none => s
  | some p => setNext p (some cur) s

def ffDpdkIfSendBody (env : Env) (m : MbufRef) (head : RteRef) (fuel : Nat)
    (x : IfSendLoop) : Option (LoopStep IfSendLoop (Option RteRef × Sys)) :=
  if x.total.toInt > 0 then
    match ffDpdkIfSendCur env x with
    | (none, s1) => ffDpdkIfSendFail env m head fuel s1
    | (some cur, s1) =>
        let s2 := countSegment head (linkSegment x.prev cur s1)
        let data := s2.rtePktmbufMtod cur
        let len := ifSendChunk x.total
        match ffMbufCopydata fuel m data x.off len s2 with
        | none => none
        | some (ret, s3) =>
            if ret < 0 then
              ffDpdkIfSendFail env m head fuel s3
            else
              some (LoopStep.next
                { total := x.total - len
                  off := x.off + len
                  cur := none
                  prev := some cur
                  sys := setDataLen cur len s3 })
  else
    (ffMbufFree env fuel (some m) x.sys).map fun s' => LoopStep.done (some head, s')

/-- `ff_dpdk_if_send(ctx, m, total)`, up to the packet it hands to `send_single_packet`. -/
def ffDpdkIfSend (env : Env) (fuel : Nat) (m : MbufRef) (total : BitVec 32) (s : Sys) :
    Option (Option RteRef × Sys) :=
  match s.rtePktmbufAlloc env with
  | (none, s1) => (ffMbufFree env fuel (some m) s1).map fun s' => (none, s')
  | (some head, s1) =>
      loop (ffDpdkIfSendBody env m head) fuel
        { total := total
          off := 0
          cur := some head
          prev := none
          sys := initHead head total s1 }

end Packet
end FStackLite
