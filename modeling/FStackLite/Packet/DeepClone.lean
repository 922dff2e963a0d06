import FStackLite.Packet.Transmit

/-!
# Copying a packet

`pktmbuf_deep_clone` of `lib/ff_dpdk_if.c` copies a packet segment by segment into segments
of the pool.  A pass of its loop links the segment behind the one before it, so that in the
first pass the head is linked to itself; the link of the last segment is written after the
loop.
-/

namespace FStackLite
namespace Packet

open Foundation

/-- The members of `struct rte_mbuf` that are only copied; their types are the driver's. -/
structure RteAttrs where
  port : Nat
  vlanTci : Nat
  vlanTciOuter : Nat
  txOffload : Nat
  hash : Nat
  olFlags : Nat
  packetType : Nat

structure CloneSys where
  sys : Sys
  attrs : RteRef -> RteAttrs

/-- `rte_pktmbuf_alloc(mp)`; what is copied is overwritten before it is read. -/
def CloneSys.alloc (env : Env) (x : CloneSys) : Option RteRef × CloneSys :=
  match x.sys.rtePktmbufAlloc env with
  | (r, s) => (r, { x with sys := s })

/-- `pktmbuf_deep_attach(mi, m)` -/
def pktmbufDeepAttach (mi m : RteRef) (x : CloneSys) : CloneSys :=
  let dst := x.sys.rtePktmbufMtod mi
  let src := x.sys.rtePktmbufMtod m
  let s := x.sys.setRte mi { x.sys.rtes mi with dataLen := (x.sys.rtes m).dataLen }
  { sys := { s with mem := bcopy s.mem src dst (s.rtes m).dataLen.toNat }
    attrs := Function.update x.attrs mi (x.attrs m) }

/-- The variables of the loop; `prev` points to the `next` of this segment. -/
structure CloneLoop where
  md : RteRef
  mi : RteRef
  prev : RteRef
  nseg : BitVec 8
  state : CloneSys

def clonePass (v : CloneLoop) : CloneLoop :=
  let x := pktmbufDeepAttach v.mi v.md v.state
  { v with
    nseg := v.nseg + 1
    prev := v.mi
    state := { x with sys := setNext v.prev (some v.mi) x.sys } }

/-- A pass and the condition; the loop ends with the value of `mi`. -/
def cloneBody (env : Env) (v : CloneLoop) : LoopStep CloneLoop (Option RteRef × CloneLoop) :=
  let v := clonePass v
  match (v.state.sys.rtes v.md).next with
  | none => LoopStep.done (some v.mi, v)
  | some md =>
      match v.state.alloc env with
      | (none, x) => LoopStep.done (none, { v with state := x })
      | (some mi, x) => LoopStep.next { v with md := md, mi := mi, state := x }

/-- `*prev = NULL; mc->nb_segs = nseg; mc->pkt_len = pktlen;` -/
def cloneEnd (mc : RteRef) (pktlen : BitVec 32) (v : CloneLoop) : CloneSys :=
  let s := setNext v.prev none v.state.sys
  { v.state with
    sys := s.setRte mc { s.rtes mc with nbSegs := v.nseg.setWidth 16, pktLen := pktlen } }

/-- What is returned, given the value of `mi`. -/
def cloneReturn (env : Env) (mc : RteRef) (x : CloneSys) : Option RteRef -> Option RteRef × CloneSys
  | none => (none, { x with sys := x.sys.rtePktmbufFree env (some mc) })
  | some _ => (some mc, x)

/-- `pktmbuf_deep_clone(md, mp)` -/
def pktmbufDeepClone (env : Env) (fuel : Nat) (md : RteRef) (x : CloneSys) :
    Option (Option RteRef × CloneSys) :=
  match x.alloc env with
  | (none, x) => some (none, x)
  | (some mc, x) =>
      (loop (fun _ v => some (cloneBody env v)) fuel ⟨md, mc, mc, 0, x⟩).map fun r =>
        cloneReturn env mc (cloneEnd mc (x.sys.rtes md).pktLen r.2) r.1

/-!
## One pass
-/

theorem pktmbufDeepAttach_rtes (mi m : RteRef) (x : CloneSys) :
    (pktmbufDeepAttach mi m x).sys.rtes =
      (x.sys.setRte mi { x.sys.rtes mi with dataLen := (x.sys.rtes m).dataLen }).rtes := rfl

section Pass

variable (v : CloneLoop) {r : RteRef}

theorem clonePass_member {α : Type} (member : RteMbuf -> α)
    (hlen : forall b n, member { b with dataLen := n } = member b)
    (hnext : forall b n, member { b with next := n } = member b) (r : RteRef) :
    member ((clonePass v).state.sys.rtes r) = member (v.state.sys.rtes r) := by
  have hattach : member ((pktmbufDeepAttach v.mi v.md v.state).sys.rtes r) =
      member (v.state.sys.rtes r) :=
    v.state.sys.setRte_rtes_member member (hlen _ _) r
  exact (setNext_member member hnext v.prev (some v.mi) _ r).trans hattach

theorem clonePass_rtes_of_ne (hmi : r ≠ v.mi) (hprev : r ≠ v.prev) :
    (clonePass v).state.sys.rtes r = v.state.sys.rtes r := by
  show (setNext v.prev _ (pktmbufDeepAttach v.mi v.md v.state).sys).rtes r = _
  unfold setNext
  rw [Sys.setRte_rtes_of_ne _ _ hprev]
  exact Sys.setRte_rtes_of_ne _ _ hmi

theorem clonePass_next_prev : rteNext (clonePass v).state.sys.rtes v.prev = some v.mi := by
  show ((setNext v.prev _ (pktmbufDeepAttach v.mi v.md v.state).sys).rtes v.prev).next = _
  unfold setNext
  rw [Sys.setRte_rtes_self]

theorem clonePass_next_of_ne (hprev : r ≠ v.prev) :
    rteNext (clonePass v).state.sys.rtes r = rteNext v.state.sys.rtes r := by
  show ((setNext v.prev _ (pktmbufDeepAttach v.mi v.md v.state).sys).rtes r).next = _
  unfold setNext
  rw [Sys.setRte_rtes_of_ne _ _ hprev, pktmbufDeepAttach_rtes]
  exact v.state.sys.setRte_rtes_member RteMbuf.next (by rfl) r

theorem clonePass_dataLen_of_ne (hmi : r ≠ v.mi) :
    ((clonePass v).state.sys.rtes r).dataLen = (v.state.sys.rtes r).dataLen := by
  refine (setNext_member RteMbuf.dataLen (fun _ _ => rfl) v.prev (some v.mi) _ r).trans ?_
  exact congrArg RteMbuf.dataLen (Sys.setRte_rtes_of_ne _ _ hmi)

theorem clonePass_dataLen_self :
    ((clonePass v).state.sys.rtes v.mi).dataLen = (v.state.sys.rtes v.md).dataLen := by
  refine (setNext_member RteMbuf.dataLen (fun _ _ => rfl) v.prev (some v.mi) _ v.mi).trans ?_
  rw [pktmbufDeepAttach_rtes, Sys.setRte_rtes_self]

theorem clonePass_mtod (r : RteRef) :
    (clonePass v).state.sys.rtePktmbufMtod r = v.state.sys.rtePktmbufMtod r := by
  unfold Sys.rtePktmbufMtod
  rw [clonePass_member v RteMbuf.dataOff (fun _ _ => rfl) (fun _ _ => rfl) r]

theorem clonePass_mem (h : v.mi ≠ v.md) : (clonePass v).state.sys.mem =
      v.state.sys.mem.write (v.state.sys.rtePktmbufMtod v.mi) (segmentBytes v.state.sys v.md) := by
  show bcopy v.state.sys.mem _ _ _ = _
  unfold bcopy segmentBytes
  rw [Sys.setRte_rtes_of_ne _ _ h.symm]

theorem clonePass_mem_of_ne (h : v.mi ≠ v.md) {b : Block} (hb : b ≠ Block.rte v.mi) :
    (clonePass v).state.sys.mem b = v.state.sys.mem b := by
  rw [clonePass_mem v h]
  funext o
  unfold Memory.write
  exact if_neg fun hin => hb hin.1

theorem segmentBytes_clonePass_self (h : v.mi ≠ v.md) :
    segmentBytes (clonePass v).state.sys v.mi = segmentBytes v.state.sys v.md := by
  have hlength : (segmentBytes v.state.sys v.md).length = (v.state.sys.rtes v.md).dataLen.toNat :=
    Memory.length_read _ _ _
  rw [segmentBytes, clonePass_mtod, clonePass_dataLen_self, clonePass_mem v h, <- hlength]
  exact Memory.read_write_self _ _ _

theorem segmentBytes_clonePass_of_ne (h : v.mi ≠ v.md) (hr : r ≠ v.mi) :
    segmentBytes (clonePass v).state.sys r = segmentBytes v.state.sys r := by
  have hblock : (v.state.sys.rtePktmbufMtod r).block ≠ (v.state.sys.rtePktmbufMtod v.mi).block := by
    intro heq
    injection heq with heq
    exact hr heq
  rw [segmentBytes, clonePass_mtod, clonePass_dataLen_of_ne v hr, clonePass_mem v h,
    Memory.read_write_of_ne _ hblock]
  rfl

theorem clonePass_nseg {clones : List RteRef} (h : v.nseg = BitVec.ofNat 8 clones.length) :
    (clonePass v).nseg = BitVec.ofNat 8 (clones ++ [v.mi]).length := by
  rw [List.length_append, BitVec.ofNat_add, <- h]
  rfl

theorem clonePass_attrs_self : (clonePass v).state.attrs v.mi = v.state.attrs v.md :=
  Function.update_self ..

theorem clonePass_attrs_of_ne (hr : r ≠ v.mi) : (clonePass v).state.attrs r = v.state.attrs r :=
  Function.update_of_ne hr ..

end Pass

/-!
## The segments that are copied

The segments `clones` hold what the segments `seen` of the source held in `x0`, and are linked
once the null pointer is stored in the last of them.
-/

structure Untouched (x0 : CloneSys) (clones : List RteRef) (x : CloneSys) : Prop where
  rtes : forall r, r ∉ clones -> x.sys.rtes r = x0.sys.rtes r
  attrs : forall r, r ∉ clones -> x.attrs r = x0.attrs r
  mem : forall b, (forall r, r ∈ clones -> b ≠ Block.rte r) -> x.sys.mem b = x0.sys.mem b

structure Copied (x0 : CloneSys) (seen clones : List RteRef) (x : CloneSys) : Prop where
  contents : clones.map (segmentBytes x.sys) = seen.map (segmentBytes x0.sys)
  attrs : clones.map x.attrs = seen.map x0.attrs

structure Linked (mc last : RteRef) (clones : List RteRef) (x : CloneSys) : Prop where
  ends : exists front, clones = front ++ [last]
  chain : Chain (Function.update (rteNext x.sys.rtes) last none) (some mc) clones

structure Cloning (x0 : CloneSys) (mc : RteRef) (seen clones : List RteRef) (last : RteRef)
    (x : CloneSys) : Prop where
  takes : x0.sys.pool.Takes clones x.sys.pool
  linked : Linked mc last clones x
  copied : Copied x0 seen clones x
  untouched : Untouched x0 clones x

structure Prepared (x0 : CloneSys) (mc : RteRef) (seen clones : List RteRef) (v : CloneLoop) :
    Prop where
  takes : x0.sys.pool.Takes (clones ++ [v.mi]) v.state.sys.pool
  linked : clones = [] ∧ v.prev = v.mi ∧ mc = v.mi ∨ Linked mc v.prev clones v.state
  copied : Copied x0 seen clones v.state
  untouched : Untouched x0 (clones ++ [v.mi]) v.state

theorem Untouched.bytes {x0 x : CloneSys} {clones : List RteRef}
    (h : Untouched x0 clones x) {q : RteRef} (hq : q ∉ clones) :
    segmentBytes x.sys q = segmentBytes x0.sys q := by
  have hmem : x.sys.mem (Block.rte q) = x0.sys.mem (Block.rte q) := by
    apply h.mem
    intro r hr heq
    injection heq with heq
    exact hq (heq ▸ hr)
  unfold segmentBytes Sys.rtePktmbufMtod Memory.read
  rw [h.rtes q hq, hmem]

section Prepared

variable {x0 : CloneSys} {mc : RteRef} {seen clones : List RteRef} {v : CloneLoop}

theorem Prepared.mi_not_mem (h : Prepared x0 mc seen clones v) : v.mi ∉ clones := by
  intro hmem
  have hnodup := h.takes.nodup
  exact (List.nodup_append.mp hnodup).2.2 v.mi hmem v.mi List.mem_cons_self rfl

theorem Prepared.mi_ne (h : Prepared x0 mc seen clones v) {q : RteRef}
    (hq : q ∈ x0.sys.pool.used) : v.mi ≠ q := by
  intro heq
  exact h.takes.not_mem (List.mem_append_right clones List.mem_cons_self) (heq ▸ hq)

theorem Prepared.source (h : Prepared x0 mc seen clones v) {q : RteRef}
    (hq : q ∈ x0.sys.pool.used) : q ∉ clones ++ [v.mi] :=
  fun hmem => h.takes.not_mem hmem hq

theorem Prepared.prev_mem (h : Prepared x0 mc seen clones v) : v.prev ∈ clones ++ [v.mi] := by
  rcases h.linked with ⟨_, hprev, _⟩ | ⟨⟨front, hfront⟩, _⟩
  · rw [hprev]
    exact List.mem_append_right clones List.mem_cons_self
  · rw [hfront]
    exact List.mem_append_left _ (List.mem_append_right front List.mem_cons_self)

theorem Prepared.pass_linked (h : Prepared x0 mc seen clones v) :
    Linked mc v.mi (clones ++ [v.mi]) (clonePass v).state := by
  refine ⟨⟨clones, rfl⟩, ?_⟩
  have hend : Function.update (rteNext (clonePass v).state.sys.rtes) v.mi none v.mi = none :=
    Function.update_self ..
  rcases h.linked with ⟨hnil, _, hhead⟩ | ⟨⟨front, hfront⟩, hchain⟩
  · rw [hnil, hhead]
    apply Chain.cons
    rw [hend]
    exact Chain.nil
  · have hprev : v.prev ∈ clones := by
      rw [hfront]
      exact List.mem_append_right front List.mem_cons_self
    have hne : v.prev ≠ v.mi := ne_of_mem_of_not_mem hprev h.mi_not_mem
    rw [hfront] at hchain
    rw [hfront, List.append_assoc]
    apply hchain.snoc _ hend
    · intro a ha
      have hmi : a ≠ v.mi := by
        intro heq
        apply h.mi_not_mem
        rw [hfront, <- heq]
        exact List.mem_append_left _ ha
      have hlast : a ≠ v.prev :=
        (List.nodup_append.mp hchain.nodup).2.2 a ha v.prev List.mem_cons_self
      rw [Function.update_of_ne hmi, Function.update_of_ne hlast, clonePass_next_of_ne v hlast]
    · rw [Function.update_of_ne hne, clonePass_next_prev]

theorem Prepared.pass_copied (h : Prepared x0 mc seen clones v) (hmd : v.md ∈ x0.sys.pool.used) :
    Copied x0 (seen ++ [v.md]) (clones ++ [v.mi]) (clonePass v).state := by
  have hne := h.mi_ne hmd
  have hother : forall r, r ∈ clones -> r ≠ v.mi := fun r hr => ne_of_mem_of_not_mem hr h.mi_not_mem
  constructor
  · rw [List.map_append, List.map_append, <- h.copied.contents]
    congr 1
    · exact List.map_congr_left fun r hr => segmentBytes_clonePass_of_ne v hne (hother r hr)
    · rw [List.map_singleton, List.map_singleton, segmentBytes_clonePass_self v hne,
        h.untouched.bytes (h.source hmd)]
  · rw [List.map_append, List.map_append, <- h.copied.attrs]
    congr 1
    · exact List.map_congr_left fun r hr => clonePass_attrs_of_ne v (hother r hr)
    · rw [List.map_singleton, List.map_singleton, clonePass_attrs_self,
        h.untouched.attrs _ (h.source hmd)]

theorem Prepared.pass_untouched (h : Prepared x0 mc seen clones v) (hmd : v.md ∈ x0.sys.pool.used) :
    Untouched x0 (clones ++ [v.mi]) (clonePass v).state := by
  have hmi : v.mi ∈ clones ++ [v.mi] := List.mem_append_right clones List.mem_cons_self
  constructor
  · intro r hr
    have hne : r ≠ v.mi := (ne_of_mem_of_not_mem hmi hr).symm
    have hprev : r ≠ v.prev := (ne_of_mem_of_not_mem h.prev_mem hr).symm
    rw [clonePass_rtes_of_ne v hne hprev]
    exact h.untouched.rtes r hr
  · intro r hr
    rw [clonePass_attrs_of_ne v (ne_of_mem_of_not_mem hmi hr).symm]
    exact h.untouched.attrs r hr
  · intro b hb
    rw [clonePass_mem_of_ne v (h.mi_ne hmd) (hb v.mi hmi)]
    exact h.untouched.mem b hb

theorem Prepared.pass_next (h : Prepared x0 mc seen clones v) (hmd : v.md ∈ x0.sys.pool.used) :
    rteNext (clonePass v).state.sys.rtes v.md = rteNext x0.sys.rtes v.md :=
  congrArg RteMbuf.next ((h.pass_untouched hmd).rtes v.md (h.source hmd))

theorem Prepared.pass (h : Prepared x0 mc seen clones v) (hmd : v.md ∈ x0.sys.pool.used) :
    Cloning x0 mc (seen ++ [v.md]) (clones ++ [v.mi]) v.mi (clonePass v).state :=
  ⟨h.takes, h.pass_linked, h.pass_copied hmd, h.pass_untouched hmd⟩

end Prepared

end Packet
end FStackLite
