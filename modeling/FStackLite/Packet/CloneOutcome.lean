import FStackLite.Dispatch.Process
import FStackLite.Packet.DeepClone

/-!
# The outcome of copying a packet

By induction over the segments of the source that are left, the loop of `pktmbuf_deep_clone`
ends with all of them copied, or with the first request that is refused.  Then the copy is
returned, or given back to the pool as a whole.  The requests are those that the receive path
counts for a copy.
-/

namespace FStackLite
namespace Packet

open Foundation

/-!
## A request
-/

def CloneSys.taken (env : Env) (x : CloneSys) : CloneSys :=
  { x with
    sys := ({ x.sys with pool := x.sys.pool.take env.pool } : Sys).setRte
      (x.sys.pool.item env.pool) (env.rteReset (x.sys.rtes (x.sys.pool.item env.pool))) }

def CloneSys.refused (x : CloneSys) : CloneSys :=
  { x with sys := { x.sys with pool := x.sys.pool.refuse } }

variable {env : Env} {x x0 : CloneSys} {clones seen segs : List RteRef} {mc md : RteRef}

theorem CloneSys.alloc_of_ok (h : env.pool.ok x.sys.pool.asked = true) :
    x.alloc env = (some (x.sys.pool.item env.pool), x.taken env) := by
  unfold CloneSys.alloc
  rw [rtePktmbufAlloc_of_ok h]
  rfl

theorem CloneSys.alloc_of_not_ok (h : env.pool.ok x.sys.pool.asked ≠ true) :
    x.alloc env = (none, x.refused) := by
  unfold CloneSys.alloc
  rw [rtePktmbufAlloc_of_not_ok h]
  rfl

section Taken

variable {env : Env} {x0 x : CloneSys} {mc last : RteRef} {seen clones : List RteRef}

theorem CloneSys.taken_rtes_of_ne {r : RteRef} (h : r ≠ x.sys.pool.item env.pool) :
    (x.taken env).sys.rtes r = x.sys.rtes r :=
  Sys.setRte_rtes_of_ne _ _ h

theorem Untouched.taken (h : Untouched x0 clones x) :
    Untouched x0 (clones ++ [x.sys.pool.item env.pool]) (x.taken env) := by
  constructor
  · intro r hr
    have hold : r ∉ clones := fun hmem => hr (List.mem_append_left _ hmem)
    have hne : r ≠ x.sys.pool.item env.pool :=
      fun heq => hr (List.mem_append_right clones (List.mem_singleton.mpr heq))
    rw [CloneSys.taken_rtes_of_ne hne]
    exact h.rtes r hold
  · intro r hr
    exact h.attrs r fun hmem => hr (List.mem_append_left _ hmem)
  · intro b hb
    exact h.mem b fun r hr => hb r (List.mem_append_left _ hr)

theorem Copied.taken (h : Copied x0 seen clones x) (hused : clones ⊆ x.sys.pool.used) :
    Copied x0 seen clones (x.taken env) := by
  constructor
  · rw [<- h.contents]
    apply List.map_congr_left
    intro r hr
    have hne : r ≠ x.sys.pool.item env.pool :=
      ne_of_mem_of_not_mem (hused hr) (x.sys.pool.item_not_mem env.pool)
    unfold segmentBytes Sys.rtePktmbufMtod
    rw [CloneSys.taken_rtes_of_ne hne]
    rfl
  · exact h.attrs

theorem Linked.taken (h : Linked mc last clones x) (hused : clones ⊆ x.sys.pool.used) :
    Linked mc last clones (x.taken env) := by
  refine ⟨h.ends, h.chain.congr ?_⟩
  intro a ha
  have hne : a ≠ x.sys.pool.item env.pool :=
    ne_of_mem_of_not_mem (hused ha) (x.sys.pool.item_not_mem env.pool)
  have hnext : rteNext (x.taken env).sys.rtes a = rteNext x.sys.rtes a :=
    congrArg RteMbuf.next (CloneSys.taken_rtes_of_ne hne)
  rw [Function.update_apply, Function.update_apply, hnext]

theorem Cloning.taken (h : Cloning x0 mc seen clones last x) (md : RteRef) (nseg : BitVec 8) :
    Prepared x0 mc seen clones ⟨md, x.sys.pool.item env.pool, last, nseg, x.taken env⟩ := by
  have hused : clones ⊆ x.sys.pool.used := fun r hr => h.takes.mem_used.mpr (Or.inl hr)
  constructor
  · exact h.takes.trans (Arena.Takes.take env.pool x.sys.pool)
  · exact Or.inr (h.linked.taken hused)
  · exact h.copied.taken hused
  · exact h.untouched.taken

theorem prepared_first (env : Env) (x : CloneSys) (md : RteRef) :
    Prepared x (x.sys.pool.item env.pool) [] []
      ⟨md, x.sys.pool.item env.pool, x.sys.pool.item env.pool, 0, x.taken env⟩ := by
  have hnothing : Untouched x [] x := ⟨fun _ _ => rfl, fun _ _ => rfl, fun _ _ => rfl⟩
  exact ⟨Arena.Takes.take env.pool x.sys.pool, Or.inl ⟨rfl, rfl, rfl⟩, ⟨rfl, rfl⟩, hnothing.taken⟩

theorem Cloning.refused (h : Cloning x0 mc seen clones last x) :
    Cloning x0 mc seen clones last x.refused := by
  have htakes := h.takes.trans (Arena.Takes.refuse x.sys.pool)
  rw [List.append_nil] at htakes
  exact ⟨htakes, ⟨h.linked.ends, h.linked.chain⟩, ⟨h.copied.contents, h.copied.attrs⟩,
    ⟨h.untouched.rtes, h.untouched.attrs, h.untouched.mem⟩⟩

end Taken

/-!
## The loop
-/

section Body

variable {env : Env} {v : CloneLoop}

theorem cloneBody_last (h : rteNext (clonePass v).state.sys.rtes v.md = none) :
    cloneBody env v = LoopStep.done (some v.mi, clonePass v) := by
  have hnext : ((clonePass v).state.sys.rtes (clonePass v).md).next = none := h
  simp only [cloneBody, hnext]
  rfl

theorem cloneBody_served {md : RteRef} (h : rteNext (clonePass v).state.sys.rtes v.md = some md)
    (hok : env.pool.ok (clonePass v).state.sys.pool.asked = true) : cloneBody env v = LoopStep.next
      ⟨md, (clonePass v).state.sys.pool.item env.pool, v.mi, v.nseg + 1,
        (clonePass v).state.taken env⟩ := by
  have hnext : ((clonePass v).state.sys.rtes (clonePass v).md).next = some md := h
  simp only [cloneBody, hnext, CloneSys.alloc_of_ok hok]
  rfl

theorem cloneBody_refused {md : RteRef} (h : rteNext (clonePass v).state.sys.rtes v.md = some md)
    (hno : env.pool.ok (clonePass v).state.sys.pool.asked ≠ true) : cloneBody env v = LoopStep.done
      (none, { clonePass v with state := (clonePass v).state.refused }) := by
  have hnext : ((clonePass v).state.sys.rtes (clonePass v).md).next = some md := h
  simp only [cloneBody, hnext, CloneSys.alloc_of_not_ok hno]

end Body

def AllServed (env : Env) (s : Sys) (n : Nat) : Prop :=
  forall k, k < n -> env.pool.ok (s.pool.asked + k) = true

structure CloneEnded (env : Env) (x0 : CloneSys) (mc : RteRef) (segs : List RteRef)
    (r : Option RteRef × CloneLoop) (seen clones : List RteRef) : Prop where
  cloning : Cloning x0 mc seen clones r.2.prev r.2.state
  count : r.2.nseg = BitVec.ofNat 8 clones.length
  outcome : r.1.isSome = true ∧ seen = segs ∧ AllServed env x0.sys segs.length ∨
    r.1 = none ∧ ¬ AllServed env x0.sys segs.length

theorem Copied.length_eq (h : Copied x0 seen clones x) : clones.length = seen.length := by
  have hlength := congrArg List.length h.contents
  rwa [List.length_map, List.length_map] at hlength

section Run

variable {env : Env} {x0 : CloneSys} {mc : RteRef} {rest seen clones : List RteRef}
  {v : CloneLoop}

theorem Prepared.ended_last (h : Prepared x0 mc seen clones v)
    (hserved : Served env x0.sys (clones ++ [v.mi]) v.state.sys)
    (hcount : v.nseg = BitVec.ofNat 8 clones.length) (hmd : v.md ∈ x0.sys.pool.used) :
    CloneEnded env x0 mc (seen ++ [v.md]) (some v.mi, clonePass v) (seen ++ [v.md])
      (clones ++ [v.mi]) := by
  refine ⟨h.pass hmd, clonePass_nseg v hcount, Or.inl ⟨rfl, rfl, ?_⟩⟩
  rw [<- (h.pass_copied hmd).length_eq]
  exact hserved.ok

theorem Prepared.ended_refused (h : Prepared x0 mc seen clones v)
    (hserved : Served env x0.sys (clones ++ [v.mi]) v.state.sys)
    (hcount : v.nseg = BitVec.ofNat 8 clones.length) (hmd : v.md ∈ x0.sys.pool.used)
    (hno : env.pool.ok v.state.sys.pool.asked ≠ true) (md : RteRef) :
    CloneEnded env x0 mc (seen ++ v.md :: md :: rest)
      (none, { clonePass v with state := (clonePass v).state.refused }) (seen ++ [v.md])
      (clones ++ [v.mi]) := by
  refine ⟨(h.pass hmd).refused, clonePass_nseg v hcount, Or.inr ⟨rfl, fun hall => hno ?_⟩⟩
  rw [hserved.asked, (h.pass_copied hmd).length_eq]
  apply hall
  rw [List.length_append, List.length_append]
  exact Nat.add_lt_add_left (Nat.succ_lt_succ (Nat.succ_pos _)) _

/-- The loop as the receive path counts it: the segments, the outcome and the requests. -/
def Counted (r : Option RteRef × CloneLoop) (clones : List RteRef)
    (counted : List Nat × Bool × Nat) : Prop :=
  clones.length = counted.1.length ∧ r.1.isSome = counted.2.1 ∧
    r.2.state.sys.pool.asked = counted.2.2

theorem clone_run (h : Prepared x0 mc seen clones v)
    (hserved : Served env x0.sys (clones ++ [v.mi]) v.state.sys)
    (hcount : v.nseg = BitVec.ofNat 8 clones.length)
    (hchain : Chain (rteNext x0.sys.rtes) (some v.md) (v.md :: rest))
    (hused : v.md :: rest ⊆ x0.sys.pool.used) :
    exists r seen' clones', LoopConverges (fun _ v => some (cloneBody env v)) v r ∧
      CloneEnded env x0 mc (seen ++ v.md :: rest) r seen' clones' ∧
      forall (e : Dispatch.Env) (made : List Nat), e.alloc = env.pool.ok ->
        made.length = (clones ++ [v.mi]).length ->
        Counted r clones' (Dispatch.cloneSegs e rest.length made v.state.sys.pool.asked) := by
  induction rest generalizing v seen clones with
  | nil =>
      have hmd := hused List.mem_cons_self
      have hnext := h.pass_next hmd
      rw [hchain.cons_inv.2.nil_inv] at hnext
      refine ⟨_, _, _, LoopConverges.of_done (Converges.of_eq fun n => ?_),
        h.ended_last hserved hcount hmd, fun e made _ hmade => ⟨hmade.symm, rfl, rfl⟩⟩
      rw [cloneBody_last hnext]
  | cons md rest ih =>
      have hmd := hused List.mem_cons_self
      have hnext := h.pass_next hmd
      have htail := hchain.cons_inv.2
      rw [htail.cons_inv.1] at hnext htail
      have hused' : md :: rest ⊆ x0.sys.pool.used := fun q hq => hused (List.mem_cons_of_mem _ hq)
      by_cases hok : env.pool.ok (clonePass v).state.sys.pool.asked = true
      · have hmore := hserved.newSegment hok (p := v.mi)
          ((clonePass v).state.sys.pool.item env.pool)
        rcases ih ((h.pass hmd).taken md (v.nseg + 1)) ⟨hmore.asked, hmore.ok⟩
          (clonePass_nseg v hcount) htail hused' with
          ⟨r, seen', clones', hrun, hended, hcounted⟩
        rw [List.append_assoc] at hended
        refine ⟨r, seen', clones', LoopConverges.of_next (Converges.of_eq fun n => ?_) hrun,
          hended, ?_⟩
        · rw [cloneBody_served hnext hok]
        · intro e made he hmade
          have hserve : e.alloc v.state.sys.pool.asked = true := by
            rw [he]
            exact hok
          rw [List.length_cons, Dispatch.cloneSegs, if_pos hserve]
          apply hcounted e _ he
          rw [List.length_append, hmade]
          simp only [List.length_append, List.length_singleton]
      · refine ⟨_, _, _, LoopConverges.of_done (Converges.of_eq fun n => ?_),
          h.ended_refused hserved hcount hmd hok md, ?_⟩
        · rw [cloneBody_refused hnext hok]
        · intro e made he hmade
          have hrefuse : ¬ e.alloc v.state.sys.pool.asked = true := by
            rw [he]
            exact hok
          rw [List.length_cons, Dispatch.cloneSegs, if_neg hrefuse]
          exact ⟨hmade.symm, rfl, rfl⟩

end Run

/-!
## The end of the function
-/

theorem cloneEnd_member {α : Type} (member : RteMbuf -> α)
    (hnext : forall b n, member { b with next := n } = member b)
    (hhead : forall b n p, member { b with nbSegs := n, pktLen := p } = member b)
    (mc : RteRef) (pktlen : BitVec 32) (v : CloneLoop) (r : RteRef) :
    member ((cloneEnd mc pktlen v).sys.rtes r) = member (v.state.sys.rtes r) := by
  have hset := (setNext v.prev none v.state.sys).setRte_rtes_member member (r := mc)
    (hhead _ (v.nseg.setWidth 16) pktlen) r
  exact hset.trans (setNext_member member hnext v.prev none v.state.sys r)

theorem cloneEnd_next (mc : RteRef) (pktlen : BitVec 32) (v : CloneLoop) (r : RteRef) :
    rteNext (cloneEnd mc pktlen v).sys.rtes r =
      Function.update (rteNext v.state.sys.rtes) v.prev none r := by
  have hset := (setNext v.prev none v.state.sys).setRte_rtes_member RteMbuf.next (r := mc)
    (b := { (setNext v.prev none v.state.sys).rtes mc with
      nbSegs := v.nseg.setWidth 16, pktLen := pktlen }) rfl r
  refine hset.trans ?_
  by_cases heq : r = v.prev
  · rw [heq, Function.update_self, setNext, Sys.setRte_rtes_self]
  · rw [Function.update_of_ne heq, setNext, Sys.setRte_rtes_of_ne _ _ heq]
    rfl

theorem cloneEnd_rtes_of_ne (pktlen : BitVec 32) {v : CloneLoop} {r : RteRef} (hmc : r ≠ mc)
    (hprev : r ≠ v.prev) : (cloneEnd mc pktlen v).sys.rtes r = v.state.sys.rtes r := by
  refine (Sys.setRte_rtes_of_ne _ _ hmc).trans ?_
  exact Sys.setRte_rtes_of_ne _ _ hprev

theorem cloneEnd_head (mc : RteRef) (pktlen : BitVec 32) (v : CloneLoop) :
    ((cloneEnd mc pktlen v).sys.rtes mc).nbSegs = v.nseg.setWidth 16 ∧
      ((cloneEnd mc pktlen v).sys.rtes mc).pktLen = pktlen := by
  have hset : (cloneEnd mc pktlen v).sys.rtes mc =
      { (setNext v.prev none v.state.sys).rtes mc with
        nbSegs := v.nseg.setWidth 16, pktLen := pktlen } :=
    Sys.setRte_rtes_self _ _ _
  rw [hset]
  exact ⟨rfl, rfl⟩

structure CloneDone (x0 : CloneSys) (mc : RteRef) (seen clones : List RteRef) (x : CloneSys) :
    Prop where
  takes : x0.sys.pool.Takes clones x.sys.pool
  chain : Chain (rteNext x.sys.rtes) (some mc) clones
  copied : Copied x0 seen clones x
  untouched : Untouched x0 clones x

theorem Cloning.cloneEnd {x0 : CloneSys} {mc : RteRef} {seen clones : List RteRef}
    {v : CloneLoop} (h : Cloning x0 mc seen clones v.prev v.state) (pktlen : BitVec 32) :
    CloneDone x0 mc seen clones (cloneEnd mc pktlen v) := by
  have hmc : mc ∈ clones := by
    rcases h.linked.chain.some_inv with ⟨rest, hrest, _⟩
    rw [hrest]
    exact List.mem_cons_self
  have hprev : v.prev ∈ clones := by
    rcases h.linked.ends with ⟨front, hfront⟩
    rw [hfront]
    exact List.mem_append_right front List.mem_cons_self
  refine ⟨h.takes, ?_, ⟨?_, h.copied.attrs⟩, ⟨?_, h.untouched.attrs, h.untouched.mem⟩⟩
  · exact h.linked.chain.congr fun r _ => cloneEnd_next mc pktlen v r
  · rw [<- h.copied.contents]
    apply List.map_congr_left
    intro r _
    unfold segmentBytes Sys.rtePktmbufMtod
    rw [cloneEnd_member RteMbuf.dataOff (fun _ _ => rfl) (fun _ _ _ => rfl),
      cloneEnd_member RteMbuf.dataLen (fun _ _ => rfl) (fun _ _ _ => rfl)]
    rfl
  · intro r hr
    rw [cloneEnd_rtes_of_ne pktlen (ne_of_mem_of_not_mem hmc hr).symm
      (ne_of_mem_of_not_mem hprev hr).symm]
    exact h.untouched.rtes r hr

theorem linksWithin_of_chain {rtes : RteRef -> RteMbuf} {start : Option RteRef}
    (h : Chain (rteNext rtes) start segs) : LinksWithin rtes fun r => r ∈ segs := by
  intro r hr q hq
  rcases List.append_of_mem hr with ⟨front, back, hsplit⟩
  rw [hsplit] at h
  have htail := h.split.cons_inv.2
  rw [hq] at htail
  rcases htail.some_inv with ⟨rest, hback, _⟩
  rw [hsplit, hback]
  exact List.mem_append_right front (List.mem_cons_of_mem r List.mem_cons_self)

theorem CloneDone.free (hdoc : RteDocumented env) (h : CloneDone x0 mc seen clones x) :
    Untouched x0 clones { x with sys := x.sys.rtePktmbufFree env (some mc) } ∧
    (x0.sys.pool.freedSince (x.sys.rtePktmbufFree env (some mc)).pool).Perm
      (x0.sys.pool.servedSince (x.sys.rtePktmbufFree env (some mc)).pool) := by
  have hmc : mc ∈ clones := by
    rcases h.chain.some_inv with ⟨rest, hrest, _⟩
    rw [hrest]
    exact List.mem_cons_self
  constructor
  · refine ⟨fun r hr => ?_, h.untouched.attrs, h.untouched.mem⟩
    have hframe := hdoc.free_frame x.sys.pool.used x.sys.rtes mc _
      (linksWithin_of_chain h.chain) hmc r hr
    exact hframe.trans (h.untouched.rtes r hr)
  · have hserved : x0.sys.pool.servedSince (x.sys.rtePktmbufFree env (some mc)).pool = clones :=
      Arena.servedSince_of_append h.takes.served
    have hfreed : x0.sys.pool.freedSince (x.sys.rtePktmbufFree env (some mc)).pool =
        (env.rteFree x.sys.pool.used x.sys.rtes mc).1 := by
      apply Arena.freedSince_of_append
      show x.sys.pool.freed ++ _ = _
      rw [h.takes.freed]
    rw [hserved, hfreed]
    exact hdoc.free_chain _ _ _ _ h.chain fun r hr => h.takes.mem_used.mpr (Or.inl hr)

/-!
## Copies of packets
-/

/-- The packet at `mc` is a copy of the one at `md`, and counts so many segments. -/
structure DeepCopy (x0 x : CloneSys) (md mc : RteRef) (segs clones : List RteRef) (nbSegs : Nat) :
    Prop where
  chain : Chain (rteNext x.sys.rtes) (some mc) clones
  copied : Copied x0 segs clones x
  disjoint : clones.Disjoint segs
  pktLen : (x.sys.rtes mc).pktLen = (x0.sys.rtes md).pktLen
  nbSegs : (x.sys.rtes mc).nbSegs.toNat = nbSegs

/-- A copy is returned, or all that was allocated is freed once; the source stays as it is. -/
structure DeepCloned (x0 : CloneSys) (md : RteRef) (segs : List RteRef) (nbSegs : Nat)
    (r : Option RteRef × CloneSys) : Prop where
  outcome : (exists mc clones, r.1 = some mc ∧ DeepCopy x0 r.2 md mc segs clones nbSegs) ∨
    r.1 = none ∧ (x0.sys.pool.freedSince r.2.sys.pool).Perm (x0.sys.pool.servedSince r.2.sys.pool)
  source : forall q, q ∈ segs -> r.2.sys.rtes q = x0.sys.rtes q ∧ r.2.attrs q = x0.attrs q ∧
    segmentBytes r.2.sys q = segmentBytes x0.sys q

theorem DeepCloned.count {nbSegs : Nat} {r : Option RteRef × CloneSys}
    (h : DeepCloned x0 md segs nbSegs r) (hmc : r.1 = some mc) :
    (r.2.sys.rtes mc).nbSegs.toNat = nbSegs := by
  rcases h.outcome with ⟨mc', clones, hmc', hcopy⟩ | ⟨hnone, _⟩
  · rw [hmc] at hmc'
    injection hmc' with hmc'
    rw [hmc']
    exact hcopy.nbSegs
  · rw [hmc] at hnone
    contradiction

theorem Untouched.source (h : Untouched x0 clones x) (hdisjoint : clones.Disjoint segs) :
    forall q, q ∈ segs -> x.sys.rtes q = x0.sys.rtes q ∧ x.attrs q = x0.attrs q ∧
      segmentBytes x.sys q = segmentBytes x0.sys q := by
  intro q hq
  have hnot : q ∉ clones := fun hmem => hdisjoint hmem hq
  exact ⟨h.rtes q hnot, h.attrs q hnot, h.bytes hnot⟩

theorem cloneCount (n : Nat) : ((BitVec.ofNat 8 n).setWidth 16).toNat = n % 256 := by
  rw [BitVec.toNat_setWidth, BitVec.toNat_ofNat]
  omega

theorem CloneEnded.deepCloned (hdoc : RteDocumented env) {r : Option RteRef × CloneLoop}
    (h : CloneEnded env x0 mc segs r seen clones) (hused : segs ⊆ x0.sys.pool.used) :
    DeepCloned x0 md segs (segs.length % 256)
      (cloneReturn env mc (cloneEnd mc (x0.sys.rtes md).pktLen r.2) r.1) ∧
    ((cloneReturn env mc (cloneEnd mc (x0.sys.rtes md).pktLen r.2) r.1).1.isSome = true <->
      AllServed env x0.sys segs.length) := by
  have hdone := h.cloning.cloneEnd (x0.sys.rtes md).pktLen
  have hdisjoint : clones.Disjoint segs := fun q hq hseg => hdone.takes.not_mem hq (hused hseg)
  rcases h.outcome with ⟨hsome, hseen, hall⟩ | ⟨hnone, hnot⟩
  · rcases Option.isSome_iff_exists.mp hsome with ⟨mi, hmi⟩
    rw [hmi]
    rw [hseen] at hdone
    have hhead := cloneEnd_head mc (x0.sys.rtes md).pktLen r.2
    refine ⟨⟨Or.inl ⟨mc, clones, rfl, ?_⟩, hdone.untouched.source hdisjoint⟩, ?_⟩
    · refine ⟨hdone.chain, hdone.copied, hdisjoint, hhead.2, ?_⟩
      show ((cloneEnd mc _ r.2).sys.rtes mc).nbSegs.toNat = _
      rw [hhead.1, h.count, cloneCount, hdone.copied.length_eq]
    · exact ⟨fun _ => hall, fun _ => rfl⟩
  · rw [hnone]
    have hfree := hdone.free hdoc
    refine ⟨⟨Or.inr ⟨rfl, hfree.2⟩, hfree.1.source hdisjoint⟩, ?_⟩
    exact ⟨fun hfalse => by contradiction, fun hall => absurd hall hnot⟩

theorem pktmbufDeepClone_served {rest : List RteRef} (hok : env.pool.ok x.sys.pool.asked = true)
    (hchain : Chain (rteNext x.sys.rtes) (some md) (md :: rest))
    (hused : md :: rest ⊆ x.sys.pool.used) :
    exists r seen clones, Converges (fun n => pktmbufDeepClone env n md x)
        (cloneReturn env (x.sys.pool.item env.pool)
          (cloneEnd (x.sys.pool.item env.pool) (x.sys.rtes md).pktLen r.2) r.1) ∧
      CloneEnded env x (x.sys.pool.item env.pool) (md :: rest) r seen clones ∧
      forall (e : Dispatch.Env) (made : List Nat), e.alloc = env.pool.ok -> made.length = 1 ->
        Counted r clones (Dispatch.cloneSegs e rest.length made (x.sys.pool.asked + 1)) := by
  have hserved : Served env x.sys [x.sys.pool.item env.pool] (x.taken env).sys :=
    ⟨rfl, fun i hi => by rw [Nat.lt_one_iff.mp hi]; exact hok⟩
  rcases clone_run (prepared_first env x md) hserved rfl hchain hused with
    ⟨r, seen, clones, hrun, hended, hcounted⟩
  refine ⟨r, seen, clones, ?_, hended, hcounted⟩
  have hpktLen : ((x.taken env).sys.rtes md).pktLen = (x.sys.rtes md).pktLen := by
    have hne : md ≠ x.sys.pool.item env.pool :=
      ne_of_mem_of_not_mem (hused List.mem_cons_self) (x.sys.pool.item_not_mem env.pool)
    rw [CloneSys.taken_rtes_of_ne hne]
  rcases hrun.converges.map fun r => cloneReturn env (x.sys.pool.item env.pool)
    (cloneEnd (x.sys.pool.item env.pool) (x.sys.rtes md).pktLen r.2) r.1 with ⟨n0, hresult⟩
  refine ⟨n0, fun n hn => ?_⟩
  have hn := hresult n hn
  unfold pktmbufDeepClone
  rw [CloneSys.alloc_of_ok hok]
  simp only [hpktLen]
  exact hn

theorem pktmbufDeepClone_refused (md : RteRef) (hno : env.pool.ok x.sys.pool.asked ≠ true) :
    Converges (fun n => pktmbufDeepClone env n md x) (none, x.refused) := by
  apply Converges.of_eq
  intro n
  unfold pktmbufDeepClone
  rw [CloneSys.alloc_of_not_ok hno]

theorem pktmbufDeepClone_converges (hdoc : RteDocumented env)
    (hchain : Chain (rteNext x.sys.rtes) (some md) segs) (hused : segs ⊆ x.sys.pool.used) :
    exists r, Converges (fun n => pktmbufDeepClone env n md x) r ∧
      DeepCloned x md segs (segs.length % 256) r ∧
      (r.1.isSome = true <-> AllServed env x.sys segs.length) := by
  rcases hchain.some_inv with ⟨rest, hsegs, _⟩
  rw [hsegs] at hchain hused ⊢
  by_cases hok : env.pool.ok x.sys.pool.asked = true
  · rcases pktmbufDeepClone_served hok hchain hused with ⟨r, seen, clones, hrun, hended, _⟩
    exact ⟨_, hrun, hended.deepCloned hdoc hused⟩
  · refine ⟨(none, x.refused), pktmbufDeepClone_refused md hok, ⟨Or.inr ⟨rfl, ?_⟩, ?_⟩, ?_⟩
    · have htakes := Arena.Takes.refuse x.sys.pool
      have hserved : x.sys.pool.servedSince x.refused.sys.pool = [] :=
        Arena.servedSince_of_append htakes.served
      have hfreed : x.sys.pool.freedSince x.refused.sys.pool = [] :=
        Arena.freedSince_of_append (by rw [List.append_nil]; exact htakes.freed)
      rw [hserved, hfreed]
    · intro q _
      exact ⟨rfl, rfl, rfl⟩
    · exact ⟨fun hfalse => by contradiction, fun hall => absurd (hall 0 (Nat.succ_pos _)) hok⟩

/-!
## The clones of the receive path

The receive path knows a clone by the requests that are made for it.  They are the requests of
this function, with the same outcome and as many segments.
-/

theorem cloneReturn_requests (env : Env) (mc : RteRef) (pktlen : BitVec 32)
    (r : Option RteRef × CloneLoop) :
    (cloneReturn env mc (cloneEnd mc pktlen r.2) r.1).1.isSome = r.1.isSome ∧
      (cloneReturn env mc (cloneEnd mc pktlen r.2) r.1).2.sys.pool.asked =
        r.2.state.sys.pool.asked ∧
      (cloneReturn env mc (cloneEnd mc pktlen r.2) r.1).2.sys.pool.served =
        r.2.state.sys.pool.served := by
  cases r.1 with
  | none => exact ⟨rfl, rfl, rfl⟩
  | some mi => exact ⟨rfl, rfl, rfl⟩

theorem dispatch_pktmbufDeepClone_served {e : Dispatch.Env} {st : Dispatch.St}
    (h : e.alloc st.allocs = true) (moreSegs : Nat) :
    (Dispatch.pktmbufDeepClone e moreSegs st).1.isSome =
        (Dispatch.cloneSegs e moreSegs [st.allocs] (st.allocs + 1)).2.1 ∧
      (Dispatch.pktmbufDeepClone e moreSegs st).2.allocs =
        (Dispatch.cloneSegs e moreSegs [st.allocs] (st.allocs + 1)).2.2 ∧
      (Dispatch.pktmbufDeepClone e moreSegs st).2.made =
        st.made ++ [(Dispatch.cloneSegs e moreSegs [st.allocs] (st.allocs + 1)).1] := by
  unfold Dispatch.pktmbufDeepClone
  rw [if_pos h]
  cases hcomplete : (Dispatch.cloneSegs e moreSegs [st.allocs] (st.allocs + 1)).2.1 with
  | false => simp [hcomplete, Dispatch.give]
  | true => simp [hcomplete]

theorem pktmbufDeepClone_abstracts {rest : List RteRef}
    (hchain : Chain (rteNext x.sys.rtes) (some md) (md :: rest))
    (hused : md :: rest ⊆ x.sys.pool.used) {e : Dispatch.Env} (he : e.alloc = env.pool.ok)
    {st : Dispatch.St} (hst : st.allocs = x.sys.pool.asked) :
    exists r, Converges (fun n => pktmbufDeepClone env n md x) r ∧
      r.1.isSome = (Dispatch.pktmbufDeepClone e rest.length st).1.isSome ∧
      r.2.sys.pool.asked = (Dispatch.pktmbufDeepClone e rest.length st).2.allocs ∧
      (Dispatch.pktmbufDeepClone e rest.length st).2.made.flatten.length =
        st.made.flatten.length + (x.sys.pool.servedSince r.2.sys.pool).length := by
  by_cases hok : env.pool.ok x.sys.pool.asked = true
  · have hserve : e.alloc st.allocs = true := by
      rw [he, hst]
      exact hok
    rcases pktmbufDeepClone_served hok hchain hused with ⟨r, seen, clones, hrun, hended, hcounted⟩
    rcases hcounted e [st.allocs] he rfl with ⟨hlength, hsome, hasked⟩
    rcases dispatch_pktmbufDeepClone_served hserve rest.length with ⟨hsome', hallocs, hmade⟩
    rcases cloneReturn_requests env (x.sys.pool.item env.pool) (x.sys.rtes md).pktLen r with
      ⟨hreturned, hreturned', hserved⟩
    rw [<- hst] at hsome hasked hlength
    refine ⟨_, hrun, ?_, ?_, ?_⟩
    · rw [hreturned, hsome, hsome']
    · rw [hreturned', hasked, hallocs]
    · rw [Arena.servedSince_of_append (hserved.trans hended.cloning.takes.served), hmade,
        List.flatten_append, List.length_append, List.flatten_singleton, hlength]
  · have hrefuse : ¬ e.alloc st.allocs = true := by
      rw [he, hst]
      exact hok
    have hserved : x.sys.pool.servedSince x.refused.sys.pool = [] :=
      Arena.servedSince_of_append (Arena.Takes.refuse x.sys.pool).served
    refine ⟨_, pktmbufDeepClone_refused md hok, ?_⟩
    rw [Dispatch.pktmbufDeepClone, if_neg hrefuse, hserved]
    exact ⟨rfl, congrArg (· + 1) hst.symm, rfl⟩

/-!
## Exactly the packets of at most 255 segments
-/

/-!
The function does what it is for exactly when the packet has at most 255 segments or a request
is refused; for other packets, only the count of the copy is wrong.
-/
theorem deep_clone_iff (env : Env) (hdoc : RteDocumented env) (x : CloneSys) (md : RteRef)
    (segs : List RteRef) (hchain : Chain (rteNext x.sys.rtes) (some md) segs)
    (hused : segs ⊆ x.sys.pool.used) :
    exists r, Converges (fun n => pktmbufDeepClone env n md x) r ∧
      DeepCloned x md segs (segs.length % 256) r ∧ (DeepCloned x md segs segs.length r <->
        segs.length ≤ 255 ∨
          exists k, k < segs.length ∧ env.pool.ok (x.sys.pool.asked + k) = false) := by
  rcases pktmbufDeepClone_converges hdoc hchain hused with ⟨r, hrun, hcloned, hsome⟩
  refine ⟨r, hrun, hcloned, ?_, ?_⟩
  · intro h
    by_cases hnot : AllServed env x.sys segs.length
    · rcases Option.isSome_iff_exists.mp (hsome.mpr hnot) with ⟨mc, hmc⟩
      have hwrapped : segs.length % 256 = segs.length :=
        (hcloned.count hmc).symm.trans (h.count hmc)
      exact Or.inl (by omega)
    · apply Or.inr
      apply Classical.byContradiction
      intro hall
      apply hnot
      intro k hk
      apply Bool.of_not_eq_false
      intro hfalse
      exact hall ⟨k, hk, hfalse⟩
  · intro h
    rcases h with hshort | ⟨k, hk, hrefused⟩
    · rw [Nat.mod_eq_of_lt (Nat.lt_succ_of_le hshort)] at hcloned
      exact hcloned
    · have hnone : r.1 = none := by
        apply Option.not_isSome_iff_eq_none.mp
        intro hreturned
        have hok := hsome.mp hreturned k hk
        rw [hrefused] at hok
        contradiction
      refine ⟨?_, hcloned.source⟩
      rcases hcloned.outcome with ⟨mc, clones, hmc, _⟩ | hfreed
      · rw [hnone] at hmc
        contradiction
      · exact Or.inr hfreed

def noAttrs (_ : RteRef) : RteAttrs :=
  ⟨0, 0, 0, 0, 0, 0, 0⟩

/-- A packet of two segments, from a pool that serves every request. -/
theorem deep_clone_pair : exists r,
    Converges (fun n => pktmbufDeepClone (walkingEnv (fun _ => true) fun _ => true) n 1
      ⟨arrivedPair, noAttrs⟩) r ∧ DeepCloned ⟨arrivedPair, noAttrs⟩ 1 [1, 2] 2 r := by
  rcases deep_clone_iff _ (walkingEnv_documented (fun _ => true) fun _ => true)
    ⟨arrivedPair, noAttrs⟩ 1 [1, 2] arrivedPair_chain (fun _ h => h) with ⟨r, hrun, _, hiff⟩
  exact ⟨r, hrun, hiff.mpr (Or.inl (by decide))⟩

/-!
## A packet of 256 segments
-/

/-- The segments from `1` on, one linked to the next. -/
def segmentRow (n : Nat) (r : RteRef) : RteMbuf :=
  { next := if r < n then some (r + 1) else none
    dataOff := 128
    dataLen := 1
    pktLen := BitVec.ofNat 32 n
    nbSegs := BitVec.ofNat 16 n }

def arrivedRow (n : Nat) : Sys :=
  { arrivedPair with
    rtes := segmentRow n
    pool :=
      { used := List.range' 1 n
        asked := n
        served := List.range' 1 n
        freed := []
        nodup := List.nodup_range' } }

theorem arrivedRow_chain (n k first : Nat) (h : first + k = n) :
    Chain (rteNext (arrivedRow n).rtes) (some first) (List.range' first (k + 1)) := by
  induction k generalizing first with
  | zero =>
      apply Chain.cons
      have hend : ¬ first < n := by omega
      have hlast : rteNext (arrivedRow n).rtes first = none := if_neg hend
      rw [hlast]
      exact Chain.nil
  | succ k ih =>
      rw [List.range'_succ]
      apply Chain.cons
      have hmore : first < n := by omega
      have hnext : rteNext (arrivedRow n).rtes first = some (first + 1) := if_pos hmore
      rw [hnext]
      exact ih (first + 1) (by omega)

theorem arrivedRow_cloned (k : Nat) : exists r mc,
    Converges (fun n => pktmbufDeepClone (walkingEnv (fun _ => true) fun _ => true) n 1
      ⟨arrivedRow (1 + k), noAttrs⟩) r ∧
    r.1 = some mc ∧ (r.2.sys.rtes mc).nbSegs.toNat = (k + 1) % 256 := by
  have hused : List.range' 1 (k + 1) ⊆ (arrivedRow (1 + k)).pool.used := by
    rw [Nat.add_comm k 1]
    exact List.Subset.refl _
  rcases pktmbufDeepClone_converges (walkingEnv_documented (fun _ => true) fun _ => true)
    (x := ⟨arrivedRow (1 + k), noAttrs⟩) (arrivedRow_chain (1 + k) k 1 rfl) hused with
    ⟨r, hrun, hcloned, hsome⟩
  rcases Option.isSome_iff_exists.mp (hsome.mpr fun _ _ => rfl) with ⟨mc, hmc⟩
  refine ⟨r, mc, hrun, hmc, ?_⟩
  rw [hcloned.count hmc, List.length_range']

/-- The copy of 256 segments counts none. -/
theorem deep_clone_256 :
    Chain (rteNext (arrivedRow 256).rtes) (some 1) (List.range' 1 256) ∧ exists r mc,
    Converges (fun n => pktmbufDeepClone (walkingEnv (fun _ => true) fun _ => true) n 1
      ⟨arrivedRow 256, noAttrs⟩) r ∧ r.1 = some mc ∧ (r.2.sys.rtes mc).nbSegs.toNat = 0 ∧
    ¬ DeepCloned ⟨arrivedRow 256, noAttrs⟩ 1 (List.range' 1 256) 256 r := by
  rcases arrivedRow_cloned 255 with ⟨r, mc, hrun, hmc, hcount⟩
  refine ⟨arrivedRow_chain 256 255 1 rfl, r, mc, hrun, hmc, hcount, ?_⟩
  intro h
  have hfull := h.count hmc
  rw [hcount] at hfull
  exact absurd hfull (by decide)

end Packet
end FStackLite
