import FStackLite.Packet.CopyData
import FStackLite.Packet.Pool
import FStackLite.Packet.Release

/-!
# Building an rte packet

Both transmit functions take segments from the pool, link them and fill them.
The invariant `Built` says which segments the packet has; it is kept by every
store the two loops make, and by the `m_freem` of the mbuf chain, whose callbacks
only reach segments that were in use before.
-/

namespace FStackLite
namespace Packet

open Foundation

/-!
## Segments of a packet under construction
-/

/-- The packet at `head` consists of the segments `segs`, all taken since `s0`. -/
structure Built (s0 : Sys) (head : RteRef) (segs : List RteRef) (s : Sys) : Prop where
  takes : s0.pool.Takes segs s.pool
  chain : Chain (rteNext s.rtes) (some head) segs
  outside : forall r, r ∉ segs -> s.rtes r = s0.rtes r
  mbufs : s.mbufs = s0.mbufs
  mFrees : s.mFrees = s0.mFrees

structure Served (env : Env) (s0 : Sys) (segs : List RteRef) (s : Sys) : Prop where
  asked : s.pool.asked = s0.pool.asked + segs.length
  ok : forall i, i < segs.length -> env.pool.ok (s0.pool.asked + i) = true

variable {head : RteRef} {s s0 s' : Sys} {segs : List RteRef} {env : Env} {α : Type}
    {inside : RteRef -> Prop}

theorem Built.head_mem (h : Built s0 head segs s) : head ∈ segs := by
  rcases h.chain.some_inv with ⟨rest, rfl, -⟩
  exact List.mem_cons_self

theorem Built.setMem (h : Built s0 head segs s) (mem : Memory) :
    Built s0 head segs { s with mem := mem } :=
  ⟨h.takes, h.chain, h.outside, h.mbufs, h.mFrees⟩

theorem Built.setRte (h : Built s0 head segs s) {r : RteRef} (hr : r ∈ segs) {b : RteMbuf}
    (hnext : b.next = (s.rtes r).next) : Built s0 head segs (s.setRte r b) := by
  constructor
  · exact h.takes
  · apply h.chain.congr
    intro x _
    exact s.setRte_rtes_member RteMbuf.next hnext x
  · intro x hx
    have hne : x ≠ r := fun heq => hx (heq ▸ hr)
    rw [Sys.setRte_rtes_of_ne _ _ hne]
    exact h.outside x hx
  · exact h.mbufs
  · exact h.mFrees

theorem rtePktmbufAlloc_of_ok (h : env.pool.ok s.pool.asked = true) :
    s.rtePktmbufAlloc env = (some (s.pool.item env.pool),
      ({ s with pool := s.pool.take env.pool } : Sys).setRte (s.pool.item env.pool)
        (env.rteReset (s.rtes (s.pool.item env.pool)))) := by
  unfold Sys.rtePktmbufAlloc
  rw [Arena.alloc_of_ok h]

theorem rtePktmbufAlloc_of_not_ok (h : env.pool.ok s.pool.asked ≠ true) :
    s.rtePktmbufAlloc env = (none, { s with pool := s.pool.refuse }) := by
  unfold Sys.rtePktmbufAlloc
  rw [Arena.alloc_of_not_ok h]

theorem countSegment_member (member : RteMbuf -> α)
    (h : forall b n, member { b with nbSegs := n } = member b) (head : RteRef) (s : Sys)
    (x : RteRef) : member ((countSegment head s).rtes x) = member (s.rtes x) :=
  s.setRte_rtes_member member (h _ _) x

theorem setDataLen_member (member : RteMbuf -> α)
    (h : forall b n, member { b with dataLen := n } = member b) (r : RteRef) (len : BitVec 32)
    (s : Sys) (x : RteRef) : member ((setDataLen r len s).rtes x) = member (s.rtes x) :=
  s.setRte_rtes_member member (h _ _) x

theorem setNext_member (member : RteMbuf -> α)
    (h : forall b n, member { b with next := n } = member b) (r : RteRef) (q : Option RteRef)
    (s : Sys) (x : RteRef) : member ((setNext r q s).rtes x) = member (s.rtes x) :=
  s.setRte_rtes_member member (h _ _) x

def newHead (env : Env) (len : BitVec 32) (s : Sys) : Sys :=
  initHead (s.pool.item env.pool) len
    (({ s with pool := s.pool.take env.pool } : Sys).setRte (s.pool.item env.pool)
      (env.rteReset (s.rtes (s.pool.item env.pool))))

theorem newHead_rtes_self (env : Env) (len : BitVec 32) (s : Sys) :
    (newHead env len s).rtes (s.pool.item env.pool) =
      { env.rteReset (s.rtes (s.pool.item env.pool)) with pktLen := len, nbSegs := 0 } := by
  unfold newHead initHead
  rw [Sys.setRte_rtes_self, Sys.setRte_rtes_self]

theorem built_newHead (hdoc : RteDocumented env) (len : BitVec 32) (s : Sys) :
    Built s (s.pool.item env.pool) [s.pool.item env.pool] (newHead env len s) := by
  constructor
  · exact Arena.Takes.take env.pool s.pool
  · apply Chain.cons
    have hnext : rteNext (newHead env len s).rtes (s.pool.item env.pool) = none := by
      unfold rteNext
      rw [newHead_rtes_self]
      exact hdoc.reset_next _
    rw [hnext]
    exact Chain.nil
  · intro r hr
    have hne : r ≠ s.pool.item env.pool := fun heq => hr (heq ▸ List.mem_cons_self)
    unfold newHead initHead
    rw [Sys.setRte_rtes_of_ne _ _ hne, Sys.setRte_rtes_of_ne _ _ hne]
  · rfl
  · rfl

theorem served_newHead (h : env.pool.ok s.pool.asked = true) (len : BitVec 32) :
    Served env s [s.pool.item env.pool] (newHead env len s) := by
  constructor
  · rfl
  · intro i hi
    have hzero : i = 0 := Nat.lt_one_iff.mp hi
    rw [hzero]
    exact h

/-- The next segment, linked behind the segment `p`. -/
def newSegment (env : Env) (p : RteRef) (s : Sys) : Sys :=
  setNext p (some (s.pool.item env.pool))
    (({ s with pool := s.pool.take env.pool } : Sys).setRte (s.pool.item env.pool)
      (env.rteReset (s.rtes (s.pool.item env.pool))))

section NewSegment

variable {env : Env} {s0 s : Sys} {head p : RteRef} {front : List RteRef}

theorem Built.item_not_mem (h : Built s0 head (front ++ [p]) s) :
    s.pool.item env.pool ∉ front ++ [p] := by
  intro hmem
  exact s.pool.item_not_mem env.pool (h.takes.mem_used.mpr (Or.inl hmem))

theorem Built.item_ne (h : Built s0 head (front ++ [p]) s) : s.pool.item env.pool ≠ p := by
  intro heq
  have hnot : s.pool.item env.pool ∉ front ++ [p] := h.item_not_mem
  rw [heq] at hnot
  exact hnot (List.mem_append_right front List.mem_cons_self)

theorem newSegment_rtes_item (hne : s.pool.item env.pool ≠ p) :
    (newSegment env p s).rtes (s.pool.item env.pool) =
      env.rteReset (s.rtes (s.pool.item env.pool)) := by
  unfold newSegment setNext
  rw [Sys.setRte_rtes_of_ne _ _ hne, Sys.setRte_rtes_self]

theorem newSegment_rtes_last (hne : s.pool.item env.pool ≠ p) : (newSegment env p s).rtes p =
      { s.rtes p with next := some (s.pool.item env.pool) } := by
  unfold newSegment setNext
  rw [Sys.setRte_rtes_self, Sys.setRte_rtes_of_ne _ _ hne.symm]

theorem newSegment_rtes_of_ne {x : RteRef} (hitem : x ≠ s.pool.item env.pool) (hp : x ≠ p) :
    (newSegment env p s).rtes x = s.rtes x := by
  unfold newSegment setNext
  rw [Sys.setRte_rtes_of_ne _ _ hp, Sys.setRte_rtes_of_ne _ _ hitem]

theorem Built.newSegment (hdoc : RteDocumented env) (h : Built s0 head (front ++ [p]) s) :
    Built s0 head (front ++ [p, s.pool.item env.pool]) (newSegment env p s) := by
  have hitem : s.pool.item env.pool ≠ p := h.item_ne
  constructor
  · have htake := h.takes.trans (Arena.Takes.take env.pool s.pool)
    rw [List.append_assoc] at htake
    exact htake
  · apply h.chain.snoc
    · unfold rteNext
      rw [newSegment_rtes_last hitem]
    · unfold rteNext
      rw [newSegment_rtes_item hitem]
      exact hdoc.reset_next _
    · intro x hx
      have hxp : x ≠ p := by
        intro heq
        have hnodup := h.chain.nodup
        exact (List.nodup_append.mp hnodup).2.2 x hx p List.mem_cons_self heq
      have hxitem : x ≠ s.pool.item env.pool :=
        fun heq => h.item_not_mem (heq ▸ List.mem_append_left [p] hx)
      unfold rteNext
      rw [newSegment_rtes_of_ne hxitem hxp]
  · intro r hr
    have hold : r ∉ front ++ [p] := by
      intro hmem
      apply hr
      rcases List.mem_append.mp hmem with hmem | hmem
      · exact List.mem_append_left _ hmem
      · cases List.mem_singleton.mp hmem
        exact List.mem_append_right _ List.mem_cons_self
    have hrp : r ≠ p := fun heq => hold (heq ▸ List.mem_append_right front List.mem_cons_self)
    have hritem : r ≠ s.pool.item env.pool := by
      intro heq
      apply hr
      rw [heq]
      exact List.mem_append_right _ (List.mem_cons_of_mem p List.mem_cons_self)
    rw [newSegment_rtes_of_ne hritem hrp]
    exact h.outside r hold
  · exact h.mbufs
  · exact h.mFrees

theorem Served.newSegment {segs : List RteRef} (h : Served env s0 segs s)
    (hok : env.pool.ok s.pool.asked = true) (q : RteRef) :
    Served env s0 (segs ++ [q]) (newSegment env p s) := by
  constructor
  · show s.pool.asked + 1 = _
    rw [h.asked, List.length_append]
    rfl
  · intro i hi
    rw [List.length_append] at hi
    cases Nat.lt_or_ge i segs.length with
    | inl hlt => exact h.ok i hlt
    | inr hge =>
        have heq : i = segs.length := by
          change i < segs.length + 1 at hi
          omega
        rw [heq, ← h.asked]
        exact hok

theorem Built.refused (h : Built s0 head (front ++ [p]) s) :
    Built s0 head (front ++ [p]) (setNext p none { s with pool := s.pool.refuse }) := by
  have htakes := h.takes.trans (Arena.Takes.refuse s.pool)
  rw [List.append_nil] at htakes
  have hbase : Built s0 head (front ++ [p]) { s with pool := s.pool.refuse } :=
    ⟨htakes, h.chain, h.outside, h.mbufs, h.mFrees⟩
  exact hbase.setRte (List.mem_append_right front List.mem_cons_self) h.chain.last_next.symm

end NewSegment

/-!
## Filling a segment
-/

/-- The bytes go into `q`, which gets their number, and the head counts it. -/
def fillSegment (head q : RteRef) (len : BitVec 32) (mem : Memory) (s : Sys) : Sys :=
  setDataLen q len (countSegment head { s with mem := mem })

theorem Built.fillSegment {s0 s : Sys} {head q : RteRef} {segs : List RteRef}
    (h : Built s0 head segs s) (hq : q ∈ segs) (len : BitVec 32) (mem : Memory) :
    Built s0 head segs (fillSegment head q len mem s) := by
  have hcount : Built s0 head segs (countSegment head { s with mem := mem }) :=
    (h.setMem mem).setRte h.head_mem rfl
  exact hcount.setRte hq rfl

theorem Served.fillSegment {env : Env} {s0 s : Sys} {segs : List RteRef}
    (h : Served env s0 segs s) (head q : RteRef) (len : BitVec 32) (mem : Memory) :
    Served env s0 segs (fillSegment head q len mem s) :=
  ⟨h.asked, h.ok⟩

/-- `ff_mbuf_copydata` changes the memory only. -/
theorem ffMbufCopydata_mem {n : Nat} {m : MbufRef} {data : Ptr} {off len : BitVec 32} {ret : Int}
    (h : ffMbufCopydata n m data off len s = some (ret, s')) :
    exists mem, s' = { s with mem := mem } := by
  unfold ffMbufCopydata at h
  split at h
  · cases h
    exact ⟨s.mem, rfl⟩
  · rcases Option.map_eq_some_iff.mp h with ⟨s1, hcopy, heq⟩
    cases heq
    unfold mCopydata at hcopy
    split at hcopy
    · contradiction
    · rcases Option.map_eq_some_iff.mp hcopy with ⟨mem, -, rfl⟩
      exact ⟨mem, rfl⟩

/-!
## Freeing the mbuf chain
-/

/--
The segments that the callbacks of the mbufs free, and all they are linked to,
are in use.
-/
structure Guarded (s : Sys) (ms : List MbufRef) : Prop where
  links : LinksWithin s.rtes fun r => r ∈ s.pool.used
  args : forall x, x ∈ ms -> (s.mbufs x).ext.extFree = some ExtFree.dpdkFfFreef ->
    forall r, (s.mbufs x).ext.extArg1 = some r -> r ∈ s.pool.used

/-- Between the two states, only segments in this set were freed or changed. -/
structure FreesWithin (inside : RteRef -> Prop) (s s' : Sys) : Prop where
  rtes : forall q, ¬ inside q -> s'.rtes q = s.rtes q
  links : LinksWithin s'.rtes inside
  used : forall q, ¬ inside q -> q ∈ s.pool.used -> q ∈ s'.pool.used
  freed : exists xs, s'.pool.freed = s.pool.freed ++ xs ∧ forall q, q ∈ xs -> inside q
  served : s'.pool.served = s.pool.served
  asked : s'.pool.asked = s.pool.asked

theorem FreesWithin.refl (h : LinksWithin s.rtes inside) : FreesWithin inside s s := by
  refine ⟨fun _ _ => rfl, h, fun _ _ hq => hq, ⟨[], ?_, ?_⟩, rfl, rfl⟩
  · rw [List.append_nil]
  · intro q hq
    contradiction

theorem FreesWithin.trans {s'' : Sys} (h : FreesWithin inside s s')
    (h' : FreesWithin inside s' s'') : FreesWithin inside s s'' := by
  constructor
  · intro q hq
    rw [h'.rtes q hq, h.rtes q hq]
  · exact h'.links
  · intro q hq hused
    exact h'.used q hq (h.used q hq hused)
  · rcases h.freed with ⟨xs, hxs, hin⟩
    rcases h'.freed with ⟨ys, hys, hin'⟩
    refine ⟨xs ++ ys, ?_, ?_⟩
    · rw [hys, hxs, List.append_assoc]
    · intro q hq
      rcases List.mem_append.mp hq with hq | hq
      · exact hin q hq
      · exact hin' q hq
  · rw [h'.served, h.served]
  · rw [h'.asked, h.asked]

theorem FreesWithin.of_sameRte {s'' : Sys} (h : FreesWithin inside s s') (hsame : SameRte s' s'') :
    FreesWithin inside s s'' := by
  constructor
  · intro q hq
    rw [hsame.rtes]
    exact h.rtes q hq
  · rw [hsame.rtes]
    exact h.links
  · intro q hq hused
    rw [hsame.pool]
    exact h.used q hq hused
  · rw [hsame.pool]
    exact h.freed
  · rw [hsame.pool]
    exact h.served
  · rw [hsame.pool]
    exact h.asked

theorem freesWithin_rtePktmbufFree (hdoc : RteDocumented env) (h : LinksWithin s.rtes inside)
    {r : Option RteRef} (hr : forall q, r = some q -> inside q) :
    FreesWithin inside s (s.rtePktmbufFree env r) := by
  cases r with
  | none => exact FreesWithin.refl h
  | some r =>
      have hin := hr r rfl
      constructor
      · intro q hq
        exact hdoc.free_frame _ _ _ inside h hin q hq
      · exact hdoc.free_links _ _ _ inside h hin
      · intro q hq hused
        show q ∈ s.pool.used.diff (env.rteFree s.pool.used s.rtes r).1
        apply List.mem_diff_of_mem hused
        intro hmem
        exact hq (hdoc.free_within _ _ _ inside h hin q hmem)
      · exact ⟨_, rfl, hdoc.free_within _ _ _ inside h hin⟩
      · rfl
      · rfl

def ArgsWithin (inside : RteRef -> Prop) (s : Sys) (ms : List MbufRef) : Prop :=
  forall x, x ∈ ms -> (s.mbufs x).ext.extFree = some ExtFree.dpdkFfFreef ->
    forall r, (s.mbufs x).ext.extArg1 = some r -> inside r

theorem freeAll_within (hdoc : RteDocumented env) {ms : List MbufRef}
    (hlinks : LinksWithin s.rtes inside) (hargs : ArgsWithin inside s ms)
    (h : freeAll env ms s = some s') :
    FreesWithin inside s s' ∧ s'.mem = s.mem ∧ s'.mFrees = s.mFrees ++ ms := by
  induction ms generalizing s with
  | nil =>
      cases h
      exact ⟨FreesWithin.refl hlinks, rfl, (List.append_nil _).symm⟩
  | cons m ms ih =>
      rcases Option.bind_eq_some_iff.mp h with ⟨⟨next, s1⟩, hfree, hrest⟩
      rcases mFree_effect hfree with ⟨-, heffect⟩
      have hone : FreesWithin inside s s1 := by
        rcases heffect.rte with hsame | ⟨hcallback, hsame⟩
        · exact (FreesWithin.refl hlinks).of_sameRte hsame
        · have hin : forall q, (s.mbufs m).ext.extArg1 = some q -> inside q :=
            hargs m List.mem_cons_self hcallback
          exact (freesWithin_rtePktmbufFree hdoc hlinks hin).of_sameRte hsame
      have hargs1 : ArgsWithin inside s1 ms := by
        intro x hx hcallback r hr
        rw [(heffect.mbufs x).extFree] at hcallback
        rw [(heffect.mbufs x).extArg1] at hr
        exact hargs x (List.mem_cons_of_mem m hx) hcallback r hr
      rcases ih hone.links hargs1 hrest with ⟨hmore, hmem, hfrees⟩
      refine ⟨hone.trans hmore, ?_, ?_⟩
      · rw [hmem, heffect.mem]
      · rw [hfrees, heffect.mFrees, List.append_assoc]
        rfl

section Guard

variable {env : Env} {s0 s : Sys} {head : RteRef} {segs : List RteRef} {ms : List MbufRef}

theorem Built.not_used (h : Built s0 head segs s) {q : RteRef} (hq : q ∈ segs) : q ∉ s0.pool.used :=
  h.takes.not_mem hq

theorem Built.linksWithin (h : Built s0 head segs s) (hguard : Guarded s0 ms) :
    LinksWithin s.rtes fun r => r ∈ s0.pool.used := by
  intro r hr q hq
  have hout : r ∉ segs := fun hmem => h.not_used hmem hr
  unfold rteNext at hq
  rw [h.outside r hout] at hq
  exact hguard.links r hr q hq

theorem Built.argsWithin (h : Built s0 head segs s) (hguard : Guarded s0 ms) :
    ArgsWithin (fun r => r ∈ s0.pool.used) s ms := by
  intro x hx
  rw [h.mbufs]
  exact hguard.args x hx

/-- The packet survives the `m_freem` of the mbuf chain. -/
theorem Built.survives (hdoc : RteDocumented env) (hguard : Guarded s0 ms)
    (h : Built s0 head segs s) {s' : Sys} (hfree : freeAll env ms s = some s') :
    (forall q, q ∈ segs -> s'.rtes q = s.rtes q) ∧ segs ⊆ s'.pool.used ∧
      FreesWithin (fun r => r ∈ s0.pool.used) s s' ∧ s'.mem = s.mem ∧
      s'.mFrees = s0.mFrees ++ ms := by
  rcases freeAll_within hdoc (h.linksWithin hguard) (h.argsWithin hguard) hfree with
    ⟨hwithin, hmem, hfrees⟩
  refine ⟨?_, ?_, hwithin, hmem, ?_⟩
  · intro q hq
    exact hwithin.rtes q (h.not_used hq)
  · intro q hq
    exact hwithin.used q (h.not_used hq) (h.takes.mem_used.mpr (Or.inl hq))
  · rw [hfrees, h.mFrees]

end Guard

/-!
## Chains that can be sent
-/

/--
An mbuf chain in order: its mbufs can be freed, their callbacks free packets in
use, and their data do not lie in segments that are in the pool.
-/
structure Sendable (s : Sys) (m : MbufRef) (ms : List MbufRef) : Prop where
  chain : Chain s.mNext (some m) ms
  guarded : Guarded s ms
  freeable : forall x, x ∈ ms -> Freeable (s.mbufs x)
  data : forall x, x ∈ ms -> forall r, (s.mbufs x).mData.block = Block.rte r ->
    r ∈ s.pool.used

theorem longPacket_sendable : Sendable longPacket 1 [1, 2] := by
  constructor
  · exact longPacket_chain
  · constructor
    · intro r hr
      contradiction
    · intro x _ hfree
      contradiction
  · intro x _
    constructor
    · intro hext
      contradiction
    · intro hext
      contradiction
  · intro x _ r hr
    contradiction

structure Covered (s : Sys) (m : MbufRef) (ms : List MbufRef) : Prop where
  nonneg : (s.mbufs m).pkthdrLen.toNat < 2 ^ 31
  le : (s.mbufs m).pkthdrLen.toNat ≤ totalLen s ms

section Sending

variable {env : Env} {s0 s : Sys} {head : RteRef} {segs : List RteRef} {m : MbufRef}
  {ms : List MbufRef}

theorem Built.mbufChain (h : Built s0 head segs s) (hchain : Chain s0.mNext (some m) ms) :
    Chain s.mNext (some m) ms := by
  apply hchain.congr
  intro x _
  unfold Sys.mNext
  rw [h.mbufs]

theorem Built.avoids (h : Built s0 head segs s) (hsend : Sendable s0 m ms) {q : RteRef}
    (hq : q ∈ segs) : Avoids s ms (Block.rte q) := by
  intro x hx hblock
  rw [h.mbufs] at hblock
  exact h.not_used hq (hsend.data x hx q hblock)

theorem Built.copydata (h : Built s0 head segs s) (hsend : Sendable s0 m ms)
    (hcovered : Covered s0 m ms) {q : RteRef} (hq : q ∈ segs) {off len : BitVec 32}
    (hlen : off.toNat + len.toNat ≤ (s0.mbufs m).pkthdrLen.toNat) :
    Converges (fun n => ffMbufCopydata n m (s.rtePktmbufMtod q) off len s) (0, { s with
        mem := s.mem.write (s.rtePktmbufMtod q)
          (((dataOf s ms).drop off.toNat).take len.toNat) }) := by
  have hnonneg := hcovered.nonneg
  have hle := hcovered.le
  have hsum : (off + len).toNat = off.toNat + len.toNat := by
    rw [BitVec.toNat_add]
    omega
  have hguard : ¬ (off + len).toInt > (s.mbufs m).pkthdrLen.toInt := by
    rw [h.mbufs, BitVec.toInt_eq_toNat_of_lt (by omega), BitVec.toInt_eq_toNat_of_lt (by omega),
      hsum]
    omega
  have htotal : off.toNat + len.toNat ≤ totalLen s ms := by
    have hsame : totalLen s ms = totalLen s0 ms := by
      unfold totalLen
      rw [h.mbufs]
    omega
  have havoid : Avoids s ms (s.rtePktmbufMtod q).block := h.avoids hsend hq
  have hcopy := (mCopydata_converges (h.mbufChain hsend.chain) htotal havoid).map
    fun s' => ((0 : Int), s')
  rcases hcopy with ⟨n0, hcopy⟩
  refine ⟨n0, ?_⟩
  intro n hn
  show ffMbufCopydata n m (s.rtePktmbufMtod q) off len s = _
  unfold ffMbufCopydata
  rw [if_neg hguard]
  exact hcopy n hn

theorem Built.mFreem (h : Built s0 head segs s) (hsend : Sendable s0 m ms) :
    exists s', Converges (fun n => ffMbufFree env n (some m) s) s' ∧
      freeAll env ms s = some s' := by
  have hfreeable : forall x, x ∈ ms -> Freeable (s.mbufs x) := by
    rw [h.mbufs]
    exact hsend.freeable
  rcases freeAll_total env hfreeable with ⟨s', hs'⟩
  exact ⟨s', mFreem_converges (h.mbufChain hsend.chain) hs', hs'⟩

end Sending

/-!
## The passes of `dpdk_ff_to_mbuf`
-/

theorem txChunk_toNat (x : BitVec 32) : (txChunk x).toNat = min 2048 x.toNat := by
  unfold txChunk
  split
  · rename_i h
    have hlt : 2048 < x.toNat := BitVec.lt_def.mp h
    show 2048 = min 2048 x.toNat
    omega
  · rename_i h
    have hle : x.toNat ≤ 2048 := Nat.not_lt.mp fun hlt => h (BitVec.lt_def.mpr hlt)
    omega

def txFilled (head : RteRef) (mem : Memory) (x : TxLoop) : TxLoop :=
  { ffMLen := x.ffMLen - txChunk x.ffMLen
    ffOff := x.ffOff + txChunk x.ffMLen
    dpdkMP := x.dpdkMP
    sys := fillSegment head x.dpdkMP (txChunk x.ffMLen) mem x.sys }

theorem txFilled_ffMLen (head : RteRef) (mem : Memory) (x : TxLoop) :
    (txFilled head mem x).ffMLen.toNat = x.ffMLen.toNat - min 2048 x.ffMLen.toNat := by
  have hchunk := txChunk_toNat x.ffMLen
  show (x.ffMLen - txChunk x.ffMLen).toNat = _
  rw [BitVec.toNat_sub_of_le (BitVec.le_def.mpr (by omega)), hchunk]

theorem txFilled_ffOff (head : RteRef) (mem : Memory) {x : TxLoop}
    (h : x.ffOff.toNat + x.ffMLen.toNat < 2 ^ 32) :
    (txFilled head mem x).ffOff.toNat = x.ffOff.toNat + min 2048 x.ffMLen.toNat := by
  have hchunk := txChunk_toNat x.ffMLen
  show (x.ffOff + txChunk x.ffMLen).toNat = _
  rw [BitVec.toNat_add_of_lt (by omega), hchunk]

section Passes

variable {env : Env} {m : MbufRef} {head : RteRef} {x : TxLoop}

theorem dpdkFfToMbufBody_copied (hpos : 0 < x.ffMLen) {mem : Memory}
    (hcopy : Converges (fun n => ffMbufCopydata n m (x.sys.rtePktmbufMtod x.dpdkMP) x.ffOff
      (txChunk x.ffMLen) x.sys) (0, { x.sys with mem := mem }))
    {step : LoopStep TxLoop (Option RteRef × Sys)}
    (hextend : Converges (fun n => dpdkFfToMbufExtend env m head n (txFilled head mem x)) step) :
    Converges (fun n => dpdkFfToMbufBody env m head n x) step := by
  rcases hcopy with ⟨n0, hcopy⟩
  rcases hextend with ⟨n1, hextend⟩
  refine ⟨max n0 n1, ?_⟩
  intro n hn
  have hcopied : ffMbufCopydata n m (x.sys.rtePktmbufMtod x.dpdkMP) x.ffOff
      (txChunk x.ffMLen) x.sys = some (0, { x.sys with mem := mem }) := hcopy n (by omega)
  show dpdkFfToMbufBody env m head n x = some step
  unfold dpdkFfToMbufBody
  rw [if_pos hpos]
  simp only [hcopied]
  exact hextend n (by omega)

theorem dpdkFfToMbufBody_end (hzero : ¬ 0 < x.ffMLen) {s' : Sys}
    (hfree : Converges (fun n => ffMbufFree env n (some m) x.sys) s') :
    Converges (fun n => dpdkFfToMbufBody env m head n x) (LoopStep.done (some head, s')) := by
  have hbody : forall n, dpdkFfToMbufBody env m head n x =
      (ffMbufFree env n (some m) x.sys).map fun s' => LoopStep.done (some head, s') := by
    intro n
    unfold dpdkFfToMbufBody
    rw [if_neg hzero]
  simp only [hbody]
  exact hfree.map _

theorem dpdkFfToMbufExtend_end (hzero : ¬ 0 < x.ffMLen) :
    Converges (fun n => dpdkFfToMbufExtend env m head n x) (LoopStep.next x) := by
  apply Converges.of_eq
  intro n
  unfold dpdkFfToMbufExtend
  rw [if_neg hzero]

theorem dpdkFfToMbufExtend_served (hpos : 0 < x.ffMLen)
    (hok : env.pool.ok x.sys.pool.asked = true) :
    Converges (fun n => dpdkFfToMbufExtend env m head n x) (LoopStep.next { x with
        dpdkMP := x.sys.pool.item env.pool, sys := newSegment env x.dpdkMP x.sys }) := by
  apply Converges.of_eq
  intro n
  unfold dpdkFfToMbufExtend
  rw [if_pos hpos, rtePktmbufAlloc_of_ok hok]
  rfl

theorem dpdkFfToMbufExtend_refused (hpos : 0 < x.ffMLen)
    (hno : env.pool.ok x.sys.pool.asked ≠ true) {s' : Sys}
    (hfree : Converges (fun n => ffMbufFree env n (some m)
      (setNext x.dpdkMP none { x.sys with pool := x.sys.pool.refuse })) s') :
    Converges (fun n => dpdkFfToMbufExtend env m head n x)
      (LoopStep.done (none, s'.rtePktmbufFree env (some head))) := by
  have hextend : forall n, dpdkFfToMbufExtend env m head n x =
      (ffMbufFree env n (some m)
        (setNext x.dpdkMP none { x.sys with pool := x.sys.pool.refuse })).map fun s' =>
          LoopStep.done (none, s'.rtePktmbufFree env (some head)) := by
    intro n
    unfold dpdkFfToMbufExtend
    rw [if_pos hpos, rtePktmbufAlloc_of_not_ok hno]
    rfl
  simp only [hextend]
  exact hfree.map _

end Passes

end Packet
end FStackLite
