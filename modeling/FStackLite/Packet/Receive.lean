import FStackLite.Packet.Release

/-!
# The receive conversion, segment by segment

`dpdk_mbuf_to_ff` takes a header mbuf for the first segment of a packet and one
mbuf for each further segment, until the packet ends or the zone refuses.  The
loop is the recursion `getAll` over the segments; one induction over it gives
everything that the later modules need about its result.
-/

namespace FStackLite
namespace Packet

open Foundation

/-!
## The mbufs of a received packet
-/

/-- A header mbuf made by `ff_mbuf_gethdr` for the packet `r`. -/
structure RecvHead (r : RteRef) (b : Mbuf) : Prop where
  hasExt : b.hasExt = true
  noFree : b.noFree = false
  embref : b.ext.embref = true
  extCount : b.ext.extCount = 1
  extType : b.ext.extType = ExtType.disposable
  extFree : b.ext.extFree = some ExtFree.dpdkFfFreef
  extArg1 : b.ext.extArg1 = some r

/-- An mbuf made by `ff_mbuf_get`. -/
structure RecvTail (b : Mbuf) : Prop where
  hasExt : b.hasExt = true
  noFree : b.noFree = false
  embref : b.ext.embref = true
  extCount : b.ext.extCount = 1
  extType : b.ext.extType = ExtType.zero

/-- The mbuf `b` has the bytes of the segment `q`. -/
structure Covers (s : Sys) (q : RteRef) (b : Mbuf) : Prop where
  mData : b.mData = s.rtePktmbufMtod q
  mLen : b.mLen = (s.rtes q).dataLen.toNat

variable {m : MbufRef} {s s' : Sys} {q : RteRef} {env : Env} {prev : Option MbufRef}
    {qs : List RteRef}

/-- `m_free` of an mbuf that holds the only reference to its storage. -/
theorem mFree_embref (env : Env) (hext : (s.mbufs m).hasExt = true)
    (hembref : (s.mbufs m).ext.embref = true) (hcount : (s.mbufs m).ext.extCount = 1)
    (hstorage : freeStorage env m m (s.logFrees [m]) = some s') :
    mFree env m s = some (s.mNext m, s') := by
  have hholder : refHolder (s.logFrees [m]) m = some m := by
    unfold refHolder
    exact if_pos hembref
  have hone : ((s.logFrees [m]).mbufs m).ext.extCount = 1 := hcount
  have hfree : mbFreeExt env m (s.logFrees [m]) = some s' := by
    simp [mbFreeExt, hholder, hone, hstorage]
  unfold mFree
  rw [if_pos hext]
  change (mbFreeExt env m (s.logFrees [m])).map _ = _
  rw [hfree]
  rfl

/-- `m_free` of the header frees the packet and returns the mbuf to its zone. -/
theorem mFree_recvHead (env : Env) {r : RteRef} (h : RecvHead r (s.mbufs m)) :
    mFree env m s = some (s.mNext m,
      ((s.logFrees [m]).rtePktmbufFree env (some r)).umaZfreeMbuf m) := by
  apply mFree_embref env h.hasExt h.embref h.extCount
  simp only [freeStorage, callExtFree, dpdkFfFreef, Sys.logFrees, h.extType, h.extFree,
    h.extArg1, Option.map_some]

/-- `m_free` of the other mbufs frees nothing and does not return them to the zone. -/
theorem mFree_recvTail (env : Env) (h : RecvTail (s.mbufs m)) :
    mFree env m s = some (s.mNext m, s.logFrees [m]) := by
  apply mFree_embref env h.hasExt h.embref h.extCount
  simp only [freeStorage, Sys.logFrees, h.extType]

theorem freeAll_tails (env : Env) {ms : List MbufRef}
    (h : forall x, x ∈ ms -> RecvTail (s.mbufs x)) : freeAll env ms s = some (s.logFrees ms) := by
  induction ms generalizing s with
  | nil => simp [freeAll, Sys.logFrees]
  | cons m ms ih =>
      have htail : freeAll env ms (s.logFrees [m]) = some ((s.logFrees [m]).logFrees ms) :=
        ih fun x hx => h x (List.mem_cons_of_mem m hx)
      simp only [freeAll, mFree_recvTail env (h m List.mem_cons_self), Option.bind_some, htail]
      simp [Sys.logFrees]

theorem freeAll_with_head (env : Env) {r : RteRef} {before after : List MbufRef}
    (hhead : RecvHead r (s.mbufs m)) (hbefore : forall x, x ∈ before -> RecvTail (s.mbufs x))
    (hafter : forall x, x ∈ after -> RecvTail (s.mbufs x)) : freeAll env (before ++ m :: after) s =
      some ((((s.logFrees (before ++ [m])).rtePktmbufFree env (some r)).umaZfreeMbuf
        m).logFrees after) := by
  have hrest : freeAll env (m :: after) (s.logFrees before) =
      some (((((s.logFrees before).logFrees [m]).rtePktmbufFree env (some r)).umaZfreeMbuf
        m).logFrees after) := by
    have hone := mFree_recvHead env (m := m) (s := s.logFrees before) hhead
    simp only [freeAll, hone, Option.bind_some]
    exact freeAll_tails env hafter
  rw [freeAll_append, freeAll_tails env hbefore, Option.bind_some, hrest]
  simp [Sys.logFrees]

/-!
## One mbuf from the zone
-/

structure OnlyMbufs (s s' : Sys) : Prop where
  rte : SameRte s s'
  mem : s'.mem = s.mem
  mFrees : s'.mFrees = s.mFrees
  releases : s'.releases = s.releases

theorem OnlyMbufs.refl (s : Sys) : OnlyMbufs s s :=
  ⟨SameRte.refl s, rfl, rfl, rfl⟩

theorem OnlyMbufs.trans {s'' : Sys} (h : OnlyMbufs s s') (h' : OnlyMbufs s' s'') :
    OnlyMbufs s s'' :=
  ⟨⟨h'.rte.rtes.trans h.rte.rtes, h'.rte.pool.trans h.rte.pool,
      h'.rte.rteFrees.trans h.rte.rteFrees⟩,
    h'.mem.trans h.mem, h'.mFrees.trans h.mFrees, h'.releases.trans h.releases⟩

theorem Covers.before {b : Mbuf} (hcovers : Covers s' q b) (h : OnlyMbufs s s') : Covers s q b := by
  constructor
  · rw [hcovers.mData]
    unfold Sys.rtePktmbufMtod
    rw [h.rte.rtes]
  · rw [hcovers.mLen, h.rte.rtes]

/-- The result of `ff_mbuf_gethdr` when the zone serves the request. -/
structure GotHead (env : Env) (r : RteRef) (total : BitVec 16) (s s' : Sys) : Prop where
  only : OnlyMbufs s s'
  zone : s'.zone = s.zone.take env.zone
  head : RecvHead r (s'.mbufs (s.zone.item env.zone))
  covers : Covers s r (s'.mbufs (s.zone.item env.zone))
  pkthdrLen : (s'.mbufs (s.zone.item env.zone)).pkthdrLen = total.setWidth 32
  mNext : s'.mNext (s.zone.item env.zone) = none
  others : forall x, x ≠ s.zone.item env.zone -> s'.mbufs x = s.mbufs x

theorem ffMbufGethdr_of_ok (r : RteRef) (total : BitVec 16) (h : env.zone.ok s.zone.asked = true) :
    exists s', ffMbufGethdr env r total (s.rtePktmbufMtod r) (s.rtes r).dataLen
        ExtFree.dpdkFfFreef s = (some (s.zone.item env.zone), s') ∧ GotHead env r total s s' := by
  unfold ffMbufGethdr mGethdr umaZallocMbuf
  rw [Arena.alloc_of_ok h]
  refine ⟨_, rfl, ?_⟩
  constructor
  · exact ⟨⟨rfl, rfl, rfl⟩, rfl, rfl, rfl⟩
  · rfl
  · constructor <;> simp [mExtadd, mInit]
  · constructor <;> simp [mExtadd]
  · simp
  · simp [Sys.mNext]
  · intro x hx
    rw [Sys.setMbuf_mbufs_of_ne _ _ hx, Sys.setMbuf_mbufs_of_ne _ _ hx]

theorem ffMbufGethdr_of_not_ok (r : RteRef) (total : BitVec 16)
    (h : env.zone.ok s.zone.asked ≠ true) :
    ffMbufGethdr env r total (s.rtePktmbufMtod r) (s.rtes r).dataLen
        ExtFree.dpdkFfFreef s = (none, { s with zone := s.zone.refuse }) := by
  unfold ffMbufGethdr mGethdr umaZallocMbuf
  rw [Arena.alloc_of_not_ok h]

/-- The result of `ff_mbuf_get` when the zone serves the request. -/
structure GotTail (env : Env) (prev : Option MbufRef) (q : RteRef) (s s' : Sys) : Prop where
  only : OnlyMbufs s s'
  zone : s'.zone = s.zone.take env.zone
  tail : RecvTail (s'.mbufs (s.zone.item env.zone))
  covers : Covers s q (s'.mbufs (s.zone.item env.zone))
  mNext : s'.mNext (s.zone.item env.zone) = none
  link : forall p, prev = some p ->
    s'.mbufs p = { s.mbufs p with mNext := some (s.zone.item env.zone) }
  others : forall x, x ≠ s.zone.item env.zone -> prev ≠ some x -> s'.mbufs x = s.mbufs x

theorem ffMbufGet_of_ok (q : RteRef) (hprev : forall p, prev = some p -> p ∈ s.zone.used)
    (h : env.zone.ok s.zone.asked = true) :
    exists s', ffMbufGet env prev (s.rtePktmbufMtod q) (s.rtes q).dataLen s =
        (some (s.zone.item env.zone), s') ∧ GotTail env prev q s s' := by
  unfold ffMbufGet mGet umaZallocMbuf
  rw [Arena.alloc_of_ok h]
  refine ⟨_, rfl, ?_⟩
  cases prev with
  | none =>
      unfold linkAfter
      constructor
      · exact ⟨⟨rfl, rfl, rfl⟩, rfl, rfl, rfl⟩
      · rfl
      · constructor <;> simp [mExtadd, mInit]
      · constructor <;> simp [mExtadd]
      · simp [Sys.mNext]
      · intro p hp
        contradiction
      · intro x hx _
        rw [Sys.setMbuf_mbufs_of_ne _ _ hx, Sys.setMbuf_mbufs_of_ne _ _ hx]
  | some p =>
      have hne : s.zone.item env.zone ≠ p := by
        intro heq
        exact s.zone.item_not_mem env.zone (heq ▸ hprev p rfl)
      unfold linkAfter
      constructor
      · exact ⟨⟨rfl, rfl, rfl⟩, rfl, rfl, rfl⟩
      · rfl
      · rw [Sys.setMbuf_mbufs_of_ne _ _ hne]
        constructor <;> simp [mExtadd, mInit]
      · rw [Sys.setMbuf_mbufs_of_ne _ _ hne]
        constructor <;> simp [mExtadd]
      · unfold Sys.mNext
        rw [Sys.setMbuf_mbufs_of_ne _ _ hne]
        simp
      · intro p' hp'
        cases hp'
        rw [Sys.setMbuf_mbufs_self, Sys.setMbuf_mbufs_of_ne _ _ hne.symm,
          Sys.setMbuf_mbufs_of_ne _ _ hne.symm]
      · intro x hx hxp
        have hxp' : x ≠ p := fun heq => hxp (congrArg some heq.symm)
        rw [Sys.setMbuf_mbufs_of_ne _ _ hxp', Sys.setMbuf_mbufs_of_ne _ _ hx,
          Sys.setMbuf_mbufs_of_ne _ _ hx]

theorem ffMbufGet_of_not_ok (prev : Option MbufRef) (data : Ptr) (len : BitVec 16)
    (h : env.zone.ok s.zone.asked ≠ true) :
    ffMbufGet env prev data len s = (none, { s with zone := s.zone.refuse }) := by
  unfold ffMbufGet mGet umaZallocMbuf
  rw [Arena.alloc_of_not_ok h]

/-!
## The mbufs of the further segments
-/

/-- What the loop of `dpdk_mbuf_to_ff` leaves: whether all segments got an mbuf, and which. -/
structure Got where
  ok : Bool
  ms : List MbufRef
  sys : Sys

def getAll (env : Env) : List RteRef -> Option MbufRef -> Sys -> Got
  | [], _, s => { ok := true, ms := [], sys := s }
  | q :: qs, prev, s =>
      match ffMbufGet env prev (s.rtePktmbufMtod q) (s.rtes q).dataLen s with
      | (none, s1) => { ok := false, ms := [], sys := s1 }
      | (some mb, s1) =>
          let rest := getAll env qs (some mb) s1
          { ok := rest.ok, ms := mb :: rest.ms, sys := rest.sys }

/-- The requests for the next `n` mbufs are all served. -/
def ZoneServes (env : Env) (s : Sys) (n : Nat) : Prop :=
  forall i, i < n -> env.zone.ok (s.zone.asked + i) = true

theorem zoneServes_succ {n : Nat} : ZoneServes env s (n + 1) <-> env.zone.ok s.zone.asked = true ∧
        forall i, i < n -> env.zone.ok (s.zone.asked + 1 + i) = true := by
  unfold ZoneServes
  constructor
  · intro h
    constructor
    · exact h 0 (Nat.succ_pos n)
    · intro i hi
      rw [Nat.add_assoc, Nat.add_comm 1 i]
      exact h (i + 1) (Nat.succ_lt_succ hi)
  · intro h i hi
    cases i with
    | zero => exact h.1
    | succ i =>
        rw [Nat.add_comm i 1, ← Nat.add_assoc]
        exact h.2 i (Nat.lt_of_succ_lt_succ hi)

/-- The result of the loop on the segments `qs`, behind the mbuf `prev`. -/
structure GotAll (env : Env) (qs : List RteRef) (prev : Option MbufRef) (s : Sys)
    (g : Got) : Prop where
  only : OnlyMbufs s g.sys
  takes : s.zone.Takes g.ms g.sys.zone
  ok_iff : g.ok = true <-> ZoneServes env s qs.length
  none_iff : g.ok = false -> (g.ms = [] <-> env.zone.ok s.zone.asked ≠ true)
  tails : forall x, x ∈ g.ms -> RecvTail (g.sys.mbufs x)
  chain : Chain g.sys.mNext g.ms.head? g.ms
  covers : g.ok = true -> List.Forall₂ (fun q x => Covers s q (g.sys.mbufs x)) qs g.ms
  link : forall p, prev = some p -> (s.mbufs p).mNext = none ->
    g.sys.mbufs p = { s.mbufs p with mNext := g.ms.head? }
  others : forall x, x ∉ g.ms -> prev ≠ some x -> g.sys.mbufs x = s.mbufs x

theorem gotAll_refused (h : env.zone.ok s.zone.asked ≠ true) : GotAll env (q :: qs) prev s
      { ok := false, ms := [], sys := { s with zone := s.zone.refuse } } := by
  constructor
  · exact ⟨⟨rfl, rfl, rfl⟩, rfl, rfl, rfl⟩
  · exact Arena.Takes.refuse s.zone
  · constructor
    · intro hok
      contradiction
    · intro hserves
      exact absurd (zoneServes_succ.mp hserves).1 h
  · intro _
    exact ⟨fun _ => h, fun _ => rfl⟩
  · intro x hx
    contradiction
  · exact Chain.nil
  · intro hok
    contradiction
  · intro p _ hnone
    show s.mbufs p = { s.mbufs p with mNext := none }
    rw [← hnone]
  · intro x _ _
    rfl

theorem gotAll_step {s1 : Sys} {g : Got} (hprev : forall p, prev = some p -> p ∈ s.zone.used)
    (hok : env.zone.ok s.zone.asked = true) (hone : GotTail env prev q s s1)
    (hrest : GotAll env qs (some (s.zone.item env.zone)) s1 g) : GotAll env (q :: qs) prev s
      { ok := g.ok, ms := s.zone.item env.zone :: g.ms, sys := g.sys } := by
  have htakes : s.zone.Takes (s.zone.item env.zone :: g.ms) g.sys.zone := by
    have hfirst : s.zone.Takes [s.zone.item env.zone] s1.zone := by
      rw [hone.zone]
      exact Arena.Takes.take env.zone s.zone
    exact hfirst.trans hrest.takes
  have hserves : ZoneServes env s (q :: qs).length <-> ZoneServes env s1 qs.length := by
    rw [List.length_cons, zoneServes_succ]
    unfold ZoneServes
    rw [hone.zone, Arena.take_asked]
    exact ⟨fun h => h.2, fun h => ⟨hok, h⟩⟩
  have hitem : g.sys.mbufs (s.zone.item env.zone) =
      { s1.mbufs (s.zone.item env.zone) with mNext := g.ms.head? } :=
    hrest.link _ rfl hone.mNext
  have hkeep : forall x, x ∉ s.zone.item env.zone :: g.ms ->
      x ≠ s.zone.item env.zone ∧ g.sys.mbufs x = s1.mbufs x := by
    intro x hx
    have hne : x ≠ s.zone.item env.zone := fun heq => hx (heq ▸ List.mem_cons_self)
    constructor
    · exact hne
    · apply hrest.others x (fun hmem => hx (List.mem_cons_of_mem _ hmem))
      exact fun heq => hne (Option.some.inj heq).symm
  constructor
  · exact hone.only.trans hrest.only
  · exact htakes
  · rw [hserves]
    exact hrest.ok_iff
  · intro _
    exact ⟨fun hnil => absurd hnil (List.cons_ne_nil _ _), fun hno => absurd hok hno⟩
  · intro x hx
    cases hx with
    | head =>
        show RecvTail (g.sys.mbufs _)
        rw [hitem]
        exact ⟨hone.tail.hasExt, hone.tail.noFree, hone.tail.embref, hone.tail.extCount,
          hone.tail.extType⟩
    | tail _ hx => exact hrest.tails x hx
  · apply Chain.cons
    have hnext : g.sys.mNext (s.zone.item env.zone) = g.ms.head? := by
      unfold Sys.mNext
      rw [hitem]
    show Chain g.sys.mNext (g.sys.mNext (s.zone.item env.zone)) g.ms
    rw [hnext]
    exact hrest.chain
  · intro hall
    apply List.Forall₂.cons
    · show Covers s q (g.sys.mbufs _)
      rw [hitem]
      exact ⟨hone.covers.mData, hone.covers.mLen⟩
    · apply (hrest.covers hall).imp
      intro q' x hcovers
      exact hcovers.before hone.only
  · intro p hp _
    have hmem : p ∉ s.zone.item env.zone :: g.ms := fun hmem => htakes.not_mem hmem (hprev p hp)
    show g.sys.mbufs p = _
    rw [(hkeep p hmem).2, hone.link p hp]
    rfl
  · intro x hx hxp
    show g.sys.mbufs x = s.mbufs x
    rw [(hkeep x hx).2, hone.others x (hkeep x hx).1 hxp]

theorem getAll_cons_of_ok (q : RteRef) (qs : List RteRef)
    (hprev : forall p, prev = some p -> p ∈ s.zone.used) (h : env.zone.ok s.zone.asked = true) :
    exists s1, GotTail env prev q s s1 ∧
      (forall p, some (s.zone.item env.zone) = some p -> p ∈ s1.zone.used) ∧
      getAll env (q :: qs) prev s =
        { ok := (getAll env qs (some (s.zone.item env.zone)) s1).ok
          ms := s.zone.item env.zone :: (getAll env qs (some (s.zone.item env.zone)) s1).ms
          sys := (getAll env qs (some (s.zone.item env.zone)) s1).sys } ∧
      forall r ffM n,
        dpdkMbufToFfBody env r ffM n { dpdkMP := some q, ffMP := prev, sys := s } =
          some (LoopStep.next
            { dpdkMP := (s1.rtes q).next, ffMP := some (s.zone.item env.zone), sys := s1 }) := by
  rcases ffMbufGet_of_ok q hprev h with ⟨s1, hget, hone⟩
  refine ⟨s1, hone, ?_, ?_, ?_⟩
  · intro p hp
    cases hp
    rw [hone.zone, Arena.take_used]
    exact List.mem_cons_self
  · conv_lhs => unfold getAll
    rw [hget]
  · intro r ffM n
    simp [dpdkMbufToFfBody, hget]

theorem getAll_cons_of_not_ok (prev : Option MbufRef) (q : RteRef) (qs : List RteRef)
    (h : env.zone.ok s.zone.asked ≠ true) : getAll env (q :: qs) prev s =
        { ok := false, ms := [], sys := { s with zone := s.zone.refuse } } ∧
      forall r ffM n,
        dpdkMbufToFfBody env r ffM n { dpdkMP := some q, ffMP := prev, sys := s } =
          (ffMbufFree env n ffM { s with zone := s.zone.refuse }).map fun s2 =>
            LoopStep.done (none, s2.rtePktmbufFree env (some r)) := by
  have hget := ffMbufGet_of_not_ok prev (s.rtePktmbufMtod q) (s.rtes q).dataLen h
  constructor
  · unfold getAll
    rw [hget]
  · intro r ffM n
    simp [dpdkMbufToFfBody, hget]

theorem getAll_spec (env : Env) (qs : List RteRef) (prev : Option MbufRef) (s : Sys)
    (hprev : forall p, prev = some p -> p ∈ s.zone.used) :
    GotAll env qs prev s (getAll env qs prev s) := by
  induction qs generalizing prev s with
  | nil =>
      constructor
      · exact OnlyMbufs.refl s
      · exact Arena.Takes.refl s.zone
      · constructor
        · intro _ i hi
          contradiction
        · intro _
          rfl
      · intro hok
        contradiction
      · intro x hx
        contradiction
      · exact Chain.nil
      · intro _
        exact List.Forall₂.nil
      · intro p _ hnone
        show s.mbufs p = { s.mbufs p with mNext := none }
        rw [← hnone]
      · intro x _ _
        rfl
  | cons q qs ih =>
      by_cases hok : env.zone.ok s.zone.asked = true
      · rcases getAll_cons_of_ok q qs hprev hok with ⟨s1, hone, hused, hgot, -⟩
        rw [hgot]
        exact gotAll_step hprev hok hone (ih _ s1 hused)
      · rw [(getAll_cons_of_not_ok prev q qs hok).1]
        exact gotAll_refused hok

/-!
## The loop
-/

theorem GotTail.chain {s1 : Sys} (h : GotTail env prev q s s1)
    (hchain : Chain (rteNext s.rtes) (rteNext s.rtes q) qs) :
    Chain (rteNext s1.rtes) (s1.rtes q).next qs := by
  rw [h.only.rte.rtes]
  exact hchain

theorem recvLoop_all (env : Env) (r : RteRef) (ffM : Option MbufRef) {p : Option RteRef}
    (hchain : Chain (rteNext s.rtes) p qs) (hprev : forall p, prev = some p -> p ∈ s.zone.used)
    (hall : (getAll env qs prev s).ok = true) :
    LoopConverges (dpdkMbufToFfBody env r ffM) { dpdkMP := p, ffMP := prev, sys := s }
      (ffM, (getAll env qs prev s).sys) := by
  induction qs generalizing p prev s with
  | nil =>
      cases hchain.nil_inv
      exact LoopConverges.of_done (Converges.of_eq fun _ => rfl)
  | cons q qs ih =>
      rcases hchain.cons_inv with ⟨rfl, htail⟩
      have hok : env.zone.ok s.zone.asked = true :=
        (zoneServes_succ.mp ((getAll_spec env (q :: qs) prev s hprev).ok_iff.mp hall)).1
      rcases getAll_cons_of_ok q qs hprev hok with ⟨s1, hone, hused, hgot, hbody⟩
      rw [hgot] at hall ⊢
      exact LoopConverges.of_next (Converges.of_eq (hbody r ffM)) (ih (hone.chain htail) hused hall)

theorem recvLoop_refused (env : Env) (r : RteRef) (ffM : Option MbufRef) {p : Option RteRef}
    {s2 : Sys} (hchain : Chain (rteNext s.rtes) p qs)
    (hprev : forall p, prev = some p -> p ∈ s.zone.used) (hnot : (getAll env qs prev s).ok = false)
    (hfree : Converges (fun n => ffMbufFree env n ffM (getAll env qs prev s).sys) s2) :
    LoopConverges (dpdkMbufToFfBody env r ffM) { dpdkMP := p, ffMP := prev, sys := s }
      (none, s2.rtePktmbufFree env (some r)) := by
  induction qs generalizing p prev s with
  | nil => contradiction
  | cons q qs ih =>
      rcases hchain.cons_inv with ⟨rfl, htail⟩
      by_cases hok : env.zone.ok s.zone.asked = true
      · rcases getAll_cons_of_ok q qs hprev hok with ⟨s1, hone, hused, hgot, hbody⟩
        rw [hgot] at hnot hfree
        exact LoopConverges.of_next (Converges.of_eq (hbody r ffM))
          (ih (hone.chain htail) hused hnot hfree)
      · rcases getAll_cons_of_not_ok prev q qs hok with ⟨hgot, hbody⟩
        rw [hgot] at hfree
        apply LoopConverges.of_done
        simp only [hbody]
        exact hfree.map _

end Packet
end FStackLite
