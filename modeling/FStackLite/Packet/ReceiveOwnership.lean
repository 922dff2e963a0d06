import FStackLite.Packet.Pool
import FStackLite.Packet.Receive

/-!
# Who frees a received packet

The four ways `dpdk_mbuf_to_ff` can go: the header is served or refused, and
then all further segments are served or one of them is refused.  The header mbuf
carries the only callback that frees the packet, and the failing exit frees both
the header and the packet.
-/

namespace FStackLite
namespace Packet

open Foundation

/-!
## The conversion
-/

/-- The header and the mbufs behind it, as far as the zone has served them. -/
structure HeadAnd (r : RteRef) (s : Sys) (m : MbufRef) (tail : List MbufRef)
    (s' : Sys) : Prop where
  only : OnlyMbufs s s'
  takes : s.zone.Takes (m :: tail) s'.zone
  chain : Chain s'.mNext (some m) (m :: tail)
  head : RecvHead r (s'.mbufs m)
  tails : forall x, x ∈ tail -> RecvTail (s'.mbufs x)
  others : forall x, x ∉ m :: tail -> s'.mbufs x = s.mbufs x

/-- The packet `segs`, converted into the mbufs `m :: tail`. -/
structure Received (r : RteRef) (segs : List RteRef) (s : Sys) (m : MbufRef)
    (tail : List MbufRef) (s' : Sys) : Prop extends HeadAnd r s m tail s' where
  covers : List.Forall₂ (fun q x => Covers s q (s'.mbufs x)) segs (m :: tail)
  pkthdrLen : (s'.mbufs m).pkthdrLen = ((s.rtes r).pktLen.setWidth 16).setWidth 32

variable {env : Env} {qs segs : List RteRef} {r : RteRef} {s : Sys}

theorem headAnd_getAll {total : BitVec 16} {s1 : Sys} {g : Got} (hhead : GotHead env r total s s1)
    (hgot : GotAll env qs (some (s.zone.item env.zone)) s1 g) :
    HeadAnd r s (s.zone.item env.zone) g.ms g.sys := by
  have hitem := hgot.link _ rfl hhead.mNext
  constructor
  · exact hhead.only.trans hgot.only
  · have hfirst : s.zone.Takes [s.zone.item env.zone] s1.zone := by
      rw [hhead.zone]
      exact Arena.Takes.take env.zone s.zone
    exact hfirst.trans hgot.takes
  · apply Chain.cons
    have hnext : g.sys.mNext (s.zone.item env.zone) = g.ms.head? := by
      unfold Sys.mNext
      rw [hitem]
    rw [hnext]
    exact hgot.chain
  · rw [hitem]
    exact ⟨hhead.head.hasExt, hhead.head.noFree, hhead.head.embref, hhead.head.extCount,
      hhead.head.extType, hhead.head.extFree, hhead.head.extArg1⟩
  · exact hgot.tails
  · intro x hx
    have hne : x ≠ s.zone.item env.zone := fun heq => hx (heq ▸ List.mem_cons_self)
    rw [hgot.others x (fun hmem => hx (List.mem_cons_of_mem _ hmem))
      (fun heq => hne (Option.some.inj heq).symm)]
    exact hhead.others x hne

theorem received_getAll {s1 : Sys} {g : Got}
    (hhead : GotHead env r ((s.rtes r).pktLen.setWidth 16) s s1)
    (hgot : GotAll env qs (some (s.zone.item env.zone)) s1 g) (hall : g.ok = true) :
    Received r (r :: qs) s (s.zone.item env.zone) g.ms g.sys := by
  have hitem := hgot.link _ rfl hhead.mNext
  refine ⟨headAnd_getAll hhead hgot, ?_, ?_⟩
  · apply List.Forall₂.cons
    · rw [hitem]
      exact ⟨hhead.covers.mData, hhead.covers.mLen⟩
    · apply (hgot.covers hall).imp
      intro q x hcovers
      constructor
      · rw [hcovers.mData]
        unfold Sys.rtePktmbufMtod
        rw [hhead.only.rte.rtes]
      · rw [hcovers.mLen, hhead.only.rte.rtes]
  · rw [hitem]
    exact hhead.pkthdrLen

def headFreed (env : Env) (r : RteRef) (m : MbufRef) (tail : List MbufRef) (s : Sys) : Sys :=
  (((s.logFrees [m]).rtePktmbufFree env (some r)).umaZfreeMbuf m).logFrees tail

theorem HeadAnd.freeAll {env : Env} {r : RteRef} {s s' : Sys} {m : MbufRef}
    {tail : List MbufRef} (h : HeadAnd r s m tail s') :
    freeAll env (m :: tail) s' = some (headFreed env r m tail s') := by
  have hnone : forall x, x ∈ ([] : List MbufRef) -> RecvTail (s'.mbufs x) :=
    fun x hx => absurd hx List.not_mem_nil
  exact freeAll_with_head env h.head hnone h.tails

theorem HeadAnd.mFreem {env : Env} {r : RteRef} {s s' : Sys} {m : MbufRef}
    {tail : List MbufRef} (h : HeadAnd r s m tail s') :
    Converges (fun n => mFreem env n (some m) s') (headFreed env r m tail s') :=
  mFreem_converges h.chain h.freeAll

inductive Outcome (env : Env) (r : RteRef) (qs : List RteRef) (s : Sys) :
    Option MbufRef × Sys -> Prop where
  | received (m : MbufRef) (tail : List MbufRef) (s' : Sys)
      (serves : ZoneServes env s (r :: qs).length)
      (result : Received r (r :: qs) s m tail s') : Outcome env r qs s (some m, s')
  | refusedBehindHead (m : MbufRef) (tail : List MbufRef) (s' : Sys)
      (head : env.zone.ok s.zone.asked = true)
      (refused : ¬ ZoneServes env s (r :: qs).length)
      (result : HeadAnd r s m tail s') :
      Outcome env r qs s (none, (headFreed env r m tail s').rtePktmbufFree env (some r))
  | headless (tail : List MbufRef) (s' : Sys)
      (head : env.zone.ok s.zone.asked ≠ true)
      (serves : forall i, i < qs.length -> env.zone.ok (s.zone.asked + 1 + i) = true)
      (only : OnlyMbufs s s') (takes : s.zone.Takes tail s'.zone) :
      Outcome env r qs s (none, s')
  | refusedHeadless (tail : List MbufRef) (s' : Sys)
      (head : env.zone.ok s.zone.asked ≠ true)
      (refused : ¬ forall i, i < qs.length -> env.zone.ok (s.zone.asked + 1 + i) = true)
      (only : OnlyMbufs s s') (takes : s.zone.Takes tail s'.zone)
      (none_iff : tail = [] <-> env.zone.ok (s.zone.asked + 1) ≠ true) :
      Outcome env r qs s (none, s'.rtePktmbufFree env (some r))

theorem dpdkMbufToFf_of_head (hchain : Chain (rteNext s.rtes) (some r) (r :: qs))
    (hok : env.zone.ok s.zone.asked = true) :
    exists out, Converges (fun n => dpdkMbufToFf env n r s) out ∧ Outcome env r qs s out := by
  rcases ffMbufGethdr_of_ok r ((s.rtes r).pktLen.setWidth 16) hok with ⟨s1, hget, hhead⟩
  have htail : Chain (rteNext s1.rtes) (s1.rtes r).next qs := by
    rw [hhead.only.rte.rtes]
    exact hchain.cons_inv.2
  have hprev : forall p, some (s.zone.item env.zone) = some p -> p ∈ s1.zone.used := by
    intro p hp
    cases hp
    rw [hhead.zone, Arena.take_used]
    exact List.mem_cons_self
  have hgot := getAll_spec env qs (some (s.zone.item env.zone)) s1 hprev
  have hserves : ZoneServes env s (r :: qs).length <->
      (getAll env qs (some (s.zone.item env.zone)) s1).ok = true := by
    rw [hgot.ok_iff, List.length_cons, zoneServes_succ]
    unfold ZoneServes
    rw [hhead.zone, Arena.take_asked]
    exact ⟨fun h => h.2, fun h => ⟨hok, h⟩⟩
  unfold dpdkMbufToFf
  rw [hget]
  cases hall : (getAll env qs (some (s.zone.item env.zone)) s1).ok with
  | true =>
      exact ⟨_, (recvLoop_all env r _ htail hprev hall).converges,
        Outcome.received _ _ _ (hserves.mpr hall) (received_getAll hhead hgot hall)⟩
  | false =>
      have hboth := headAnd_getAll hhead hgot
      have hrefused : ¬ ZoneServes env s (r :: qs).length := by
        intro h
        rw [hserves.mp h] at hall
        contradiction
      exact ⟨_, (recvLoop_refused env r _ htail hprev hall hboth.mFreem).converges,
        Outcome.refusedBehindHead _ _ _ hok hrefused hboth⟩

theorem dpdkMbufToFf_of_no_head (hchain : Chain (rteNext s.rtes) (some r) (r :: qs))
    (hno : env.zone.ok s.zone.asked ≠ true) :
    exists out, Converges (fun n => dpdkMbufToFf env n r s) out ∧ Outcome env r qs s out := by
  have hget := ffMbufGethdr_of_not_ok r ((s.rtes r).pktLen.setWidth 16) hno
  have htail : Chain (rteNext ({ s with zone := s.zone.refuse } : Sys).rtes)
      (s.rtes r).next qs := hchain.cons_inv.2
  have hprev : forall p, (none : Option MbufRef) = some p -> p ∈ s.zone.refuse.used := by
    intro p hp
    contradiction
  have hgot := getAll_spec env qs none { s with zone := s.zone.refuse } hprev
  have honly : OnlyMbufs s (getAll env qs none { s with zone := s.zone.refuse }).sys :=
    (⟨⟨rfl, rfl, rfl⟩, rfl, rfl, rfl⟩ : OnlyMbufs s { s with zone := s.zone.refuse }).trans
      hgot.only
  have htakes := (Arena.Takes.refuse s.zone).trans hgot.takes
  unfold dpdkMbufToFf
  rw [hget]
  cases hall : (getAll env qs none { s with zone := s.zone.refuse }).ok with
  | true =>
      exact ⟨_, (recvLoop_all env r none htail hprev hall).converges,
        Outcome.headless _ _ hno (hgot.ok_iff.mp hall) honly htakes⟩
  | false =>
      have hfree : Converges (fun n => ffMbufFree env n none
          (getAll env qs none { s with zone := s.zone.refuse }).sys)
          (getAll env qs none { s with zone := s.zone.refuse }).sys :=
        mFreem_converges Chain.nil rfl
      have hrefused : ¬ ZoneServes env { s with zone := s.zone.refuse } qs.length := by
        intro h
        rw [hgot.ok_iff.mpr h] at hall
        contradiction
      exact ⟨_, (recvLoop_refused env r none htail hprev hall hfree).converges,
        Outcome.refusedHeadless _ _ hno hrefused honly htakes (hgot.none_iff hall)⟩

theorem dpdkMbufToFf_outcome (env : Env) (hchain : Chain (rteNext s.rtes) (some r) (r :: qs)) :
    exists out, Converges (fun n => dpdkMbufToFf env n r s) out ∧ Outcome env r qs s out := by
  by_cases hok : env.zone.ok s.zone.asked = true
  · exact dpdkMbufToFf_of_head hchain hok
  · exact dpdkMbufToFf_of_no_head hchain hok

theorem dpdkMbufToFf_served (hchain : Chain (rteNext s.rtes) (some r) segs)
    (hserves : ZoneServes env s segs.length) :
    exists m tail s', Converges (fun n => dpdkMbufToFf env n r s) (some m, s') ∧
      Received r segs s m tail s' := by
  rcases hchain.some_inv with ⟨qs, rfl, -⟩
  rcases dpdkMbufToFf_outcome env hchain with ⟨out, hout, houtcome⟩
  cases houtcome with
  | received m tail s' _ hresult => exact ⟨m, tail, s', hout, hresult⟩
  | refusedBehindHead m tail s' _ hrefused _ => exact absurd hserves hrefused
  | headless tail s' hhead => exact absurd (zoneServes_succ.mp hserves).1 hhead
  | refusedHeadless tail s' hhead => exact absurd (zoneServes_succ.mp hserves).1 hhead

/-- The packet of two segments gets the mbufs `1` and `2`. -/
theorem arrivedPair_received :
    exists s', Converges (fun n => dpdkMbufToFf (walkingEnv (fun _ => true) fun _ => true) n 1
        arrivedPair) (some 1, s') ∧ Received 1 [1, 2] arrivedPair 1 [2] s' := by
  have hserves : ZoneServes (walkingEnv (fun _ => true) fun _ => true) arrivedPair
      [1, 2].length := fun _ _ => rfl
  rcases dpdkMbufToFf_served arrivedPair_chain hserves with
    ⟨m, tail, s', ⟨n0, hconv⟩, hresult⟩
  have heval : (dpdkMbufToFf (walkingEnv (fun _ => true) fun _ => true) (n0 + 3) 1
      arrivedPair).map (fun out => (out.1, out.2.zone.used)) = some (some 1, [2, 1]) := by
    rfl
  have hreturn : dpdkMbufToFf (walkingEnv (fun _ => true) fun _ => true) (n0 + 3) 1
      arrivedPair = some (some m, s') := hconv (n0 + 3) (Nat.le_add_right n0 3)
  rw [hreturn] at heval
  have hfields := Option.some.inj heval
  have hhead : m = 1 := Option.some.inj (congrArg Prod.fst hfields)
  have hused : s'.zone.used = [2, 1] := congrArg Prod.snd hfields
  subst hhead
  have htail : tail = [2] := by
    have htakes := hresult.takes.used
    rw [hused] at htakes
    have hrev := congrArg List.reverse htakes
    simpa [arrivedPair] using hrev.symm
  subst htail
  exact ⟨s', ⟨n0, hconv⟩, hresult⟩

/-!
## Freed exactly once
-/

/-- Between two states `rte_pktmbuf_free` was called once, and freed this packet. -/
structure FreedOnce (r : RteRef) (segs : List RteRef) (s s' : Sys) : Prop where
  calls : s'.rteFrees = s.rteFrees ++ [r]
  segments : (s.pool.freedSince s'.pool).Perm segs

theorem freedOnce_rtePktmbufFree (hdoc : RteDocumented env) {t : Sys}
    (hchain : Chain (rteNext s.rtes) (some r) segs) (hused : segs ⊆ s.pool.used)
    (hsame : SameRte s t) : FreedOnce r segs s (t.rtePktmbufFree env (some r)) := by
  constructor
  · show t.rteFrees ++ [r] = s.rteFrees ++ [r]
    rw [hsame.rteFrees]
  · have hfreed : (t.rtePktmbufFree env (some r)).pool.freed =
        s.pool.freed ++ (env.rteFree s.pool.used s.rtes r).1 := by
      show t.pool.freed ++ (env.rteFree t.pool.used t.rtes r).1 = _
      rw [hsame.pool, hsame.rtes]
    rw [Arena.freedSince_of_append hfreed]
    exact hdoc.free_chain _ _ _ _ hchain hused

theorem HeadAnd.freedOnce (hdoc : RteDocumented env) {s' : Sys} {m : MbufRef}
    {tail : List MbufRef} (h : HeadAnd r s m tail s')
    (hchain : Chain (rteNext s.rtes) (some r) segs) (hused : segs ⊆ s.pool.used) :
    FreedOnce r segs s (headFreed env r m tail s') := by
  have hsame : SameRte s (s'.logFrees [m]) :=
    ⟨h.only.rte.rtes, h.only.rte.pool, h.only.rte.rteFrees⟩
  have honce := freedOnce_rtePktmbufFree hdoc hchain hused hsame
  exact ⟨honce.calls, honce.segments⟩

/--
The law of the receive conversion, for the packet with head `r` and segments
`segs`: a null result has freed the packet once and kept no mbuf, and a packet
that was converted is freed once by the `m_freem` of the result.
-/
def ReceiveLaw (env : Env) (r : RteRef) (segs : List RteRef) (s : Sys)
    (out : Option MbufRef × Sys) : Prop :=
  match out.1 with
  | none => FreedOnce r segs s out.2 ∧ out.2.zone.used.Perm s.zone.used
  | some m =>
      (out.2.rteFrees = s.rteFrees ∧ out.2.pool.freed = s.pool.freed ∧
        out.2.mFrees = s.mFrees) ∧
      exists s', Converges (fun n => mFreem env n (some m) out.2) s' ∧
        FreedOnce r segs s s'

/--
The zone serves a request for every segment; or it refuses the header, there is
a second segment, and it refuses the mbuf for that one too.
-/
def ReceiveCond (env : Env) (segs : List RteRef) (s : Sys) : Prop :=
  ZoneServes env s segs.length ∨
    (env.zone.ok s.zone.asked ≠ true ∧ 2 ≤ segs.length ∧
      env.zone.ok (s.zone.asked + 1) ≠ true)

theorem not_serves_of_refused {n : Nat} (h : env.zone.ok s.zone.asked ≠ true) :
    ¬ ZoneServes env s (n + 1) :=
  fun hserves => h (zoneServes_succ.mp hserves).1

theorem takes_perm_iff {z z' : Arena MbufRef} {xs : List MbufRef} (h : z.Takes xs z') :
    z'.used.Perm z.used <-> xs = [] := by
  constructor
  · intro hperm
    have hlen := hperm.length_eq
    rw [h.used, List.length_append, List.length_reverse] at hlen
    exact List.length_eq_zero_iff.mp (by omega)
  · intro hnil
    rw [h.used, hnil]
    exact List.Perm.refl _

theorem Outcome.law_iff (hdoc : RteDocumented env) {out : Option MbufRef × Sys}
    (hchain : Chain (rteNext s.rtes) (some r) (r :: qs)) (hused : r :: qs ⊆ s.pool.used)
    (h : Outcome env r qs s out) :
    ReceiveLaw env r (r :: qs) s out <-> ReceiveCond env (r :: qs) s := by
  cases h with
  | received m tail s' hserves hresult =>
      constructor
      · intro _
        exact Or.inl hserves
      · intro _
        constructor
        · exact ⟨hresult.only.rte.rteFrees, congrArg Arena.freed hresult.only.rte.pool,
            hresult.only.mFrees⟩
        · exact ⟨_, hresult.mFreem, hresult.freedOnce hdoc hchain hused⟩
  | refusedBehindHead m tail s' hhead hrefused hresult =>
      constructor
      · intro hlaw
        have hcalls := hlaw.1.calls
        change (s'.rteFrees ++ [r]) ++ [r] = s.rteFrees ++ [r] at hcalls
        rw [hresult.only.rte.rteFrees, List.append_assoc] at hcalls
        have htwo := congrArg List.length (List.append_cancel_left hcalls)
        simp at htwo
      · intro hcond
        rcases hcond with hserves | ⟨hno, -⟩
        · exact absurd hserves hrefused
        · exact absurd hhead hno
  | headless tail s' hhead hserves honly htakes =>
      constructor
      · intro hlaw
        have hcalls := hlaw.1.calls
        change s'.rteFrees = s.rteFrees ++ [r] at hcalls
        rw [honly.rte.rteFrees] at hcalls
        have hone := congrArg List.length hcalls
        simp at hone
      · intro hcond
        rcases hcond with hall | ⟨-, htwo, hno⟩
        · exact absurd hall (not_serves_of_refused hhead)
        · have hpos : 0 < qs.length := by
            rw [List.length_cons] at htwo
            omega
          exact absurd (hserves 0 hpos) hno
  | refusedHeadless tail s' hhead hrefused honly htakes hnone =>
      have honce := freedOnce_rtePktmbufFree hdoc hchain hused honly.rte
      have hleak : (s'.rtePktmbufFree env (some r)).zone.used.Perm s.zone.used <->
          env.zone.ok (s.zone.asked + 1) ≠ true := by
        rw [rtePktmbufFree_zone, takes_perm_iff htakes, hnone]
      constructor
      · intro hlaw
        have hno := hleak.mp hlaw.2
        have htwo : 2 ≤ (r :: qs).length := by
          cases qs with
          | nil => exact absurd (fun i hi => absurd hi (Nat.not_lt_zero i)) hrefused
          | cons q qs => simp
        exact Or.inr ⟨hhead, htwo, hno⟩
      · intro hcond
        rcases hcond with hall | ⟨-, -, hno⟩
        · exact absurd hall (not_serves_of_refused hhead)
        · exact ⟨honce, hleak.mpr hno⟩

theorem receive_freed_once (env : Env) (hdoc : RteDocumented env) (s : Sys) (r : RteRef)
    (segs : List RteRef) (hchain : Chain (rteNext s.rtes) (some r) segs)
    (hused : segs ⊆ s.pool.used) : exists out, Converges (fun n => dpdkMbufToFf env n r s) out ∧
      (ReceiveLaw env r segs s out <-> ReceiveCond env segs s) := by
  rcases hchain.some_inv with ⟨qs, rfl, -⟩
  rcases dpdkMbufToFf_outcome env hchain with ⟨out, hout, houtcome⟩
  exact ⟨out, hout, houtcome.law_iff hdoc hchain hused⟩

theorem receive_freed_once_pair :
    exists out, Converges (fun n => dpdkMbufToFf (walkingEnv (fun _ => true) fun _ => true) n 1
        arrivedPair) out ∧
      ReceiveLaw (walkingEnv (fun _ => true) fun _ => true) 1 [1, 2] arrivedPair out := by
  rcases receive_freed_once (walkingEnv (fun _ => true) fun _ => true)
    (walkingEnv_documented _ _) arrivedPair 1 [1, 2] arrivedPair_chain
    (List.Subset.refl _) with ⟨out, hout, hiff⟩
  exact ⟨out, hout, hiff.mpr (Or.inl fun _ _ => rfl)⟩

/-- The zone serves the header and refuses the mbuf of the second segment. -/
theorem receive_freed_twice :
    exists out, Converges (fun n => dpdkMbufToFf (walkingEnv (fun k => k == 0) fun _ => true) n
        1 arrivedPair) out ∧ (out.1, out.2.rteFrees) = (none, [1, 1]) ∧
      ¬ ReceiveLaw (walkingEnv (fun k => k == 0) fun _ => true) 1 [1, 2] arrivedPair out := by
  rcases dpdkMbufToFf_outcome (walkingEnv (fun k => k == 0) fun _ => true) arrivedPair_chain with
    ⟨out, ⟨n0, hout⟩, -⟩
  have heval : (dpdkMbufToFf (walkingEnv (fun k => k == 0) fun _ => true) (n0 + 3) 1
      arrivedPair).map (fun out => (out.1, out.2.rteFrees)) = some (none, [1, 1]) := by
    rfl
  have hreturn : dpdkMbufToFf (walkingEnv (fun k => k == 0) fun _ => true) (n0 + 3) 1
      arrivedPair = some out := hout (n0 + 3) (Nat.le_add_right n0 3)
  rw [hreturn] at heval
  have hfields : (out.1, out.2.rteFrees) = (none, [1, 1]) := Option.some.inj heval
  refine ⟨out, ⟨n0, hout⟩, hfields, ?_⟩
  intro hlaw
  have hcalls : out.2.rteFrees = [1, 1] := congrArg Prod.snd hfields
  unfold ReceiveLaw at hlaw
  rw [(congrArg Prod.fst hfields : out.1 = none)] at hlaw
  have honce := hlaw.1.calls
  rw [hcalls] at honce
  contradiction

end Packet
end FStackLite
