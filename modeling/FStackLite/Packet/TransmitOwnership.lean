import FStackLite.Packet.Transmit

/-!
# Who frees a packet that is transmitted

`dpdk_ff_to_mbuf` owns the mbuf chain it is given.  Every exit of its loop frees
the chain, and the failing ones free the segments taken so far; the exit in front
of the loop frees nothing.
-/

namespace FStackLite
namespace Packet

open Foundation

/--
The law of the transmit conversion of the mbuf chain `ms`: `m_free` was called
once on each mbuf of the chain, and if a request to the pool was refused then the
result is null and every segment the pool has served was freed once.
-/
structure TransmitLaw (env : Env) (ms : List MbufRef) (s : Sys)
    (out : Option RteRef × Sys) : Prop where
  freed : out.2.mFrees = s.mFrees ++ ms
  failed : (exists k, s.pool.asked ≤ k ∧ k < out.2.pool.asked ∧ env.pool.ok k ≠ true) ->
    out.1 = none ∧ forall q, q ∈ s.pool.servedSince out.2.pool ->
      (s.pool.freedSince out.2.pool).count q = 1

section Exits

variable {env : Env} {s0 s s' : Sys} {head : RteRef} {segs : List RteRef} {ms : List MbufRef}

theorem Built.transmitLaw_of_fail (hdoc : RteDocumented env) (hguard : Guarded s0 ms)
    (h : Built s0 head segs s) (hfree : freeAll env ms s = some s') :
    TransmitLaw env ms s0 (none, s'.rtePktmbufFree env (some head)) := by
  rcases h.survives hdoc hguard hfree with ⟨hrtes, hused, hwithin, -, hfrees⟩
  rcases hwithin.freed with ⟨xs, hxs, hinside⟩
  have hchain : Chain (rteNext s'.rtes) (some head) segs := by
    apply h.chain.congr
    intro q hq
    unfold rteNext
    rw [hrtes q hq]
  have hreturned : (env.rteFree s'.pool.used s'.rtes head).1.Perm segs :=
    hdoc.free_chain _ _ _ _ hchain hused
  constructor
  · exact hfrees
  · intro _
    refine ⟨rfl, ?_⟩
    intro q hq
    have hserved : s0.pool.servedSince (s'.rtePktmbufFree env (some head)).pool = segs := by
      apply Arena.servedSince_of_append
      show s'.pool.served = _
      rw [hwithin.served, h.takes.served]
    have hfreed : s0.pool.freedSince (s'.rtePktmbufFree env (some head)).pool =
        xs ++ (env.rteFree s'.pool.used s'.rtes head).1 := by
      apply Arena.freedSince_of_append
      show s'.pool.freed ++ _ = _
      rw [hxs, h.takes.freed, List.append_assoc]
    rw [hserved] at hq
    have hfirst : xs.count q = 0 :=
      List.count_eq_zero.mpr fun hmem => h.not_used hq (hinside q hmem)
    show (s0.pool.freedSince (s'.rtePktmbufFree env (some head)).pool).count q = 1
    rw [hfreed, List.count_append, hfirst, hreturned.count_eq,
      List.count_eq_one_of_mem h.chain.nodup hq]

theorem Built.transmitLaw_of_return (hdoc : RteDocumented env) (hguard : Guarded s0 ms)
    (h : Built s0 head segs s) (hserved : Served env s0 segs s)
    (hfree : freeAll env ms s = some s') : TransmitLaw env ms s0 (some head, s') := by
  rcases h.survives hdoc hguard hfree with ⟨-, -, hwithin, -, hfrees⟩
  constructor
  · exact hfrees
  · intro hrefused
    rcases hrefused with ⟨k, hle, hlt, hno⟩
    change k < s'.pool.asked at hlt
    rw [hwithin.asked, hserved.asked] at hlt
    have hok := hserved.ok (k - s0.pool.asked) (by omega)
    rw [Nat.add_sub_cancel' hle] at hok
    exact absurd hok hno

end Exits

/-!
## The loop
-/

def TxOwned (env : Env) (s0 : Sys) (head : RteRef) (x : TxLoop) : Prop :=
  exists front, Built s0 head (front ++ [x.dpdkMP]) x.sys ∧
    Served env s0 (front ++ [x.dpdkMP]) x.sys

section Loop

variable {env : Env} {s0 : Sys} {head : RteRef} {m : MbufRef} {ms : List MbufRef} {n : Nat}
    {step : LoopStep TxLoop (Option RteRef × Sys)} {x : TxLoop}

theorem dpdkFfToMbufFail_inv (hdoc : RteDocumented env) (hchain : Chain s0.mNext (some m) ms)
    (hguard : Guarded s0 ms) {s : Sys} {segs : List RteRef} (h : Built s0 head segs s)
    (hfail : dpdkFfToMbufFail env m head n s = some step) :
    exists out, step = LoopStep.done out ∧ TransmitLaw env ms s0 out := by
  rcases Option.map_eq_some_iff.mp hfail with ⟨s', hfree, rfl⟩
  exact ⟨_, rfl, h.transmitLaw_of_fail hdoc hguard (freeAll_of_mFreem (h.mbufChain hchain) hfree)⟩

theorem dpdkFfToMbufExtend_inv (hdoc : RteDocumented env) (hchain : Chain s0.mNext (some m) ms)
    (hguard : Guarded s0 ms) (hx : TxOwned env s0 head x)
    (h : dpdkFfToMbufExtend env m head n x = some step) :
    (exists x', step = LoopStep.next x' ∧ TxOwned env s0 head x') ∨
      (exists out, step = LoopStep.done out ∧ TransmitLaw env ms s0 out) := by
  rcases hx with ⟨front, hbuilt, hserved⟩
  unfold dpdkFfToMbufExtend at h
  split at h
  · by_cases hok : env.pool.ok x.sys.pool.asked = true
    · rw [rtePktmbufAlloc_of_ok hok] at h
      cases h
      have hbuilt' : Built s0 head (front ++ [x.dpdkMP] ++ [x.sys.pool.item env.pool])
          (newSegment env x.dpdkMP x.sys) := by
        rw [List.append_assoc]
        exact hbuilt.newSegment hdoc
      exact Or.inl ⟨_, rfl, front ++ [x.dpdkMP], hbuilt', hserved.newSegment hok _⟩
    · rw [rtePktmbufAlloc_of_not_ok hok] at h
      exact Or.inr (dpdkFfToMbufFail_inv hdoc hchain hguard hbuilt.refused h)
  · cases h
    exact Or.inl ⟨_, rfl, front, hbuilt, hserved⟩

theorem dpdkFfToMbufBody_inv (hdoc : RteDocumented env) (hchain : Chain s0.mNext (some m) ms)
    (hguard : Guarded s0 ms) (hx : TxOwned env s0 head x)
    (h : dpdkFfToMbufBody env m head n x = some step) :
    (exists x', step = LoopStep.next x' ∧ TxOwned env s0 head x') ∨
      (exists out, step = LoopStep.done out ∧ TransmitLaw env ms s0 out) := by
  rcases hx with ⟨front, hbuilt, hserved⟩
  unfold dpdkFfToMbufBody at h
  split at h
  · cases hcopy : ffMbufCopydata n m (x.sys.rtePktmbufMtod x.dpdkMP) x.ffOff
        (txChunk x.ffMLen) x.sys with
    | none =>
      simp only [hcopy] at h
      contradiction
    | some result =>
      rcases result with ⟨ret, s1⟩
      rcases ffMbufCopydata_mem hcopy with ⟨mem, rfl⟩
      simp only [hcopy] at h
      split at h
      · exact Or.inr (dpdkFfToMbufFail_inv hdoc hchain hguard (hbuilt.setMem mem) h)
      · have hlast : x.dpdkMP ∈ front ++ [x.dpdkMP] :=
          List.mem_append_right front List.mem_cons_self
        apply dpdkFfToMbufExtend_inv hdoc hchain hguard _ h
        exact ⟨front, hbuilt.fillSegment hlast _ mem, hserved.fillSegment head _ _ mem⟩
  · rcases Option.map_eq_some_iff.mp h with ⟨s', hfree, rfl⟩
    exact Or.inr ⟨_, rfl, hbuilt.transmitLaw_of_return hdoc hguard hserved
      (freeAll_of_mFreem (hbuilt.mbufChain hchain) hfree)⟩

theorem transmitLaw_of_loop (hdoc : RteDocumented env) (hchain : Chain s0.mNext (some m) ms)
    (hguard : Guarded s0 ms) (hx : TxOwned env s0 head x) {out : Option RteRef × Sys}
    (h : loop (dpdkFfToMbufBody env m head) n x = some out) : TransmitLaw env ms s0 out := by
  apply loop_post _ _ hx h
  · intro y y' hy hbody
    rcases dpdkFfToMbufBody_inv hdoc hchain hguard hy hbody with ⟨z, heq, hz⟩ | ⟨z, heq, -⟩
    · cases heq
      exact hz
    · contradiction
  · intro y r hy hbody
    rcases dpdkFfToMbufBody_inv hdoc hchain hguard hy hbody with ⟨z, heq, -⟩ | ⟨z, heq, hz⟩
    · contradiction
    · cases heq
      exact hz

end Loop

variable {env : Env} {s : Sys} {m : MbufRef} {ms : List MbufRef}

theorem txOwned_newHead (hdoc : RteDocumented env) (hok : env.pool.ok s.pool.asked = true)
    (m : MbufRef) : TxOwned env s (s.pool.item env.pool)
      { ffMLen := ffMbufGetTotalLength m s
        ffOff := 0
        dpdkMP := s.pool.item env.pool
        sys := newHead env (ffMbufGetTotalLength m s) s } :=
  ⟨[], built_newHead hdoc _ s, served_newHead hok _⟩

theorem transmitLaw_iff (hdoc : RteDocumented env) (hchain : Chain s.mNext (some m) ms)
    (hguard : Guarded s ms) {n : Nat} {out : Option RteRef × Sys}
    (h : dpdkFfToMbuf env n m s = some out) :
    TransmitLaw env ms s out <-> env.pool.ok s.pool.asked = true := by
  unfold dpdkFfToMbuf at h
  by_cases hno : env.pool.ok s.pool.asked = true
  · rw [rtePktmbufAlloc_of_ok hno] at h
    constructor
    · intro _
      exact hno
    · intro _
      exact transmitLaw_of_loop hdoc hchain hguard (txOwned_newHead hdoc hno m) h
  · rw [rtePktmbufAlloc_of_not_ok hno] at h
    cases h
    constructor
    · intro hlaw
      have hfreed := congrArg List.length hlaw.freed
      rcases hchain.some_inv with ⟨rest, rfl, -⟩
      rw [List.length_append, List.length_cons] at hfreed
      change s.mFrees.length = _ at hfreed
      omega
    · intro hok
      exact absurd hok hno

/-!
## The conversion returns
-/

theorem dpdkFfToMbufBody_total (hdoc : RteDocumented env) {s0 : Sys} {head : RteRef}
    (hsend : Sendable s0 m ms) (hcovered : Covered s0 m ms) {x : TxLoop}
    (hx : TxOwned env s0 head x)
    (hlen : x.ffOff.toNat + x.ffMLen.toNat = (s0.mbufs m).pkthdrLen.toNat) :
    (exists out, Converges (fun n => dpdkFfToMbufBody env m head n x) (LoopStep.done out)) ∨
      (exists x', Converges (fun n => dpdkFfToMbufBody env m head n x) (LoopStep.next x') ∧
        TxOwned env s0 head x' ∧ x'.ffOff.toNat + x'.ffMLen.toNat = (s0.mbufs m).pkthdrLen.toNat ∧
        x'.ffMLen.toNat < x.ffMLen.toNat) := by
  rcases hx with ⟨front, hbuilt, hserved⟩
  have hlast : x.dpdkMP ∈ front ++ [x.dpdkMP] := List.mem_append_right front List.mem_cons_self
  have hnonneg := hcovered.nonneg
  by_cases hpos : 0 < x.ffMLen
  · have hposNat : 0 < x.ffMLen.toNat := BitVec.lt_def.mp hpos
    have hchunk := txChunk_toNat x.ffMLen
    have hcopied : exists mem, Converges (fun n => ffMbufCopydata n m
        (x.sys.rtePktmbufMtod x.dpdkMP) x.ffOff (txChunk x.ffMLen) x.sys)
        (0, { x.sys with mem := mem }) :=
      ⟨_, hbuilt.copydata hsend hcovered hlast (by omega)⟩
    rcases hcopied with ⟨mem, hcopy⟩
    have hleft := txFilled_ffMLen head mem x
    have hoff := txFilled_ffOff head mem (x := x) (by omega)
    have hfilled : Built s0 head (front ++ [x.dpdkMP]) (txFilled head mem x).sys :=
      hbuilt.fillSegment hlast _ mem
    have hfilled' : Served env s0 (front ++ [x.dpdkMP]) (txFilled head mem x).sys :=
      hserved.fillSegment head _ _ mem
    by_cases hmore : 0 < (txFilled head mem x).ffMLen
    · by_cases hok : env.pool.ok (txFilled head mem x).sys.pool.asked = true
      · refine Or.inr ⟨_, dpdkFfToMbufBody_copied hpos hcopy
          (dpdkFfToMbufExtend_served hmore hok), ?_, ?_, ?_⟩
        · refine ⟨front ++ [x.dpdkMP], ?_, hfilled'.newSegment hok _⟩
          have hnew := hfilled.newSegment hdoc
          rw [List.append_cons] at hnew
          exact hnew
        · show (txFilled head mem x).ffOff.toNat + (txFilled head mem x).ffMLen.toNat = _
          omega
        · show (txFilled head mem x).ffMLen.toNat < _
          omega
      · rcases hfilled.refused.mFreem hsend with ⟨s', hfree, -⟩
        exact Or.inl ⟨_, dpdkFfToMbufBody_copied hpos hcopy
          (dpdkFfToMbufExtend_refused hmore hok hfree)⟩
    · refine Or.inr ⟨_, dpdkFfToMbufBody_copied hpos hcopy (dpdkFfToMbufExtend_end hmore),
        ⟨front, hfilled, hfilled'⟩, ?_, ?_⟩
      · omega
      · omega
  · rcases hbuilt.mFreem hsend with ⟨s', hfree, -⟩
    exact Or.inl ⟨_, dpdkFfToMbufBody_end hpos hfree⟩

theorem dpdkFfToMbuf_converges (hdoc : RteDocumented env) (hsend : Sendable s m ms)
    (hcovered : Covered s m ms) : exists out, Converges (fun n => dpdkFfToMbuf env n m s) out := by
  unfold dpdkFfToMbuf
  by_cases hok : env.pool.ok s.pool.asked = true
  · rw [rtePktmbufAlloc_of_ok hok]
    have hpass : forall x : TxLoop, (TxOwned env s (s.pool.item env.pool) x ∧
        x.ffOff.toNat + x.ffMLen.toNat = (s.mbufs m).pkthdrLen.toNat) ->
        (exists out, Converges (fun n => dpdkFfToMbufBody env m (s.pool.item env.pool) n x)
          (LoopStep.done out) ∧ True) ∨
        (exists x', Converges (fun n => dpdkFfToMbufBody env m (s.pool.item env.pool) n x)
          (LoopStep.next x') ∧
          (TxOwned env s (s.pool.item env.pool) x' ∧
            x'.ffOff.toNat + x'.ffMLen.toNat = (s.mbufs m).pkthdrLen.toNat) ∧
          x'.ffMLen.toNat < x.ffMLen.toNat) := by
      intro x hx
      rcases dpdkFfToMbufBody_total hdoc hsend hcovered hx.1 hx.2 with
        ⟨out, hout⟩ | ⟨x', hx', hown, hlen, hlt⟩
      · exact Or.inl ⟨out, hout, trivial⟩
      · exact Or.inr ⟨x', hx', ⟨hown, hlen⟩, hlt⟩
    have hlen : (0 : BitVec 32).toNat + (ffMbufGetTotalLength m s).toNat =
        (s.mbufs m).pkthdrLen.toNat := Nat.zero_add _
    rcases loop_converges_of_measure (fun x : TxLoop => x.ffMLen.toNat) hpass
      ⟨txOwned_newHead hdoc hok m, hlen⟩ with ⟨out, hout, -⟩
    exact ⟨out, hout⟩
  · rw [rtePktmbufAlloc_of_not_ok hok]
    exact ⟨_, Converges.of_some⟩

/--
Whenever `dpdk_ff_to_mbuf` returns, it has obeyed its law exactly if its first
request to the pool was served; and it returns for every chain whose header does
not promise more bytes than there are.
-/
theorem transmit_freed_once (env : Env) (hdoc : RteDocumented env) (s : Sys) (m : MbufRef)
    (ms : List MbufRef) (hchain : Chain s.mNext (some m) ms) (hguard : Guarded s ms) :
    (forall n out, dpdkFfToMbuf env n m s = some out ->
      (TransmitLaw env ms s out <-> env.pool.ok s.pool.asked = true)) ∧
    (Sendable s m ms -> Covered s m ms ->
      exists out, Converges (fun n => dpdkFfToMbuf env n m s) out) := by
  constructor
  · intro n out hout
    exact transmitLaw_iff hdoc hchain hguard hout
  · intro hsend hcovered
    exact dpdkFfToMbuf_converges hdoc hsend hcovered

/-- The pool refuses the second segment: the first one and both mbufs are freed. -/
theorem transmit_freed_once_second_refused :
    exists out, Converges (fun n => dpdkFfToMbuf (walkingEnv (fun _ => true) (· == 0)) n 1
        longPacket) out ∧ (out.1, out.2.pool.asked, out.2.mFrees) = (none, 2, [1, 2]) ∧
      TransmitLaw (walkingEnv (fun _ => true) (· == 0)) [1, 2] longPacket out := by
  rcases transmit_freed_once (walkingEnv (fun _ => true) (· == 0)) (walkingEnv_documented _ _)
    longPacket 1 [1, 2] longPacket_chain longPacket_sendable.guarded with ⟨hlaw, hreturns⟩
  rcases hreturns longPacket_sendable ⟨by decide, by decide⟩ with ⟨out, n0, hout⟩
  have hrun : dpdkFfToMbuf (walkingEnv (fun _ => true) (· == 0)) (n0 + 4) 1 longPacket = some out :=
    hout (n0 + 4) (Nat.le_add_right n0 4)
  have hseen : (dpdkFfToMbuf (walkingEnv (fun _ => true) (· == 0)) (n0 + 4) 1 longPacket).map
      (fun out => (out.1, out.2.pool.asked, out.2.mFrees)) = some (none, 2, [1, 2]) := rfl
  rw [hrun] at hseen
  exact ⟨out, ⟨n0, hout⟩, Option.some.inj hseen, (hlaw _ out hrun).mpr rfl⟩

/-- The pool refuses the first request: the mbuf chain is not freed. -/
theorem transmit_first_refused :
    exists out, Converges (fun n => dpdkFfToMbuf (walkingEnv (fun _ => true) fun _ => false) n 1
        threeBytes) out ∧ (out.1, out.2.mFrees, out.2.zone.used) = (none, [], [1]) ∧
      ¬ TransmitLaw (walkingEnv (fun _ => true) fun _ => false) [1] threeBytes out := by
  refine ⟨_, Converges.of_eq fun n => rfl, rfl, ?_⟩
  intro hlaw
  have hfreed := hlaw.freed
  contradiction

end Packet
end FStackLite
