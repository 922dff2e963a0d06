import FStackLite.Packet.ReceiveOwnership
import Mathlib.Data.List.GetD

/-!
# The life of the segments of a received packet

All segments of a packet hang on the header mbuf: its `m_free` returns the whole
packet to the pool, and the `m_free` of any other mbuf returns nothing.  The
order in which the mbufs of a packet are freed is given by their positions in
the chain, the header having position `0`.
-/

namespace FStackLite
namespace Packet

open Foundation

/-- The mbufs at these positions of the chain `ms`. -/
def atPositions (ms : List MbufRef) (order : List Nat) : List MbufRef :=
  order.map fun i => ms.getD i 0

/-- The data of the mbuf lies in the segment `q`. -/
def PointsInto (b : Mbuf) (q : RteRef) : Prop :=
  b.mData.block = Block.rte q

/--
The law of the segments `segs` of a packet whose mbufs `ms` are freed in the
order `order`, from the state `s` on.
-/
structure SegmentLifetime (env : Env) (segs : List RteRef) (ms : List MbufRef)
    (order : List Nat) (s : Sys) : Prop where
  /-- After any number of frees, no segment in the pool has a pointer left into it. -/
  safe : forall done rest, order = done ++ rest ->
    exists s', freeAll env (atPositions ms done) s = some s' ∧
      forall i, i ∈ rest -> forall q, q ∈ segs ->
        PointsInto (s'.mbufs (ms.getD i 0)) q -> q ∉ s.pool.freedSince s'.pool
  /-- In the end every segment has been returned exactly once. -/
  complete : exists s', freeAll env (atPositions ms order) s = some s' ∧
    (s.pool.freedSince s'.pool).Perm segs

section Positions

variable {env : Env} {r : RteRef} {segs : List RteRef} {s s' : Sys} {m : MbufRef}
  {tail : List MbufRef}

theorem Received.length_eq (h : Received r segs s m tail s') : segs.length = (m :: tail).length :=
  h.covers.length_eq

theorem getD_mem_tail {i : Nat} (hpos : i ≠ 0) (hi : i < (m :: tail).length) :
    (m :: tail).getD i 0 ∈ tail := by
  cases i with
  | zero => contradiction
  | succ i =>
      have hi' : i < tail.length := Nat.lt_of_succ_lt_succ hi
      rw [List.getD_cons_succ, List.getD_eq_getElem tail 0 hi']
      exact List.getElem_mem hi'

theorem Received.tails_at (h : Received r segs s m tail s') {order : List Nat}
    (horder : forall i, i ∈ order -> i ≠ 0 ∧ i < segs.length) :
    forall x, x ∈ atPositions (m :: tail) order -> RecvTail (s'.mbufs x) := by
  intro x hx
  rcases List.mem_map.mp hx with ⟨i, hi, rfl⟩
  rcases horder i hi with ⟨hpos, hlt⟩
  rw [h.length_eq] at hlt
  exact h.tails _ (getD_mem_tail hpos hlt)

theorem Received.pointsInto (h : Received r segs s m tail s') {i : Nat} (hi : i < segs.length) :
    exists q, q ∈ segs ∧ PointsInto (s'.mbufs ((m :: tail).getD i 0)) q := by
  have hi' : i < (m :: tail).length := h.length_eq ▸ hi
  refine ⟨segs.get ⟨i, hi⟩, List.get_mem segs ⟨i, hi⟩, ?_⟩
  have hcovers := h.covers.get hi hi'
  rw [List.getD_eq_getElem _ 0 hi']
  unfold PointsInto
  rw [List.get_eq_getElem, List.get_eq_getElem] at hcovers
  rw [hcovers.mData]
  rfl

theorem Received.freeAll_behind (h : Received r segs s m tail s') {order : List Nat}
    (horder : forall i, i ∈ order -> i ≠ 0 ∧ i < segs.length) :
    freeAll env (atPositions (m :: tail) order) s' =
      some (s'.logFrees (atPositions (m :: tail) order)) :=
  freeAll_tails env (h.tails_at horder)

theorem Received.freeAll_through (hdoc : RteDocumented env)
    (hchain : Chain (rteNext s.rtes) (some r) segs) (hused : segs ⊆ s.pool.used)
    (h : Received r segs s m tail s') {before after : List Nat}
    (hbefore : forall i, i ∈ before -> i ≠ 0 ∧ i < segs.length)
    (hafter : forall i, i ∈ after -> i ≠ 0 ∧ i < segs.length) :
    exists s'', freeAll env (atPositions (m :: tail) (before ++ 0 :: after)) s' = some s'' ∧
      s''.mbufs = s'.mbufs ∧ (s'.pool.freedSince s''.pool).Perm segs := by
  have hfree := freeAll_with_head env h.head (h.tails_at hbefore) (h.tails_at hafter)
  have hsplit : atPositions (m :: tail) (before ++ 0 :: after) =
      atPositions (m :: tail) before ++ m :: atPositions (m :: tail) after := by
    simp [atPositions]
  rw [hsplit, hfree]
  refine ⟨_, rfl, rfl, ?_⟩
  have honce := (freedOnce_rtePktmbufFree (s := s') hdoc
    (by rw [h.only.rte.rtes]; exact hchain) (by rw [h.only.rte.pool]; exact hused)
    (SameRte.refl s')).segments
  exact honce

end Positions

theorem order_split {n : Nat} {order : List Nat} (hpos : 0 < n) (h : order.Perm (List.range n)) :
    exists before after, order = before ++ 0 :: after ∧
      (forall i, i ∈ before -> i ≠ 0 ∧ i < n) ∧ (forall i, i ∈ after -> i ≠ 0 ∧ i < n) := by
  have hzero : 0 ∈ order := h.mem_iff.mpr (List.mem_range.mpr hpos)
  have hnodup : order.Nodup := h.nodup_iff.mpr List.nodup_range
  have hbound : forall i, i ∈ order -> i < n := fun i hi => List.mem_range.mp (h.mem_iff.mp hi)
  rcases List.append_of_mem hzero with ⟨before, after, rfl⟩
  have hparts := List.nodup_append.mp hnodup
  refine ⟨before, after, rfl, ?_, ?_⟩
  · intro i hi
    constructor
    · intro heq
      exact hparts.2.2 i hi 0 List.mem_cons_self heq
    · exact hbound i (List.mem_append_left _ hi)
  · intro i hi
    constructor
    · intro heq
      exact (List.nodup_cons.mp hparts.2.1).1 (heq ▸ hi)
    · exact hbound i (List.mem_append_right _ (List.mem_cons_of_mem 0 hi))

theorem getLast?_split_iff {before after : List Nat} (h : forall i, i ∈ after -> i ≠ 0) :
    (before ++ 0 :: after).getLast? = some 0 <-> after = [] := by
  constructor
  · intro hlast
    cases after with
    | nil => rfl
    | cons i after =>
        rw [List.getLast?_append_of_ne_nil _ (List.cons_ne_nil _ _),
          List.getLast?_cons_cons] at hlast
        exact absurd rfl (h 0 (List.mem_of_getLast? hlast))
  · rintro rfl
    exact List.getLast?_concat

theorem segmentLifetime_iff {env : Env} (hdoc : RteDocumented env) {r : RteRef}
    {segs : List RteRef} {s s' : Sys} {m : MbufRef} {tail : List MbufRef}
    (hchain : Chain (rteNext s.rtes) (some r) segs) (hused : segs ⊆ s.pool.used)
    (h : Received r segs s m tail s') {order : List Nat}
    (horder : order.Perm (List.range segs.length)) :
    SegmentLifetime env segs (m :: tail) order s' <-> order.getLast? = some 0 := by
  have hpos : 0 < segs.length := by
    rw [h.length_eq]
    exact Nat.succ_pos _
  rcases order_split hpos horder with ⟨before, after, rfl, hbefore, hafter⟩
  rcases h.freeAll_through hdoc hchain hused hbefore hafter with ⟨sEnd, hEnd, -, hreturned⟩
  rw [getLast?_split_iff fun i hi => (hafter i hi).1]
  constructor
  · intro hlife
    cases after with
    | nil => rfl
    | cons i after =>
        have hsafe := hlife.safe (before ++ [0]) (i :: after) (by simp)
        rcases hsafe with ⟨s1, hs1, hsafe⟩
        have hlast : forall i, i ∈ ([] : List Nat) -> i ≠ 0 ∧ i < segs.length :=
          fun i hi => absurd hi List.not_mem_nil
        rcases h.freeAll_through hdoc hchain hused hbefore hlast with ⟨s2, hs2, hmbufs, hgone⟩
        rw [hs1] at hs2
        cases hs2
        rcases h.pointsInto (hafter i List.mem_cons_self).2 with ⟨q, hq, hpoints⟩
        have hstay := hsafe i List.mem_cons_self q hq (by rw [hmbufs]; exact hpoints)
        exact absurd (hgone.mem_iff.mpr hq) hstay
  · rintro rfl
    constructor
    · intro done rest hsplit
      rcases List.eq_nil_or_concat' rest with hrest | ⟨front, z, hrest⟩
      · subst hrest
        rw [List.append_nil] at hsplit
        subst hsplit
        exact ⟨sEnd, hEnd, fun i hi => absurd hi List.not_mem_nil⟩
      · rw [hrest, ← List.append_assoc] at hsplit
        have hdone : forall i, i ∈ done -> i ≠ 0 ∧ i < segs.length := by
          intro i hi
          apply hbefore i
          rw [(List.append_inj' hsplit rfl).1]
          exact List.mem_append_left front hi
        refine ⟨_, h.freeAll_behind hdone, ?_⟩
        intro i _ q _ _ hfreed
        have hnone : s'.pool.freedSince (s'.logFrees (atPositions (m :: tail) done)).pool = [] :=
          Arena.freedSince_of_append (List.append_nil _).symm
        rw [hnone] at hfreed
        contradiction
    · exact ⟨sEnd, hEnd, hreturned⟩

/--
Freeing the mbufs of a received packet one by one is safe for exactly those
orders that free the header last.
-/
theorem segment_lifetime (env : Env) (hdoc : RteDocumented env) (s : Sys) (r : RteRef)
    (segs : List RteRef) (hchain : Chain (rteNext s.rtes) (some r) segs)
    (hused : segs ⊆ s.pool.used) (hserves : ZoneServes env s segs.length) :
    exists m tail s', Converges (fun n => dpdkMbufToFf env n r s) (some m, s') ∧
      Chain s'.mNext (some m) (m :: tail) ∧ forall order, order.Perm (List.range segs.length) ->
        (SegmentLifetime env segs (m :: tail) order s' <-> order.getLast? = some 0) := by
  rcases dpdkMbufToFf_served hchain hserves with ⟨m, tail, s', hconv, hresult⟩
  exact ⟨m, tail, s', hconv, hresult.chain,
    fun order horder => segmentLifetime_iff hdoc hchain hused hresult horder⟩

theorem segment_lifetime_header_last :
    exists m tail s', Converges (fun n => dpdkMbufToFf (walkingEnv (fun _ => true) fun _ => true)
        n 1 arrivedPair) (some m, s') ∧ Chain s'.mNext (some m) (m :: tail) ∧
      SegmentLifetime (walkingEnv (fun _ => true) fun _ => true) [1, 2] (m :: tail) [1, 0] s' := by
  rcases segment_lifetime (walkingEnv (fun _ => true) fun _ => true)
    (walkingEnv_documented _ _) arrivedPair 1 [1, 2] arrivedPair_chain (List.Subset.refl _)
    (fun _ _ => rfl) with ⟨m, tail, s', hconv, hchain, hiff⟩
  exact ⟨m, tail, s', hconv, hchain, (hiff [1, 0] (List.Perm.swap 0 1 [])).mpr rfl⟩

/-- The header first: the mbuf `2` is left with data in the segment `2` of the pool. -/
theorem segment_lifetime_header_first :
    exists s', Converges (fun n => dpdkMbufToFf (walkingEnv (fun _ => true) fun _ => true) n 1
        arrivedPair) (some 1, s') ∧ Chain s'.mNext (some 1) [1, 2] ∧
      ¬ SegmentLifetime (walkingEnv (fun _ => true) fun _ => true) [1, 2] [1, 2] [0, 1] s' := by
  rcases arrivedPair_received with ⟨s', hconv, hresult⟩
  refine ⟨s', hconv, hresult.chain, ?_⟩
  intro hlife
  have hlast := (segmentLifetime_iff (walkingEnv_documented _ _) arrivedPair_chain
    (List.Subset.refl _) hresult (List.Perm.refl [0, 1])).mp hlife
  contradiction

end Packet
end FStackLite
