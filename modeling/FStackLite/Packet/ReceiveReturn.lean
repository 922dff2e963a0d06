import FStackLite.Packet.ReceiveOwnership

/-!
# The mbufs of received packets return to their zone

Packets arrive, are converted, and are freed with `m_freem` in any order.  The
ledger of such a run accounts for every mbuf in use: it belongs to a packet that
is still with the stack, it was in use before, or it is lost.  A packet loses the
mbufs of all its segments but the first.
-/

namespace FStackLite
namespace Packet

open Foundation

/-!
## Runs
-/

/--
The states reached from `s0` when the packets `shapes` were received, one after
the other, and those with the header mbufs `out` have not been freed yet.  The
driver may do anything to the packet pool, its segments and their bytes.
-/
inductive Traffic (env : Env) (s0 : Sys) : List (List RteRef) -> List MbufRef -> Sys -> Prop where
  | start : Traffic env s0 [] [] s0
  | deliver {shapes : List (List RteRef)} {out : List MbufRef} {s : Sys}
      (before : Traffic env s0 shapes out s) (rtes : RteRef -> RteMbuf)
      (pool : Arena RteRef) (mem : Memory) :
      Traffic env s0 shapes out { s with rtes := rtes, pool := pool, mem := mem }
  | receive {shapes : List (List RteRef)} {out : List MbufRef} {s s' : Sys} {r : RteRef}
      {segs : List RteRef} {m : MbufRef}
      (before : Traffic env s0 shapes out s)
      (packet : Chain (rteNext s.rtes) (some r) segs)
      (converted : Converges (fun n => dpdkMbufToFf env n r s) (some m, s')) :
      Traffic env s0 (shapes ++ [segs]) (out ++ [m]) s'
  | free {shapes : List (List RteRef)} {front back : List MbufRef} {s s' : Sys} {m : MbufRef}
      (before : Traffic env s0 shapes (front ++ m :: back) s)
      (freed : Converges (fun n => mFreem env n (some m) s) s') :
      Traffic env s0 shapes (front ++ back) s'

/-!
## The ledger
-/

structure Held (s : Sys) (m : MbufRef) (tail : List MbufRef) : Prop where
  chain : Chain s.mNext (some m) (m :: tail)
  head : exists r, RecvHead r (s.mbufs m)
  tails : forall x, x ∈ tail -> RecvTail (s.mbufs x)

variable {m : MbufRef} {s s' s0 : Sys} {tail lost out : List MbufRef}
    {packets : List (MbufRef × List MbufRef)} {shapes : List (List RteRef)}

theorem Held.congr (h : Held s m tail) (hsame : forall x, x ∈ m :: tail -> s'.mbufs x = s.mbufs x) :
    Held s' m tail := by
  constructor
  · apply h.chain.congr
    intro x hx
    unfold Sys.mNext
    rw [hsame x hx]
  · rw [hsame m List.mem_cons_self]
    exact h.head
  · intro x hx
    rw [hsame x (List.mem_cons_of_mem m hx)]
    exact h.tails x hx

theorem Held.mFreem {env : Env} {s : Sys} {m : MbufRef} {tail : List MbufRef} (h : Held s m tail) :
    exists r, Converges (fun n => mFreem env n (some m) s) (headFreed env r m tail s) := by
  rcases h.head with ⟨r, hhead⟩
  have hnone : forall x, x ∈ ([] : List MbufRef) -> RecvTail (s.mbufs x) :=
    fun x hx => absurd hx List.not_mem_nil
  exact ⟨r, mFreem_converges h.chain (freeAll_with_head env hhead hnone h.tails)⟩

def mbufsOf (packets : List (MbufRef × List MbufRef)) : List MbufRef :=
  packets.flatMap fun p => p.1 :: p.2

def furtherSegments (shapes : List (List RteRef)) : Nat :=
  (shapes.map fun segs => segs.length - 1).sum

structure Ledger (s0 : Sys) (shapes : List (List RteRef)) (out : List MbufRef) (s : Sys)
    (packets : List (MbufRef × List MbufRef)) (lost : List MbufRef) : Prop where
  headers : packets.map Prod.fst = out
  held : forall p, p ∈ packets -> Held s p.1 p.2
  used : s.zone.used.Perm (mbufsOf packets ++ (lost ++ s0.zone.used))
  count : lost.length + (packets.map fun p => p.2.length).sum = furtherSegments shapes
  shapes : forall segs, segs ∈ shapes -> segs ≠ []

theorem Ledger.start (s0 : Sys) : Ledger s0 [] [] s0 [] [] := by
  constructor
  · rfl
  · intro p hp
    contradiction
  · exact List.Perm.refl _
  · rfl
  · intro segs hsegs
    contradiction

theorem Ledger.receive (h : Ledger s0 shapes out s packets lost) {r : RteRef} {segs : List RteRef}
    (hrecv : Received r segs s m tail s') :
    Ledger s0 (shapes ++ [segs]) (out ++ [m]) s' (packets ++ [(m, tail)]) lost := by
  have hlen : segs.length = tail.length + 1 := hrecv.covers.length_eq
  constructor
  · rw [List.map_append, h.headers]
    rfl
  · intro p hp
    rcases List.mem_append.mp hp with hold | hnew
    · apply (h.held p hold).congr
      intro x hx
      apply hrecv.others
      intro hfresh
      apply hrecv.takes.not_mem hfresh
      rw [h.used.mem_iff]
      exact List.mem_append_left _ (List.mem_flatMap.mpr ⟨p, hold, hx⟩)
    · cases List.mem_singleton.mp hnew
      exact ⟨hrecv.chain, ⟨r, hrecv.head⟩, hrecv.tails⟩
  · have hnew : mbufsOf (packets ++ [(m, tail)]) = mbufsOf packets ++ (m :: tail) := by
      simp [mbufsOf]
    rw [hnew]
    calc s'.zone.used.Perm ((m :: tail) ++ s.zone.used) := hrecv.takes.perm
      _ |>.Perm ((m :: tail) ++ (mbufsOf packets ++ (lost ++ s0.zone.used))) :=
        h.used.append_left _
      _ |>.Perm (mbufsOf packets ++ (m :: tail) ++ (lost ++ s0.zone.used)) := by
        rw [← List.append_assoc]
        exact List.perm_append_comm.append_right _
  · have hcount := h.count
    unfold furtherSegments at hcount ⊢
    simp only [List.map_append, List.map_cons, List.map_nil, List.sum_append, List.sum_cons,
      List.sum_nil]
    omega
  · intro segs' hsegs
    rcases List.mem_append.mp hsegs with hold | hnew
    · exact h.shapes segs' hold
    · cases List.mem_singleton.mp hnew
      intro hnil
      rw [hnil] at hlen
      contradiction

theorem Ledger.split {front back : List MbufRef}
    (h : Ledger s0 shapes (front ++ m :: back) s packets lost) :
    exists ps tail qs, packets = ps ++ (m, tail) :: qs ∧ ps.map Prod.fst = front ∧
      qs.map Prod.fst = back := by
  rcases List.map_eq_append_iff.mp h.headers with ⟨ps, rest, hps, hfront, hrest⟩
  rcases List.map_eq_cons_iff.mp hrest with ⟨p, qs, rfl, rfl, hback⟩
  exact ⟨ps, p.2, qs, hps, hfront, hback⟩

theorem mbufsOf_middle (ps qs : List (MbufRef × List MbufRef)) (m : MbufRef)
    (tail rest : List MbufRef) : (mbufsOf (ps ++ (m, tail) :: qs) ++ rest).Perm
      (m :: (mbufsOf (ps ++ qs) ++ (tail ++ rest))) := by
  have hflat : mbufsOf (ps ++ (m, tail) :: qs) = mbufsOf ps ++ (m :: (tail ++ mbufsOf qs)) := by
    simp [mbufsOf]
  have hflat' : mbufsOf (ps ++ qs) = mbufsOf ps ++ mbufsOf qs := by
    simp [mbufsOf]
  have hmove : (mbufsOf ps ++ (m :: (tail ++ mbufsOf qs))).Perm
      (m :: (mbufsOf ps ++ (mbufsOf qs ++ tail))) :=
    List.perm_middle.trans ((List.perm_append_comm.append_left (mbufsOf ps)).cons m)
  have hall := hmove.append_right rest
  rw [hflat, hflat']
  simpa only [List.append_assoc, List.cons_append] using hall

theorem Ledger.free {ps qs : List (MbufRef × List MbufRef)}
    (h : Ledger s0 shapes out s (ps ++ (m, tail) :: qs) lost) (hmbufs : s'.mbufs = s.mbufs)
    (hzone : s'.zone = s.zone.free m) :
    Ledger s0 shapes (ps.map Prod.fst ++ qs.map Prod.fst) s' (ps ++ qs) (tail ++ lost) := by
  constructor
  · rw [List.map_append]
  · intro x hx
    have hold : x ∈ ps ++ (m, tail) :: qs := by
      rcases List.mem_append.mp hx with hx | hx
      · exact List.mem_append_left _ hx
      · exact List.mem_append_right _ (List.mem_cons_of_mem _ hx)
    apply (h.held x hold).congr
    intro y _
    rw [hmbufs]
  · have herase := (h.used.trans (mbufsOf_middle ps qs m tail _)).erase m
    rw [List.erase_cons_head, ← List.append_assoc tail] at herase
    rw [hzone]
    exact herase
  · have hcount := h.count
    simp only [List.map_append, List.map_cons, List.sum_append, List.sum_cons] at hcount
    rw [List.map_append, List.sum_append, List.length_append]
    omega
  · exact h.shapes

theorem traffic_ledger {env : Env} (h : Traffic env s0 shapes out s) :
    exists packets lost, Ledger s0 shapes out s packets lost := by
  induction h with
  | start => exact ⟨[], [], Ledger.start s0⟩
  | deliver before rtes pool mem ih =>
      rcases ih with ⟨packets, lost, hledger⟩
      exact ⟨packets, lost, hledger.headers,
        fun p hp => (hledger.held p hp).congr fun _ _ => rfl,
        hledger.used, hledger.count, hledger.shapes⟩
  | @receive shapes out s s' r segs m before packet converted ih =>
      rcases ih with ⟨packets, lost, hledger⟩
      rcases packet.some_inv with ⟨qs, rfl, -⟩
      rcases dpdkMbufToFf_outcome env packet with ⟨result, hresult, houtcome⟩
      have heq := converted.unique hresult
      subst heq
      cases houtcome with
      | received _ tail _ _ hrecv => exact ⟨_, _, hledger.receive hrecv⟩
  | @free shapes front back s s' m before freed ih =>
      rcases ih with ⟨packets, lost, hledger⟩
      rcases hledger.split with ⟨ps, tail, qs, rfl, rfl, rfl⟩
      have hheld := hledger.held (m, tail) (List.mem_append_right _ List.mem_cons_self)
      rcases hheld.mFreem with ⟨r, hfreed⟩
      have heq := freed.unique hfreed
      subst heq
      exact ⟨_, _, hledger.free rfl rfl⟩

/-!
## The zone as it was
-/

theorem furtherSegments_eq_zero (h : forall segs, segs ∈ shapes -> segs ≠ []) :
    furtherSegments shapes = 0 <-> forall segs, segs ∈ shapes -> segs.length = 1 := by
  induction shapes with
  | nil => simp [furtherSegments]
  | cons segs shapes ih =>
      have hpos := List.length_pos_iff.mpr (h segs List.mem_cons_self)
      have hrest := ih fun x hx => h x (List.mem_cons_of_mem segs hx)
      unfold furtherSegments at hrest ⊢
      rw [List.map_cons, List.sum_cons, Nat.add_eq_zero_iff, hrest, List.forall_mem_cons]
      exact and_congr_left fun _ => ⟨fun hzero => by omega, fun hone => by omega⟩

theorem Ledger.used_iff (h : Ledger s0 shapes [] s packets lost) :
    s.zone.used.Perm s0.zone.used <-> forall segs, segs ∈ shapes -> segs.length = 1 := by
  have hnone : packets = [] := List.map_eq_nil_iff.mp h.headers
  subst hnone
  have hused := h.used
  have hcount := h.count
  change s.zone.used.Perm (lost ++ s0.zone.used) at hused
  change lost.length + 0 = furtherSegments shapes at hcount
  rw [← furtherSegments_eq_zero h.shapes, ← hcount]
  constructor
  · intro hsame
    have hlen := (hsame.symm.trans hused).length_eq
    rw [List.length_append] at hlen
    omega
  · intro hlost
    have hnil : lost = [] := List.length_eq_zero_iff.mp hlost
    rw [hnil] at hused
    exact hused

/-- After `m_freem` of the result, every mbuf taken for the packet was returned once. -/
def MbufsReturned (env : Env) (s : Sys) (m : MbufRef) (ms : List MbufRef) (s' : Sys) : Prop :=
  exists s'', Converges (fun n => mFreem env n (some m) s') s'' ∧
    forall x, x ∈ ms -> (s.zone.freedSince s''.zone).count x = 1

theorem mbufsReturned_iff {env : Env} {r : RteRef} {segs : List RteRef}
    (h : Received r segs s m tail s') :
    MbufsReturned env s m (m :: tail) s' <-> segs.length = 1 := by
  have hlen : segs.length = tail.length + 1 := h.covers.length_eq
  have hreturned : s.zone.freedSince (headFreed env r m tail s').zone = [m] := by
    apply Arena.freedSince_of_append
    show s'.zone.freed ++ [m] = s.zone.freed ++ [m]
    rw [h.takes.freed]
  constructor
  · rintro ⟨s'', hconv, hcount⟩
    have heq := hconv.unique h.mFreem
    subst heq
    cases tail with
    | nil => exact hlen
    | cons x tail =>
        have hone := hcount x (List.mem_cons_of_mem m List.mem_cons_self)
        rw [hreturned] at hone
        have hx : x ∈ [m] := List.count_pos_iff.mp (by omega)
        have hnodup := h.takes.nodup
        cases List.mem_singleton.mp hx
        exact absurd List.mem_cons_self (List.nodup_cons.mp hnodup).1
  · intro hone
    refine ⟨_, h.mFreem, ?_⟩
    intro x hx
    have hnil : tail = [] := List.length_eq_zero_iff.mp (by omega)
    subst hnil
    cases List.mem_singleton.mp hx
    rw [hreturned]
    exact List.count_singleton_self

/--
A received packet returns all its mbufs exactly if it has one segment, and a run
leaves the zone as it was exactly if all its packets have.
-/
theorem mbuf_return (env : Env) : (forall s r segs, Chain (rteNext s.rtes) (some r) segs ->
      ZoneServes env s segs.length ->
      exists m tail s', Converges (fun n => dpdkMbufToFf env n r s) (some m, s') ∧
        s.zone.Takes (m :: tail) s'.zone ∧ (m :: tail).length = segs.length ∧
        (MbufsReturned env s m (m :: tail) s' <-> segs.length = 1)) ∧
    (forall s0 shapes s, Traffic env s0 shapes [] s -> (s.zone.used.Perm s0.zone.used <->
        forall segs, segs ∈ shapes -> segs.length = 1)) := by
  constructor
  · intro s r segs hchain hserves
    rcases dpdkMbufToFf_served hchain hserves with ⟨m, tail, s', hconv, hresult⟩
    exact ⟨m, tail, s', hconv, hresult.takes, hresult.covers.length_eq.symm,
      mbufsReturned_iff hresult⟩
  · intro s0 shapes s htraffic
    rcases traffic_ledger htraffic with ⟨packets, lost, hledger⟩
    exact hledger.used_iff

/-- The second segment of the pair, received as a packet of its own. -/
theorem mbuf_return_single :
    exists s, Traffic (walkingEnv (fun _ => true) fun _ => true) arrivedPair [[2]] [] s ∧
      s.zone.used.Perm arrivedPair.zone.used := by
  have hchain : Chain (rteNext arrivedPair.rtes) (some 2) [2] :=
    Chain.cons (show Chain (rteNext arrivedPair.rtes) none [] from Chain.nil)
  have hreturn := mbuf_return (walkingEnv (fun _ => true) fun _ => true)
  rcases hreturn.1 arrivedPair 2 [2] hchain (fun _ _ => rfl) with
    ⟨m, tail, s', hconv, -, -, hiff⟩
  rcases hiff.mpr rfl with ⟨s'', hfreed, -⟩
  have hwith : Traffic (walkingEnv (fun _ => true) fun _ => true) arrivedPair ([] ++ [[2]])
      ([] ++ [m]) s' := Traffic.receive Traffic.start hchain hconv
  have htraffic : Traffic (walkingEnv (fun _ => true) fun _ => true) arrivedPair [[2]] []
      s'' := Traffic.free hwith hfreed
  refine ⟨s'', htraffic, (hreturn.2 _ _ _ htraffic).mpr ?_⟩
  intro segs hsegs
  cases List.mem_singleton.mp hsegs
  rfl

/-- The pair is received and freed; the mbuf of its second segment stays in use. -/
theorem mbuf_return_pair_lost :
    exists s, Traffic (walkingEnv (fun _ => true) fun _ => true) arrivedPair [[1, 2]] [] s ∧
      s.zone.used = [2] ∧ ¬ s.zone.used.Perm arrivedPair.zone.used := by
  rcases arrivedPair_received with ⟨s', hconv, hresult⟩
  have hused : (headFreed (walkingEnv (fun _ => true) fun _ => true) 1 1 [2] s').zone.used =
      [2] := by
    show s'.zone.used.erase 1 = [2]
    rw [hresult.takes.used]
    rfl
  have htraffic : Traffic (walkingEnv (fun _ => true) fun _ => true) arrivedPair ([] ++ [[1, 2]])
      ([] ++ [1]) s' := Traffic.receive Traffic.start arrivedPair_chain hconv
  refine ⟨_, Traffic.free htraffic hresult.mFreem, hused, ?_⟩
  rw [hused]
  intro hperm
  exact absurd hperm.length_eq (by decide)

end Packet
end FStackLite
