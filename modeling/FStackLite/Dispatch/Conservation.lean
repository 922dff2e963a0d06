import FStackLite.Dispatch.Process
import Mathlib.Data.List.Nodup
import Mathlib.Data.List.Perm.Basic

/-!
# Every packet and every clone is handed on once

The invariant is a ledger: what was handed on, together with what is still held, is a
rearrangement of the packets of the batch and the clones made.  Handing something on
moves it from one side of the ledger to the other.
-/

namespace FStackLite
namespace Dispatch

/-- The packets of the batch at the places `i, ..., i + n - 1`. -/
def inputs : Nat -> Nat -> List Buf
  | _, 0 => []
  | i, n + 1 => .input i :: inputs (i + 1) n

theorem mem_inputs {i n : Nat} {b : Buf} :
    b ∈ inputs i n <-> exists j, b = .input j ∧ i ≤ j ∧ j < i + n := by
  induction n generalizing i with
  | zero =>
      simp only [inputs, List.not_mem_nil, false_iff]
      rintro ⟨j, _, hlo, hhi⟩
      omega
  | succ n ih =>
      rw [inputs, List.mem_cons, ih]
      constructor
      · rintro (rfl | ⟨j, rfl, hlo, hhi⟩)
        · exact ⟨i, rfl, Nat.le_refl i, by omega⟩
        · exact ⟨j, rfl, by omega, by omega⟩
      · rintro ⟨j, rfl, hlo, hhi⟩
        cases Nat.eq_or_lt_of_le hlo with
        | inl heq => exact Or.inl (by rw [heq])
        | inr hlt => exact Or.inr ⟨j, rfl, hlt, by omega⟩

theorem nodup_inputs (i n : Nat) : (inputs i n).Nodup := by
  induction n generalizing i with
  | zero => exact List.nodup_nil
  | succ n ih =>
      rw [inputs, List.nodup_cons, mem_inputs]
      constructor
      · rintro ⟨j, heq, hlo, _⟩
        injection heq with heq
        omega
      · exact ih (i + 1)

def St.handed (st : St) : List Buf :=
  st.given.map Prod.fst

/-- The ledger, with `held` not handed on yet. -/
structure Ledger (batch held : List Buf) (st : St) : Prop where
  balance : (st.handed ++ held).Perm (batch ++ st.made.map .clone)
  segs_nodup : st.made.flatten.Nodup
  segs_lt : forall n, n ∈ st.made.flatten -> n < st.allocs
  nonempty : forall segs, segs ∈ st.made -> segs ≠ []

namespace Ledger

variable {batch held : List Buf} {st : St}

theorem start (batch : List Buf) : Ledger batch batch St.start := by
  constructor
  · simp [St.start, St.handed]
  · exact List.nodup_nil
  · intro n hn
    contradiction
  · intro segs hsegs
    contradiction

theorem give {b : Buf} (h : Ledger batch (b :: held) st) (d : Dest) :
    Ledger batch held (give b d st) := by
  constructor
  · have hbalance := h.balance
    simpa [Dispatch.give, St.handed] using hbalance
  · exact h.segs_nodup
  · exact h.segs_lt
  · exact h.nonempty

theorem congr {st' : St} (h : Ledger batch held st) (hgiven : st'.given = st.given)
    (hmade : st'.made = st.made) (hallocs : st.allocs ≤ st'.allocs) : Ledger batch held st' := by
  constructor
  · rw [St.handed, hgiven, hmade]
    exact h.balance
  · rw [hmade]
    exact h.segs_nodup
  · intro n hn
    rw [hmade] at hn
    exact Nat.lt_of_lt_of_le (h.segs_lt n hn) hallocs
  · rw [hmade]
    exact h.nonempty

theorem enqueueOrFree {b : Buf} (h : Ledger batch (b :: held) st) (env : Env) (d : Dest) :
    Ledger batch held (enqueueOrFree env b d st) := by
  have hcounted : Ledger batch (b :: held) { st with enqueues := st.enqueues + 1 } :=
    h.congr rfl rfl (Nat.le_refl _)
  unfold Dispatch.enqueueOrFree
  dsimp only
  split
  · exact hcounted.give d
  · exact hcounted.give .free

theorem dispatchTo {b : Buf} (h : Ledger batch (b :: held) st) (env : Env) (index : Int) :
    Ledger batch held (dispatchTo env index b st) := by
  have hread : Ledger batch (b :: held) { st with rings := st.rings ++ [index] } :=
    h.congr rfl rfl (Nat.le_refl _)
  exact hread.enqueueOrFree env (.ring index)

end Ledger

/-!
## Clones
-/

theorem cloneSegs_spec (env : Env) (more : Nat) (segs : List Nat) (allocs : Nat) :
    exists extra, (cloneSegs env more segs allocs).1 = segs ++ extra ∧ extra.Nodup ∧
      allocs ≤ (cloneSegs env more segs allocs).2.2 ∧
        forall n, n ∈ extra -> allocs ≤ n ∧ n < (cloneSegs env more segs allocs).2.2 := by
  induction more generalizing segs allocs with
  | zero =>
      exact ⟨[], by simp [cloneSegs], List.nodup_nil, Nat.le_refl _, by simp⟩
  | succ more ih =>
      unfold cloneSegs
      split
      · rcases ih (segs ++ [allocs]) (allocs + 1) with ⟨extra, heq, hnodup, hle, hrange⟩
        refine ⟨allocs :: extra, ?_, ?_, Nat.le_of_succ_le hle, ?_⟩
        · rw [heq, List.append_assoc]
          rfl
        · rw [List.nodup_cons]
          exact ⟨fun hmem => Nat.not_succ_le_self allocs (hrange allocs hmem).1, hnodup⟩
        · intro n hn
          rcases List.mem_cons.mp hn with rfl | hn
          · exact ⟨Nat.le_refl _, hle⟩
          · exact ⟨Nat.le_of_succ_le (hrange n hn).1, (hrange n hn).2⟩
      · exact ⟨[], by simp, List.nodup_nil, Nat.le_succ allocs, by simp⟩

namespace Ledger

variable {batch held : List Buf} {st : St}

theorem make (h : Ledger batch held st) {segs : List Nat} {allocs : Nat} (hne : segs ≠ [])
    (hnodup : segs.Nodup) (hle : st.allocs ≤ allocs)
    (hrange : forall n, n ∈ segs -> st.allocs ≤ n ∧ n < allocs) :
    Ledger batch (.clone segs :: held) { st with allocs := allocs, made := st.made ++ [segs] } := by
  constructor
  · show (st.handed ++ (.clone segs :: held)).Perm (batch ++ (st.made ++ [segs]).map .clone)
    rw [List.map_append, <- List.append_assoc]
    have hcons : (st.handed ++ (.clone segs :: held)).Perm (.clone segs :: (st.handed ++ held)) :=
      List.perm_middle
    have hback : (.clone segs :: (batch ++ st.made.map .clone)).Perm
        (batch ++ st.made.map .clone ++ [.clone segs]) :=
      (List.perm_append_singleton _ _).symm
    exact hcons.trans ((h.balance.cons _).trans hback)
  · show (st.made ++ [segs]).flatten.Nodup
    rw [List.flatten_append, List.flatten_singleton, List.nodup_append']
    refine ⟨h.segs_nodup, hnodup, ?_⟩
    intro n hold hnew
    exact absurd (h.segs_lt n hold) (Nat.not_lt.mpr (hrange n hnew).1)
  · intro n hn
    rw [List.flatten_append, List.flatten_singleton, List.mem_append] at hn
    rcases hn with hold | hnew
    · exact Nat.lt_of_lt_of_le (h.segs_lt n hold) hle
    · exact (hrange n hnew).2
  · intro chain hchain
    rcases List.mem_append.mp hchain with hold | hnew
    · exact h.nonempty chain hold
    · rw [List.mem_singleton.mp hnew]
      exact hne

def HandsOn (hand : Buf -> St -> St) : Prop :=
  forall (batch held : List Buf) (b : Buf) (st : St),
    Ledger batch (b :: held) st -> Ledger batch held (hand b st)

theorem cloneTo (h : Ledger batch held st) (env : Env) (moreSegs : Nat) {hand : Buf -> St -> St}
    (hhand : HandsOn hand) : Ledger batch held (cloneTo env moreSegs hand st) := by
  unfold Dispatch.cloneTo pktmbufDeepClone
  cases halloc : env.alloc st.allocs with
  | false => exact h.congr rfl rfl (Nat.le_succ _)
  | true =>
      rcases cloneSegs_spec env moreSegs [st.allocs] (st.allocs + 1) with
        ⟨extra, hsegs, hnodup, hle, hrange⟩
      have hdistinct : (st.allocs :: extra).Nodup :=
        List.nodup_cons.mpr ⟨fun hmem => Nat.not_succ_le_self _ (hrange _ hmem).1, hnodup⟩
      have hnew : forall n, n ∈ st.allocs :: extra ->
          st.allocs ≤ n ∧ n < (cloneSegs env moreSegs [st.allocs] (st.allocs + 1)).2.2 := by
        intro n hn
        rcases List.mem_cons.mp hn with rfl | hn
        · exact ⟨Nat.le_refl _, hle⟩
        · exact ⟨Nat.le_of_succ_le (hrange n hn).1, (hrange n hn).2⟩
      have hmade := h.make (List.cons_ne_nil _ _) hdistinct (Nat.le_of_succ_le hle) hnew
      rw [show st.allocs :: extra = [st.allocs] ++ extra from rfl, <- hsegs] at hmade
      simp only [if_true]
      cases (cloneSegs env moreSegs [st.allocs] (st.allocs + 1)).2.1 with
      | false => exact hmade.give .free
      | true => exact hhand batch held _ _ hmade

theorem cloneToQueues (env : Env) (queueId moreSegs : Nat) (queues : List Nat)
    (h : Ledger batch held st) : Ledger batch held (cloneToQueues env queueId moreSegs queues st) := by
  induction queues generalizing st with
  | nil => exact h
  | cons j rest ih =>
      unfold Dispatch.cloneToQueues
      split
      · exact ih h
      · exact ih (h.cloneTo env moreSegs fun _ _ _ _ hb => hb.dispatchTo env j)

/-!
## Packets
-/

theorem deliver (env : Env) (cfg : Config) (i : Nat) (p : Packet)
    (h : Ledger batch (.input i :: held) st) : Ledger batch held (deliver env cfg i p st) := by
  unfold Dispatch.deliver
  split
  · dsimp only
    split
    · exact ((h.cloneToQueues env cfg.queueId p.moreSegs _).cloneTo env p.moreSegs
        fun _ _ _ _ hb => hb.enqueueOrFree env .kni).give .stack
    · exact (h.cloneToQueues env cfg.queueId p.moreSegs _).give .stack
  · split
    · exact h.enqueueOrFree env .kni
    · exact h.give .stack

theorem processPacket (env : Env) (cfg : Config) (i : Nat) (p : Packet)
    (h : Ledger batch (.input i :: held) st) :
    Ledger batch held (processPacket env cfg i p st) := by
  unfold Dispatch.processPacket
  split
  · split
    · exact h.give .transmit
    · split
      · exact h.give .free
      · split
        · exact h.dispatchTo env p.dispatch
        · exact h.deliver env cfg i p
  · exact h.deliver env cfg i p

theorem processFrom (env : Env) (cfg : Config) (bufs : List Packet) (i : Nat)
    (h : Ledger batch (inputs i bufs.length) st) :
    Ledger batch [] (processFrom env cfg i bufs st) := by
  induction bufs generalizing i st with
  | nil => exact h
  | cons p rest ih => exact ih (i + 1) (h.processPacket env cfg i p)

end Ledger

/-!
## Ring indices
-/

def St.RingsBelow (nbQueues : Nat) (st : St) : Prop :=
  forall r, r ∈ st.rings -> 0 ≤ r ∧ r < (nbQueues : Int)

theorem enqueueOrFree_rings (env : Env) (b : Buf) (d : Dest) (st : St) :
    (enqueueOrFree env b d st).rings = st.rings := by
  unfold enqueueOrFree
  dsimp only
  split
  · rfl
  · rfl

theorem dispatchTo_rings (env : Env) (index : Int) (b : Buf) (st : St) :
    (dispatchTo env index b st).rings = st.rings ++ [index] :=
  enqueueOrFree_rings env b (.ring index) _

theorem pktmbufDeepClone_rings (env : Env) (moreSegs : Nat) (st : St) :
    (pktmbufDeepClone env moreSegs st).2.rings = st.rings := by
  unfold pktmbufDeepClone
  dsimp only
  split
  · split
    · rfl
    · rfl
  · rfl

theorem cloneTo_cases (env : Env) (moreSegs : Nat) (hand : Buf -> St -> St) (st : St) :
    (exists clone st', st'.rings = st.rings ∧ cloneTo env moreSegs hand st = hand clone st') ∨
      (cloneTo env moreSegs hand st).rings = st.rings := by
  have hclone := pktmbufDeepClone_rings env moreSegs st
  unfold cloneTo
  split
  · rename_i clone st' heq
    rw [heq] at hclone
    exact Or.inl ⟨clone, st', hclone, rfl⟩
  · rename_i st' heq
    rw [heq] at hclone
    exact Or.inr hclone

theorem cloneTo_ffKniEnqueue_rings (env : Env) (moreSegs : Nat) (st : St) :
    (cloneTo env moreSegs (ffKniEnqueue env) st).rings = st.rings := by
  rcases cloneTo_cases env moreSegs (ffKniEnqueue env) st with ⟨clone, st', hst', heq⟩ | hsame
  · rw [heq]
    exact (enqueueOrFree_rings env clone .kni st').trans hst'
  · exact hsame

variable {nbQueues : Nat} {st : St}

theorem cloneTo_dispatchTo_ringsBelow (env : Env) (moreSegs j : Nat) (st : St) (hj : j < nbQueues) :
    (cloneTo env moreSegs (dispatchTo env j) st).RingsBelow nbQueues <->
      st.RingsBelow nbQueues := by
  unfold St.RingsBelow
  rcases cloneTo_cases env moreSegs (dispatchTo env j) st with ⟨clone, st', hst', heq⟩ | hsame
  · have hindex : (0 : Int) ≤ j ∧ (j : Int) < nbQueues := ⟨Int.natCast_nonneg j, Int.ofNat_lt.mpr hj⟩
    rw [heq, dispatchTo_rings, hst', List.forall_mem_append, List.forall_mem_singleton]
    exact and_iff_left hindex
  · rw [hsame]

theorem cloneToQueues_ringsBelow (env : Env) (queueId moreSegs : Nat) (queues : List Nat)
    (hqueues : forall j, j ∈ queues -> j < nbQueues) (st : St) :
    (cloneToQueues env queueId moreSegs queues st).RingsBelow nbQueues <->
      st.RingsBelow nbQueues := by
  induction queues generalizing st with
  | nil => exact Iff.rfl
  | cons j rest ih =>
      rcases List.forall_mem_cons.mp hqueues with ⟨hj, hrest⟩
      unfold cloneToQueues
      split
      · exact ih hrest st
      · rw [ih hrest, cloneTo_dispatchTo_ringsBelow env moreSegs j st hj]

theorem deliver_ringsBelow (env : Env) (cfg : Config) (i : Nat) (p : Packet) (st : St) :
    (deliver env cfg i p st).RingsBelow cfg.nbQueues <-> st.RingsBelow cfg.nbQueues := by
  have hqueues : forall j, j ∈ (if cfg.pktsFromRing then [] else List.range cfg.nbQueues) ->
      j < cfg.nbQueues := by
    intro j hj
    split at hj
    · contradiction
    · exact List.mem_range.mp hj
  have hcloned := cloneToQueues_ringsBelow env cfg.queueId p.moreSegs _ hqueues st
  unfold deliver
  split
  · dsimp only
    split
    · rw [<- hcloned]
      simp only [St.RingsBelow, give, cloneTo_ffKniEnqueue_rings]
    · exact hcloned
  · split
    · simp only [St.RingsBelow, ffKniEnqueue, enqueueOrFree_rings]
    · exact Iff.rfl

/-- One packet uses only indices of queues unless the dispatcher returns less than -2. -/
theorem processPacket_ringsBelow (env : Env) (cfg : Config) (i : Nat) (p : Packet) (st : St) :
    (processPacket env cfg i p st).RingsBelow cfg.nbQueues <-> st.RingsBelow cfg.nbQueues ∧
        (cfg.asksDispatcher = true -> dispatchResponse ≤ p.dispatch) := by
  unfold processPacket
  cases cfg.asksDispatcher with
  | false => simp [deliver_ringsBelow]
  | true =>
      simp only [if_true, true_implies]
      split
      · rename_i hresponse
        rw [and_iff_left (Int.le_of_eq hresponse.symm)]
        exact Iff.rfl
      · rename_i hresponse
        split
        · rename_i herror
          have hle : dispatchResponse ≤ p.dispatch := by
            unfold dispatchResponse
            unfold dispatchError at herror
            omega
          rw [and_iff_left hle]
          exact Iff.rfl
        · rename_i herror
          split
          · simp only [St.RingsBelow, dispatchTo_rings, List.forall_mem_append,
              List.forall_mem_singleton]
            unfold dispatchResponse at hresponse ⊢
            unfold dispatchError at herror
            apply and_congr_right
            intro _
            omega
          · rename_i hown
            have hle : dispatchResponse ≤ p.dispatch := by
              unfold dispatchResponse
              omega
            rw [and_iff_left hle]
            exact deliver_ringsBelow env cfg i p st

theorem processFrom_ringsBelow (env : Env) (cfg : Config) (bufs : List Packet) (i : Nat) (st : St) :
    (processFrom env cfg i bufs st).RingsBelow cfg.nbQueues <-> st.RingsBelow cfg.nbQueues ∧
        (cfg.asksDispatcher = true -> forall p, p ∈ bufs -> dispatchResponse ≤ p.dispatch) := by
  induction bufs generalizing i st with
  | nil => simp [processFrom]
  | cons p rest ih =>
      rw [processFrom, ih, processPacket_ringsBelow, List.forall_mem_cons, and_assoc]
      apply and_congr_right
      intro _
      exact imp_and.symm

/-!
## Batches
-/

def St.HandedOnce (st : St) (b : Buf) : Prop :=
  st.handed.count b = 1

structure Conserves (nbQueues : Nat) (bufs : List Packet) (st : St) : Prop where
  packets : forall i, i < bufs.length -> st.HandedOnce (.input i)
  clones : forall segs, segs ∈ st.made -> st.HandedOnce (.clone segs)
  nothing_else : forall b, b ∈ st.handed ->
    (exists i, i < bufs.length ∧ b = .input i) ∨ exists segs, segs ∈ st.made ∧ b = .clone segs
  rings : st.RingsBelow nbQueues

theorem Ledger.nodup_made {batch held : List Buf} (h : Ledger batch held st) : st.made.Nodup := by
  have hdisjoint := (List.nodup_flatten.mp h.segs_nodup).2
  apply hdisjoint.imp_of_mem
  intro segs segs' hsegs _ hdis heq
  rcases List.exists_mem_of_ne_nil segs (h.nonempty segs hsegs) with ⟨n, hn⟩
  exact hdis hn (heq ▸ hn)

theorem Ledger.handed_nodup {n : Nat} (h : Ledger (inputs 0 n) [] st) : st.handed.Nodup := by
  have hbalance := h.balance
  rw [List.append_nil] at hbalance
  rw [hbalance.nodup_iff, List.nodup_append']
  refine ⟨nodup_inputs 0 n, ?_, ?_⟩
  · exact h.nodup_made.map fun _ _ heq => Buf.clone.inj heq
  · intro b hinput hclone
    rcases mem_inputs.mp hinput with ⟨j, rfl, _⟩
    rcases List.mem_map.mp hclone with ⟨segs, _, heq⟩
    contradiction

theorem Ledger.conserves {bufs : List Packet} (h : Ledger (inputs 0 bufs.length) [] st)
    (hrings : st.RingsBelow nbQueues) : Conserves nbQueues bufs st := by
  have hbalance := h.balance
  rw [List.append_nil] at hbalance
  constructor
  · intro i hi
    apply List.count_eq_one_of_mem h.handed_nodup
    rw [hbalance.mem_iff, List.mem_append]
    exact Or.inl (mem_inputs.mpr ⟨i, rfl, Nat.zero_le i, by rwa [Nat.zero_add]⟩)
  · intro segs hsegs
    apply List.count_eq_one_of_mem h.handed_nodup
    rw [hbalance.mem_iff, List.mem_append]
    exact Or.inr (List.mem_map_of_mem hsegs)
  · intro b hb
    rw [hbalance.mem_iff, List.mem_append] at hb
    rcases hb with hinput | hclone
    · rcases mem_inputs.mp hinput with ⟨i, rfl, _, hi⟩
      exact Or.inl ⟨i, by rwa [Nat.zero_add] at hi, rfl⟩
    · rcases List.mem_map.mp hclone with ⟨segs, hsegs, rfl⟩
      exact Or.inr ⟨segs, hsegs, rfl⟩
  · exact hrings

/--
Every packet of a batch and every clone made for it is handed to exactly one place,
through ring indices of the port's queues only, if and only if no result of the
dispatcher is below `FF_DISPATCH_RESPONSE`.
-/
theorem receive_path_conservation (env : Env) (cfg : Config) (bufs : List Packet) :
    Conserves cfg.nbQueues bufs (processPackets env cfg bufs) <->
      (cfg.asksDispatcher = true -> forall p, p ∈ bufs -> dispatchResponse ≤ p.dispatch) := by
  have hstart : St.RingsBelow cfg.nbQueues St.start := by
    intro r hr
    contradiction
  have hrings := processFrom_ringsBelow env cfg bufs 0 St.start
  rw [and_iff_right hstart] at hrings
  constructor
  · intro h
    exact hrings.mp h.rings
  · intro h
    exact ((Ledger.start _).processFrom env cfg bufs 0).conserves (hrings.mpr h)

/-- A dispatcher that returns -3 for the only packet: the ring before the first one is used. -/
theorem receive_path_conservation_fails_negative : ¬ Conserves 2 [⟨0, -3, .unknown⟩]
      (processPackets ⟨fun _ => true, fun _ => true⟩
        ⟨2, 0, false, true, false, false, false, false, false⟩ [⟨0, -3, .unknown⟩]) := by
  intro h
  have hring := h.rings (-3) (by decide)
  revert hring
  decide

end Dispatch
end FStackLite
