import FStackLite.Packet.ReceiveOwnership

/-!
# The length and the bytes of a received packet

The mbufs of a received packet point at the bytes of its segments, so that the
bytes and the lengths of the single mbufs are always right.  The length of the
whole packet passes through an `unsigned short` on its way to the header.
-/

namespace FStackLite
namespace Packet

open Foundation

/-- The sum of `data_len` over a packet. -/
def totalDataLen (s : Sys) (segs : List RteRef) : Nat :=
  (segs.map fun q => (s.rtes q).dataLen.toNat).sum

/-- The packet `segs` with head `r` and the chain `ms` with header `m` are the same packet. -/
structure SameContent (s : Sys) (r : RteRef) (segs : List RteRef) (s' : Sys) (m : MbufRef)
    (ms : List MbufRef) : Prop where
  pktLen : (s'.mbufs m).pkthdrLen.toInt = (s.rtes r).pktLen.toNat
  mLen : (s'.mbufs m).pkthdrLen.toInt = totalLen s' ms
  bytes : dataOf s' ms = segs.flatMap (segmentBytes s)

variable {s s' : Sys} {segs : List RteRef}

theorem totalLen_of_covers {ms : List MbufRef}
    (h : List.Forall₂ (fun q x => Covers s q (s'.mbufs x)) segs ms) :
    totalLen s' ms = totalDataLen s segs := by
  induction h with
  | nil => rfl
  | @cons q x segs ms hcovers _ ih =>
      unfold totalLen totalDataLen at ih ⊢
      rw [List.map_cons, List.sum_cons, List.map_cons, List.sum_cons, hcovers.mLen, ih]

theorem dataOf_of_covers (hmem : s'.mem = s.mem) {ms : List MbufRef}
    (h : List.Forall₂ (fun q x => Covers s q (s'.mbufs x)) segs ms) :
    dataOf s' ms = segs.flatMap (segmentBytes s) := by
  induction h with
  | nil => rfl
  | @cons q x segs ms hcovers _ ih =>
      unfold dataOf at ih ⊢
      rw [List.flatMap_cons, List.flatMap_cons, ih, hcovers.mData, hcovers.mLen, hmem]
      rfl

theorem toInt_shortened (len : BitVec 32) :
    ((len.setWidth 16).setWidth 32).toInt = ((len.toNat % 2 ^ 16 : Nat) : Int) := by
  have hshort : ((len.setWidth 16).setWidth 32).toNat = len.toNat % 2 ^ 16 := by
    rw [BitVec.toNat_setWidth, BitVec.toNat_setWidth]
    omega
  rw [BitVec.toInt_eq_toNat_of_lt (by omega), hshort]

theorem sameContent_iff {r : RteRef} {m : MbufRef} {tail : List MbufRef}
    (h : Received r segs s m tail s') (hlen : (s.rtes r).pktLen.toNat = totalDataLen s segs) :
    SameContent s r segs s' m (m :: tail) <-> (s.rtes r).pktLen.toNat < 2 ^ 16 := by
  have hheader : (s'.mbufs m).pkthdrLen.toInt = (((s.rtes r).pktLen.toNat % 2 ^ 16 : Nat) : Int) := by
    rw [h.pkthdrLen]
    exact toInt_shortened _
  have hsum : totalLen s' (m :: tail) = (s.rtes r).pktLen.toNat := by
    rw [totalLen_of_covers h.covers, hlen]
  constructor
  · intro hsame
    have hpkt := hsame.pktLen
    rw [hheader] at hpkt
    omega
  · intro hshort
    have hexact : (s'.mbufs m).pkthdrLen.toInt = ((s.rtes r).pktLen.toNat : Int) := by
      rw [hheader, Nat.mod_eq_of_lt hshort]
    constructor
    · exact hexact
    · rw [hsum]
      exact hexact
    · exact dataOf_of_covers h.only.mem h.covers

/-- A received packet keeps its length and its bytes exactly if it is shorter than 64 KiB. -/
theorem receive_content (env : Env) (s : Sys) (r : RteRef) (segs : List RteRef)
    (hchain : Chain (rteNext s.rtes) (some r) segs)
    (hlen : (s.rtes r).pktLen.toNat = totalDataLen s segs)
    (hserves : ZoneServes env s segs.length) :
    exists m tail s', Converges (fun n => dpdkMbufToFf env n r s) (some m, s') ∧
      Chain s'.mNext (some m) (m :: tail) ∧
      (SameContent s r segs s' m (m :: tail) <-> (s.rtes r).pktLen.toNat < 2 ^ 16) := by
  rcases dpdkMbufToFf_served hchain hserves with ⟨m, tail, s', hconv, hresult⟩
  exact ⟨m, tail, s', hconv, hresult.chain, sameContent_iff hresult hlen⟩

theorem receive_content_pair :
    exists m tail s', Converges (fun n => dpdkMbufToFf (walkingEnv (fun _ => true) fun _ => true)
        n 1 arrivedPair) (some m, s') ∧ Chain s'.mNext (some m) (m :: tail) ∧
      SameContent arrivedPair 1 [1, 2] s' m (m :: tail) := by
  rcases receive_content (walkingEnv (fun _ => true) fun _ => true) arrivedPair 1 [1, 2]
    arrivedPair_chain rfl (fun _ _ => rfl) with ⟨m, tail, s', hconv, hchain, hiff⟩
  exact ⟨m, tail, s', hconv, hchain, hiff.mpr (by decide)⟩

def arrivedLong : Sys :=
  { arrivedPair with
    rtes := fun r =>
      { twoSegments r with
        dataLen := if r = 1 then 65535 else 1
        pktLen := 65536 } }

/-- The header of a packet of 65536 bytes says that it is empty. -/
theorem receive_content_long : Chain (rteNext arrivedLong.rtes) (some 1) [1, 2] ∧
    (arrivedLong.rtes 1).pktLen.toNat = totalDataLen arrivedLong [1, 2] ∧
    exists m tail s', Converges (fun n => dpdkMbufToFf (walkingEnv (fun _ => true) fun _ => true)
        n 1 arrivedLong) (some m, s') ∧
      Chain s'.mNext (some m) (m :: tail) ∧ (s'.mbufs m).pkthdrLen = 0 ∧
      ¬ SameContent arrivedLong 1 [1, 2] s' m (m :: tail) := by
  have hchain : Chain (rteNext arrivedLong.rtes) (some 1) [1, 2] := arrivedPair_chain
  have hserves : ZoneServes (walkingEnv (fun _ => true) fun _ => true) arrivedLong
      [1, 2].length := fun _ _ => rfl
  refine ⟨hchain, by decide, ?_⟩
  rcases dpdkMbufToFf_served hchain hserves with ⟨m, tail, s', hconv, hresult⟩
  have hheader : (s'.mbufs m).pkthdrLen = 0 := by
    rw [hresult.pkthdrLen]
    decide
  refine ⟨m, tail, s', hconv, hresult.chain, hheader, ?_⟩
  intro hsame
  have hpkt := hsame.pktLen
  rw [hheader] at hpkt
  contradiction

end Packet
end FStackLite
