import FStackLite.Foundation.Chunks
import FStackLite.Packet.Transmit

/-!
# The bytes of a packet that is transmitted

`dpdk_ff_to_mbuf` and `ff_dpdk_if_send` copy the bytes of an mbuf chain into
segments of 2048 bytes.  The first takes a new segment at the end of a pass, the
second at the beginning; the invariant of both loops says that the segments
filled so far are full and hold the bytes in front of the offset.
-/

namespace FStackLite
namespace Packet

open Foundation

/-!
## The packet
-/

/-- The packet at `head`, with these segments, bytes and length. -/
structure Segmented (s : Sys) (head : RteRef) (segs : List RteRef) (bytes : List UInt8) :
    Prop where
  chain : Chain (rteNext s.rtes) (some head) segs
  data : segs.flatMap (segmentBytes s) = bytes
  pktLen : (s.rtes head).pktLen.toNat = bytes.length
  front : forall q, q ∈ segs.dropLast -> (s.rtes q).dataLen.toNat = 2048
  last : forall q, segs.getLast? = some q ->
    1 ≤ (s.rtes q).dataLen.toNat ∧ (s.rtes q).dataLen.toNat ≤ 2048
  nbSegs : (s.rtes head).nbSegs.toNat = segs.length

theorem length_segmentBytes (s : Sys) (q : RteRef) :
    (segmentBytes s q).length = (s.rtes q).dataLen.toNat :=
  Memory.length_read _ _ _

theorem Segmented.chunked {s : Sys} {head : RteRef} {segs : List RteRef}
    {bytes : List UInt8} (h : Segmented s head segs bytes) :
    Chunked 2048 (segs.map (segmentBytes s)) := by
  rcases List.eq_nil_or_concat' segs with hnil | ⟨front, z, hsegs⟩
  · have hchain := h.chain
    rw [hnil] at hchain
    exact absurd hchain.nil_inv (Option.some_ne_none head)
  · subst hsegs
    rw [List.map_append]
    have hlast := h.last z (by rw [List.getLast?_append]; rfl)
    apply Chunked.snoc
    · intro c hc
      rcases List.mem_map.mp hc with ⟨q, hq, rfl⟩
      rw [length_segmentBytes]
      exact h.front q (by rw [List.dropLast_concat]; exact hq)
    · rw [length_segmentBytes]
      exact hlast.1
    · rw [length_segmentBytes]
      exact hlast.2

theorem Segmented.same_segments {s s' : Sys} {head head' : RteRef} {segs segs' : List RteRef}
    {bytes : List UInt8} (h : Segmented s head segs bytes) (h' : Segmented s' head' segs' bytes) :
    segs.map (segmentBytes s) = segs'.map (segmentBytes s') := by
  apply h.chunked.unique h'.chunked
  rw [← List.flatMap_def, ← List.flatMap_def, h.data, h'.data]

/-!
## The invariant
-/

/--
In front of a pass: the segments `done` are full and hold the bytes up to `off`,
and the source has not changed.
-/
structure Filling (bytes : List UInt8) (ms : List MbufRef) (head : RteRef) (total : BitVec 32)
    (done : List RteRef) (off : Nat) (s : Sys) : Prop where
  full : forall c, c ∈ done.map (segmentBytes s) -> c.length = 2048
  flat : (done.map (segmentBytes s)).flatten = bytes.take off
  off : off = 2048 * done.length
  nbSegs : (s.rtes head).nbSegs = BitVec.ofNat 16 done.length
  pktLen : (s.rtes head).pktLen = total
  source : dataOf s ms = bytes

structure Complete (bytes : List UInt8) (head : RteRef) (total : BitVec 32)
    (segs : List RteRef) (s : Sys) : Prop where
  chunked : Chunked 2048 (segs.map (segmentBytes s))
  flat : (segs.map (segmentBytes s)).flatten = bytes
  nbSegs : (s.rtes head).nbSegs = BitVec.ofNat 16 segs.length
  pktLen : (s.rtes head).pktLen = total

section Fill

variable {head q : RteRef} {len : BitVec 32} {mem : Memory} {s : Sys}

theorem fillSegment_dataOff (x : RteRef) :
    ((fillSegment head q len mem s).rtes x).dataOff = (s.rtes x).dataOff := by
  unfold fillSegment
  rw [setDataLen_member RteMbuf.dataOff (fun _ _ => rfl),
    countSegment_member RteMbuf.dataOff (fun _ _ => rfl)]

theorem fillSegment_pktLen (x : RteRef) :
    ((fillSegment head q len mem s).rtes x).pktLen = (s.rtes x).pktLen := by
  unfold fillSegment
  rw [setDataLen_member RteMbuf.pktLen (fun _ _ => rfl),
    countSegment_member RteMbuf.pktLen (fun _ _ => rfl)]

theorem fillSegment_nbSegs :
    ((fillSegment head q len mem s).rtes head).nbSegs = (s.rtes head).nbSegs + 1 := by
  unfold fillSegment
  rw [setDataLen_member RteMbuf.nbSegs (fun _ _ => rfl)]
  unfold countSegment
  rw [Sys.setRte_rtes_self]

theorem fillSegment_dataLen_self :
    ((fillSegment head q len mem s).rtes q).dataLen = len.setWidth 16 := by
  unfold fillSegment setDataLen
  rw [Sys.setRte_rtes_self]

theorem fillSegment_dataLen_of_ne {x : RteRef} (h : x ≠ q) :
    ((fillSegment head q len mem s).rtes x).dataLen = (s.rtes x).dataLen := by
  unfold fillSegment setDataLen
  rw [Sys.setRte_rtes_of_ne _ _ h, countSegment_member RteMbuf.dataLen (fun _ _ => rfl)]

theorem fillSegment_mtod (x : RteRef) :
    (fillSegment head q len mem s).rtePktmbufMtod x = s.rtePktmbufMtod x := by
  unfold Sys.rtePktmbufMtod
  rw [fillSegment_dataOff]

theorem segmentBytes_fill_self {bytes : List UInt8} (hlen : bytes.length = len.toNat)
    (hshort : len.toNat ≤ 2048) :
    segmentBytes (fillSegment head q len (s.mem.write (s.rtePktmbufMtod q) bytes) s) q = bytes := by
  unfold segmentBytes
  rw [fillSegment_dataLen_self, fillSegment_mtod]
  have hwidth : (len.setWidth 16).toNat = bytes.length := by
    rw [BitVec.toNat_setWidth, hlen]
    omega
  rw [hwidth]
  exact Memory.read_write_self s.mem (s.rtePktmbufMtod q) bytes

theorem segmentBytes_fill_of_ne {bytes : List UInt8} {x : RteRef} (h : x ≠ q) :
    segmentBytes (fillSegment head q len (s.mem.write (s.rtePktmbufMtod q) bytes) s) x =
      segmentBytes s x := by
  unfold segmentBytes
  rw [fillSegment_dataLen_of_ne h, fillSegment_mtod]
  apply Memory.read_write_of_ne
  intro hblock
  cases hblock
  contradiction

end Fill

section Steps

variable {env : Env} {bytes : List UInt8} {ms : List MbufRef} {m : MbufRef} {s0 s : Sys}
  {head q : RteRef} {total len : BitVec 32} {done : List RteRef} {off : Nat}

/-- The state after a pass has copied `len` bytes into the segment `q`. -/
def passed (head q : RteRef) (len : BitVec 32) (bytes : List UInt8) (off : Nat) (s : Sys) : Sys :=
  fillSegment head q len
    (s.mem.write (s.rtePktmbufMtod q) ((bytes.drop off).take len.toNat)) s

theorem passed_segments (hq : q ∉ done) (hlen : off + len.toNat ≤ bytes.length)
    (hshort : len.toNat ≤ 2048) : (done ++ [q]).map (segmentBytes (passed head q len bytes off s)) =
      done.map (segmentBytes s) ++ [(bytes.drop off).take len.toNat] := by
  have hcopied : ((bytes.drop off).take len.toNat).length = len.toNat := by
    rw [List.length_take, List.length_drop]
    omega
  rw [List.map_append, List.map_singleton]
  unfold passed
  rw [segmentBytes_fill_self hcopied hshort]
  congr 1
  apply List.map_congr_left
  intro x hx
  exact segmentBytes_fill_of_ne fun heq => hq (heq ▸ hx)

theorem Filling.passed_flat (h : Filling bytes ms head total done off s) (hq : q ∉ done)
    (hlen : off + len.toNat ≤ bytes.length) (hshort : len.toNat ≤ 2048) :
    ((done ++ [q]).map (segmentBytes (passed head q len bytes off s))).flatten =
      bytes.take (off + len.toNat) := by
  rw [passed_segments hq hlen hshort, List.flatten_append, h.flat, List.flatten_singleton,
    ← List.take_add]

theorem Filling.passed_nbSegs (h : Filling bytes ms head total done off s) :
    ((passed head q len bytes off s).rtes head).nbSegs = BitVec.ofNat 16 (done ++ [q]).length := by
  unfold passed
  rw [fillSegment_nbSegs, h.nbSegs, List.length_append, List.length_singleton, BitVec.ofNat_add]
  rfl

theorem Built.last_not_mem (hbuilt : Built s0 head (done ++ [q]) s) : q ∉ done := by
  have hnodup := hbuilt.chain.nodup
  intro hmem
  exact (List.nodup_append.mp hnodup).2.2 q hmem q List.mem_cons_self rfl

theorem Filling.pass (h : Filling bytes ms head total done off s)
    (hbuilt : Built s0 head (done ++ [q]) s) (hsend : Sendable s0 m ms)
    (hfull : len.toNat = 2048) (hlen : off + 2048 ≤ bytes.length) :
    Filling bytes ms head total (done ++ [q]) (off + 2048) (passed head q len bytes off s) := by
  have hq := hbuilt.last_not_mem
  have hlen' : off + len.toNat ≤ bytes.length := by omega
  constructor
  · intro c hc
    rw [passed_segments hq hlen' (by omega)] at hc
    rcases List.mem_append.mp hc with hc | hc
    · exact h.full c hc
    · rw [List.mem_singleton.mp hc, List.length_take, List.length_drop]
      omega
  · rw [h.passed_flat hq hlen' (by omega), hfull]
  · rw [h.off, List.length_append, List.length_singleton]
    omega
  · exact h.passed_nbSegs
  · rw [passed, fillSegment_pktLen]
    exact h.pktLen
  · have havoid : Avoids s ms (s.rtePktmbufMtod q).block :=
      hbuilt.avoids hsend (List.mem_append_right done List.mem_cons_self)
    rw [← h.source]
    exact dataIn_write havoid s.mem _

theorem Filling.finish (h : Filling bytes ms head total done off s)
    (hbuilt : Built s0 head (done ++ [q]) s) (hpos : 0 < len.toNat) (hshort : len.toNat ≤ 2048)
    (hlen : off + len.toNat = bytes.length) :
    Complete bytes head total (done ++ [q]) (passed head q len bytes off s) := by
  have hq := hbuilt.last_not_mem
  constructor
  · rw [passed_segments hq (by omega) hshort]
    apply Chunked.snoc h.full
    · rw [List.length_take, List.length_drop]
      omega
    · rw [List.length_take, List.length_drop]
      omega
  · rw [h.passed_flat hq (by omega) hshort, hlen, List.take_length]
  · exact h.passed_nbSegs
  · rw [passed, fillSegment_pktLen]
    exact h.pktLen

theorem Filling.link {front : List RteRef} {p : RteRef}
    (h : Filling bytes ms head total (front ++ [p]) off s)
    (hbuilt : Built s0 head (front ++ [p]) s) :
    Filling bytes ms head total (front ++ [p]) off (newSegment env p s) := by
  have hmember : forall {α : Type} (member : RteMbuf -> α),
      (forall b next, member { b with next := next } = member b) ->
      forall x, x ∈ front ++ [p] -> member ((newSegment env p s).rtes x) = member (s.rtes x) := by
    intro α member hkeep x hx
    have hne : x ≠ s.pool.item env.pool := fun heq => hbuilt.item_not_mem (heq ▸ hx)
    unfold newSegment
    rw [setNext_member member hkeep, Sys.setRte_rtes_of_ne _ _ hne]
  have hbytes : (front ++ [p]).map (segmentBytes (newSegment env p s)) =
      (front ++ [p]).map (segmentBytes s) := by
    apply List.map_congr_left
    intro x hx
    unfold segmentBytes Sys.rtePktmbufMtod
    rw [hmember RteMbuf.dataOff (fun _ _ => rfl) x hx,
      hmember RteMbuf.dataLen (fun _ _ => rfl) x hx]
    rfl
  constructor
  · rw [hbytes]
    exact h.full
  · rw [hbytes]
    exact h.flat
  · exact h.off
  · rw [hmember RteMbuf.nbSegs (fun _ _ => rfl) head hbuilt.head_mem]
    exact h.nbSegs
  · rw [hmember RteMbuf.pktLen (fun _ _ => rfl) head hbuilt.head_mem]
    exact h.pktLen
  · exact h.source

theorem filling_newHead (env : Env) (ms : List MbufRef) (len : BitVec 32) (s : Sys) :
    Filling (dataOf s ms) ms (s.pool.item env.pool) len [] 0 (newHead env len s) := by
  constructor
  · intro c hc
    contradiction
  · rfl
  · rfl
  · rw [newHead_rtes_self]
    rfl
  · rw [newHead_rtes_self]
  · rfl

theorem Complete.segmented {segs : List RteRef} {s' : Sys}
    (h : Complete bytes head total segs s) (hbuilt : Built s0 head segs s)
    (hdoc : RteDocumented env) (hguard : Guarded s0 ms) (hfree : freeAll env ms s = some s')
    (htotal : total.toNat = bytes.length) (hcount : segs.length < 2 ^ 16) :
    Segmented s' head segs bytes := by
  rcases hbuilt.survives hdoc hguard hfree with ⟨hrtes, -, -, hmem, -⟩
  have hbytes : segs.map (segmentBytes s') = segs.map (segmentBytes s) := by
    apply List.map_congr_left
    intro q hq
    unfold segmentBytes Sys.rtePktmbufMtod
    rw [hrtes q hq, hmem]
  have hchunked := h.chunked
  have hflat := h.flat
  rw [← hbytes] at hchunked hflat
  constructor
  · apply hbuilt.chain.congr
    intro q hq
    unfold rteNext
    rw [hrtes q hq]
  · rw [List.flatMap_def]
    exact hflat
  · rw [hrtes head hbuilt.head_mem, h.pktLen, htotal]
  · intro q hq
    rw [← length_segmentBytes]
    apply hchunked.front
    rw [← List.map_dropLast]
    exact List.mem_map_of_mem hq
  · intro q hq
    rw [← length_segmentBytes]
    apply hchunked.getLast
    rw [List.getLast?_map, hq]
    rfl
  · rw [hrtes head hbuilt.head_mem, h.nbSegs, BitVec.toNat_ofNat]
    exact Nat.mod_eq_of_lt hcount

end Steps

/-!
## The loop of `dpdk_ff_to_mbuf`
-/

/-- The requests for the next `n` segments are all served. -/
def PoolServes (env : Env) (s : Sys) (n : Nat) : Prop :=
  forall i, i < n -> env.pool.ok (s.pool.asked + i) = true

/--
A chain whose header has the right length, neither empty nor longer than 65535
segments, with enough segments in the pool.
-/
structure Fits (env : Env) (s : Sys) (m : MbufRef) (ms : List MbufRef) : Prop where
  header : (s.mbufs m).pkthdrLen.toNat = totalLen s ms
  pos : 1 ≤ totalLen s ms
  short : totalLen s ms ≤ 2048 * 65535
  serves : PoolServes env s ((totalLen s ms + 2047) / 2048)

theorem length_dataOf (s : Sys) (ms : List MbufRef) : (dataOf s ms).length = totalLen s ms :=
  length_dataIn s.mem s ms

section Loops

variable {env : Env} {s0 s : Sys} {head : RteRef} {m : MbufRef} {ms : List MbufRef}
    {done : List RteRef} {x : IfSendLoop}

theorem Fits.covered (h : Fits env s0 m ms) : Covered s0 m ms := by
  have hheader := h.header
  have hshort := h.short
  constructor
  · omega
  · omega

def TxComplete (s0 : Sys) (head : RteRef) (m : MbufRef) (ms : List MbufRef) (s : Sys) : Prop :=
  exists segs, Complete (dataOf s0 ms) head (s0.mbufs m).pkthdrLen segs s ∧
    Built s0 head segs s ∧ segs.length < 2 ^ 16

def Sent (s0 : Sys) (head : RteRef) (ms : List MbufRef) (out : Option RteRef × Sys) : Prop :=
  out.1 = some head ∧ exists segs, Segmented out.2 head segs (dataOf s0 ms)

theorem TxComplete.sent (hdoc : RteDocumented env) (hsend : Sendable s0 m ms)
    (hfits : Fits env s0 m ms) (h : TxComplete s0 head m ms s) :
    exists s', Converges (fun n => ffMbufFree env n (some m) s) s' ∧
      Sent s0 head ms (some head, s') := by
  rcases h with ⟨segs, hcomplete, hbuilt, hcount⟩
  rcases hbuilt.mFreem hsend with ⟨s', hconv, hfree⟩
  have htotal : (s0.mbufs m).pkthdrLen.toNat = (dataOf s0 ms).length := by
    rw [length_dataOf, hfits.header]
  exact ⟨s', hconv, rfl, segs, hcomplete.segmented hbuilt hdoc hsend.guarded hfree htotal hcount⟩

/-- The segment `q` is linked behind the full segments `done` and is to be filled. -/
structure InPass (env : Env) (s0 : Sys) (head : RteRef) (m : MbufRef) (ms : List MbufRef)
    (done : List RteRef) (q : RteRef) (off : Nat) (s : Sys) : Prop where
  filling : Filling (dataOf s0 ms) ms head (s0.mbufs m).pkthdrLen done off s
  built : Built s0 head (done ++ [q]) s
  served : Served env s0 (done ++ [q]) s

/-- The segments up to `p` are full, and bytes are left for another one. -/
structure Between (env : Env) (s0 : Sys) (head : RteRef) (m : MbufRef) (ms : List MbufRef)
    (front : List RteRef) (p : RteRef) (off : Nat) (s : Sys) : Prop where
  filling : Filling (dataOf s0 ms) ms head (s0.mbufs m).pkthdrLen (front ++ [p]) off s
  built : Built s0 head (front ++ [p]) s
  served : Served env s0 (front ++ [p]) s
  ok : env.pool.ok s.pool.asked = true

section Pass

variable {done front : List RteRef} {p q : RteRef} {off : Nat} {s : Sys} {len : BitVec 32}

theorem InPass.copydata (h : InPass env s0 head m ms done q off s)
    (hsend : Sendable s0 m ms) (hfits : Fits env s0 m ms) {off32 : BitVec 32}
    (hoff : off32.toNat = off) (hlen : off + len.toNat ≤ totalLen s0 ms) :
    Converges (fun n => ffMbufCopydata n m (s.rtePktmbufMtod q) off32 len s) (0, { s with
        mem := s.mem.write (s.rtePktmbufMtod q)
          (((dataOf s0 ms).drop off).take len.toNat) }) := by
  have hcopy := h.built.copydata hsend hfits.covered
    (List.mem_append_right done List.mem_cons_self)
    (show off32.toNat + len.toNat ≤ _ by rw [hfits.header, hoff]; exact hlen)
  rw [h.filling.source, hoff] at hcopy
  exact hcopy

theorem InPass.complete (h : InPass env s0 head m ms done q off s) (hfits : Fits env s0 m ms)
    (hpos : 0 < len.toNat) (hfull : len.toNat ≤ 2048) (hlen : off + len.toNat = totalLen s0 ms) :
    TxComplete s0 head m ms (passed head q len (dataOf s0 ms) off s) := by
  have hbytes := length_dataOf s0 ms
  have hoffset := h.filling.off
  have hshort := hfits.short
  refine ⟨done ++ [q], h.filling.finish h.built hpos hfull (by omega),
    h.built.fillSegment (List.mem_append_right done List.mem_cons_self) _ _, ?_⟩
  rw [List.length_append, List.length_singleton]
  omega

theorem InPass.between (h : InPass env s0 head m ms done q off s) (hsend : Sendable s0 m ms)
    (hfits : Fits env s0 m ms) (hfull : len.toNat = 2048) (hlen : off + 2048 < totalLen s0 ms) :
    Between env s0 head m ms done q (off + 2048) (passed head q len (dataOf s0 ms) off s) := by
  have hbytes := length_dataOf s0 ms
  have hoffset := h.filling.off
  have hserved : Served env s0 (done ++ [q]) (passed head q len (dataOf s0 ms) off s) :=
    h.served.fillSegment head q _ _
  refine ⟨h.filling.pass h.built hsend hfull (by omega),
    h.built.fillSegment (List.mem_append_right done List.mem_cons_self) _ _, hserved, ?_⟩
  rw [hserved.asked, List.length_append, List.length_singleton]
  apply hfits.serves
  omega

theorem Between.link (hdoc : RteDocumented env) (h : Between env s0 head m ms front p off s) :
    InPass env s0 head m ms (front ++ [p]) (s.pool.item env.pool) off (newSegment env p s) := by
  refine ⟨h.filling.link h.built, ?_, h.served.newSegment h.ok _⟩
  have hnew := h.built.newSegment hdoc
  rw [List.append_cons] at hnew
  exact hnew

end Pass

theorem inPass_newHead (hdoc : RteDocumented env) (hfits : Fits env s0 m ms) :
    InPass env s0 (s0.pool.item env.pool) m ms [] (s0.pool.item env.pool) 0
      (newHead env (s0.mbufs m).pkthdrLen s0) := by
  have hpos := hfits.pos
  exact ⟨filling_newHead env ms _ s0, built_newHead hdoc _ s0,
    served_newHead (hfits.serves 0 (by omega)) _⟩

/-- In front of every pass of `dpdk_ff_to_mbuf`. -/
def TxInv (env : Env) (s0 : Sys) (head : RteRef) (m : MbufRef) (ms : List MbufRef)
    (x : TxLoop) : Prop :=
  x.ffOff.toNat + x.ffMLen.toNat = totalLen s0 ms ∧
    ((0 < x.ffMLen.toNat ∧
        exists done, InPass env s0 head m ms done x.dpdkMP x.ffOff.toNat x.sys) ∨
      (x.ffMLen.toNat = 0 ∧ TxComplete s0 head m ms x.sys))

def txPassed (head : RteRef) (bytes : List UInt8) (x : TxLoop) : TxLoop :=
  txFilled head (x.sys.mem.write (x.sys.rtePktmbufMtod x.dpdkMP)
    ((bytes.drop x.ffOff.toNat).take (txChunk x.ffMLen).toNat)) x

theorem txBody_pass (hdoc : RteDocumented env) (hsend : Sendable s0 m ms)
    (hfits : Fits env s0 m ms) {x : TxLoop} (hpos : 0 < x.ffMLen.toNat)
    (hlen : x.ffOff.toNat + x.ffMLen.toNat = totalLen s0 ms)
    (hpass : InPass env s0 head m ms done x.dpdkMP x.ffOff.toNat x.sys) :
    exists x', Converges (fun n => dpdkFfToMbufBody env m head n x) (LoopStep.next x') ∧
      TxInv env s0 head m ms x' ∧ x'.ffMLen.toNat < x.ffMLen.toNat := by
  have hshort := hfits.short
  have hchunk := txChunk_toNat x.ffMLen
  have hcopy := hpass.copydata hsend hfits rfl (show _ + (txChunk x.ffMLen).toNat ≤ _ by omega)
  have hleft : (txPassed head (dataOf s0 ms) x).ffMLen.toNat = _ := txFilled_ffMLen head _ x
  have hoff : (txPassed head (dataOf s0 ms) x).ffOff.toNat = _ := txFilled_ffOff head _ (by omega)
  have hpos' : 0 < x.ffMLen := BitVec.lt_def.mpr hpos
  cases Nat.lt_or_ge 2048 x.ffMLen.toNat with
  | inr hend =>
      have hcomplete : TxComplete s0 head m ms (txPassed head (dataOf s0 ms) x).sys :=
        hpass.complete hfits (by omega) (by omega) (by omega)
      have hstop : ¬ 0 < (txPassed head (dataOf s0 ms) x).ffMLen := by
        intro hmore
        have hmore' : 0 < (txPassed head (dataOf s0 ms) x).ffMLen.toNat := BitVec.lt_def.mp hmore
        omega
      exact ⟨txPassed head (dataOf s0 ms) x,
        dpdkFfToMbufBody_copied hpos' hcopy (dpdkFfToMbufExtend_end hstop),
        ⟨by omega, Or.inr ⟨by omega, hcomplete⟩⟩, by omega⟩
  | inl hmore =>
      have hnext : Between env s0 head m ms done x.dpdkMP (x.ffOff.toNat + 2048)
          (txPassed head (dataOf s0 ms) x).sys :=
        hpass.between hsend hfits (by omega) (by omega)
      have hgo : 0 < (txPassed head (dataOf s0 ms) x).ffMLen := by
        apply BitVec.lt_def.mpr
        show 0 < (txPassed head (dataOf s0 ms) x).ffMLen.toNat
        omega
      have hoffset : x.ffOff.toNat + 2048 = (txPassed head (dataOf s0 ms) x).ffOff.toNat := by
        omega
      rw [hoffset] at hnext
      refine ⟨_, dpdkFfToMbufBody_copied hpos' hcopy (dpdkFfToMbufExtend_served hgo hnext.ok),
        ⟨?_, Or.inl ⟨BitVec.lt_def.mp hgo, done ++ [x.dpdkMP], hnext.link hdoc⟩⟩, ?_⟩
      · show (txPassed head (dataOf s0 ms) x).ffOff.toNat +
          (txPassed head (dataOf s0 ms) x).ffMLen.toNat = _
        omega
      · show (txPassed head (dataOf s0 ms) x).ffMLen.toNat < _
        omega

theorem txBody_step (hdoc : RteDocumented env) (hsend : Sendable s0 m ms)
    (hfits : Fits env s0 m ms) (x : TxLoop) (hx : TxInv env s0 head m ms x) :
    (exists out, Converges (fun n => dpdkFfToMbufBody env m head n x) (LoopStep.done out) ∧
      Sent s0 head ms out) ∨
    (exists x', Converges (fun n => dpdkFfToMbufBody env m head n x) (LoopStep.next x') ∧
      TxInv env s0 head m ms x' ∧ x'.ffMLen.toNat < x.ffMLen.toNat) := by
  rcases hx with ⟨hlen, ⟨hpos, done, hin⟩ | ⟨hzero, hcomplete⟩⟩
  · exact Or.inr (txBody_pass hdoc hsend hfits hpos hlen hin)
  · have hend : ¬ 0 < x.ffMLen := by
      intro hpos
      have hpos' : 0 < x.ffMLen.toNat := BitVec.lt_def.mp hpos
      omega
    rcases hcomplete.sent hdoc hsend hfits with ⟨s', hfree, hsent⟩
    exact Or.inl ⟨_, dpdkFfToMbufBody_end hend hfree, hsent⟩

theorem dpdkFfToMbuf_sent (hdoc : RteDocumented env) (hsend : Sendable s0 m ms)
    (hfits : Fits env s0 m ms) : exists out, Converges (fun n => dpdkFfToMbuf env n m s0) out ∧
      Sent s0 (s0.pool.item env.pool) ms out := by
  have hfirst := hfits.pos
  have hok : env.pool.ok s0.pool.asked = true := hfits.serves 0 (by omega)
  have hlen : (ffMbufGetTotalLength m s0).toNat = totalLen s0 ms := hfits.header
  unfold dpdkFfToMbuf
  rw [rtePktmbufAlloc_of_ok hok]
  apply loop_converges_of_measure (fun x : TxLoop => x.ffMLen.toNat) (txBody_step hdoc hsend hfits)
  constructor
  · show 0 + (ffMbufGetTotalLength m s0).toNat = _
    omega
  · refine Or.inl ⟨?_, [], inPass_newHead hdoc hfits⟩
    show 0 < (ffMbufGetTotalLength m s0).toNat
    omega

/-!
## The loop of `ff_dpdk_if_send`
-/

theorem countSegment_mtod (head q : RteRef) (s : Sys) :
    (countSegment head s).rtePktmbufMtod q = s.rtePktmbufMtod q := by
  unfold Sys.rtePktmbufMtod
  rw [countSegment_member RteMbuf.dataOff (fun _ _ => rfl)]

theorem InPass.copydata_counted {q : RteRef} {off : Nat} {len off32 : BitVec 32}
    (h : InPass env s0 head m ms done q off s) (hsend : Sendable s0 m ms)
    (hfits : Fits env s0 m ms) (hoff : off32.toNat = off)
    (hlen : off + len.toNat ≤ totalLen s0 ms) :
    Converges (fun n => ffMbufCopydata n m ((countSegment head s).rtePktmbufMtod q) off32 len
        (countSegment head s)) (0, { countSegment head s with
        mem := s.mem.write (s.rtePktmbufMtod q)
          (((dataOf s0 ms).drop off).take len.toNat) }) := by
  have hcounted : Built s0 head (done ++ [q]) (countSegment head s) :=
    h.built.setRte h.built.head_mem rfl
  have hcopy := hcounted.copydata hsend hfits.covered
    (List.mem_append_right done List.mem_cons_self)
    (show off32.toNat + len.toNat ≤ _ by rw [hfits.header, hoff]; exact hlen)
  have hsource : dataOf (countSegment head s) ms = dataOf s0 ms := h.filling.source
  rw [hsource, hoff] at hcopy
  rw [countSegment_mtod] at hcopy ⊢
  exact hcopy

theorem ifSendChunk_toNat {x : BitVec 32} (h : x.toNat < 2 ^ 31) :
    (ifSendChunk x).toNat = min 2048 x.toNat := by
  have hint : x.toInt = x.toNat := BitVec.toInt_eq_toNat_of_lt (by omega)
  have hroom : rteMbufDefaultDataroom.toInt = 2048 := by decide
  unfold ifSendChunk
  rw [hint, hroom]
  split
  · show 2048 = min 2048 x.toNat
    omega
  · omega

/-- The variables after a pass that has filled the segment `q` of the state `s`. -/
def ifSendPassed (head q : RteRef) (bytes : List UInt8) (s : Sys) (x : IfSendLoop) : IfSendLoop :=
  { total := x.total - ifSendChunk x.total
    off := x.off + ifSendChunk x.total
    cur := none
    prev := some q
    sys := passed head q (ifSendChunk x.total) bytes x.off.toNat s }

theorem ffDpdkIfSendBody_pass (hsend : Sendable s0 m ms) (hfits : Fits env s0 m ms)
    (hpos : 0 < x.total.toNat) (hlen : x.off.toNat + x.total.toNat = totalLen s0 ms) {q : RteRef}
    {s1 : Sys} (hcur : ffDpdkIfSendCur env x = (some q, s1)) (hlink : linkSegment x.prev q s1 = s)
    (hpass : InPass env s0 head m ms done q x.off.toNat s) :
    Converges (fun n => ffDpdkIfSendBody env m head n x)
      (LoopStep.next (ifSendPassed head q (dataOf s0 ms) s x)) := by
  have hshort := hfits.short
  have hint : x.total.toInt = x.total.toNat := BitVec.toInt_eq_toNat_of_lt (by omega)
  have hchunk := ifSendChunk_toNat (x := x.total) (by omega)
  rcases hpass.copydata_counted hsend hfits rfl
    (show _ + (ifSendChunk x.total).toNat ≤ _ by omega) with ⟨n0, hcopy⟩
  refine ⟨n0, ?_⟩
  intro n hn
  have hcopied : ffMbufCopydata n m ((countSegment head s).rtePktmbufMtod q) x.off
      (ifSendChunk x.total) (countSegment head s) = some _ := hcopy n hn
  show ffDpdkIfSendBody env m head n x = _
  unfold ffDpdkIfSendBody
  rw [if_pos (show x.total.toInt > 0 by omega), hcur]
  simp only [hlink, hcopied]
  rfl

/-- In front of every pass of `ff_dpdk_if_send`. -/
def IfSendInv (env : Env) (s0 : Sys) (head : RteRef) (m : MbufRef) (ms : List MbufRef)
    (x : IfSendLoop) : Prop :=
  x.off.toNat + x.total.toNat = totalLen s0 ms ∧
    ((0 < x.total.toNat ∧ x.cur = some head ∧ x.prev = none ∧
        InPass env s0 head m ms [] head x.off.toNat x.sys) ∨
      (0 < x.total.toNat ∧ exists front p, x.cur = none ∧ x.prev = some p ∧
        Between env s0 head m ms front p x.off.toNat x.sys) ∨
      (x.total.toNat = 0 ∧ TxComplete s0 head m ms x.sys))

theorem ifSend_current (hdoc : RteDocumented env) (h : (x.cur = some head ∧ x.prev = none ∧
        InPass env s0 head m ms [] head x.off.toNat x.sys) ∨
      (exists front p, x.cur = none ∧ x.prev = some p ∧
        Between env s0 head m ms front p x.off.toNat x.sys)) :
    exists done q s1, ffDpdkIfSendCur env x = (some q, s1) ∧
      InPass env s0 head m ms done q x.off.toNat (linkSegment x.prev q s1) := by
  rcases h with ⟨hcur, hprev, hin⟩ | ⟨front, p, hcur, hprev, hbetween⟩
  · refine ⟨[], head, x.sys, ?_, ?_⟩
    · unfold ffDpdkIfSendCur
      rw [hcur]
    · rw [hprev]
      exact hin
  · have hnew : ffDpdkIfSendCur env x = x.sys.rtePktmbufAlloc env := by
      unfold ffDpdkIfSendCur
      rw [hcur]
    rw [rtePktmbufAlloc_of_ok hbetween.ok] at hnew
    refine ⟨front ++ [p], _, _, hnew, ?_⟩
    rw [hprev]
    exact hbetween.link hdoc

theorem ifSendBody_pass (hdoc : RteDocumented env) (hsend : Sendable s0 m ms)
    (hfits : Fits env s0 m ms) (hpos : 0 < x.total.toNat)
    (hlen : x.off.toNat + x.total.toNat = totalLen s0 ms) (h : (x.cur = some head ∧ x.prev = none ∧
        InPass env s0 head m ms [] head x.off.toNat x.sys) ∨
      (exists front p, x.cur = none ∧ x.prev = some p ∧
        Between env s0 head m ms front p x.off.toNat x.sys)) :
    exists x', Converges (fun n => ffDpdkIfSendBody env m head n x) (LoopStep.next x') ∧
      IfSendInv env s0 head m ms x' ∧ x'.total.toNat < x.total.toNat := by
  rcases ifSend_current hdoc h with ⟨done, q, s1, hcur, hin⟩
  have hshort := hfits.short
  have hchunk := ifSendChunk_toNat (x := x.total) (by omega)
  have hleft : (x.total - ifSendChunk x.total).toNat = x.total.toNat - min 2048 x.total.toNat := by
    rw [BitVec.toNat_sub_of_le (BitVec.le_def.mpr (by omega)), hchunk]
  have hoff : (x.off + ifSendChunk x.total).toNat = x.off.toNat + min 2048 x.total.toNat := by
    rw [BitVec.toNat_add_of_lt (by omega), hchunk]
  refine ⟨_, ffDpdkIfSendBody_pass hsend hfits hpos hlen hcur rfl hin, ⟨?_, ?_⟩, ?_⟩
  · show (x.off + ifSendChunk x.total).toNat + (x.total - ifSendChunk x.total).toNat = _
    omega
  · cases Nat.lt_or_ge 2048 x.total.toNat with
    | inr hend =>
        apply Or.inr
        apply Or.inr
        constructor
        · show (x.total - ifSendChunk x.total).toNat = 0
          omega
        · exact hin.complete hfits (by omega) (by omega) (by omega)
    | inl hmore =>
        apply Or.inr
        apply Or.inl
        constructor
        · show 0 < (x.total - ifSendChunk x.total).toNat
          omega
        · refine ⟨done, q, rfl, rfl, ?_⟩
          show Between env s0 head m ms done q (x.off + ifSendChunk x.total).toNat _
          have hoffset : (x.off + ifSendChunk x.total).toNat = x.off.toNat + 2048 := by omega
          rw [hoffset]
          exact hin.between hsend hfits (by omega) (by omega)
  · show (x.total - ifSendChunk x.total).toNat < _
    omega

theorem ifSendBody_step (hdoc : RteDocumented env) (hsend : Sendable s0 m ms)
    (hfits : Fits env s0 m ms) (x : IfSendLoop) (hx : IfSendInv env s0 head m ms x) :
    (exists out, Converges (fun n => ffDpdkIfSendBody env m head n x) (LoopStep.done out) ∧
      Sent s0 head ms out) ∨
    (exists x', Converges (fun n => ffDpdkIfSendBody env m head n x) (LoopStep.next x') ∧
      IfSendInv env s0 head m ms x' ∧ x'.total.toNat < x.total.toNat) := by
  rcases hx with ⟨hlen, ⟨hpos, hin⟩ | ⟨hpos, hbetween⟩ | ⟨hzero, hcomplete⟩⟩
  · exact Or.inr (ifSendBody_pass hdoc hsend hfits hpos hlen (Or.inl hin))
  · exact Or.inr (ifSendBody_pass hdoc hsend hfits hpos hlen (Or.inr hbetween))
  · have hint : x.total.toInt = x.total.toNat := BitVec.toInt_eq_toNat_of_lt (by omega)
    have hend : ¬ x.total.toInt > 0 := by omega
    rcases hcomplete.sent hdoc hsend hfits with ⟨s', hfree, hsent⟩
    have hbody : forall n, ffDpdkIfSendBody env m head n x =
        (ffMbufFree env n (some m) x.sys).map fun s' => LoopStep.done (some head, s') := by
      intro n
      unfold ffDpdkIfSendBody
      rw [if_neg hend]
    simp only [hbody]
    exact Or.inl ⟨_, hfree.map _, hsent⟩

theorem ffDpdkIfSend_sent (hdoc : RteDocumented env) (hsend : Sendable s0 m ms)
    (hfits : Fits env s0 m ms) :
    exists out, Converges (fun n => ffDpdkIfSend env n m (s0.mbufs m).pkthdrLen s0) out ∧
      Sent s0 (s0.pool.item env.pool) ms out := by
  have hheader := hfits.header
  have hfirst := hfits.pos
  have hok : env.pool.ok s0.pool.asked = true := hfits.serves 0 (by omega)
  unfold ffDpdkIfSend
  rw [rtePktmbufAlloc_of_ok hok]
  apply loop_converges_of_measure (fun x : IfSendLoop => x.total.toNat)
    (ifSendBody_step hdoc hsend hfits)
  constructor
  · show 0 + (s0.mbufs m).pkthdrLen.toNat = _
    omega
  · refine Or.inl ⟨?_, rfl, rfl, inPass_newHead hdoc hfits⟩
    show 0 < (s0.mbufs m).pkthdrLen.toNat
    omega

end Loops

/-!
## The two packets
-/

/--
With enough segments in the pool, `dpdk_ff_to_mbuf` cuts the bytes of an mbuf
chain into segments of 2048 bytes, and `ff_dpdk_if_send` cuts them in the same
way.
-/
theorem transmit_content (env : Env) (hdoc : RteDocumented env) (s : Sys) (m : MbufRef)
    (ms : List MbufRef) (hsend : Sendable s m ms) (hfits : Fits env s m ms) : exists head segs s',
      Converges (fun n => dpdkFfToMbuf env n m s) (some head, s') ∧
      Segmented s' head segs (dataOf s ms) ∧ (s'.rtes head).pktLen = (s.mbufs m).pkthdrLen ∧
      exists head' segs' s'',
        Converges (fun n => ffDpdkIfSend env n m (s.mbufs m).pkthdrLen s) (some head', s'') ∧
        Segmented s'' head' segs' (dataOf s ms) ∧
        segs'.map (segmentBytes s'') = segs.map (segmentBytes s') := by
  rcases dpdkFfToMbuf_sent hdoc hsend hfits with ⟨⟨ret, s'⟩, hconv, hret, segs, hpacket⟩
  rcases ffDpdkIfSend_sent hdoc hsend hfits with ⟨⟨ret', s''⟩, hconv', hret', segs', hpacket'⟩
  cases hret
  cases hret'
  refine ⟨_, segs, s', hconv, hpacket, ?_, _, segs', s'', hconv', hpacket',
    hpacket'.same_segments hpacket⟩
  apply BitVec.eq_of_toNat_eq
  rw [hpacket.pktLen, length_dataOf, hfits.header]

theorem transmit_content_two_segments : (dataOf longPacket [1, 2]).length = 2500 ∧
      exists head segs s',
        Converges (fun n => dpdkFfToMbuf (walkingEnv (fun _ => true) fun _ => true) n 1
          longPacket) (some head, s') ∧ Segmented s' head segs (dataOf longPacket [1, 2]) := by
  have hfits : Fits (walkingEnv (fun _ => true) fun _ => true) longPacket 1 [1, 2] :=
    ⟨by decide, by decide, by decide, fun _ _ => rfl⟩
  rcases transmit_content (walkingEnv (fun _ => true) fun _ => true)
    (walkingEnv_documented _ _) longPacket 1 [1, 2] longPacket_sendable hfits with
    ⟨head, segs, s', hconv, hpacket, -⟩
  exact ⟨length_dataOf longPacket [1, 2], head, segs, s', hconv, hpacket⟩

end Packet
end FStackLite
