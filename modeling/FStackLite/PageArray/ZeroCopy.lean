import Mathlib.Algebra.Order.BigOperators.Group.List
import Mathlib.Algebra.Order.Ring.Nat
import FStackLite.TxQueue.Ledger

/-!
# Transmission without copies

In the build with a page array, `ff_if_send_onepkt` makes a packet that refers to the data of
a chain of BSD mbufs.  The data are in pages of the array, whose physical addresses are known,
or in the buffers of a packet that was received.
-/

namespace FStackLite
namespace PageArray

open TxQueue (Port St)

/-!
## Pages
-/

abbrev Addr := UInt64

abbrev Memory := Addr -> UInt8

/-- The pages from `ff_page_start` to `ff_page_end`. -/
structure Region where
  pageStart : Addr
  /-- `stklist_size (&ff_mpage_ctl)`, the number of pages. -/
  size : UInt32
  mpagePhy : UInt32 -> Addr

def Region.pageEnd (r : Region) : Addr :=
  r.pageStart + 4096 * r.size.toUInt64

def ffChkVma (r : Region) (virtaddr : Addr) : Bool :=
  r.pageStart < virtaddr && virtaddr < r.pageEnd

def Region.pageOf (r : Region) (virtaddr : Addr) : UInt32 :=
  ((virtaddr - r.pageStart) >>> 12).toUInt32

/-- A result of `none` is a panic. -/
def ffMemVirt2phy (r : Region) (virtaddr : Addr) : Option Addr :=
  if r.size ≤ r.pageOf virtaddr then
    none
  else
    some (r.mpagePhy (r.pageOf virtaddr) + (virtaddr &&& 4095))

/-!
## Packets and chains
-/

structure RteSeg where
  bufAddr : Addr
  bufPhysaddr : Addr
  dataOff : UInt16
  dataLen : UInt16
deriving DecidableEq

structure RtePkt where
  segs : List RteSeg
  pktLen : UInt32
  nbSegs : UInt16
deriving DecidableEq

structure Received where
  pkt : RtePkt
  counted : pkt.nbSegs.toNat = pkt.segs.length
deriving DecidableEq

inductive Storage where
  | page
  /-- An `EXT_DISPOSABLE` buffer with an `ext_free`, whose `ext_arg1` is `src`. -/
  | received (src : Received)
deriving DecidableEq

structure Mbuf where
  mData : Addr
  mLen : Nat
  storage : Storage
deriving DecidableEq

def lengths (mbufs : List Mbuf) : Nat :=
  (mbufs.map Mbuf.mLen).sum

/-- An mbuf and those behind it.  `total` is its `m_pkthdr.len`, which is an `int`. -/
structure BsdChain where
  first : Mbuf
  rest : List Mbuf
  total : Nat
  total_eq : total = lengths (first :: rest)
  total_lt : total < 2 ^ 31

def BsdChain.mbufs (chain : BsdChain) : List Mbuf :=
  chain.first :: chain.rest

/-!
## Conversions
-/

/-- What DPDK does: whether the allocations succeed, and the clones it makes. -/
structure Env where
  alloc : Nat -> Bool
  clone : RtePkt -> Option RtePkt

inductive Failure where
  | nomem
  | panic
deriving DecidableEq

def ffRteFrmExtcl (m : Mbuf) : Option Received :=
  match m.storage with
  | .page => none
  | .received src => some src

def ffExtclToRte (env : Env) (m : Mbuf) : Option RtePkt :=
  (ffRteFrmExtcl m).bind fun src => env.clone src.pkt

/-- The loop of `ff_bsd_to_rte`, which has made `k` segments. -/
def bsdToRteLoop (env : Env) (r : Region) : Nat -> List Mbuf -> Except Failure (List RteSeg)
  | _, [] => .ok []
  | k, m :: rest =>
      if env.alloc k then
        match ffMemVirt2phy r m.mData with
        | none => .error .panic
        | some phys =>
            (bsdToRteLoop env r (k + 1) rest).map
              (⟨m.mData, phys, 0, UInt16.ofNat m.mLen⟩ :: ·)
      else
        .error .nomem

def ffBsdToRte (env : Env) (r : Region) (chain : BsdChain) : Except Failure RtePkt :=
  (bsdToRteLoop env r 0 chain.mbufs).map fun segs =>
    ⟨segs, UInt32.ofNat chain.total, UInt16.ofNat segs.length⟩

/-- The packet that `ff_if_send_onepkt` makes of a chain. -/
def convert (env : Env) (r : Region) (chain : BsdChain) : Except Failure RtePkt :=
  if ffChkVma r chain.first.mData then
    ffBsdToRte env r chain
  else
    match ffExtclToRte env chain.first with
    | none => .error .panic
    | some head => .ok head

/-- `ff_if_send_onepkt`, where `none` is a panic or a write behind the end of the table. -/
def ffIfSendOnepkt (env : Env) (r : Region) (s : St RtePkt BsdChain) (port : Port)
    (m : Option BsdChain) : Option (St RtePkt BsdChain × Nat) :=
  match m with
  | none => s.ffIfSendOnepkt port none none
  | some chain =>
      match convert env r chain with
      | .error .panic => none
      | .error .nomem => s.ffIfSendOnepkt port (some chain) none
      | .ok head => s.ffIfSendOnepkt port (some chain) (some head)

/-!
## Contents
-/

def bytesAt (mem : Memory) (a : Addr) (n : Nat) : List UInt8 :=
  (List.range n).map fun i => mem (a + UInt64.ofNat i)

def Mbuf.bytes (mem : Memory) (m : Mbuf) : List UInt8 :=
  bytesAt mem m.mData m.mLen

def BsdChain.bytes (mem : Memory) (chain : BsdChain) : List UInt8 :=
  chain.mbufs.flatMap (Mbuf.bytes mem)

def RteSeg.bytes (mem : Memory) (seg : RteSeg) : List UInt8 :=
  bytesAt mem (seg.bufAddr + seg.dataOff.toUInt64) seg.dataLen.toNat

def RtePkt.bytes (mem : Memory) (pkt : RtePkt) : List UInt8 :=
  pkt.segs.flatMap (RteSeg.bytes mem)

structure Carries (mem : Memory) (chain : BsdChain) (pkt : RtePkt) : Prop where
  bytes : pkt.bytes mem = chain.bytes mem
  pktLen : pkt.pktLen.toNat = chain.total
  whole : pkt.pktLen.toNat = (pkt.bytes mem).length
  nbSegs : pkt.nbSegs.toNat = pkt.segs.length

def RteSeg.data (seg : RteSeg) : Addr × UInt16 :=
  (seg.bufAddr + seg.dataOff.toUInt64, seg.dataLen)

structure IsClone (src head : RtePkt) : Prop where
  data : head.segs.map RteSeg.data = src.segs.map RteSeg.data
  pktLen : head.pktLen = src.pktLen
  nbSegs : head.nbSegs = src.nbSegs

structure Env.Succeeds (env : Env) : Prop where
  alloc : forall k, env.alloc k = true
  clone : forall src : Received, exists head, env.clone src.pkt = some head ∧ IsClone src.pkt head

/--
The chains that are sent as they are: those whose mbufs are all in pages, the first one not
at the very start of them; and those that are what was received with the first mbuf.
-/
inductive Convertible (r : Region) (mem : Memory) (chain : BsdChain) : Prop where
  | pages (first : ffChkVma r chain.first.mData = true)
      (paged : forall m, m ∈ chain.mbufs -> r.pageOf m.mData < r.size)
      (short : forall m, m ∈ chain.mbufs -> m.mLen < 2 ^ 16)
      (few : chain.mbufs.length < 2 ^ 16)
  | received (src : Received) (first : ffChkVma r chain.first.mData = false)
      (storage : chain.first.storage = .received src)
      (bytes : src.pkt.bytes mem = chain.bytes mem)
      (pktLen : src.pkt.pktLen.toNat = chain.total)

/-!
## The page array
-/

section

variable {env : Env} {r : Region} {mem : Memory} {chain : BsdChain} {mbufs : List Mbuf}
    {head : RtePkt}

def segOf (r : Region) (m : Mbuf) : RteSeg :=
  ⟨m.mData, r.mpagePhy (r.pageOf m.mData) + (m.mData &&& 4095), 0, UInt16.ofNat m.mLen⟩

theorem ffMemVirt2phy_of_lt {a : Addr} (h : r.pageOf a < r.size) :
    ffMemVirt2phy r a = some (r.mpagePhy (r.pageOf a) + (a &&& 4095)) :=
  if_neg (UInt32.not_le.mpr h)

theorem bsdToRteLoop_of_paged (halloc : forall k, env.alloc k = true)
    (h : forall m, m ∈ mbufs -> r.pageOf m.mData < r.size) (k : Nat) :
    bsdToRteLoop env r k mbufs = .ok (mbufs.map (segOf r)) := by
  induction mbufs generalizing k with
  | nil => rfl
  | cons m rest ih =>
      have hrest := ih (fun m' hm' => h m' (List.mem_cons_of_mem m hm')) (k + 1)
      rw [bsdToRteLoop, if_pos (halloc k), ffMemVirt2phy_of_lt (h m List.mem_cons_self)]
      simp only [hrest, Except.map, List.map_cons, segOf]

theorem paged_of_bsdToRteLoop {segs : List RteSeg} {k : Nat}
    (h : bsdToRteLoop env r k mbufs = .ok segs) :
    forall m, m ∈ mbufs -> r.pageOf m.mData < r.size := by
  induction mbufs generalizing k segs with
  | nil =>
      intro m hm
      contradiction
  | cons m rest ih =>
      rw [bsdToRteLoop] at h
      split at h
      · split at h
        · contradiction
        · next phys hphys =>
            have hpage : r.pageOf m.mData < r.size := by
              unfold ffMemVirt2phy at hphys
              split at hphys
              · contradiction
              · next hlt =>
                  exact UInt32.not_le.mp hlt
            cases hrest : bsdToRteLoop env r (k + 1) rest with
            | error e =>
                rw [hrest] at h
                contradiction
            | ok segs' =>
                intro m' hm'
                rcases List.mem_cons.mp hm' with rfl | hm'
                · exact hpage
                · exact ih hrest m' hm'
      · contradiction

theorem segOf_bytes (m : Mbuf) : (segOf r m).bytes mem = bytesAt mem m.mData (m.mLen % 2 ^ 16) := by
  simp [segOf, RteSeg.bytes]

theorem bytesAt_length (a : Addr) (n : Nat) : (bytesAt mem a n).length = n := by
  simp [bytesAt]

theorem length_bytes : (chain.bytes mem).length = chain.total := by
  rw [chain.total_eq, BsdChain.bytes, List.length_flatMap]
  simp only [Mbuf.bytes, bytesAt_length]
  rfl

theorem Carries.of_bytes {pkt : RtePkt} (hbytes : pkt.bytes mem = chain.bytes mem)
    (hpktLen : pkt.pktLen.toNat = chain.total) (hsegs : pkt.nbSegs.toNat = pkt.segs.length) :
    Carries mem chain pkt := by
  refine ⟨hbytes, hpktLen, ?_, hsegs⟩
  rw [hbytes, length_bytes, hpktLen]

theorem lengths_mod_le (mbufs : List Mbuf) :
    (mbufs.map fun m => m.mLen % 2 ^ 16).sum ≤ lengths mbufs :=
  List.sum_le_sum fun m _ => Nat.mod_le m.mLen _

theorem short_of_lengths (h : (mbufs.map fun m => m.mLen % 2 ^ 16).sum = lengths mbufs) :
    forall m, m ∈ mbufs -> m.mLen < 2 ^ 16 := by
  induction mbufs with
  | nil =>
      intro m hm
      contradiction
  | cons m rest ih =>
      have hle := lengths_mod_le rest
      have hm : m.mLen % 2 ^ 16 ≤ m.mLen := Nat.mod_le m.mLen _
      simp only [lengths, List.map_cons, List.sum_cons] at h hle
      intro m' hm'
      rcases List.mem_cons.mp hm' with rfl | hm'
      · have heq : m'.mLen % 2 ^ 16 = m'.mLen := by omega
        rw [<- heq]
        exact Nat.mod_lt _ (by decide)
      · apply ih _ m' hm'
        unfold lengths
        omega

theorem segs_bytes_iff (mbufs : List Mbuf) :
    (mbufs.map (segOf r)).flatMap (RteSeg.bytes mem) = mbufs.flatMap (Mbuf.bytes mem) <->
      forall m, m ∈ mbufs -> m.mLen < 2 ^ 16 := by
  constructor
  · intro hbytes
    apply short_of_lengths
    have hlength := congrArg List.length hbytes
    simp only [List.flatMap_map, List.length_flatMap, segOf_bytes, Mbuf.bytes, bytesAt_length]
      at hlength
    exact hlength
  · intro hshort
    rw [List.flatMap_map]
    apply List.flatMap_congr
    intro m hm
    rw [segOf_bytes, Nat.mod_eq_of_lt (hshort m hm)]
    rfl

theorem carries_pages_iff : Carries mem chain ⟨chain.mbufs.map (segOf r), UInt32.ofNat chain.total,
        UInt16.ofNat (chain.mbufs.map (segOf r)).length⟩ <->
      (forall m, m ∈ chain.mbufs -> m.mLen < 2 ^ 16) ∧ chain.mbufs.length < 2 ^ 16 := by
  have htotal : (UInt32.ofNat chain.total).toNat = chain.total := by
    have hlt := chain.total_lt
    rw [UInt32.toNat_ofNat']
    exact Nat.mod_eq_of_lt (by omega)
  constructor
  · intro hcarries
    refine ⟨(segs_bytes_iff chain.mbufs).mp hcarries.bytes, ?_⟩
    have hsegs := hcarries.nbSegs
    simp only [List.length_map] at hsegs
    rw [<- hsegs]
    exact UInt16.toNat_lt _
  · rintro ⟨hshort, hfew⟩
    refine Carries.of_bytes ((segs_bytes_iff chain.mbufs).mpr hshort) htotal ?_
    simp only [List.length_map]
    rw [UInt16.toNat_ofNat']
    exact Nat.mod_eq_of_lt hfew

/-!
## Received packets
-/

theorem IsClone.bytes {src : RtePkt} (h : IsClone src head) : head.bytes mem = src.bytes mem := by
  have hbytes : forall pkt : RtePkt, pkt.bytes mem =
      (pkt.segs.map RteSeg.data).flatMap fun d => bytesAt mem d.1 d.2.toNat := by
    intro pkt
    rw [List.flatMap_map]
    rfl
  rw [hbytes, hbytes, h.data]

theorem IsClone.carries_iff {src : Received} (h : IsClone src.pkt head) : Carries mem chain head <->
      src.pkt.bytes mem = chain.bytes mem ∧ src.pkt.pktLen.toNat = chain.total := by
  rw [<- h.bytes, <- h.pktLen]
  constructor
  · intro hcarries
    exact ⟨hcarries.bytes, hcarries.pktLen⟩
  · rintro ⟨hbytes, hpktLen⟩
    apply Carries.of_bytes hbytes hpktLen
    have hlength := congrArg List.length h.data
    rw [List.length_map, List.length_map] at hlength
    rw [h.nbSegs, src.counted, hlength]

theorem convert_pages_iff (henv : env.Succeeds) (hfirst : ffChkVma r chain.first.mData = true) :
    convert env r chain = .ok head <-> (forall m, m ∈ chain.mbufs -> r.pageOf m.mData < r.size) ∧
        head = ⟨chain.mbufs.map (segOf r), UInt32.ofNat chain.total,
          UInt16.ofNat (chain.mbufs.map (segOf r)).length⟩ := by
  have hpaged : (forall m, m ∈ chain.mbufs -> r.pageOf m.mData < r.size) ->
      convert env r chain = .ok ⟨chain.mbufs.map (segOf r), UInt32.ofNat chain.total,
        UInt16.ofNat (chain.mbufs.map (segOf r)).length⟩ := by
    intro h
    rw [convert, if_pos hfirst, ffBsdToRte, bsdToRteLoop_of_paged henv.alloc h]
    rfl
  constructor
  · intro hok
    have hpages : forall m, m ∈ chain.mbufs -> r.pageOf m.mData < r.size := by
      rw [convert, if_pos hfirst, ffBsdToRte] at hok
      cases hloop : bsdToRteLoop env r 0 chain.mbufs with
      | error e =>
          rw [hloop] at hok
          contradiction
      | ok segs => exact paged_of_bsdToRteLoop hloop
    rw [hpaged hpages] at hok
    injection hok with hok
    exact ⟨hpages, hok.symm⟩
  · rintro ⟨hpages, rfl⟩
    exact hpaged hpages

theorem convert_received (hfirst : ffChkVma r chain.first.mData = false) {src : Received}
    (hstorage : chain.first.storage = .received src) (hclone : env.clone src.pkt = some head) :
    convert env r chain = .ok head := by
  rw [convert, hfirst, if_neg Bool.false_ne_true, ffExtclToRte, ffRteFrmExtcl, hstorage]
  simp only [Option.bind_some, hclone]

theorem convert_panics (hfirst : ffChkVma r chain.first.mData = false)
    (hstorage : chain.first.storage = .page) : convert env r chain = .error .panic := by
  rw [convert, hfirst, if_neg Bool.false_ne_true, ffExtclToRte, ffRteFrmExtcl, hstorage]
  rfl

theorem convert_carries_iff (henv : env.Succeeds) :
    (exists head, convert env r chain = .ok head ∧ Carries mem chain head) <->
      Convertible r mem chain := by
  constructor
  · rintro ⟨head, hconvert, hcarries⟩
    cases hfirst : ffChkVma r chain.first.mData with
    | true =>
        rcases (convert_pages_iff henv hfirst).mp hconvert with ⟨hpaged, rfl⟩
        rcases carries_pages_iff.mp hcarries with ⟨hshort, hfew⟩
        exact .pages hfirst hpaged hshort hfew
    | false =>
        cases hstorage : chain.first.storage with
        | page =>
            rw [convert_panics hfirst hstorage] at hconvert
            contradiction
        | received src =>
            rcases henv.clone src with ⟨head', hclone, hisClone⟩
            rw [convert_received hfirst hstorage hclone] at hconvert
            injection hconvert with hconvert
            subst hconvert
            rcases hisClone.carries_iff.mp hcarries with ⟨hbytes, hpktLen⟩
            exact .received src hfirst hstorage hbytes hpktLen
  · intro hchain
    cases hchain with
    | pages hfirst hpaged hshort hfew =>
        exact ⟨_, (convert_pages_iff henv hfirst).mpr ⟨hpaged, rfl⟩,
          carries_pages_iff.mpr ⟨hshort, hfew⟩⟩
    | received src hfirst hstorage hbytes hpktLen =>
        rcases henv.clone src with ⟨head, hclone, hisClone⟩
        exact ⟨head, convert_received hfirst hstorage hclone,
          hisClone.carries_iff.mpr ⟨hbytes, hpktLen⟩⟩

/-!
## The table
-/

variable {s : St RtePkt BsdChain} {port : Port}

/-- The chain stands in the next row of the table, with a packet that carries it. -/
def Queued (mem : Memory) (s : St RtePkt BsdChain) (port : Port) (chain : BsdChain)
    (sent : St RtePkt BsdChain × Nat) : Prop :=
  sent.2 = (s.port port).table.len + 1 ∧
    exists head, (sent.1.port port).table.slots true sent.2 =
        (s.port port).table.slots true (s.port port).table.len ++ [(head, some chain)] ∧
      Carries mem chain head

theorem ffIfSendOnepkt_ok (hlen : (s.port port).table.len < maxPktBurst)
    (hconvert : convert env r chain = .ok head) :
    exists s', ffIfSendOnepkt env r s port (some chain) = some (s', (s.port port).table.len + 1) ∧
      (s'.port port).table.slots true ((s.port port).table.len + 1) =
        (s.port port).table.slots true (s.port port).table.len ++ [(head, some chain)] := by
  have hsend : ffIfSendOnepkt env r s port (some chain) =
      s.ffIfSendOnepkt port (some chain) (some head) := by
    simp only [ffIfSendOnepkt, hconvert]
  rw [hsend, St.ffIfSendOnepkt_converted hlen]
  refine ⟨_, rfl, ?_⟩
  rw [St.setPort_self]
  exact TxQueue.slots_setBoth true (s.port port).table hlen head chain

theorem zero_copy_content (henv : env.Succeeds) (hlen : (s.port port).table.len < maxPktBurst) :
    (exists sent, ffIfSendOnepkt env r s port (some chain) = some sent ∧
        Queued mem s port chain sent) <-> Convertible r mem chain := by
  rw [<- convert_carries_iff henv]
  constructor
  · rintro ⟨sent, hsend, hcount, head, hslots, hcarries⟩
    cases hconvert : convert env r chain with
    | error e =>
        simp only [ffIfSendOnepkt, hconvert] at hsend
        cases e with
        | panic => contradiction
        | nomem =>
            injection hsend with hsend
            rw [<- hsend] at hcount
            contradiction
    | ok head' =>
        rcases ffIfSendOnepkt_ok hlen hconvert with ⟨s', hsend', hslots'⟩
        rw [hsend'] at hsend
        injection hsend with hsend
        subst hsend
        rw [hslots'] at hslots
        have hrow := List.append_cancel_left hslots
        injection hrow with hrow _
        injection hrow with hhead _
        exact ⟨head', rfl, hhead ▸ hcarries⟩
  · rintro ⟨head, hconvert, hcarries⟩
    rcases ffIfSendOnepkt_ok hlen hconvert with ⟨s', hsend, hslots⟩
    exact ⟨_, hsend, rfl, head, hslots, hcarries⟩

end

def sixteenPages : Region :=
  ⟨0x10000, 16, fun page => 0x10000 + 4096 * page.toUInt64⟩

def willing : Env :=
  ⟨fun _ => true, some⟩

theorem willing_succeeds : willing.Succeeds :=
  ⟨fun _ => rfl, fun src => ⟨src.pkt, rfl, rfl, rfl, rfl⟩⟩

def twoPages : BsdChain :=
  ⟨⟨0x10100, 14, .page⟩, [⟨0x12000, 100, .page⟩], 114, by decide, by decide⟩

theorem zero_copy_content_pages :
    exists sent, ffIfSendOnepkt willing sixteenPages (TxQueue.start ⟨[], 0, 0⟩) 0 (some twoPages) =
        some sent ∧ Queued (fun a => a.toUInt8) (TxQueue.start ⟨[], 0, 0⟩) 0 twoPages sent :=
  (zero_copy_content willing_succeeds (by decide)).mpr
    (.pages (by decide) (by decide) (by decide) (by decide))

def fourBytes : Received :=
  ⟨⟨[⟨0x80000, 0x80000, 0, 4⟩], 4, 1⟩, rfl⟩

def stripped : BsdChain :=
  ⟨⟨0x80002, 2, .received fourBytes⟩, [], 2, by decide, by decide⟩

/-- What is sent is what was received. -/
theorem zero_copy_sends_received : convert willing sixteenPages stripped = .ok fourBytes.pkt ∧
      ¬ Carries (fun a => a.toUInt8) stripped fourBytes.pkt := by
  refine ⟨by decide, ?_⟩
  intro hcarries
  exact absurd hcarries.bytes (by decide)

-- data behind a page that are in the buffer of a received packet make the sender panic
example :
    convert willing sixteenPages ⟨⟨0x10100, 14, .page⟩, [⟨0x80000, 4, .received fourBytes⟩], 18,
      by decide, by decide⟩ = .error .panic := by
  decide

end PageArray
end FStackLite
