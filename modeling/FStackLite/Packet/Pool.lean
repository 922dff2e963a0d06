import FStackLite.Packet.State
import Mathlib.Data.List.Perm.Subperm

/-!
# A packet pool that behaves as documented

The smallest pool: a fresh item is one above all items in use, and
`rte_pktmbuf_free` walks the links of a packet, giving back one segment after
the other.  Which requests are served is left open.
-/

namespace FStackLite
namespace Packet

open Foundation

def firstUnused (used : List Nat) : Nat :=
  used.foldr max 0 + 1

theorem lt_firstUnused {used : List Nat} {x : Nat} (h : x ∈ used) : x < firstUnused used := by
  unfold firstUnused
  induction used with
  | nil => contradiction
  | cons y used ih =>
      rw [List.foldr_cons]
      cases h with
      | head => exact Nat.lt_succ_of_le (Nat.le_max_left _ _)
      | tail _ hmem =>
          have hbelow := ih hmem
          omega

/-- The allocator that serves the requests `ok` says. -/
def firstUnusedAllocator (ok : Nat -> Bool) : Allocator Nat :=
  { ok := ok
    pick := fun _ used => firstUnused used
    fresh := fun _ _ hmem => Nat.lt_irrefl _ (lt_firstUnused hmem) }

/-- At most `n` segments along the links. -/
def walk (rtes : RteRef -> RteMbuf) : Nat -> Option RteRef -> List RteRef
  | 0, _ => []
  | _ + 1, none => []
  | n + 1, some r => r :: walk rtes n (rteNext rtes r)

theorem walk_of_chain {rtes : RteRef -> RteMbuf} {start : Option RteRef}
    {segs : List RteRef} (h : Chain (rteNext rtes) start segs) {n : Nat}
    (hn : segs.length ≤ n) : walk rtes n start = segs := by
  induction h generalizing n with
  | nil => cases n <;> rfl
  | @cons r rest tail ih =>
      cases n with
      | zero => contradiction
      | succ n => rw [walk, ih (Nat.le_of_succ_le_succ hn)]

theorem walk_within {rtes : RteRef -> RteMbuf} {inside : RteRef -> Prop}
    (h : LinksWithin rtes inside) (n : Nat) {start : Option RteRef}
    (hstart : forall r, start = some r -> inside r) :
    forall q, q ∈ walk rtes n start -> inside q := by
  induction n generalizing start with
  | zero =>
      intro q hq
      contradiction
  | succ n ih =>
      intro q hq
      cases start with
      | none => contradiction
      | some r =>
          cases hq with
          | head => exact hstart _ rfl
          | tail _ hq => exact ih (h r (hstart r rfl)) q hq

def walkingEnv (zoneOk poolOk : Nat -> Bool) : Env :=
  { zone := firstUnusedAllocator zoneOk
    pool := firstUnusedAllocator poolOk
    rteReset := fun _ => { next := none, dataOff := 128, dataLen := 0, pktLen := 0, nbSegs := 1 }
    rteFree := fun used rtes r => (walk rtes used.length (some r), rtes) }

theorem walkingEnv_documented (zoneOk poolOk : Nat -> Bool) :
    RteDocumented (walkingEnv zoneOk poolOk) := by
  constructor
  · intro old
    rfl
  · intro old
    rfl
  · intro used rtes r segs hchain hused
    have hlen : segs.length ≤ used.length := (List.subperm_of_subset hchain.nodup hused).length_le
    show (walk rtes used.length (some r)).Perm segs
    rw [walk_of_chain hchain hlen]
  · intro used rtes r inside hlinks hr
    apply walk_within hlinks used.length
    intro r' hr'
    cases hr'
    exact hr
  · intro used rtes r inside hlinks hr q hq
    rfl
  · intro used rtes r inside hlinks hr
    exact hlinks

/-!
## A packet of two segments
-/

def blankMbuf : Mbuf :=
  { mNext := none
    mNextpkt := none
    mData := { block := Block.storage 0, off := 0 }
    mLen := 0
    hasExt := false
    hasPkthdr := false
    noFree := false
    pkthdrLen := 0
    ext :=
      { extCount := 0
        extCnt := none
        extBuf := { block := Block.storage 0, off := 0 }
        extSize := 0
        extType := ExtType.zero
        embref := false
        extFree := none
        extArg1 := none } }

/-- The segments `1` and `2`, with 2 bytes and 1 byte of data. -/
def twoSegments (r : RteRef) : RteMbuf :=
  { next := if r = 1 then some 2 else none
    dataOff := 128
    dataLen := if r = 1 then 2 else 1
    pktLen := 3
    nbSegs := 2 }

/-- The packet `1`, `2` has arrived; no mbuf is in use. -/
def arrivedPair : Sys :=
  { mbufs := fun _ => blankMbuf
    zone := { used := [], asked := 0, served := [], freed := [], nodup := List.nodup_nil }
    rtes := twoSegments
    pool := { used := [1, 2], asked := 2, served := [1, 2], freed := [], nodup := by decide }
    mem := fun _ _ => 0
    rteFrees := []
    mFrees := []
    releases := [] }

theorem arrivedPair_chain : Chain (rteNext arrivedPair.rtes) (some 1) [1, 2] :=
  Chain.cons (show Chain (rteNext arrivedPair.rtes) (some 2) [2] from
    Chain.cons (show Chain (rteNext arrivedPair.rtes) none [] from Chain.nil))

/-!
## Chains of mbufs
-/

/-- The mbuf `1` holds a packet of 3 bytes; no segment is in use. -/
def threeBytes : Sys :=
  { mbufs := fun m =>
      { blankMbuf with
        mData := { block := Block.inner m, off := 0 }
        mLen := 3
        hasPkthdr := true
        pkthdrLen := 3 }
    zone := { used := [1], asked := 1, served := [1], freed := [], nodup := List.nodup_singleton 1 }
    rtes := twoSegments
    pool := { used := [], asked := 0, served := [], freed := [], nodup := List.nodup_nil }
    mem := fun _ o => UInt8.ofNat o
    rteFrees := []
    mFrees := []
    releases := [] }

/-- The mbufs `1` and `2` hold a packet of 2500 bytes, which is more than a segment takes. -/
def longPacket : Sys :=
  { threeBytes with
    mbufs := fun m =>
      { threeBytes.mbufs m with
        mNext := if m = 1 then some 2 else none
        mLen := if m = 1 then 1500 else 1000
        pkthdrLen := 2500 }
    zone := { used := [1, 2], asked := 2, served := [1, 2], freed := [], nodup := by decide } }

theorem longPacket_chain : Chain longPacket.mNext (some 1) [1, 2] :=
  Chain.cons (show Chain longPacket.mNext (some 2) [2] from
    Chain.cons (show Chain longPacket.mNext none [] from Chain.nil))

end Packet
end FStackLite
