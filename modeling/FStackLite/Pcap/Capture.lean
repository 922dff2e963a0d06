import FStackLite.Packet.ReceiveContent

/-!
# Capture files

`ff_enable_pcap` starts a file with the header of the pcap format, and `ff_dump_packets` appends
one record for a packet, whose bytes it takes from the segments of the chain.  Opening the file and
writing to it always succeed here.
-/

namespace FStackLite
namespace Pcap

open Foundation Packet

def le (n v : Nat) : List UInt8 :=
  (List.range n).map fun k => UInt8.ofNat (v / 256 ^ k)

structure FileHeader where
  magic : UInt32
  versionMajor : UInt16
  versionMinor : UInt16
  thiszone : UInt32
  sigfigs : UInt32
  snaplen : UInt32
  linktype : UInt32
deriving DecidableEq

def FileHeader.bytes (h : FileHeader) : List UInt8 :=
  le 4 h.magic.toNat ++ le 2 h.versionMajor.toNat ++ le 2 h.versionMinor.toNat ++
    le 4 h.thiszone.toNat ++ le 4 h.sigfigs.toNat ++ le 4 h.snaplen.toNat ++ le 4 h.linktype.toNat

structure Pkthdr where
  sec : UInt32
  usec : UInt32
  caplen : UInt32
  len : UInt32

def Pkthdr.bytes (h : Pkthdr) : List UInt8 :=
  le 4 h.sec.toNat ++ le 4 h.usec.toNat ++ le 4 h.caplen.toNat ++ le 4 h.len.toNat

def pcapFileHdr : FileHeader where
  magic := 0xA1B2C3D4
  versionMajor := 0x0002
  versionMinor := 0x0004
  thiszone := 0
  sigfigs := 0
  snaplen := 0x0000FFFF
  linktype := 0x00000001

def ffEnablePcap (_old : List UInt8) : List UInt8 :=
  pcapFileHdr.bytes

/-- What `gettimeofday` says. -/
structure Timeval where
  tvSec : Int
  tvUsec : Int

def pcapHdr (s : Sys) (ts : Timeval) (pkt : RteRef) : Pkthdr where
  sec := UInt32.ofInt ts.tvSec
  usec := UInt32.ofInt ts.tvUsec
  caplen := ⟨(s.rtes pkt).pktLen⟩
  len := ⟨(s.rtes pkt).pktLen⟩

/-- The loop over the segments, which has no result when the fuel is used up. -/
def dumpSegments (s : Sys) : Nat -> Option RteRef -> List UInt8 -> Option (List UInt8)
  | 0, _, _ => none
  | _ + 1, none, file => some file
  | fuel + 1, some pkt, file => dumpSegments s fuel (s.rtes pkt).next (file ++ segmentBytes s pkt)

def ffDumpPackets (s : Sys) (ts : Timeval) (pkt : RteRef) (file : List UInt8) (fuel : Nat) :
    Option (List UInt8) :=
  dumpSegments s fuel (some pkt) (file ++ (pcapHdr s ts pkt).bytes)

/-!
## The format
-/

def number : List UInt8 -> Nat
  | [] => 0
  | b :: bs => b.toNat + 256 * number bs

def takeBytes (n : Nat) (file : List UInt8) : Option (List UInt8 × List UInt8) :=
  if n ≤ file.length then some (file.take n, file.drop n) else none

def takeNum (n : Nat) (file : List UInt8) : Option (Nat × List UInt8) :=
  (takeBytes n file).map fun r => (number r.1, r.2)

structure Record where
  sec : UInt32
  usec : UInt32
  len : UInt32
  data : List UInt8

def readFileHeader (file : List UInt8) : Option (FileHeader × List UInt8) := do
  let (magic, file) <- takeNum 4 file
  let (versionMajor, file) <- takeNum 2 file
  let (versionMinor, file) <- takeNum 2 file
  let (thiszone, file) <- takeNum 4 file
  let (sigfigs, file) <- takeNum 4 file
  let (snaplen, file) <- takeNum 4 file
  let (linktype, file) <- takeNum 4 file
  some (⟨UInt32.ofNat magic, UInt16.ofNat versionMajor, UInt16.ofNat versionMinor,
    UInt32.ofNat thiszone, UInt32.ofNat sigfigs, UInt32.ofNat snaplen, UInt32.ofNat linktype⟩, file)

/-- A record, with the bytes that its header announces, and what is behind it. -/
def readRecord (file : List UInt8) : Option (Record × List UInt8) := do
  let (sec, file) <- takeNum 4 file
  let (usec, file) <- takeNum 4 file
  let (caplen, file) <- takeNum 4 file
  let (len, file) <- takeNum 4 file
  let (data, file) <- takeBytes caplen file
  some (⟨UInt32.ofNat sec, UInt32.ofNat usec, UInt32.ofNat len, data⟩, file)

variable {file rest : List UInt8}

theorem takeBytes_length {n : Nat} {bytes : List UInt8}
    (h : takeBytes n file = some (bytes, rest)) : file.length = n + rest.length := by
  rw [takeBytes] at h
  split at h
  · next hle =>
      injection h with h
      injection h with _ h
      rw [<- h, List.length_drop]
      omega
  · contradiction

theorem takeNum_length {n v : Nat} (h : takeNum n file = some (v, rest)) :
    file.length = n + rest.length := by
  rw [takeNum, Option.map_eq_some_iff] at h
  rcases h with ⟨⟨bytes, rest'⟩, hbytes, heq⟩
  cases heq
  exact takeBytes_length hbytes

theorem readRecord_length {r : Record} (h : readRecord file = some (r, rest)) :
    rest.length < file.length := by
  simp only [readRecord, Option.bind_eq_bind, Option.bind_eq_some_iff] at h
  rcases h with ⟨⟨_, file1⟩, h1, ⟨_, file2⟩, h2, ⟨_, file3⟩, h3, ⟨_, file4⟩, h4, ⟨_, file5⟩, h5, hr⟩
  injection hr with hr
  injection hr with _ hr
  have hsec : file.length = 4 + file1.length := takeNum_length h1
  have husec : file1.length = 4 + file2.length := takeNum_length h2
  have hcaplen : file2.length = 4 + file3.length := takeNum_length h3
  have hlen : file3.length = 4 + file4.length := takeNum_length h4
  have hdata : file4.length = _ + file5.length := takeBytes_length h5
  subst hr
  show file5.length < file.length
  omega

def readRecords (file : List UInt8) : Option (List Record) :=
  if file = [] then
    some []
  else
    match _h : readRecord file with
    | none => none
    | some (r, rest) => (readRecords rest).map fun rs => r :: rs
termination_by file.length
decreasing_by
  exact readRecord_length (by assumption)

/-- A capture file; the magic number says that it is one, and in which byte order. -/
def decodePcap (file : List UInt8) : Option (FileHeader × List Record) :=
  match readFileHeader file with
  | none => none
  | some (header, rest) =>
      if header.magic = 0xA1B2C3D4 then (readRecords rest).map fun rs => (header, rs) else none

/-!
## Reading back what was written
-/

theorem le_succ (n v : Nat) : le (n + 1) v = UInt8.ofNat v :: le n (v / 256) := by
  rw [le, List.range_succ_eq_map, List.map_cons, List.map_map, le, Nat.pow_zero, Nat.div_one]
  congr 1
  apply List.map_congr_left
  intro k _
  rw [Function.comp_apply, Nat.div_div_eq_div_mul, Nat.succ_eq_add_one, Nat.pow_succ']

@[simp] theorem length_le (n v : Nat) : (le n v).length = n := by
  simp [le]

theorem number_le (n v : Nat) (hv : v < 256 ^ n) : number (le n v) = v := by
  induction n generalizing v with
  | zero =>
      rw [Nat.pow_zero] at hv
      simp only [le, List.range_zero, List.map_nil, number]
      omega
  | succ n ih =>
      have hquot : v / 256 < 256 ^ n := Nat.div_lt_of_lt_mul (by rwa [<- Nat.pow_succ'])
      rw [le_succ, number, ih _ hquot, UInt8.toNat_ofNat']
      omega

theorem takeBytes_append (bytes rest : List UInt8) :
    takeBytes bytes.length (bytes ++ rest) = some (bytes, rest) := by
  rw [takeBytes, if_pos (by simp), List.take_left, List.drop_left]

theorem takeNum_le (n v : Nat) (hv : v < 256 ^ n) (rest : List UInt8) :
    takeNum n (le n v ++ rest) = some (v, rest) := by
  have htake := takeBytes_append (le n v) rest
  rw [length_le] at htake
  rw [takeNum, htake, Option.map_some, number_le n v hv]

theorem takeNum_uint32 (v : UInt32) (rest : List UInt8) :
    takeNum 4 (le 4 v.toNat ++ rest) = some (v.toNat, rest) :=
  takeNum_le 4 v.toNat v.toNat_lt rest

theorem takeNum_uint16 (v : UInt16) (rest : List UInt8) :
    takeNum 2 (le 2 v.toNat ++ rest) = some (v.toNat, rest) :=
  takeNum_le 2 v.toNat v.toNat_lt rest

theorem readFileHeader_bytes (h : FileHeader) (rest : List UInt8) :
    readFileHeader (h.bytes ++ rest) = some (h, rest) := by
  simp only [readFileHeader, FileHeader.bytes, List.append_assoc, takeNum_uint32, takeNum_uint16,
    Option.bind_eq_bind, Option.bind_some, UInt32.ofNat_toNat, UInt16.ofNat_toNat]

theorem readRecord_bytes (h : Pkthdr) (data rest : List UInt8)
    (hlen : h.caplen.toNat = data.length) :
    readRecord (h.bytes ++ data ++ rest) = some (⟨h.sec, h.usec, h.len, data⟩, rest) := by
  have hdata : takeBytes h.caplen.toNat (data ++ rest) = some (data, rest) := by
    rw [hlen, takeBytes_append]
  simp only [readRecord, Pkthdr.bytes, List.append_assoc, takeNum_uint32, Option.bind_eq_bind,
    Option.bind_some, hdata, UInt32.ofNat_toNat]

theorem readRecords_nil : readRecords [] = some [] := by
  rw [readRecords, if_pos rfl]

theorem readRecords_of_readRecord {r : Record} (h : readRecord file = some (r, rest)) :
    readRecords file = (readRecords rest).map fun rs => r :: rs := by
  have hfile : file ≠ [] := by
    intro heq
    have hlt := readRecord_length h
    rw [heq] at hlt
    exact Nat.not_lt_zero _ hlt
  rw [readRecords, if_neg hfile]
  split
  · next hnone =>
      rw [h] at hnone
      contradiction
  · next hsome =>
      rw [h] at hsome
      cases hsome
      rfl

/-!
## Captured packets
-/

/-- A call of `ff_dump_packets`: the packet is a chain of segments that ends, and its first segment
counts the bytes of all of them. -/
structure Dump where
  sys : Sys
  ts : Timeval
  pkt : RteRef
  segs : List RteRef
  chain : Chain (rteNext sys.rtes) (some pkt) segs
  pktLen : (sys.rtes pkt).pktLen.toNat = totalDataLen sys segs

namespace Dump

def data (d : Dump) : List UInt8 :=
  d.segs.flatMap (segmentBytes d.sys)

def record (d : Dump) : Record where
  sec := UInt32.ofInt d.ts.tvSec
  usec := UInt32.ofInt d.ts.tvUsec
  len := UInt32.ofNat d.data.length
  data := d.data

def bytes (d : Dump) : List UInt8 :=
  (pcapHdr d.sys d.ts d.pkt).bytes ++ d.data

theorem length_data (d : Dump) : d.data.length = (d.sys.rtes d.pkt).pktLen.toNat := by
  have hseg : forall r, (segmentBytes d.sys r).length = (d.sys.rtes r).dataLen.toNat :=
    fun _ => Memory.length_read ..
  rw [data, List.length_flatMap, d.pktLen, totalDataLen]
  simp only [hseg]

theorem readRecord_bytes (d : Dump) (rest : List UInt8) :
    readRecord (d.bytes ++ rest) = some (d.record, rest) := by
  have hlen : (pcapHdr d.sys d.ts d.pkt).caplen.toNat = d.data.length := d.length_data.symm
  have hrecord : (pcapHdr d.sys d.ts d.pkt).len = UInt32.ofNat d.data.length := by
    rw [<- hlen, UInt32.ofNat_toNat]
    rfl
  rw [bytes, Pcap.readRecord_bytes _ _ _ hlen, hrecord]
  rfl

end Dump

def dumpAll : List Dump -> List UInt8 -> Nat -> Option (List UInt8)
  | [], file, _ => some file
  | d :: ds, file, fuel =>
      (ffDumpPackets d.sys d.ts d.pkt file fuel).bind fun file => dumpAll ds file fuel

theorem dumpSegments_chain (s : Sys) {start : Option RteRef} {segs : List RteRef}
    (h : Chain (rteNext s.rtes) start segs) (file : List UInt8) :
    Converges (fun fuel => dumpSegments s fuel start file)
      (file ++ segs.flatMap (segmentBytes s)) := by
  induction h generalizing file with
  | nil =>
      rw [List.flatMap_nil, List.append_nil]
      exact .of_succ (fun _ => rfl) .of_some
  | @cons r segs _ ih =>
      rw [List.flatMap_cons, <- List.append_assoc]
      exact .of_succ (fun _ => rfl) (ih (file ++ segmentBytes s r))

theorem ffDumpPackets_bytes (d : Dump) (file : List UInt8) :
    Converges (ffDumpPackets d.sys d.ts d.pkt file) (file ++ d.bytes) := by
  have hsegs := dumpSegments_chain d.sys d.chain (file ++ (pcapHdr d.sys d.ts d.pkt).bytes)
  rw [List.append_assoc] at hsegs
  exact hsegs

theorem dumpAll_bytes (ds : List Dump) (file : List UInt8) :
    Converges (dumpAll ds file) (file ++ ds.flatMap Dump.bytes) := by
  induction ds generalizing file with
  | nil =>
      rw [List.flatMap_nil, List.append_nil]
      exact Converges.of_some
  | cons d ds ih =>
      have htail := ih (file ++ d.bytes)
      rw [List.append_assoc, <- List.flatMap_cons] at htail
      exact (ffDumpPackets_bytes d file).bind htail

theorem readRecords_flatMap_bytes (ds : List Dump) :
    readRecords (ds.flatMap Dump.bytes) = some (ds.map Dump.record) := by
  induction ds with
  | nil => exact readRecords_nil
  | cons d ds ih =>
      rw [List.flatMap_cons, readRecords_of_readRecord (d.readRecord_bytes _), ih, List.map_cons,
        Option.map_some]

theorem decodePcap_append (rest : List UInt8) : decodePcap (pcapFileHdr.bytes ++ rest)
      = (readRecords rest).map fun rs => (pcapFileHdr, rs) := by
  have hmagic : pcapFileHdr.magic = 0xA1B2C3D4 := rfl
  simp only [decodePcap, readFileHeader_bytes, hmagic, if_true]

/-- Whatever the file held before, and whichever packets are dumped, the file that is left is a
capture file of exactly these packets. -/
theorem capture_round_trip (old : List UInt8) (ds : List Dump) :
    exists file, Converges (dumpAll ds (ffEnablePcap old)) file ∧
      decodePcap file = some (pcapFileHdr, ds.map Dump.record) := by
  refine ⟨_, dumpAll_bytes ds (ffEnablePcap old), ?_⟩
  rw [ffEnablePcap, decodePcap_append, readRecords_flatMap_bytes, Option.map_some]

def arrivedDump : Dump :=
  { sys := arrivedPair
    ts := { tvSec := 7, tvUsec := 0 }
    pkt := 1
    segs := [1, 2]
    chain := arrivedPair_chain
    pktLen := rfl }

theorem capture_round_trip_pair : arrivedDump.data = [0, 0, 0] ∧
      exists file, Converges (dumpAll [arrivedDump, arrivedDump] (ffEnablePcap [1])) file ∧
        decodePcap file = some (pcapFileHdr, [arrivedDump.record, arrivedDump.record]) :=
  ⟨rfl, capture_round_trip [1] [arrivedDump, arrivedDump]⟩

end Pcap
end FStackLite
