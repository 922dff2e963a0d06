import FStackLite.Dispatch.Process
import FStackLite.Foundation.Bytes
import FStackLite.Foundation.Span

/-!
# The protocol filter

`protocol_filter` looks into a received frame to tell ARP and neighbour discovery packets
and the packets of the kernel interface from the others.  It skips an Ethernet header, a
VLAN tag, and IPv4 and IPv6 headers that may be nested in each other.

A frame is a memory of bytes of which the first `len` belong to the frame.  The two
recursive functions take the depth to which calls may be nested as an argument, and have
no result if that depth is not enough.
-/

namespace FStackLite
namespace Filter

open Foundation (Bytes Span Traced)
open Dispatch (FilterReturn)

structure Setup where
  /-- Built with `INET6`. -/
  inet6 : Bool
  /-- Built with `FF_KNI`. -/
  kni : Bool
  enableKni : Bool
  tcpPortBitmap : Bytes
  udpPortBitmap : Bytes

def etherTypeIpv4 : UInt16 := 0x0800

def etherTypeArp : UInt16 := 0x0806

def etherTypeVlan : UInt16 := 0x8100

def etherTypeIpv6 : UInt16 := 0x86DD

def ipprotoHopopts : UInt8 := 0

def ipprotoIpip : UInt8 := 4

def ipprotoTcp : UInt8 := 6

def ipprotoUdp : UInt8 := 17

def ipprotoIpv6 : UInt8 := 41

def ipprotoRouting : UInt8 := 43

def ipprotoFragment : UInt8 := 44

def ipprotoAh : UInt8 := 51

def ipprotoIcmpv6 : UInt8 := 58

def ipprotoDstopts : UInt8 := 60

def ipprotoMh : UInt8 := 135

def ipprotoHip : UInt8 := 139

def ipprotoShim6 : UInt8 := 140

def ndRouterSolicit : UInt8 := 133

def ndRedirect : UInt8 := 137

/-!
## Ports
-/

/-- `magic_bits` -/
def magicBits (m : Nat) : UInt8 :=
  0x80 >>> UInt8.ofNat m

/-- `port` is in the byte order of the network. -/
def getBitmap (port : UInt16) (bitmap : Bytes) : Bool :=
  bitmap (port.toNat / 8) &&& magicBits (port.toNat % 8) != 0

def protocolFilterL4 (port : UInt16) (bitmap : Bytes) : FilterReturn :=
  if getBitmap port bitmap then .kni else .unknown

/-- `dst_port`, as a number of the host. -/
def dstPort (data : Bytes) (off : Nat) : UInt16 :=
  UInt16.ofNat (data.num (off + 2) 2)

/-- The filter of a transport protocol with headers of `hdrSize` bytes. -/
def filterPorts (hdrSize : Nat) (bitmap data : Bytes) (off : Nat) (len : UInt16) :
    Traced FilterReturn :=
  if len.toNat < hdrSize then
    ⟨[], .unknown⟩
  else
    ⟨[⟨off + 2, 2⟩], protocolFilterL4 (dstPort data off) bitmap⟩

def protocolFilterTcp (setup : Setup) : Bytes -> Nat -> UInt16 -> Traced FilterReturn :=
  filterPorts 20 setup.tcpPortBitmap

def protocolFilterUdp (setup : Setup) : Bytes -> Nat -> UInt16 -> Traced FilterReturn :=
  filterPorts 8 setup.udpPortBitmap

def protocolFilterIcmp6 (data : Bytes) (off : Nat) (len : UInt16) : Traced FilterReturn :=
  if len.toNat < 8 then
    ⟨[], .unknown⟩
  else
    ⟨[⟨off, 1⟩], if ndRouterSolicit ≤ data off ∧ data off ≤ ndRedirect then .ndp else .unknown⟩

/-!
## Extension headers
-/

def hasLengthByte (proto : UInt8) : Bool :=
  proto == ipprotoHopopts || proto == ipprotoRouting || proto == ipprotoDstopts ||
    proto == ipprotoMh || proto == ipprotoHip || proto == ipprotoShim6

def extHdrReads (off : Nat) (proto : UInt8) : List Span :=
  if hasLengthByte proto || proto == ipprotoAh then [⟨off + 1, 1⟩] else []

/-- The length that `get_ipv6_hdr_len` takes a header to have, if it is an extension header. -/
def extHdrLen (data : Bytes) (off : Nat) (proto : UInt8) : Option Nat :=
  if hasLengthByte proto then
    some ((data (off + 1)).toNat + 1)
  else if proto = ipprotoFragment then
    some 8
  else if proto = ipprotoAh then
    some (((data (off + 1)).toNat + 2) * 4)
  else
    none

/-- The length of the headers, and the value that `*proto` is left with. -/
def getIpv6HdrLen (data : Bytes) : Nat -> UInt8 -> Nat -> UInt16 -> Traced (Option (Nat × UInt8))
  | 0, _, _, _ => ⟨[], none⟩
  | depth + 1, proto, off, len =>
      match extHdrLen data off proto with
      | none => ⟨[], some (0, proto)⟩
      | some n =>
          if len.toNat ≤ n then
            ⟨extHdrReads off proto, some (len.toNat, proto)⟩
          else
            let rest := getIpv6HdrLen data depth (data off) (off + n) (len - UInt16.ofNat n)
            ⟨extHdrReads off proto ++ ⟨off, 1⟩ :: rest.reads,
              rest.result.map fun (more, proto') => (n + more, proto')⟩

/-!
## IP headers
-/

inductive IpHeader where
  /-- It is not complete, or of no known type. -/
  | refused
  /-- Its end is too deep. -/
  | deep
  | found (hdrLen : Nat) (proto : UInt8)

/-- `(hdr->version_ihl & 0x0f) << 2` -/
def ipv4HdrLen (data : Bytes) (off : Nat) : Nat :=
  (data off &&& 0x0f).toNat * 4

def ipv4Header (data : Bytes) (off : Nat) (len : UInt16) : Traced IpHeader :=
  if len.toNat < 20 then
    ⟨[], .refused⟩
  else if len.toNat < ipv4HdrLen data off then
    ⟨[⟨off, 1⟩], .refused⟩
  else
    ⟨[⟨off, 1⟩, ⟨off + 9, 1⟩], .found (ipv4HdrLen data off) (data (off + 9))⟩

def ipv6Header (data : Bytes) (depth off : Nat) (len : UInt16) : Traced IpHeader :=
  if len.toNat < 40 then
    ⟨[], .refused⟩
  else
    let walk := getIpv6HdrLen data depth (data (off + 6)) (off + 40) (len - 40)
    Traced.after (⟨off + 6, 1⟩ :: walk.reads) ⟨[],
      match walk.result with
      | none => .deep
      | some (n, proto) => if len.toNat < 40 + n then .refused else .found (40 + n) proto⟩

def ipHeader (setup : Setup) (data : Bytes) (depth off : Nat) (len ethFrameType : UInt16) :
    Traced IpHeader :=
  if ethFrameType = etherTypeIpv4 then
    ipv4Header data off len
  else if setup.inet6 ∧ ethFrameType = etherTypeIpv6 then
    ipv6Header data depth off len
  else
    ⟨[], .refused⟩

def innerType (setup : Setup) (proto : UInt8) : Option UInt16 :=
  if proto = ipprotoIpip then
    some etherTypeIpv4
  else if setup.inet6 ∧ proto = ipprotoIpv6 then
    some etherTypeIpv6
  else
    none

/-- The other cases of the `switch` over the protocol. -/
def filterUpper (setup : Setup) (data : Bytes) (off : Nat) (len : UInt16) (proto : UInt8) :
    Traced FilterReturn :=
  if setup.kni ∧ setup.enableKni ∧ proto = ipprotoTcp then
    protocolFilterTcp setup data off len
  else if setup.kni ∧ setup.enableKni ∧ proto = ipprotoUdp then
    protocolFilterUdp setup data off len
  else if setup.inet6 ∧ proto = ipprotoIcmpv6 then
    protocolFilterIcmp6 data off len
  else
    ⟨[], .unknown⟩

def protocolFilterIp (setup : Setup) (data : Bytes) :
    Nat -> Nat -> UInt16 -> UInt16 -> Traced (Option FilterReturn)
  | 0, _, _, _ => ⟨[], none⟩
  | depth + 1, off, len, ethFrameType =>
      let hdr := ipHeader setup data depth off len ethFrameType
      match hdr.result with
      | .refused => ⟨hdr.reads, some .unknown⟩
      | .deep => ⟨hdr.reads, none⟩
      | .found hdrLen proto =>
          match innerType setup proto with
          | some inner =>
              (protocolFilterIp setup data depth (off + hdrLen) (len - UInt16.ofNat hdrLen)
                inner).after hdr.reads
          | none =>
              let upper := filterUpper setup data (off + hdrLen) (len - UInt16.ofNat hdrLen) proto
              ⟨hdr.reads ++ upper.reads, some upper.result⟩

def ffKniProtoFilter (setup : Setup) (data : Bytes) (depth off : Nat) (len ethFrameType : UInt16) :
    Traced (Option FilterReturn) :=
  protocolFilterIp setup data depth off len ethFrameType

/-!
## Frames
-/

def be16 (data : Bytes) (off : Nat) : UInt16 :=
  UInt16.ofNat ((data off).toNat * 256 + (data (off + 1)).toNat)

def filterType (setup : Setup) (data : Bytes) (depth off : Nat) (len etherType : UInt16) :
    Traced (Option FilterReturn) :=
  if etherType = etherTypeArp then
    ⟨[], some .arp⟩
  else if setup.inet6 ∧ etherType = etherTypeIpv6 then
    ffKniProtoFilter setup data depth off len etherType
  else if setup.kni ∧ setup.enableKni ∧ etherType = etherTypeIpv4 then
    ffKniProtoFilter setup data depth off len etherType
  else
    ⟨[], some .unknown⟩

def protocolFilter (setup : Setup) (data : Bytes) (depth : Nat) (len : UInt16) :
    Traced (Option FilterReturn) :=
  if len.toNat < 14 then
    ⟨[], some .unknown⟩
  else if be16 data 12 = etherTypeVlan then
    (filterType setup data depth 18 (len - 14 - 4) (be16 data 16)).after [⟨12, 2⟩, ⟨16, 2⟩]
  else
    (filterType setup data depth 14 (len - 14) (be16 data 12)).after [⟨12, 2⟩]

end Filter
end FStackLite
