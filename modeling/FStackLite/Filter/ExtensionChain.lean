import FStackLite.Filter.Termination

/-!
# Chains of extension headers

The layout of extension headers, and how far `get_ipv6_hdr_len` keeps to it.  The length
byte of most headers counts units of eight bytes, but the function takes it for a number
of bytes: behind such a header it goes on in the middle of it.
-/

namespace FStackLite
namespace Filter

open Foundation (Bytes Span Traced)
open Dispatch (FilterReturn)

/-!
## The layout
-/

inductive ExtKind where
  | hopByHop
  | routing
  | destination
  | mobility
  | hip
  | shim6
  | fragment
  | ah
deriving DecidableEq, Repr

namespace ExtKind

def proto : ExtKind -> UInt8
  | hopByHop => ipprotoHopopts
  | routing => ipprotoRouting
  | destination => ipprotoDstopts
  | mobility => ipprotoMh
  | hip => ipprotoHip
  | shim6 => ipprotoShim6
  | fragment => ipprotoFragment
  | ah => ipprotoAh

def hdrLen (k : ExtKind) (lengthByte : UInt8) : Nat :=
  match k with
  | fragment => 8
  | ah => 4 * (lengthByte.toNat + 2)
  | _ => 8 * (lengthByte.toNat + 1)

def IsFragmentOrAh (k : ExtKind) : Prop :=
  k = fragment ∨ k = ah

instance (k : ExtKind) : Decidable k.IsFragmentOrAh :=
  inferInstanceAs (Decidable (k = fragment ∨ k = ah))

end ExtKind

def NotExtension (proto : UInt8) : Prop :=
  forall k : ExtKind, k.proto ≠ proto

/--
The chain of headers from `off` on, where a header of type `proto` is expected: the
headers, their total length and the number behind them.
-/
inductive ExtChain (data : Bytes) : UInt8 -> Nat -> List ExtKind -> Nat -> UInt8 -> Prop where
  | nil (proto : UInt8) (off : Nat) (h : NotExtension proto) : ExtChain data proto off [] 0 proto
  | cons (k : ExtKind) (off : Nat) {ks : List ExtKind} {total : Nat} {final : UInt8}
      (rest : ExtChain data (data off) (off + k.hdrLen (data (off + 1))) ks total final) :
      ExtChain data k.proto off (k :: ks) (k.hdrLen (data (off + 1)) + total) final

/-- An IPv6 packet with a complete chain of headers, and at least one byte behind it. -/
structure IsPacket (data : Bytes) (len : UInt16) (kinds : List ExtKind) (total : Nat)
    (final : UInt8) : Prop where
  chain : ExtChain data (data 6) 40 kinds total final
  complete : 40 + total < len.toNat

structure IsNdp (data : Bytes) (off room : Nat) : Prop where
  complete : 8 ≤ room
  solicit : ndRouterSolicit ≤ data off
  redirect : data off ≤ ndRedirect

/-- The filter sees the chain for what it is, and neighbour discovery behind it. -/
structure SeesChain (setup : Setup) (data : Bytes) (len : UInt16) (total : Nat) (final : UInt8) :
    Prop where
  walk : (getIpv6HdrLen data len.toNat (data 6) 40 (len - 40)).result = some (total, final)
  ndp : final = ipprotoIcmpv6 -> IsNdp data (40 + total) (len.toNat - (40 + total)) ->
    (ffKniProtoFilter { setup with inet6 := true } data (len.toNat + 1) 0 len
      etherTypeIpv6).result = some .ndp

/-!
## The lengths that the filter takes
-/

section

variable (data : Bytes) (off : Nat)

theorem extHdrLen_of_not {proto : UInt8} (h : NotExtension proto) :
    extHdrLen data off proto = none := by
  have hne : forall k : ExtKind, ¬ proto = k.proto := fun k heq => h k heq.symm
  have hlength : hasLengthByte proto = false := by
    simp only [hasLengthByte, Bool.or_eq_false_iff, beq_eq_false_iff_ne, ne_eq]
    exact ⟨⟨⟨⟨⟨hne .hopByHop, hne .routing⟩, hne .destination⟩, hne .mobility⟩, hne .hip⟩,
      hne .shim6⟩
  have hfragment : ¬ proto = ipprotoFragment := hne .fragment
  have hah : ¬ proto = ipprotoAh := hne .ah
  rw [extHdrLen, hlength, if_neg (by decide), if_neg hfragment, if_neg hah]

theorem extHdrLen_fragmentOrAh {k : ExtKind} (h : k.IsFragmentOrAh) :
    extHdrLen data off k.proto = some (k.hdrLen (data (off + 1))) := by
  rcases h with rfl | rfl
  · rfl
  · show some (((data (off + 1)).toNat + 2) * 4) = some (4 * ((data (off + 1)).toNat + 2))
    rw [Nat.mul_comm]

theorem extHdrLen_other {k : ExtKind} (h : ¬ k.IsFragmentOrAh) :
    extHdrLen data off k.proto = some ((data (off + 1)).toNat + 1) := by
  cases k with
  | fragment => exact absurd (Or.inl rfl) h
  | ah => exact absurd (Or.inr rfl) h
  | hopByHop => rfl
  | routing => rfl
  | destination => rfl
  | mobility => rfl
  | hip => rfl
  | shim6 => rfl

end

section

variable {data : Bytes} {len : UInt16} {total : Nat}

theorem getIpv6HdrLen_next {depth off n : Nat} {proto : UInt8}
    (hn : extHdrLen data off proto = some n) (hlong : n < len.toNat) :
    (getIpv6HdrLen data (depth + 1) proto off len).result =
      (getIpv6HdrLen data depth (data off) (off + n) (len - UInt16.ofNat n)).result.map
        fun (more, proto') => (n + more, proto') := by
  simp only [getIpv6HdrLen, hn, if_neg (Nat.not_le_of_lt hlong)]

theorem getIpv6HdrLen_chain {proto final : UInt8} {off : Nat} {kinds : List ExtKind}
    (hchain : ExtChain data proto off kinds total final)
    (hkinds : forall k, k ∈ kinds -> k.IsFragmentOrAh) {depth : Nat} (hdepth : len.toNat < depth)
    (hlong : total < len.toNat) :
    (getIpv6HdrLen data depth proto off len).result = some (total, final) := by
  induction hchain generalizing depth len with
  | nil proto off hnot =>
      cases depth with
      | zero => contradiction
      | succ depth => simp only [getIpv6HdrLen, extHdrLen_of_not data off hnot]
  | cons k off rest ih =>
      have hn := extHdrLen_fragmentOrAh data off (hkinds k List.mem_cons_self)
      cases depth with
      | zero => contradiction
      | succ depth =>
          have hpos := extHdrLen_pos hn
          have hless : k.hdrLen (data (off + 1)) < len.toNat := by omega
          have hrest := toNat_sub_ofNat (Nat.le_of_lt hless)
          rw [getIpv6HdrLen_next hn hless, ih (fun k hk => hkinds k (List.mem_cons_of_mem _ hk))
            (by omega) (by omega)]
          rfl

theorem ndp_of_walk (setup : Setup)
    (hwalk : (getIpv6HdrLen data len.toNat (data 6) 40 (len - 40)).result =
      some (total, ipprotoIcmpv6)) (hcomplete : 40 + total < len.toNat)
    (hndp : IsNdp data (40 + total) (len.toNat - (40 + total))) :
    (ffKniProtoFilter { setup with inet6 := true } data (len.toNat + 1) 0 len
      etherTypeIpv6).result = some .ndp := by
  have hheader : (ipHeader { setup with inet6 := true } data len.toNat 0 len
      etherTypeIpv6).result = .found (40 + total) ipprotoIcmpv6 := by
    have hlong : ¬ len.toNat < 40 := by omega
    rw [ipHeader, if_neg (by decide), if_pos ⟨rfl, rfl⟩, ipv6Header, if_neg hlong]
    simp only [Nat.zero_add, Traced.after_result, hwalk]
    rw [if_neg (Nat.not_lt_of_lt hcomplete)]
  have hinner : innerType { setup with inet6 := true } ipprotoIcmpv6 = none := by
    rw [innerType, if_neg (by decide), if_neg (fun h => absurd h.2 (by decide))]
  have hupper : (filterUpper { setup with inet6 := true } data (40 + total)
      (len - UInt16.ofNat (40 + total)) ipprotoIcmpv6).result = .ndp := by
    have hroom := toNat_sub_ofNat (Nat.le_of_lt hcomplete)
    have hmessage : ¬ (len - UInt16.ofNat (40 + total)).toNat < 8 := by
      rw [hroom]
      exact Nat.not_lt_of_le hndp.complete
    rw [filterUpper, if_neg (fun h => absurd h.2.2 (by decide)),
      if_neg (fun h => absurd h.2.2 (by decide)), if_pos ⟨rfl, rfl⟩, protocolFilterIcmp6,
      if_neg hmessage]
    exact if_pos ⟨hndp.solicit, hndp.redirect⟩
  simp only [ffKniProtoFilter, protocolFilterIp, hheader, hinner, Nat.zero_add, hupper]

theorem IsPacket.seesChain {kinds : List ExtKind} {final : UInt8}
    (h : IsPacket data len kinds total final) (setup : Setup)
    (hkinds : forall k, k ∈ kinds -> k.IsFragmentOrAh) : SeesChain setup data len total final := by
  have hcomplete := h.complete
  have hrest : (len - 40).toNat = len.toNat - 40 := toNat_sub_ofNat (n := 40) (by omega)
  have hwalk : (getIpv6HdrLen data len.toNat (data 6) 40 (len - 40)).result = some (total, final) :=
    getIpv6HdrLen_chain h.chain hkinds (by omega) (by omega)
  refine ⟨hwalk, fun hfinal hndp => ?_⟩
  rw [hfinal] at hwalk
  exact ndp_of_walk setup hwalk hcomplete hndp

end

/-!
## Headers that are counted in bytes
-/

/-- A number that is neither that of an extension header nor `final`. -/
def otherProto (final : UInt8) : UInt8 :=
  if final = 59 then ipprotoTcp else 59

/--
Eight bytes for a header, with a length byte of zero if it has one.  The other bytes lead
a walk that goes on at the second byte of a header to `otherProto`.
-/
def headerByte (final : UInt8) (k : ExtKind) : Nat -> UInt8
  | 1 => if k = .fragment then otherProto final else 0
  | 2 => 1
  | 3 => otherProto final
  | 5 => otherProto final
  | _ => 0

def firstProto (final : UInt8) : List ExtKind -> UInt8
  | [] => final
  | k :: _ => k.proto

def chainByte (final : UInt8) : List ExtKind -> Nat -> UInt8
  | [], _ => 0
  | k :: ks, i =>
      if i = 0 then
        firstProto final ks
      else if i < 8 then
        headerByte final k i
      else
        chainByte final ks (i - 8)

def chainPacket (final : UInt8) (kinds : List ExtKind) : Bytes :=
  fun i => if i < 40 then firstProto final kinds else chainByte final kinds (i - 40)

theorem otherProto_ne (final : UInt8) : otherProto final ≠ final := by
  unfold otherProto
  split
  · next h =>
      rw [h]
      decide
  · next h =>
      exact fun heq => h heq.symm

theorem otherProto_not (final : UInt8) : NotExtension (otherProto final) := by
  intro k
  unfold otherProto
  split
  · cases k <;> decide
  · cases k <;> decide

/-- The headers stand in the packet from `off` on. -/
def Laid (data : Bytes) (final : UInt8) (off : Nat) (ks : List ExtKind) : Prop :=
  forall i, data (off + i) = chainByte final ks i

section

variable {data : Bytes} {final : UInt8} {off depth : Nat} {k : ExtKind} {ks : List ExtKind}
    {len : UInt16}

theorem Laid.head (h : Laid data final off (k :: ks)) : data off = firstProto final ks := h 0

theorem Laid.byte (h : Laid data final off (k :: ks)) (i : Nat) (hpos : 0 < i) (hi : i < 8) :
    data (off + i) = headerByte final k i := by
  rw [h i, chainByte, if_neg (Nat.ne_of_gt hpos), if_pos hi]

theorem Laid.tail (h : Laid data final off (k :: ks)) : Laid data final (off + 8) ks := by
  intro i
  rw [Nat.add_assoc, h (8 + i), chainByte, if_neg (by omega), if_neg (by omega),
    Nat.add_sub_cancel_left]

theorem Laid.hdrLen (h : Laid data final off (k :: ks)) : k.hdrLen (data (off + 1)) = 8 := by
  rw [h.byte 1 (by decide) (by decide)]
  cases k <;> rfl

theorem Laid.chain (h : Laid data final off ks) (hfinal : NotExtension final) :
    ExtChain data (firstProto final ks) off ks (8 * ks.length) final := by
  induction ks generalizing off with
  | nil => exact ExtChain.nil final off hfinal
  | cons k ks ih =>
      have hrest := ih h.tail
      rw [<- h.head, <- h.hdrLen] at hrest
      have hchain := ExtChain.cons k off hrest
      rw [h.hdrLen] at hchain
      rw [List.length_cons, Nat.mul_succ, Nat.add_comm]
      exact hchain

theorem getIpv6HdrLen_two {proto : UInt8} {n m : Nat} (hn : extHdrLen data off proto = some n)
    (hm : extHdrLen data (off + n) (data off) = some m) (hnot : NotExtension (data (off + n)))
    (hlong : n + m < len.toNat) (hdepth : 2 < depth) :
    (getIpv6HdrLen data depth proto off len).result = some (n + m, data (off + n)) := by
  obtain ⟨depth, rfl⟩ : exists d, depth = d + 3 := ⟨depth - 3, by omega⟩
  have hrest : (len - UInt16.ofNat n).toNat = len.toNat - n := toNat_sub_ofNat (by omega)
  rw [getIpv6HdrLen_next hn (by omega), getIpv6HdrLen_next hm (by omega)]
  simp only [getIpv6HdrLen, extHdrLen_of_not _ _ hnot]
  rfl

/-- Behind a header of another kind the walk strays, and ends at no number of the chain. -/
theorem Laid.strays {k' : ExtKind} (h : Laid data final off (k :: k' :: ks)) (hk : k ≠ .fragment) :
    exists n m, extHdrLen data (off + 1) k'.proto = some n ∧
      extHdrLen data (off + 1 + n) (data (off + 1)) = some m ∧
      data (off + 1 + n) = otherProto final ∧ n + m < 15 := by
  have hzero : data (off + 1) = ExtKind.hopByHop.proto := by
    rw [h.byte 1 (by decide) (by decide)]
    exact if_neg hk
  have htwo : data (off + 1 + 1) = 1 := h.byte 2 (by decide) (by decide)
  rw [hzero]
  simp only [extHdrLen_other _ _ (k := .hopByHop) (by decide)]
  cases Decidable.em k'.IsFragmentOrAh with
  | inr hother =>
      refine ⟨2, 1, ?_, ?_, ?_, by decide⟩
      · rw [extHdrLen_other _ _ hother, htwo]
        rfl
      · have hlen : data (off + 1 + 2 + 1) = 0 := h.byte 4 (by decide) (by decide)
        rw [hlen]
        rfl
      · exact h.byte 3 (by decide) (by decide)
  | inl hsame =>
      rcases hsame with rfl | rfl
      · refine ⟨8, 2, rfl, ?_, ?_, by decide⟩
        · have hlen : data (off + 1 + 8 + 1) = 1 := h.tail.byte 2 (by decide) (by decide)
          rw [hlen]
          rfl
        · exact h.tail.byte 1 (by decide) (by decide)
      · refine ⟨12, 1, ?_, ?_, ?_, by decide⟩
        · rw [extHdrLen_fragmentOrAh _ _ (Or.inr rfl), htwo]
          rfl
        · have hlen : data (off + 1 + 12 + 1) = 0 := h.tail.byte 6 (by decide) (by decide)
          rw [hlen]
          rfl
        · exact h.tail.byte 5 (by decide) (by decide)

theorem Laid.misses_head (h : Laid data final off (k :: ks)) (hfinal : NotExtension final)
    (hother : ¬ k.IsFragmentOrAh) (hdepth : len.toNat < depth)
    (hlong : 8 * (k :: ks).length < len.toNat) :
    (getIpv6HdrLen data depth k.proto off len).result ≠ some (8 * (k :: ks).length, final) := by
  rw [List.length_cons] at hlong ⊢
  obtain ⟨depth, rfl⟩ : exists d, depth = d + 1 := ⟨depth - 1, by omega⟩
  have hk : k ≠ .fragment := fun heq => hother (Or.inl heq)
  have hbyte : data (off + 1) = 0 := by
    rw [h.byte 1 (by decide) (by decide)]
    exact if_neg hk
  have hn : extHdrLen data off k.proto = some 1 := by
    rw [extHdrLen_other data off hother, hbyte]
    rfl
  have hrest : (len - UInt16.ofNat 1).toNat = len.toNat - 1 := toNat_sub_ofNat (by omega)
  rw [getIpv6HdrLen_next hn (by omega), h.head]
  intro hmap
  rcases Option.map_eq_some_iff.mp hmap with ⟨⟨more, proto'⟩, hwalk, heq⟩
  injection heq with hmore hproto
  cases ks with
  | nil =>
      obtain ⟨depth, rfl⟩ : exists d, depth = d + 1 := ⟨depth - 1, by omega⟩
      simp only [firstProto, getIpv6HdrLen, extHdrLen_of_not _ _ hfinal] at hwalk
      injection hwalk with hwalk
      injection hwalk with hzero _
      simp only [List.length_nil] at hmore
      omega
  | cons k' ks =>
      rcases h.strays hk with ⟨n, m, hn', hm, hend, hshort⟩
      have hnot : NotExtension (data (off + 1 + n)) := by
        rw [hend]
        exact otherProto_not final
      simp only [List.length_cons] at hlong
      have htwo : (getIpv6HdrLen data depth k'.proto (off + 1) (len - UInt16.ofNat 1)).result =
          some (n + m, data (off + 1 + n)) :=
        getIpv6HdrLen_two hn' hm hnot (by omega) (by omega)
      simp only [firstProto] at hwalk
      rw [hwalk] at htwo
      injection htwo with htwo
      injection htwo with _ hproto'
      rw [hproto, hend] at hproto'
      exact otherProto_ne final hproto'.symm

theorem Laid.misses (h : Laid data final off ks) (hfinal : NotExtension final)
    (hks : exists k, k ∈ ks ∧ ¬ k.IsFragmentOrAh) (hdepth : len.toNat < depth)
    (hlong : 8 * ks.length < len.toNat) :
    (getIpv6HdrLen data depth (firstProto final ks) off len).result ≠
      some (8 * ks.length, final) := by
  induction ks generalizing off depth len with
  | nil =>
      rcases hks with ⟨k, hk, _⟩
      contradiction
  | cons k ks ih =>
      cases Decidable.em k.IsFragmentOrAh with
      | inr hother => exact h.misses_head hfinal hother hdepth hlong
      | inl hsame =>
          obtain ⟨depth, rfl⟩ : exists d, depth = d + 1 := ⟨depth - 1, by omega⟩
          rw [List.length_cons] at hlong ⊢
          have hn : extHdrLen data off k.proto = some 8 := by
            rw [extHdrLen_fragmentOrAh data off hsame, h.hdrLen]
          have hks' : exists k, k ∈ ks ∧ ¬ k.IsFragmentOrAh := by
            rcases hks with ⟨k', hmem, hother⟩
            rcases List.mem_cons.mp hmem with heq | hmem
            · rw [heq] at hother
              exact absurd hsame hother
            · exact ⟨k', hmem, hother⟩
          have hrest : (len - UInt16.ofNat 8).toNat = len.toNat - 8 := toNat_sub_ofNat (by omega)
          have hmiss : (getIpv6HdrLen data depth (firstProto final ks) (off + 8)
              (len - UInt16.ofNat 8)).result ≠ some (8 * ks.length, final) :=
            ih h.tail hks' (by omega) (by omega)
          show (getIpv6HdrLen data (depth + 1) k.proto off len).result ≠ _
          rw [getIpv6HdrLen_next hn (by omega), h.head]
          intro hmap
          rcases Option.map_eq_some_iff.mp hmap with ⟨⟨more, proto'⟩, hwalk, heq⟩
          injection heq with hmore hproto
          have hmore' : more = 8 * ks.length := by omega
          rw [hmore', hproto] at hwalk
          exact hmiss hwalk

end

theorem chainPacket_laid (final : UInt8) (kinds : List ExtKind) :
    Laid (chainPacket final kinds) final 40 kinds := by
  intro i
  rw [chainPacket, if_neg (by omega), Nat.add_sub_cancel_left]

theorem ExtChain.length_le {data : Bytes} {proto final : UInt8} {off total : Nat}
    {kinds : List ExtKind} (h : ExtChain data proto off kinds total final) :
    8 * kinds.length ≤ total ∧ NotExtension final := by
  induction h with
  | nil proto off hnot => exact ⟨Nat.le_refl _, hnot⟩
  | cons k off rest ih =>
      have hlen : 8 ≤ k.hdrLen (data (off + 1)) := by
        cases k <;> simp only [ExtKind.hdrLen] <;> omega
      refine ⟨?_, ih.2⟩
      rw [List.length_cons]
      omega

/--
The filter sees all packets with a given chain of extension headers for what they are if
and only if the headers are fragment headers and authentication headers.
-/
theorem extension_header_walk (setup : Setup) (kinds : List ExtKind) (final : UInt8) :
    (forall data len total, IsPacket data len kinds total final ->
        SeesChain setup data len total final) <->
      (forall data len total, IsPacket data len kinds total final ->
        forall k, k ∈ kinds -> k.IsFragmentOrAh) := by
  constructor
  · intro hsees data len total hpacket k hk
    apply Decidable.byContradiction
    intro hother
    rcases hpacket.chain.length_le with ⟨hle, hfinal⟩
    have hcomplete := hpacket.complete
    have hlaid := chainPacket_laid final kinds
    have hpacket' : IsPacket (chainPacket final kinds) len kinds (8 * kinds.length) final :=
      ⟨hlaid.chain hfinal, by omega⟩
    have hrest : (len - 40).toNat = len.toNat - 40 := toNat_sub_ofNat (n := 40) (by omega)
    exact hlaid.misses hfinal ⟨k, hk, hother⟩ (by omega) (by omega) (hsees _ len _ hpacket').walk
  · intro hkinds data len total hpacket
    exact hpacket.seesChain setup (hkinds data len total hpacket)

def hopByHopNdp : Bytes :=
  fun i => if i = 40 then ipprotoIcmpv6 else if i = 48 then ndRouterSolicit else 0

/-- A walk of one byte where there are eight, and a message that is not recognised. -/
theorem extension_header_miscounted : IsPacket hopByHopNdp 56 [.hopByHop] 8 ipprotoIcmpv6 ∧
      (getIpv6HdrLen hopByHopNdp 56 (hopByHopNdp 6) 40 (56 - 40)).result = some (1, ipprotoIcmpv6) ∧
      IsNdp hopByHopNdp 48 8 ∧
      (ffKniProtoFilter Setup.full hopByHopNdp 57 0 56 etherTypeIpv6).result = some .unknown := by
  have hlast : ExtChain hopByHopNdp ipprotoIcmpv6 48 [] 0 ipprotoIcmpv6 :=
    ExtChain.nil ipprotoIcmpv6 48 (by intro k; cases k <;> decide)
  have hchain : ExtChain hopByHopNdp ExtKind.hopByHop.proto 40 [.hopByHop] 8 ipprotoIcmpv6 :=
    ExtChain.cons .hopByHop 40 hlast
  exact ⟨⟨hchain, by decide⟩, by decide, ⟨by decide, by decide, by decide⟩, by decide⟩

end Filter
end FStackLite
