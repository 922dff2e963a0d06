import FStackLite.Filter.Termination

/-!
# What the protocol filter reads

The filter checks the length of a header before it reads it, with two exceptions: it reads
a VLAN tag without a check, and the length byte of an extension header before it compares
the header with the bytes that are left.
-/

namespace FStackLite
namespace Filter

open Foundation (Bytes Span Traced)
open Dispatch (FilterReturn)

theorem span_within_iff {start n size : Nat} (hn : 0 < n) :
    Span.Within ⟨start, n⟩ 0 size <-> start + n ≤ size := by
  simp only [Span.within_iff]
  omega

/-!
## Extension headers
-/

/-- An extension header that the walk comes to, with the bytes that are left of the packet. -/
structure ExtHeader where
  proto : UInt8
  off : Nat
  len : UInt16

namespace ExtHeader

def walk (data : Bytes) (depth : Nat) (h : ExtHeader) : Traced (Option (Nat × UInt8)) :=
  getIpv6HdrLen data depth h.proto h.off h.len

/-- What is behind a header of `n` bytes. -/
def behind (data : Bytes) (h : ExtHeader) (n : Nat) : ExtHeader :=
  ⟨data h.off, h.off + n, h.len - UInt16.ofNat n⟩

/-- The header that `get_ipv6_hdr_len` calls itself for. -/
def next (data : Bytes) (h : ExtHeader) : Option ExtHeader :=
  match extHdrLen data h.off h.proto with
  | none => none
  | some n => if h.len.toNat ≤ n then none else some (h.behind data n)

def Reaches (data : Bytes) : ExtHeader -> ExtHeader -> Prop :=
  Relation.ReflTransGen fun h h' => h.next data = some h'

def Fits (h : ExtHeader) : Prop :=
  hasLengthByte h.proto = true ∨ h.proto = ipprotoAh -> 2 ≤ h.len.toNat

section

variable {data : Bytes} {h h' : ExtHeader} {size : Nat}

theorem extHdrReads_within_iff (hsize : h.off + h.len.toNat = size) :
    (forall s, s ∈ extHdrReads h.off h.proto -> s.Within 0 size) <-> h.Fits := by
  have hbyte : Span.Within ⟨h.off + 1, 1⟩ 0 size <-> 2 ≤ h.len.toNat := by
    rw [span_within_iff Nat.one_pos]
    omega
  unfold extHdrReads Fits
  by_cases hnone : hasLengthByte h.proto = true ∨ h.proto = ipprotoAh
  · rw [if_pos (by simpa using hnone), List.forall_mem_singleton, hbyte]
    exact ⟨fun hle _ => hle, fun hle => hle hnone⟩
  · rw [if_neg (by simpa using hnone)]
    exact ⟨fun _ hlength => absurd hlength hnone, fun _ s hs => by contradiction⟩

theorem next_some (hnext : h.next data = some h') :
    exists n, extHdrLen data h.off h.proto = some n ∧ ¬ h.len.toNat ≤ n ∧ h' = h.behind data n := by
  unfold next at hnext
  split at hnext
  · contradiction
  · next n hn =>
      split at hnext
      · contradiction
      · next hlong =>
          injection hnext with hnext
          exact ⟨n, hn, hlong, hnext.symm⟩

theorem behind_size (hsize : h.off + h.len.toNat = size) {n : Nat} (hlong : ¬ h.len.toNat ≤ n) :
    (h.behind data n).off + (h.behind data n).len.toNat = size := by
  have hrest : (h.behind data n).len.toNat = h.len.toNat - n :=
    toNat_sub_ofNat (Nat.le_of_not_le hlong)
  have hoff : (h.behind data n).off = h.off + n := rfl
  omega

/-- One header of the walk: what is read of it, and the walk through what is behind it. -/
theorem walk_next_iff (hsize : h.off + h.len.toNat = size) (hnext : h.next data = some h')
    (depth : Nat) :
    (h.walk data (depth + 1)).Within 0 size <-> h.Fits ∧ (h'.walk data depth).Within 0 size := by
  rcases next_some hnext with ⟨n, hn, hlong, heq⟩
  have hproto : Span.Within ⟨h.off, 1⟩ 0 size := by
    rw [span_within_iff Nat.one_pos]
    omega
  have hwalk : (h.walk data (depth + 1)).reads =
      extHdrReads h.off h.proto ++ ⟨h.off, 1⟩ :: (h'.walk data depth).reads := by
    simp only [walk, getIpv6HdrLen, hn, if_neg hlong, heq]
    rfl
  rw [Traced.Within, hwalk, List.forall_mem_append, List.forall_mem_cons,
    extHdrReads_within_iff hsize]
  exact and_congr_right fun _ => and_iff_right hproto

theorem walk_last (hsize : h.off + h.len.toNat = size) (hnext : h.next data = none) (depth : Nat) :
    (h.walk data (depth + 1)).Within 0 size <-> h.Fits := by
  have hreads : (h.walk data (depth + 1)).reads = extHdrReads h.off h.proto := by
    unfold next at hnext
    simp only [walk, getIpv6HdrLen]
    split at hnext
    · next hnone =>
        simp only [hnone, extHdrReads]
        unfold extHdrLen at hnone
        split at hnone
        · contradiction
        · next hlength =>
            split at hnone
            · contradiction
            · split at hnone
              · contradiction
              · next hah =>
                  rw [if_neg (by simp [hlength, hah])]
    · next n hn =>
        split at hnext
        · next hshort =>
            simp only [hn, if_pos hshort]
        · contradiction
  rw [Traced.Within, hreads, extHdrReads_within_iff hsize]

theorem next_size (hsize : h.off + h.len.toNat = size) (hnext : h.next data = some h') :
    h'.off + h'.len.toNat = size ∧ h'.len.toNat < h.len.toNat := by
  rcases next_some hnext with ⟨n, hn, hlong, heq⟩
  have hpos := extHdrLen_pos hn
  have hrest : h'.len.toNat = h.len.toNat - n := by
    rw [heq]
    exact toNat_sub_ofNat (Nat.le_of_not_le hlong)
  refine ⟨?_, by omega⟩
  rw [heq]
  exact behind_size hsize hlong

theorem walk_within (hsize : h.off + h.len.toNat = size)
    (hfits : forall h', h.Reaches data h' -> h'.Fits) (depth : Nat) :
    (h.walk data depth).Within 0 size := by
  induction depth generalizing h with
  | zero =>
      intro s hs
      contradiction
  | succ depth ih =>
      have hfirst := hfits h Relation.ReflTransGen.refl
      cases hnext : h.next data with
      | none => exact (walk_last hsize hnext depth).mpr hfirst
      | some h' =>
          refine (walk_next_iff hsize hnext depth).mpr ⟨hfirst, ?_⟩
          apply ih (next_size hsize hnext).1
          intro h'' hreach
          exact hfits h'' (Relation.ReflTransGen.head hnext hreach)

theorem fits_of_walk (hsize : h.off + h.len.toNat = size) {depth : Nat}
    (hdepth : h.len.toNat < depth) (hwithin : (h.walk data depth).Within 0 size)
    (hreach : h.Reaches data h') : h'.Fits := by
  induction depth generalizing h with
  | zero => contradiction
  | succ depth ih =>
      cases hnext : h.next data with
      | none =>
          rcases Relation.ReflTransGen.cases_head hreach with heq | ⟨h'', hstep, _⟩
          · rw [<- heq]
            exact (walk_last hsize hnext depth).mp hwithin
          · rw [hnext] at hstep
            contradiction
      | some g =>
          rcases (walk_next_iff hsize hnext depth).mp hwithin with ⟨hfirst, hrest⟩
          rcases next_size hsize hnext with ⟨hsize', hless⟩
          rcases Relation.ReflTransGen.cases_head hreach with heq | ⟨h'', hstep, hreach'⟩
          · rw [<- heq]
            exact hfirst
          · rw [hnext] at hstep
            injection hstep with hstep
            rw [<- hstep] at hreach'
            exact ih hsize' (by omega) hrest hreach'

end

end ExtHeader

/-!
## Layers
-/

namespace Layer

def extHeader (data : Bytes) (l : Layer) : ExtHeader :=
  ⟨data (l.off + 6), l.off + 40, l.len - 40⟩

/-- The length bytes of the extension headers behind a header of IPv6 are there. -/
def Fits (data : Bytes) (l : Layer) : Prop :=
  l.ethFrameType = etherTypeIpv6 -> 40 ≤ l.len.toNat ->
    forall h, (l.extHeader data).Reaches data h -> h.Fits

section

variable {setup : Setup} {data : Bytes} {l l' : Layer} {size : Nat}

theorem extHeader_size (hsize : l.off + l.len.toNat = size) (hlong : 40 ≤ l.len.toNat) :
    (l.extHeader data).off + (l.extHeader data).len.toNat = size := by
  have hrest : (l.extHeader data).len.toNat = l.len.toNat - 40 := toNat_sub_ofNat hlong
  have hoff : (l.extHeader data).off = l.off + 40 := rfl
  omega

theorem ipv4Header_within (hsize : l.off + l.len.toNat = size) :
    (ipv4Header data l.off l.len).Within 0 size := by
  have hread : forall k, k < 20 -> 20 ≤ l.len.toNat -> Span.Within ⟨l.off + k, 1⟩ 0 size := by
    intro k hk hlen
    rw [span_within_iff Nat.one_pos]
    omega
  unfold ipv4Header Traced.Within
  split
  · simp
  · next hlen =>
      have hfirst := hread 0 (by decide) (Nat.le_of_not_lt hlen)
      split
      · simpa using hfirst
      · simpa using ⟨hfirst, hread 9 (by decide) (Nat.le_of_not_lt hlen)⟩

theorem ipv6Header_within_iff (hsize : l.off + l.len.toNat = size) (hlong : 40 ≤ l.len.toNat)
    (depth : Nat) : (ipv6Header data depth l.off l.len).Within 0 size <->
      ((l.extHeader data).walk data depth).Within 0 size := by
  have hproto : Span.Within ⟨l.off + 6, 1⟩ 0 size := by
    rw [span_within_iff Nat.one_pos]
    omega
  rw [ipv6Header, if_neg (Nat.not_lt_of_le hlong)]
  simp only [Traced.after_within_iff, List.forall_mem_cons]
  constructor
  · intro h
    exact h.1.2
  · intro h
    exact ⟨⟨hproto, h⟩, by simp [Traced.Within]⟩

theorem header_within (hsize : l.off + l.len.toNat = size) (hfits : l.Fits data) (depth : Nat) :
    (l.header setup data depth).Within 0 size := by
  unfold header ipHeader
  split
  · exact ipv4Header_within hsize
  · split
    · next htype =>
        cases Nat.lt_or_ge l.len.toNat 40 with
        | inl hshort =>
            rw [ipv6Header, if_pos hshort]
            simp [Traced.Within]
        | inr hlong =>
            rw [ipv6Header_within_iff hsize hlong]
            exact ExtHeader.walk_within (extHeader_size hsize hlong) (hfits htype.2 hlong) depth
    · simp [Traced.Within]

theorem fits_of_header (hinet6 : setup.inet6 = true) (hsize : l.off + l.len.toNat = size)
    {depth : Nat} (hdepth : l.len.toNat ≤ depth + 39)
    (hwithin : (l.header setup data depth).Within 0 size) : l.Fits data := by
  intro htype hlong h hreach
  rw [header_ipv6 hinet6 htype, ipv6Header_within_iff hsize hlong] at hwithin
  have hrest : (l.extHeader data).len.toNat = l.len.toNat - 40 := toNat_sub_ofNat hlong
  exact ExtHeader.fits_of_walk (extHeader_size hsize hlong) (by omega) hwithin hreach

theorem behind_size (hsize : l.off + l.len.toNat = size) {hdrLen : Nat}
    (hle : hdrLen ≤ l.len.toNat) (ethFrameType : UInt16) :
    (l.behind hdrLen ethFrameType).off + (l.behind hdrLen ethFrameType).len.toNat = size := by
  have hrest : (l.behind hdrLen ethFrameType).len.toNat = l.len.toNat - hdrLen := toNat_sub_ofNat hle
  have hoff : (l.behind hdrLen ethFrameType).off = l.off + hdrLen := rfl
  omega

theorem HdrLen.le {hdrLen : Nat} {proto : UInt8} (h : HdrLen data l hdrLen proto) :
    hdrLen ≤ l.len.toNat := by
  cases h with
  | ipv4 htype hlen hle => exact hle
  | ipv6 hdrLen proto htype hlong hle => exact hle

theorem inner_size (hsize : l.off + l.len.toNat = size) (h : l.inner setup data = some l') :
    l'.off + l'.len.toNat = size := by
  rcases inner_found h with ⟨hdrLen, proto, hfound, _, heq⟩
  rw [heq]
  exact behind_size hsize (header_found hfound).le _

theorem inner_len_le (h : l.inner setup data = some l') : l'.len.toNat ≤ l.len.toNat := by
  rcases inner_found h with ⟨hdrLen, proto, hfound, _, heq⟩
  have hrest : l'.len.toNat = l.len.toNat - hdrLen := by
    rw [heq]
    exact toNat_sub_ofNat (header_found hfound).le
  omega

theorem filterUpper_within {off : Nat} {len : UInt16} (hsize : off + len.toNat = size)
    (proto : UInt8) : (filterUpper setup data off len proto).Within 0 size := by
  have hports : forall hdrSize bitmap, 4 ≤ hdrSize ->
      (filterPorts hdrSize bitmap data off len).Within 0 size := by
    intro hdrSize bitmap hport
    unfold filterPorts Traced.Within
    split
    · simp
    · rw [List.forall_mem_singleton, span_within_iff (by decide)]
      omega
  unfold filterUpper
  split
  · exact hports 20 _ (by decide)
  · split
    · exact hports 8 _ (by decide)
    · split
      · unfold protocolFilterIcmp6 Traced.Within
        split
        · simp
        · rw [List.forall_mem_singleton, span_within_iff Nat.one_pos]
          omega
      · simp [Traced.Within]

theorem filter_inner_reads (h : l.inner setup data = some l') {depth : Nat}
    (hdeep : (l.header setup data depth).result ≠ .deep) : (l.filter setup data (depth + 1)).reads =
      (l.header setup data depth).reads ++ (l'.filter setup data depth).reads := by
  rcases inner_found h with ⟨hdrLen, proto, hfound, hinner, heq⟩
  have hsame := (l.header_cases setup data depth).resolve_left hdeep
  rw [hfound] at hsame
  rw [heq]
  unfold header at hsame ⊢
  simp [filter, behind, protocolFilterIp, hsame, hinner, Traced.after]

theorem filter_within (hsize : l.off + l.len.toNat = size)
    (hfits : forall l', l.Reaches setup data l' -> l'.Fits data) (depth : Nat) :
    (l.filter setup data depth).Within 0 size := by
  induction depth generalizing l with
  | zero =>
      intro s hs
      contradiction
  | succ depth ih =>
      have hheader : (l.header setup data depth).Within 0 size :=
        header_within hsize (hfits l Relation.ReflTransGen.refl) depth
      cases hresult : (l.header setup data depth).result with
      | refused =>
          unfold header at hresult
          simp only [filter, protocolFilterIp, hresult]
          exact hheader
      | deep =>
          unfold header at hresult
          simp only [filter, protocolFilterIp, hresult]
          exact hheader
      | found hdrLen proto =>
          have hle := (header_found hresult).le
          cases hinner : innerType setup proto with
          | none =>
              unfold header at hresult
              simp only [filter, protocolFilterIp, hresult, hinner, Traced.Within]
              rw [List.forall_mem_append]
              exact ⟨hheader, filterUpper_within (behind_size hsize hle etherTypeIpv4) proto⟩
          | some ethFrameType =>
              have hdeep : (l.header setup data depth).result ≠ .deep := by
                rw [hresult]
                simp
              have hstable := (l.header_cases setup data depth).resolve_left hdeep
              rw [hresult] at hstable
              have hstep : l.inner setup data = some (l.behind hdrLen ethFrameType) := by
                rw [inner, <- hstable]
                simp [hinner]
              rw [Traced.Within, filter_inner_reads hstep hdeep, List.forall_mem_append]
              refine ⟨hheader, ih (behind_size hsize hle ethFrameType) ?_⟩
              intro l' hreach
              exact hfits l' (Relation.ReflTransGen.head hstep hreach)

theorem fits_of_filter (hinet6 : setup.inet6 = true) (hsize : l.off + l.len.toNat = size)
    {least : Nat} (hleast : l.len.toNat ≤ least)
    (hwithin : forall depth, least ≤ depth -> (l.filter setup data depth).Within 0 size)
    (hreach : l.Reaches setup data l') : l'.Fits data := by
  have hheader : forall {l : Layer}, l.len.toNat ≤ least ->
      (forall depth, least ≤ depth -> (l.filter setup data depth).Within 0 size) ->
        (l.header setup data least).Within 0 size := by
    intro l _ hwithin s hs
    apply hwithin (least + 1) (Nat.le_succ _)
    unfold header at hs
    simp only [filter, protocolFilterIp]
    split
    · exact hs
    · exact hs
    · split
      · exact List.mem_append_left _ hs
      · exact List.mem_append_left _ hs
  induction hreach using Relation.ReflTransGen.head_induction_on with
  | refl =>
      exact fits_of_header hinet6 hsize (Nat.le_trans hleast (Nat.le_add_right _ _))
        (hheader hleast hwithin)
  | head hstep _ ih =>
      apply ih (inner_size hsize hstep) (Nat.le_trans (inner_len_le hstep) hleast)
      intro depth hdepth s hs
      apply hwithin (depth + 1) (Nat.le_succ_of_le hdepth)
      rw [filter_inner_reads hstep]
      · exact List.mem_append_right _ hs
      · rw [header_eq]
        · exact header_ne_deep
        · exact Nat.le_trans hleast (Nat.le_trans hdepth (Nat.le_add_right _ _))

end

end Layer

/-!
## Frames
-/

def Setup.enabled (tcpPortBitmap udpPortBitmap : Bytes) : Setup :=
  ⟨true, true, true, tcpPortBitmap, udpPortBitmap⟩

def frameLayer (data : Bytes) (len : UInt16) : Layer :=
  if be16 data 12 = etherTypeVlan then
    ⟨18, len - 14 - 4, be16 data 16⟩
  else
    ⟨14, len - 14, be16 data 12⟩

structure FrameFits (setup : Setup) (data : Bytes) (len : UInt16) : Prop where
  vlan : be16 data 12 = etherTypeVlan -> 18 ≤ len.toNat
  headers : forall l, (frameLayer data len).Reaches setup data l -> l.Fits data

section

variable (tcp udp : Bytes) (data : Bytes)

theorem reaches_other {setup : Setup} {data : Bytes} {l l' : Layer}
    (hipv4 : l.ethFrameType ≠ etherTypeIpv4) (hipv6 : l.ethFrameType ≠ etherTypeIpv6)
    (hreach : l.Reaches setup data l') : l'.Fits data := by
  have hinner : l.inner setup data = none := by
    have hne : ¬ (setup.inet6 = true ∧ l.ethFrameType = etherTypeIpv6) := fun h => hipv6 h.2
    simp only [Layer.inner, Layer.header, ipHeader, if_neg hipv4, if_neg hne]
  rcases Relation.ReflTransGen.cases_head hreach with heq | ⟨l'', hstep, _⟩
  · rw [<- heq]
    intro htype
    exact absurd htype hipv6
  · rw [hinner] at hstep
    contradiction

theorem filterType_ip {l : Layer}
    (htype : l.ethFrameType = etherTypeIpv4 ∨ l.ethFrameType = etherTypeIpv6) (depth : Nat) :
    filterType (Setup.enabled tcp udp) data depth l.off l.len l.ethFrameType =
      l.filter (Setup.enabled tcp udp) data depth := by
  rcases htype with hipv4 | hipv6
  · rw [filterType, if_neg (by rw [hipv4]; decide), if_neg (fun h => by
      rw [hipv4] at h
      exact absurd h.2 (by decide)), if_pos ⟨rfl, rfl, hipv4⟩]
    rfl
  · rw [filterType, if_neg (by rw [hipv6]; decide), if_pos ⟨rfl, hipv6⟩]
    rfl

theorem filterType_within_iff (l : Layer) {size : Nat} (hsize : l.off + l.len.toNat = size) :
    (forall depth, (filterType (Setup.enabled tcp udp) data depth l.off l.len
        l.ethFrameType).Within 0 size) <->
      forall l', l.Reaches (Setup.enabled tcp udp) data l' -> l'.Fits data := by
  have hip : (forall depth, (l.filter (Setup.enabled tcp udp) data depth).Within 0 size) <->
      forall l', l.Reaches (Setup.enabled tcp udp) data l' -> l'.Fits data := by
    constructor
    · intro hwithin l' hreach
      exact Layer.fits_of_filter rfl hsize (Nat.le_refl _) (fun depth _ => hwithin depth) hreach
    · intro hfits depth
      exact Layer.filter_within hsize hfits depth
  by_cases htype : l.ethFrameType = etherTypeIpv4 ∨ l.ethFrameType = etherTypeIpv6
  · simp only [filterType_ip tcp udp data htype]
    exact hip
  · have hipv4 : l.ethFrameType ≠ etherTypeIpv4 := fun h => htype (Or.inl h)
    have hipv6 : l.ethFrameType ≠ etherTypeIpv6 := fun h => htype (Or.inr h)
    refine ⟨fun _ l' hreach => reaches_other hipv4 hipv6 hreach, fun _ depth s hs => ?_⟩
    simp only [filterType, hipv6, hipv4, and_false, if_false] at hs
    split at hs
    · contradiction
    · contradiction

theorem frameLayer_size {len : UInt16} (hlen : 14 ≤ len.toNat)
    (hvlan : be16 data 12 = etherTypeVlan -> 18 ≤ len.toNat) :
    (frameLayer data len).off + (frameLayer data len).len.toNat = len.toNat := by
  have hrest : (len - 14).toNat = len.toNat - 14 := toNat_sub_ofNat hlen
  unfold frameLayer
  split
  · next htag =>
      have hmore := hvlan htag
      have hinner : (len - 14 - 4).toNat = (len - 14).toNat - 4 :=
        toNat_sub_ofNat (n := 4) (by omega)
      simp only
      omega
  · simp only
    omega

/--
Of a frame only bytes of the frame are read exactly if its VLAN tag, if it has one, is
complete, and so are the length bytes of all extension headers that the filter comes to.
-/
theorem filter_reads (len : UInt16) :
    (forall depth, (protocolFilter (Setup.enabled tcp udp) data depth len).Within 0 len.toNat) <->
      (14 ≤ len.toNat -> FrameFits (Setup.enabled tcp udp) data len) := by
  cases Nat.lt_or_ge len.toNat 14 with
  | inl hshort =>
      refine ⟨fun _ hlen => absurd hshort (Nat.not_lt_of_le hlen), fun _ depth s hs => ?_⟩
      rw [protocolFilter, if_pos hshort] at hs
      contradiction
  | inr hlen =>
      have htype : Span.Within ⟨12, 2⟩ 0 len.toNat := by
        rw [span_within_iff (by decide)]
        exact hlen
      have htag : Span.Within ⟨16, 2⟩ 0 len.toNat <-> 18 ≤ len.toNat := span_within_iff (by decide)
      have hsplit : (forall depth, (protocolFilter (Setup.enabled tcp udp) data depth len).Within 0
          len.toNat) <-> (be16 data 12 = etherTypeVlan -> 18 ≤ len.toNat) ∧
            forall depth, (filterType (Setup.enabled tcp udp) data depth (frameLayer data len).off
              (frameLayer data len).len (frameLayer data len).ethFrameType).Within 0 len.toNat := by
        simp only [protocolFilter, if_neg (Nat.not_lt_of_le hlen), frameLayer]
        split
        · next hvlan =>
            simp only [Traced.after_within_iff, List.forall_mem_cons, htype, htag, hvlan, true_and,
              forall_true_left, List.not_mem_nil, IsEmpty.forall_iff, implies_true, and_true]
            exact forall_and_left _ _
        · next hvlan =>
            simp only [Traced.after_within_iff, List.forall_mem_singleton, htype, hvlan, true_and,
              IsEmpty.forall_iff]
      rw [hsplit]
      constructor
      · rintro ⟨hvlan, hwithin⟩ _
        refine ⟨hvlan, ?_⟩
        exact (filterType_within_iff tcp udp data _ (frameLayer_size data hlen hvlan)).mp hwithin
      · intro h
        rcases h hlen with ⟨hvlan, hfits⟩
        refine ⟨hvlan, ?_⟩
        exact (filterType_within_iff tcp udp data _ (frameLayer_size data hlen hvlan)).mpr hfits

end

/-- A frame of sixteen bytes with the type of a VLAN tag. -/
theorem filter_reads_short_vlan :
    ¬ forall depth, (protocolFilter (Setup.enabled (fun _ => 0) (fun _ => 0))
      (fun k => if k = 12 then 0x81 else 0) depth 16).Within 0 16 := by
  intro hwithin
  have hread : Span.Within ⟨16, 2⟩ 0 16 := hwithin 0 ⟨16, 2⟩ (by decide)
  exact absurd hread (by decide)

end Filter
end FStackLite
