import FStackLite.Filter.Protocol
import Mathlib.Logic.Relation

/-!
# How deep the protocol filter goes

Each extension header and each IPv6 header takes bytes off the packet, and so does an IPv4
header of a length other than zero.  An IPv4 header of length zero that is followed by an
IPv4 header is followed by itself.
-/

namespace FStackLite
namespace Filter

open Foundation (Bytes Span Traced)
open Dispatch (FilterReturn)

variable {len : UInt16} {depth : Nat} {proto : UInt8}

theorem toNat_sub_ofNat {n : Nat} (h : n ≤ len.toNat) :
    (len - UInt16.ofNat n).toNat = len.toNat - n := by
  have hlt : n < 2 ^ 16 := Nat.lt_of_le_of_lt h len.toNat_lt
  have hn : (UInt16.ofNat n).toNat = n := UInt16.toNat_ofNat_of_lt' hlt
  rw [UInt16.toNat_sub_of_le _ _ (UInt16.le_iff_toNat_le.mpr (by rwa [hn])), hn]

/-!
## Extension headers
-/

section

variable {data : Bytes} {proto : UInt8} {off n : Nat}

theorem extHdrLen_pos (h : extHdrLen data off proto = some n) : 0 < n := by
  unfold extHdrLen at h
  split at h
  · injection h with h
    omega
  · split at h
    · injection h with h
      omega
    · split at h
      · injection h with h
        omega
      · contradiction

end

theorem getIpv6HdrLen_eq (data : Bytes) {depth' : Nat} {off : Nat} (h : len.toNat < depth)
    (h' : len.toNat < depth') :
    getIpv6HdrLen data depth proto off len = getIpv6HdrLen data depth' proto off len := by
  induction depth generalizing depth' proto off len with
  | zero => contradiction
  | succ depth ih =>
      cases depth' with
      | zero => contradiction
      | succ depth' =>
          unfold getIpv6HdrLen
          cases hn : extHdrLen data off proto with
          | none => rfl
          | some n =>
              have hpos := extHdrLen_pos hn
              simp only
              split
              · rfl
              · next hlong =>
                  have hrest := toNat_sub_ofNat (Nat.le_of_not_le hlong)
                  have hsame : getIpv6HdrLen data depth (data off) (off + n)
                      (len - UInt16.ofNat n) = getIpv6HdrLen data depth' (data off) (off + n)
                        (len - UInt16.ofNat n) :=
                    ih (by omega) (by omega)
                  rw [hsame]

theorem getIpv6HdrLen_result (data : Bytes) (proto : UInt8) (off : Nat) (h : len.toNat < depth) :
    exists n proto', (getIpv6HdrLen data depth proto off len).result = some (n, proto') ∧
      n ≤ len.toNat := by
  induction depth generalizing proto off len with
  | zero => contradiction
  | succ depth ih =>
      unfold getIpv6HdrLen
      cases hn : extHdrLen data off proto with
      | none => exact ⟨0, proto, rfl, Nat.zero_le _⟩
      | some n =>
          have hpos := extHdrLen_pos hn
          simp only
          split
          · exact ⟨len.toNat, proto, rfl, Nat.le_refl _⟩
          · next hlong =>
              have hrest := toNat_sub_ofNat (Nat.le_of_not_le hlong)
              have hshorter : (len - UInt16.ofNat n).toNat < depth := by omega
              rcases ih (data off) (off + n) hshorter with ⟨more, proto', hresult, hle⟩
              refine ⟨n + more, proto', ?_, by omega⟩
              rw [hresult]
              rfl

theorem getIpv6HdrLen_mono (data : Bytes) {off : Nat} {r : Nat × UInt8}
    (h : (getIpv6HdrLen data depth proto off len).result = some r) (depth' : Nat)
    (hle : depth ≤ depth') : (getIpv6HdrLen data depth' proto off len).result = some r := by
  induction depth generalizing depth' proto off len r with
  | zero => contradiction
  | succ depth ih =>
      cases depth' with
      | zero => contradiction
      | succ depth' =>
          unfold getIpv6HdrLen at h ⊢
          cases hn : extHdrLen data off proto with
          | none => simpa [hn] using h
          | some n =>
              simp only [hn] at h ⊢
              split at h
              · next hshort =>
                  simpa [hshort] using h
              · next hlong =>
                  rw [if_neg hlong]
                  rcases Option.map_eq_some_iff.mp h with ⟨rest, hrest, heq⟩
                  show Option.map _ _ = some r
                  rw [ih hrest depth' (Nat.le_of_succ_le_succ hle)]
                  exact congrArg some heq

/-!
## Nested headers
-/

/-- An IP header that the filter comes to, with the bytes that are left of the packet. -/
structure Layer where
  off : Nat
  len : UInt16
  ethFrameType : UInt16

theorem innerType_ipv4 {setup : Setup} (h : innerType setup proto = some etherTypeIpv4) :
    proto = ipprotoIpip := by
  unfold innerType at h
  split at h
  · next hproto =>
      exact hproto
  · split at h
    · injection h with h
      exact absurd h (by decide)
    · contradiction

namespace Layer

def header (setup : Setup) (data : Bytes) (depth : Nat) (l : Layer) : Traced IpHeader :=
  ipHeader setup data depth l.off l.len l.ethFrameType

def filter (setup : Setup) (data : Bytes) (depth : Nat) (l : Layer) :
    Traced (Option FilterReturn) :=
  protocolFilterIp setup data depth l.off l.len l.ethFrameType

def behind (l : Layer) (hdrLen : Nat) (ethFrameType : UInt16) : Layer :=
  ⟨l.off + hdrLen, l.len - UInt16.ofNat hdrLen, ethFrameType⟩

/-- The layer that `protocol_filter_ip` calls itself for. -/
def inner (setup : Setup) (data : Bytes) (l : Layer) : Option Layer :=
  match (l.header setup data l.len.toNat).result with
  | .found hdrLen proto => (innerType setup proto).map (l.behind hdrLen)
  | _ => none

def Reaches (setup : Setup) (data : Bytes) : Layer -> Layer -> Prop :=
  Relation.ReflTransGen fun l l' => l.inner setup data = some l'

structure Endless (data : Bytes) (l : Layer) : Prop where
  ipv4 : l.ethFrameType = etherTypeIpv4
  complete : 20 ≤ l.len.toNat
  hdrLen : ipv4HdrLen data l.off = 0
  proto : data (l.off + 9) = ipprotoIpip

section

variable (setup : Setup) (data : Bytes) (l : Layer)

theorem header_eq {depth : Nat} (h : l.len.toNat ≤ depth + 39) :
    l.header setup data depth = l.header setup data l.len.toNat := by
  unfold header ipHeader ipv6Header
  split
  · rfl
  · split
    · split
      · rfl
      · next hlong =>
          have hrest : (l.len - 40).toNat = l.len.toNat - 40 :=
            toNat_sub_ofNat (Nat.le_of_not_lt hlong)
          have hsame : getIpv6HdrLen data depth (data (l.off + 6)) (l.off + 40) (l.len - 40) =
              getIpv6HdrLen data l.len.toNat (data (l.off + 6)) (l.off + 40) (l.len - 40) :=
            getIpv6HdrLen_eq data (by omega) (by omega)
          rw [hsame]
    · rfl

theorem header_mono {depth depth' : Nat} (h : (l.header setup data depth).result ≠ .deep)
    (hle : depth ≤ depth') :
    (l.header setup data depth').result = (l.header setup data depth).result := by
  unfold header ipHeader ipv6Header at h ⊢
  split
  · rfl
  · next htype =>
      rw [if_neg htype] at h
      split
      · next hinet6 =>
          rw [if_pos hinet6] at h
          split
          · rfl
          · next hlong =>
              rw [if_neg hlong] at h
              simp only [Traced.after_result] at h ⊢
              cases hwalk : (getIpv6HdrLen data depth (data (l.off + 6)) (l.off + 40)
                  (l.len - 40)).result with
              | none =>
                  rw [hwalk] at h
                  contradiction
              | some r => rw [getIpv6HdrLen_mono data hwalk depth' hle]
      · rfl

theorem header_cases (depth : Nat) : (l.header setup data depth).result = .deep ∨
      (l.header setup data depth).result = (l.header setup data l.len.toNat).result := by
  cases Nat.le_total depth l.len.toNat with
  | inl hle =>
      by_cases hdeep : (l.header setup data depth).result = .deep
      · exact Or.inl hdeep
      · exact Or.inr (l.header_mono setup data hdeep hle).symm
  | inr hge =>
      rw [l.header_eq setup data (Nat.le_trans hge (Nat.le_add_right _ _))]
      exact Or.inr rfl

end

/-!
## The lengths of headers
-/

section

variable {setup : Setup} {data : Bytes} {l l' : Layer}

theorem header_ipv4 (htype : l.ethFrameType = etherTypeIpv4) (depth : Nat) :
    l.header setup data depth = ipv4Header data l.off l.len := by
  rw [header, ipHeader, if_pos htype]

theorem header_ipv6 (hinet6 : setup.inet6 = true) (htype : l.ethFrameType = etherTypeIpv6)
    (depth : Nat) : l.header setup data depth = ipv6Header data depth l.off l.len := by
  have hne : l.ethFrameType ≠ etherTypeIpv4 := by
    rw [htype]
    decide
  rw [header, ipHeader, if_neg hne, if_pos ⟨hinet6, htype⟩]

inductive HdrLen (data : Bytes) (l : Layer) : Nat -> UInt8 -> Prop where
  | ipv4 (htype : l.ethFrameType = etherTypeIpv4) (hlen : 20 ≤ l.len.toNat)
      (hle : ipv4HdrLen data l.off ≤ l.len.toNat) :
      HdrLen data l (ipv4HdrLen data l.off) (data (l.off + 9))
  | ipv6 (hdrLen : Nat) (proto : UInt8) (htype : l.ethFrameType = etherTypeIpv6)
      (hlong : 40 ≤ hdrLen) (hle : hdrLen ≤ l.len.toNat) : HdrLen data l hdrLen proto

theorem header_found {depth hdrLen : Nat} {proto : UInt8}
    (h : (l.header setup data depth).result = .found hdrLen proto) : HdrLen data l hdrLen proto := by
  unfold header ipHeader ipv4Header ipv6Header at h
  split at h
  · next htype =>
      split at h
      · contradiction
      · next hlen =>
          split at h
          · contradiction
          · next hle =>
              injection h with hhdr hproto
              rw [<- hhdr, <- hproto]
              exact HdrLen.ipv4 htype (Nat.le_of_not_lt hlen) (Nat.le_of_not_lt hle)
  · split at h
    · next htype =>
        split at h
        · contradiction
        · simp only [Traced.after_result] at h
          split at h
          · contradiction
          · split at h
            · contradiction
            · next hle =>
                injection h with hhdr hproto
                rw [<- hhdr]
                exact HdrLen.ipv6 _ _ htype.2 (Nat.le_add_right _ _) (Nat.le_of_not_lt hle)
    · contradiction

theorem header_ne_deep : (l.header setup data l.len.toNat).result ≠ .deep := by
  unfold header ipHeader ipv4Header ipv6Header
  split
  · split
    · simp
    · split
      · simp
      · simp
  · split
    · split
      · simp
      · next hlong =>
          have hrest : (l.len - 40).toNat = l.len.toNat - 40 :=
            toNat_sub_ofNat (Nat.le_of_not_lt hlong)
          have hshorter : (l.len - 40).toNat < l.len.toNat := by omega
          rcases getIpv6HdrLen_result data (data (l.off + 6)) (l.off + 40) hshorter with
            ⟨n, proto, hwalk, _⟩
          simp only [Traced.after_result, hwalk]
          split
          · simp
          · simp
    · simp

theorem inner_found (h : l.inner setup data = some l') :
    exists hdrLen proto, (l.header setup data l.len.toNat).result = .found hdrLen proto ∧
      innerType setup proto = some l'.ethFrameType ∧ l' = l.behind hdrLen l'.ethFrameType := by
  unfold inner at h
  split at h
  · next hdrLen proto hfound =>
      rcases Option.map_eq_some_iff.mp h with ⟨ethFrameType, hinner, heq⟩
      rw [<- heq]
      exact ⟨hdrLen, proto, hfound, hinner, rfl⟩
  · contradiction

/-- A layer that has another inside it is filtered as that one, if there is depth enough. -/
theorem filter_inner (h : l.inner setup data = some l') (depth : Nat) :
    ((l.header setup data depth).result = .deep ∧ (l.filter setup data (depth + 1)).result = none) ∨
      (l.filter setup data (depth + 1)).result = (l'.filter setup data depth).result := by
  rcases inner_found h with ⟨hdrLen, proto, hfound, hinner, heq⟩
  rcases l.header_cases setup data depth with hdeep | hsame
  · left
    refine ⟨hdeep, ?_⟩
    unfold header at hdeep
    simp [filter, protocolFilterIp, hdeep]
  · right
    rw [hfound] at hsame
    unfold header at hsame
    rw [heq]
    simp [filter, behind, protocolFilterIp, hsame, hinner]

theorem filter_last (h : l.inner setup data = none) {depth : Nat}
    (hdepth : l.len.toNat ≤ depth + 39) : (l.filter setup data (depth + 1)).result ≠ none := by
  have hsame := l.header_eq setup data hdepth
  cases hhdr : (l.header setup data l.len.toNat).result with
  | deep => exact absurd hhdr header_ne_deep
  | refused =>
      rw [<- hsame] at hhdr
      unfold header at hhdr
      simp [filter, protocolFilterIp, hhdr]
  | found hdrLen proto =>
      have hinner : innerType setup proto = none := by
        simpa [inner, hhdr] using h
      rw [<- hsame] at hhdr
      unfold header at hhdr
      simp [filter, protocolFilterIp, hhdr, hinner]

end

/-!
## Termination
-/

/-- The depth that a layer needs, unless the filter comes to an endless one. -/
def need (l : Layer) : Nat :=
  if l.ethFrameType = etherTypeIpv4 then l.len.toNat + 1 else max 1 (l.len.toNat - 38)

section

variable {setup : Setup} {data : Bytes} {l l' : Layer}

theorem need_le (l : Layer) : l.need ≤ l.len.toNat + 1 := by
  unfold need
  split
  · exact Nat.le_refl _
  · omega

theorem inner_need (h : l.inner setup data = some l') (hends : ¬ l.Endless data) :
    l'.need < l.need := by
  rcases inner_found h with ⟨hdrLen, proto, hfound, hinner, heq⟩
  have hlen' : l'.len = l.len - UInt16.ofNat hdrLen := by
    rw [heq]
    rfl
  cases header_found hfound with
  | ipv4 htype hlen hle =>
      have hrest : l'.len.toNat = l.len.toNat - ipv4HdrLen data l.off := by
        rw [hlen', toNat_sub_ofNat hle]
      have hneed : l.need = l.len.toNat + 1 := if_pos htype
      by_cases htype' : l'.ethFrameType = etherTypeIpv4
      · have hneed' : l'.need = l'.len.toNat + 1 := if_pos htype'
        have hpos : 0 < ipv4HdrLen data l.off := by
          apply Nat.pos_of_ne_zero
          intro hzero
          refine hends ⟨htype, hlen, hzero, ?_⟩
          rw [htype'] at hinner
          exact innerType_ipv4 hinner
        omega
      · have hneed' : l'.need = max 1 (l'.len.toNat - 38) := if_neg htype'
        omega
  | ipv6 hdrLen proto htype hlong hle =>
      have hrest : l'.len.toNat = l.len.toNat - hdrLen := by
        rw [hlen', toNat_sub_ofNat hle]
      have hne : l.ethFrameType ≠ etherTypeIpv4 := by
        rw [htype]
        decide
      have hneed : l.need = max 1 (l.len.toNat - 38) := if_neg hne
      have hneed' := l'.need_le
      omega

/-- There is depth enough for the filter, as long as it comes to no endless layer. -/
theorem filter_ends {depth : Nat} (hdepth : l.need ≤ depth)
    (hends : forall l', l.Reaches setup data l' -> ¬ l'.Endless data) :
    (l.filter setup data depth).result ≠ none := by
  induction depth generalizing l with
  | zero =>
      have hpos : 0 < l.need := by
        unfold need
        split
        · exact Nat.succ_pos _
        · omega
      omega
  | succ depth ih =>
      have hroom : l.len.toNat ≤ depth + 39 := by
        unfold need at hdepth
        split at hdepth
        · omega
        · omega
      cases hinner : l.inner setup data with
      | none => exact filter_last hinner hroom
      | some l' =>
          have hless := inner_need hinner (hends l Relation.ReflTransGen.refl)
          rcases filter_inner hinner depth with ⟨hdeep, _⟩ | hsame
          · rw [l.header_eq setup data hroom] at hdeep
            exact absurd hdeep header_ne_deep
          · rw [hsame]
            apply ih (by omega)
            intro l'' hreach
            exact hends l'' (Relation.ReflTransGen.head hinner hreach)

theorem Endless.inner (h : l.Endless data) : l.inner setup data = some l := by
  have hfound : (l.header setup data l.len.toNat).result = .found 0 ipprotoIpip := by
    rw [header_ipv4 h.ipv4, ipv4Header, if_neg (Nat.not_lt_of_le h.complete), h.hdrLen,
      if_neg (Nat.not_lt_zero _), h.proto]
  have hinner : innerType setup ipprotoIpip = some etherTypeIpv4 := if_pos rfl
  rw [Layer.inner, hfound]
  simp only [hinner, Option.map_some, behind]
  rw [<- h.ipv4]
  simp

theorem filter_endless (hreach : l.Reaches setup data l') (h : l'.Endless data) (depth : Nat) :
    (l.filter setup data depth).result = none := by
  induction depth generalizing l with
  | zero => rfl
  | succ depth ih =>
      have hstep : exists l'', l.inner setup data = some l'' ∧ l''.Reaches setup data l' := by
        rcases Relation.ReflTransGen.cases_head hreach with heq | ⟨l'', hinner, hrest⟩
        · rw [heq]
          exact ⟨l', h.inner, Relation.ReflTransGen.refl⟩
        · exact ⟨l'', hinner, hrest⟩
      rcases hstep with ⟨l'', hinner, hrest⟩
      rcases filter_inner hinner depth with ⟨_, hnone⟩ | hsame
      · exact hnone
      · rw [hsame]
        exact ih hrest

end

end Layer

/--
A packet is filtered with calls nested no deeper than it is long exactly if no IPv4 header
of length zero in it is followed by another IPv4 header, and otherwise is not filtered at
any depth.
-/
theorem filter_termination (setup : Setup) (data : Bytes) (len ethFrameType : UInt16) :
    ((ffKniProtoFilter setup data (len.toNat + 1) 0 len ethFrameType).result ≠ none <->
        forall l, Layer.Reaches setup data ⟨0, len, ethFrameType⟩ l -> ¬ l.Endless data) ∧
      ((ffKniProtoFilter setup data (len.toNat + 1) 0 len ethFrameType).result = none ->
        forall depth, (ffKniProtoFilter setup data depth 0 len ethFrameType).result = none) := by
  have hends : (forall l, Layer.Reaches setup data ⟨0, len, ethFrameType⟩ l -> ¬ l.Endless data) ->
      (ffKniProtoFilter setup data (len.toNat + 1) 0 len ethFrameType).result ≠ none :=
    Layer.filter_ends (Layer.need_le ⟨0, len, ethFrameType⟩)
  refine ⟨⟨?_, hends⟩, ?_⟩
  · intro hresult l hreach hendless
    exact hresult (Layer.filter_endless hreach hendless _)
  · intro hresult depth
    have hreaches : exists l, Layer.Reaches setup data ⟨0, len, ethFrameType⟩ l ∧ l.Endless data := by
      apply Classical.byContradiction
      intro hnone
      exact hends (fun l hreach hendless => hnone ⟨l, hreach, hendless⟩) hresult
    rcases hreaches with ⟨l, hreach, hendless⟩
    exact Layer.filter_endless hreach hendless depth

def Setup.full : Setup where
  inet6 := true
  kni := true
  enableKni := true
  tcpPortBitmap _ := 0
  udpPortBitmap _ := 0

/-- Twenty bytes of IPv4 in IPv4, with a header length of zero, are not filtered at any depth. -/
theorem filter_endless_tunnel :
    ¬ exists depth, (ffKniProtoFilter Setup.full (fun k => if k = 9 then 4 else 0x40) depth 0 20
      etherTypeIpv4).result ≠ none := by
  rintro ⟨depth, hresult⟩
  have hendless : Layer.Endless (fun k => if k = 9 then 4 else 0x40) ⟨0, 20, etherTypeIpv4⟩ :=
    ⟨rfl, by decide, by decide, rfl⟩
  exact hresult (Layer.filter_endless Relation.ReflTransGen.refl hendless depth)

end Filter
end FStackLite
