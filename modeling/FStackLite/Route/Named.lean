import FStackLite.Route.Reply

/-!
# The addresses that a request names

Which addresses stand in a request is seen from its bytes: each one starts where the one before
it, with its padding, ends.  As long as no IPv6 address is shorter than the place of its scope,
all that is written to an address stays inside of it, so that these are the addresses that
`rt_xaddrs` finds and whose scopes are recovered.
-/

namespace FStackLite
namespace Route

open Foundation (Bytes Span)

/-- An address of a message: its slot, and where it starts. -/
structure Named where
  slot : Nat
  off : Nat
deriving DecidableEq

/-- The addresses of these slots, from `cp` on, up to one that is empty or too long. -/
def namedFrom (addrs len : Nat) (data : Bytes) : List Nat -> Nat -> List Named
  | [], _ => []
  | i :: rest, cp =>
      if addrs.testBit i then
        if cp < len ∧ data cp ≠ 0 ∧ cp + (data cp).toNat ≤ len then
          ⟨i, cp⟩ :: namedFrom addrs len data rest (cp + saSize (data cp))
        else
          []
      else
        namedFrom addrs len data rest cp

/-- The family is in the request, and an IPv6 address goes up to its scope at least. -/
structure Named.Tame (data : Bytes) (len : Nat) (a : Named) : Prop where
  family : a.off + 1 < len
  inet6 : data (a.off + 1) = afInet6 -> 24 < (data a.off).toNat

structure Named.Inside (data : Bytes) (addrs len cp : Nat) (a : Named) : Prop where
  behind : cp ≤ a.off
  aligned : a.off % 8 = 0
  fits : a.off + (data a.off).toNat ≤ len
  bit : addrs.testBit a.slot = true

section

variable {addrs len cp : Nat} {data : Bytes} {a : Named}

theorem mem_namedFrom {slots : List Nat} (hcp : cp % 8 = 0)
    (ha : a ∈ namedFrom addrs len data slots cp) : a.Inside data addrs len cp := by
  induction slots generalizing cp with
  | nil => contradiction
  | cons i rest ih =>
      have hsize := saSize_bounds (data cp)
      unfold namedFrom at ha
      split at ha
      · next hbit =>
          split at ha
          · next hthere =>
              rcases List.mem_cons.mp ha with heq | hlater
              · rw [heq]
                exact ⟨Nat.le_refl _, hcp, hthere.2.2, hbit⟩
              · have hinside := ih (by omega) hlater
                exact ⟨Nat.le_trans (Nat.le_add_right _ _) hinside.behind, hinside.aligned,
                  hinside.fits, hinside.bit⟩
          · contradiction
      · exact ih hcp ha

/-- Two addresses with their padding are the same or do not meet. -/
theorem namedFrom_apart {slots : List Nat} (hcp : cp % 8 = 0) {b : Named}
    (ha : a ∈ namedFrom addrs len data slots cp) (hb : b ∈ namedFrom addrs len data slots cp) :
    a.off = b.off ∨ a.off + saSize (data a.off) ≤ b.off ∨ b.off + saSize (data b.off) ≤ a.off := by
  induction slots generalizing cp with
  | nil => contradiction
  | cons i rest ih =>
      have hsize := saSize_bounds (data cp)
      have hnext : (cp + saSize (data cp)) % 8 = 0 := by omega
      unfold namedFrom at ha hb
      split at ha
      · next hbit =>
          rw [if_pos hbit] at hb
          split at ha
          · next hthere =>
              rw [if_pos hthere] at hb
              rcases List.mem_cons.mp ha with haeq | halater
              · rcases List.mem_cons.mp hb with hbeq | hblater
                · rw [haeq, hbeq]
                  exact Or.inl rfl
                · rw [haeq]
                  exact Or.inr (Or.inl (mem_namedFrom hnext hblater).behind)
              · rcases List.mem_cons.mp hb with hbeq | hblater
                · rw [hbeq]
                  exact Or.inr (Or.inr (mem_namedFrom hnext halater).behind)
                · exact ih hnext halater hblater
          · contradiction
      · next hbit =>
          rw [if_neg hbit] at hb
          exact ih hcp ha hb

/-- An IPv6 address has room for its scope in its own padding. -/
theorem Named.Tame.whole {size : Nat} (h : a.Tame data len) (hin : a.Inside data addrs len cp)
    (hlen : len ≤ size) (hsize : size % 8 = 0) (hfamily : data (a.off + 1) = afInet6) :
    a.off + in6Size ≤ size ∧ in6Size ≤ saSize (data a.off) := by
  have hlong := h.inet6 hfamily
  have hfits := hin.fits
  have haligned := hin.aligned
  have hpadded := saSize_bounds (data a.off)
  have hin6 : in6Size = 28 := rfl
  omega

end

/-!
## What is written to an address
-/

theorem sa6Embedscope_family (zones : Zones) (sin6 : Bytes) :
    sa6Embedscope zones sin6 1 = sin6 1 := by
  simp only [sa6Embedscope]
  generalize (if sin6.num 24 4 = 0 ∧ zones.useDefzone then zones.addr2default (sin6.drop 8)
    else sin6.num 24 4) = zoneid
  split
  · rw [Bytes.putNum, Bytes.store_outside (Or.inl (by decide)),
      Bytes.store_outside (Or.inl (by decide))]
  · rfl

theorem sa6Recoverscope_family {zones : Zones} {sin6 sin6' : Bytes}
    (h : sa6Recoverscope zones sin6 = some sin6') : sin6' 1 = sin6 1 := by
  simp only [sa6Recoverscope] at h
  split at h
  · split at h
    · contradiction
    · injection h with h
      rw [<- h, Bytes.putNum, Bytes.store_outside (Or.inl (by decide)), Bytes.putNum,
        Bytes.store_outside (Or.inl (by decide))]
  · injection h with h
    rw [h]

/-- A family is changed neither by its own address nor by one that lies apart. -/
theorem recoverAt_family (env : Env) (mem : Bytes) {off off' : Nat}
    (h : off' = off ∨ off' + 1 < off ∨ off + in6Size ≤ off') :
    recoverAt env mem off (off' + 1) = mem (off' + 1) := by
  unfold recoverAt
  cases hrecover : sa6Recoverscope env.zones (env.stack.store 0 in6Size (mem.drop off)) with
  | none => rfl
  | some sin6 =>
      show mem.store off in6Size sin6 (off' + 1) = mem (off' + 1)
      rcases h with heq | hbefore | hbehind
      · rw [heq, Bytes.store_inside (by decide), sa6Recoverscope_family hrecover]
        rfl
      · exact Bytes.store_outside (Or.inl hbefore)
      · exact Bytes.store_outside (Or.inr (Nat.le_succ_of_le hbehind))

/-!
## What is found
-/

/-- What is looked at are named addresses, and their families are those of the request. -/
structure Xaddrs.Finds (x : Xaddrs) (data : Bytes) (named : List Named) : Prop where
  info : forall i off, x.info i = .inside off -> ⟨i, off⟩ ∈ named
  inet6 : forall off, off ∈ x.inet6 -> exists a, a ∈ named ∧ a.off = off ∧
    data (off + 1) = afInet6
  family : forall a, a ∈ named -> x.mem (a.off + 1) = data (a.off + 1)

section

variable (zones : Zones) {addrs len : Nat} {data : Bytes}

theorem finds_nothing (accepted : Bool) (mem : Bytes) (reads : List Span) {info : Info}
    (hinfo : forall i off, info i ≠ .inside off) :
    (Xaddrs.mk accepted mem info reads []).Finds data [] := by
  refine ⟨?_, ?_, ?_⟩
  · exact fun i off hoff => absurd hoff (hinfo i off)
  · exact fun off hoff => absurd hoff List.not_mem_nil
  · exact fun a ha => absurd ha List.not_mem_nil

theorem Xaddrs.Finds.cons {later : Xaddrs} {named : List Named} {i cp : Nat}
    (h : later.Finds data named) (hfamily : later.mem (cp + 1) = data (cp + 1))
    {inet6 : List Nat} (hinet6 : forall off, off ∈ inet6 ->
      off = cp ∧ data (cp + 1) = afInet6 ∨ off ∈ later.inet6) (reads : List Span) :
    Xaddrs.Finds { later with
      info := Function.update later.info i (.inside cp)
      reads := reads
      inet6 := inet6 } data (⟨i, cp⟩ :: named) := by
  refine ⟨?_, ?_, List.forall_mem_cons.mpr ⟨hfamily, h.family⟩⟩
  · intro j off hoff
    simp only [Function.update_apply] at hoff
    split at hoff
    · next heq =>
        injection hoff with hoff
        rw [heq, hoff]
        exact List.mem_cons_self
    · exact List.mem_cons_of_mem _ (h.info j off hoff)
  · intro off hoff
    rcases hinet6 off hoff with ⟨heq, hsix⟩ | hlater
    · rw [heq]
      exact ⟨_, List.mem_cons_self, rfl, hsix⟩
    · rcases h.inet6 off hlater with ⟨a, ha, haoff, hsix⟩
      exact ⟨a, List.mem_cons_of_mem _ ha, haoff, hsix⟩

-- the induction keeps the message from `cp` on as it was in the request
theorem rtXaddrs_finds {slots : List Nat} {cp : Nat} {mem : Bytes} (hcp : cp % 8 = 0)
    (hmem : forall k, cp ≤ k -> k < len -> mem k = data k)
    (htame : forall a, a ∈ namedFrom addrs len data slots cp -> a.Tame data len) :
    (rtXaddrs zones addrs len slots cp mem).Finds data (namedFrom addrs len data slots cp) := by
  induction slots generalizing cp mem with
  | nil => exact finds_nothing _ _ _ (by simp)
  | cons i rest ih =>
      unfold rtXaddrs
      unfold namedFrom at htame ⊢
      cases hbit : addrs.testBit i with
      | false =>
          simp only [hbit, Bool.false_eq_true, if_false] at htame ⊢
          split
          · next hend =>
              have hnone : namedFrom addrs len data rest cp = [] := by
                apply List.eq_nil_iff_forall_not_mem.mpr
                intro a ha
                have hin := mem_namedFrom hcp ha
                have hfamily := (htame a ha).family
                have hbehind := hin.behind
                omega
              rw [hnone]
              exact finds_nothing _ _ _ (by simp)
          · exact ih hcp hmem htame
      | true =>
          simp only [hbit, if_true] at htame ⊢
          split
          · next hend =>
              rw [if_neg (fun h => absurd h.1 (Nat.not_lt.mpr hend))]
              exact finds_nothing _ _ _ (by simp)
          · next hlim =>
              have hlt : cp < len := Nat.not_le.mp hlim
              rw [hmem cp (Nat.le_refl _) hlt]
              split
              · next hlong =>
                  rw [if_neg (fun h => absurd h.2.2 (Nat.not_le.mpr hlong))]
                  exact finds_nothing _ _ _ (by simp)
              · next hfits =>
                  split
                  · next hzero =>
                      rw [if_neg (fun h => h.2.1 hzero)]
                      apply finds_nothing
                      intro j off hoff
                      simp only [Function.update_apply] at hoff
                      split at hoff
                      · contradiction
                      · contradiction
                  · next hpos =>
                      have hthere : cp < len ∧ data cp ≠ 0 ∧ cp + (data cp).toNat ≤ len :=
                        ⟨hlt, hpos, Nat.not_lt.mp hfits⟩
                      rw [if_pos hthere] at htame ⊢
                      have hfirst := htame _ List.mem_cons_self
                      have hrest := fun a ha => htame a (List.mem_cons_of_mem _ ha)
                      have hsize := saSize_bounds (data cp)
                      have hfamily : mem (cp + 1) = data (cp + 1) :=
                        hmem (cp + 1) (Nat.le_succ _) hfirst.family
                      have hlater : forall mem', (forall k, cp + saSize (data cp) ≤ k ->
                          k < len -> mem' k = data k) ->
                          (rtXaddrs zones addrs len rest (cp + saSize (data cp)) mem').Finds data
                            (namedFrom addrs len data rest (cp + saSize (data cp))) :=
                        fun mem' hmem' => ih (by omega) hmem' hrest
                      split
                      · next hsix =>
                          rw [hfamily] at hsix
                          have hwide : in6Size ≤ saSize (data cp) := by
                            have hlong := hfirst.inet6 hsix
                            simp only [in6Size]
                            simp only at hlong
                            omega
                          refine (hlater _ ?_).cons ?_ ?_ _
                          · intro k hk hklen
                            rw [Bytes.store_outside (Or.inr (by omega))]
                            exact hmem k (by omega) hklen
                          · rw [rtXaddrs_mem zones addrs (by omega),
                              Bytes.store_inside (by decide), sa6Embedscope_family]
                            exact hfamily
                          · intro off hoff
                            rcases List.mem_cons.mp hoff with heq | hlater
                            · exact Or.inl ⟨heq, hsix⟩
                            · exact Or.inr hlater
                      · refine (hlater mem ?_).cons ?_ (fun off hoff => Or.inr hoff) _
                        · exact fun k hk hklen => hmem k (by omega) hklen
                        · rw [rtXaddrs_mem zones addrs (by omega)]
                          exact hfamily

end

/-- The scopes of named addresses are recovered inside of them. -/
theorem recoverScopes_whole (env : Env) {size : Nat} {info : Info} {data : Bytes}
    {named : List Named} (hinfo : forall i off, info i = .inside off -> ⟨i, off⟩ ∈ named)
    (hwhole : forall a, a ∈ named -> data (a.off + 1) = afInet6 ->
      a.off + in6Size ≤ size ∧ in6Size ≤ saSize (data a.off))
    (hapart : forall a b, a ∈ named -> b ∈ named -> a.off = b.off ∨
      a.off + saSize (data a.off) ≤ b.off ∨ b.off + saSize (data b.off) ≤ a.off)
    {slots : List Nat} {mem : Bytes}
    (hfamily : forall a, a ∈ named -> mem (a.off + 1) = data (a.off + 1)) :
    WholeIn6 size (recoverScopes env size info slots mem).inet6 := by
  induction slots generalizing mem with
  | nil => exact fun off hoff => absurd hoff List.not_mem_nil
  | cons i rest ih =>
      unfold recoverScopes
      split
      · next off hoff =>
          have hnamed := hinfo i off hoff
          split
          · next hsix =>
              rw [hfamily _ hnamed] at hsix
              rcases hwhole _ hnamed hsix with ⟨hfits, hwide⟩
              refine List.forall_mem_cons.mpr ⟨hfits, ih ?_⟩
              intro a ha
              rw [recoverAt_family]
              · exact hfamily a ha
              · have hsize := saSize_bounds (data a.off)
                rcases hapart a _ ha hnamed with heq | hbefore | hbehind
                · exact Or.inl heq
                · have hbefore : a.off + saSize (data a.off) ≤ off := hbefore
                  exact Or.inr (Or.inl (by omega))
                · exact Or.inr (Or.inr (Nat.le_trans (Nat.add_le_add_left hwide _) hbehind))
          · exact ih hfamily
      · exact ih hfamily

end Route
end FStackLite
