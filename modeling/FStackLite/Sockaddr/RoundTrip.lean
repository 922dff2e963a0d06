import FStackLite.Foundation.Bytes
import FStackLite.Sockaddr.Output

/-!
# Translating an address and back

The two translations as the sequence of loads and stores that they are, in one memory:
the family of Linux is two bytes, the lower one first, and in FreeBSD's layout its place
is taken by the length and a family of one byte.  The first translation may be made in
place.  What they leave is what the translations of the entry points say.
-/

namespace FStackLite
namespace Sockaddr

/-- `linux2freebsd_sockaddr`, on the addresses of the two structures. -/
def linux2freebsdAt (linux : Option Nat) (addrlen : UInt32) (freebsd : Nat)
    (mem : Foundation.Bytes) : Foundation.Bytes :=
  match linux with
  | none => mem
  | some linux =>
      let family := mem.putNum (freebsd + 1) 1 (mem.num linux 2)
      let len := family.putNum freebsd 1 addrlen.toNat
      len.store (freebsd + 2) (dataLen addrlen.toNat) (len.drop (linux + 2))

/-- `freebsd2linux_sockaddr`, which reads the length behind the store of the family. -/
def freebsd2linuxAt (linux : Option Nat) (freebsd : Nat) (mem : Foundation.Bytes) :
    Foundation.Bytes :=
  match linux with
  | none => mem
  | some linux =>
      let family := mem.putNum linux 2 (mem (freebsd + 1)).toNat
      family.store (linux + 2) (dataLen (family freebsd).toNat) (family.drop (freebsd + 2))

/-- The ranges of `len` bytes from the two addresses on have no byte in common. -/
def Apart (a b len : Nat) : Prop :=
  a + len ≤ b ∨ b + len ≤ a

def cellsAt (mem : Foundation.Bytes) (off : Nat) : Cells :=
  fun i => ⟨mem (off + i), true⟩

section

variable {mem : Foundation.Bytes} {linux freebsd : Nat} {addrlen : UInt32}

theorem putNum_one_self (off v : Nat) : mem.putNum off 1 v off = UInt8.ofNat v := by
  have hself : mem.putNum off 1 v (off + 0) = UInt8.ofNat (v / 256 ^ 0) :=
    Foundation.Bytes.store_inside Nat.one_pos
  rwa [Nat.add_zero, Nat.pow_zero, Nat.div_one] at hself

theorem putNum_one_of_ne {off v k : Nat} (h : k ≠ off) : mem.putNum off 1 v k = mem k :=
  Foundation.Bytes.store_outside (by omega)

theorem ofNat_num_two (off : Nat) : UInt8.ofNat (mem.num off 2) = mem off := by
  have hlt : (mem off).toNat < 256 := (mem off).toNat_lt
  apply UInt8.toNat_inj.mp
  rw [Foundation.Bytes.num_two, UInt8.toNat_ofNat']
  omega

/--
The translated address is that of `linux2freebsdSockaddr`, if the data are not where the
length and the family are stored: in place, or in a buffer of their own.
-/
theorem linux2freebsdAt_storage (hlo : 2 ≤ addrlen.toNat)
    (hclear : forall i, 2 ≤ i -> i < addrlen.toNat -> linux + i ≠ freebsd ∧ linux + i ≠ freebsd + 1)
    (stack : Bytes) {i : Nat} (hi : i < addrlen.toNat) :
    linux2freebsdAt (some linux) addrlen freebsd mem (freebsd + i) =
      (linux2freebsdSockaddr (some (mem.drop linux)) addrlen stack).storage i := by
  have hlen : dataLen addrlen.toNat = addrlen.toNat - 2 := by
    have hbound : addrlen.toNat < 2 ^ 32 := addrlen.toNat_lt
    exact dataLen_of_le hlo (by omega)
  simp only [linux2freebsdAt, linux2freebsdSockaddr, hlen, Foundation.Bytes.drop]
  cases Nat.lt_or_ge i 2 with
  | inl hheader =>
      rw [Foundation.Bytes.store_outside (by omega)]
      by_cases hzero : i = 0
      · rw [if_pos hzero, hzero]
        exact putNum_one_self freebsd addrlen.toNat
      · have hi : i = 1 := by omega
        rw [if_neg hzero, if_pos hi, hi, putNum_one_of_ne (by omega), putNum_one_self, ofNat_num_two]
        rfl
  | inr hdata =>
      have hplace : freebsd + i = freebsd + 2 + (i - 2) := by omega
      have hsource : linux + 2 + (i - 2) = linux + i := by omega
      rcases hclear i hdata hi with ⟨hfirst, hsecond⟩
      rw [if_neg (by omega), if_neg (by omega), if_pos (by omega), hplace,
        Foundation.Bytes.store_inside (by omega), Foundation.Bytes.drop, hsource,
        putNum_one_of_ne hfirst, putNum_one_of_ne hsecond]

theorem freebsd2linuxAt_family (back : Nat) :
    (freebsd2linuxAt (some back) freebsd mem).num back 2 = (mem (freebsd + 1)).toNat := by
  have hlt : (mem (freebsd + 1)).toNat < 256 := (mem (freebsd + 1)).toNat_lt
  simp only [freebsd2linuxAt]
  rw [Foundation.Bytes.num_store_outside (by omega), Foundation.Bytes.num_two_putNum]
  omega

/--
The data that are written are those of the source in `freebsd2linuxSockaddr`, for one and
the same buffer as for two that are apart.
-/
theorem freebsd2linuxAt_source {aliased : Bool} {back : Nat}
    (hplace : (aliased = true ∧ back = freebsd) ∨
      (aliased = false ∧ 2 ≤ (mem freebsd).toNat ∧ Apart back freebsd (mem freebsd).toNat))
    {source : Source} (hstart : source.span.start = 2)
    (hsource : source ∈ (freebsd2linuxSockaddr aliased (cellsAt mem freebsd)).sources) {i : Nat}
    (hi : source.span.Covers i) :
    freebsd2linuxAt (some back) freebsd mem (back + i) = (source.cells i).val := by
  have hbound : (mem freebsd).toNat < 256 := (mem freebsd).toNat_lt
  simp only [freebsd2linuxSockaddr, List.mem_cons, List.not_mem_nil, or_false] at hsource
  rcases hsource with rfl | rfl
  · exact absurd (show (1 : Nat) = 2 from hstart) (by decide)
  rcases hi with ⟨hlo, hhi⟩
  dsimp only at hlo hhi ⊢
  have hback : back + i = back + 2 + (i - 2) := by omega
  have hfreebsd : freebsd + 2 + (i - 2) = freebsd + i := by omega
  rcases hplace with ⟨rfl, rfl⟩ | ⟨rfl, hlen, hapart⟩
  · have hfirst : mem.putNum back 2 (mem (back + 1)).toNat back = mem (back + 1) := by
      have hself : mem.putNum back 2 (mem (back + 1)).toNat (back + 0) =
          UInt8.ofNat ((mem (back + 1)).toNat / 256 ^ 0) :=
        Foundation.Bytes.store_inside Nat.two_pos
      rwa [Nat.add_zero, Nat.pow_zero, Nat.div_one, UInt8.ofNat_toNat] at hself
    simp only [if_true, storeFamily, cellsAt] at hhi ⊢
    rw [if_neg (by omega), if_neg (by omega)]
    simp only [freebsd2linuxAt, hfirst]
    rw [hback, Foundation.Bytes.store_inside (by omega), Foundation.Bytes.drop, hfreebsd]
    exact Foundation.Bytes.store_outside (by omega)
  · have hfamily : forall k, k < (mem freebsd).toNat ->
        mem.putNum back 2 (mem (freebsd + 1)).toNat (freebsd + k) = mem (freebsd + k) := by
      intro k hk
      unfold Apart at hapart
      exact Foundation.Bytes.store_outside (by omega)
    have hfirst : mem.putNum back 2 (mem (freebsd + 1)).toNat freebsd = mem freebsd :=
      hfamily 0 (by omega)
    simp only [Bool.false_eq_true, if_false, cellsAt, Nat.add_zero] at hhi ⊢
    rw [dataLen_of_le hlen (by omega)] at hhi
    simp only [freebsd2linuxAt, hfirst]
    rw [hback, dataLen_of_le hlen (by omega), Foundation.Bytes.store_inside (by omega),
      Foundation.Bytes.drop, hfreebsd, hfamily i (by omega)]

theorem freebsd2linuxAt_data {back : Nat} (hlo : 2 ≤ (mem freebsd).toNat)
    (hapart : Apart back freebsd (mem freebsd).toNat) {i : Nat} (hi : i < (mem freebsd).toNat - 2) :
    freebsd2linuxAt (some back) freebsd mem (back + 2 + i) = mem (freebsd + 2 + i) := by
  have hbound : (mem freebsd).toNat < 256 := (mem freebsd).toNat_lt
  have hsource : (⟨cellsAt mem freebsd, ⟨2, dataLen (mem freebsd).toNat⟩⟩ : Source) ∈
      (freebsd2linuxSockaddr false (cellsAt mem freebsd)).sources :=
    List.mem_cons_of_mem _ List.mem_cons_self
  have hcovers : (⟨2, dataLen (mem freebsd).toNat⟩ : Foundation.Span).Covers (2 + i) := by
    rw [dataLen_of_le hlo (by omega)]
    exact ⟨Nat.le_add_right 2 i, Nat.add_lt_add_left hi 2⟩
  rw [Nat.add_assoc, Nat.add_assoc]
  exact freebsd2linuxAt_source (.inr ⟨rfl, hlo, hapart⟩) rfl hsource hcovers

end

section

variable (mem : Foundation.Bytes) {linux freebsd back : Nat} {addrlen : UInt32}

/--
An address that is translated into another buffer and back has its family and its data
again.  In between its length is the length that was passed, and the translation in
place leaves the same bytes.
-/
theorem sockaddr_round_trip (hlo : 2 ≤ addrlen.toNat) (hhi : addrlen.toNat ≤ 128)
    (hfamily : mem.num linux 2 < 256) (hapart : Apart linux freebsd addrlen.toNat)
    (hback : Apart back freebsd addrlen.toNat) :
    (freebsd2linuxAt (some back) freebsd (linux2freebsdAt (some linux) addrlen freebsd mem)).num
        back 2 = mem.num linux 2 ∧ (forall i, i < addrlen.toNat - 2 ->
        freebsd2linuxAt (some back) freebsd (linux2freebsdAt (some linux) addrlen freebsd mem)
          (back + 2 + i) = mem (linux + 2 + i)) ∧
      (linux2freebsdAt (some linux) addrlen freebsd mem freebsd).toNat = addrlen.toNat ∧
      forall i, i < addrlen.toNat -> linux2freebsdAt (some linux) addrlen linux mem (linux + i) =
          linux2freebsdAt (some linux) addrlen freebsd mem (freebsd + i) := by
  have hbyte : forall i, i < addrlen.toNat ->
      linux2freebsdAt (some linux) addrlen freebsd mem (freebsd + i) =
        (linux2freebsdSockaddr (some (mem.drop linux)) addrlen mem).storage i := by
    intro i hi
    unfold Apart at hapart
    exact linux2freebsdAt_storage hlo (fun j _ _ => by omega) mem hi
  have hlen : (linux2freebsdAt (some linux) addrlen freebsd mem freebsd).toNat = addrlen.toNat := by
    have hfirst := hbyte 0 (by omega)
    rw [Nat.add_zero, linux2freebsdSockaddr_saLen] at hfirst
    rw [hfirst, UInt8.toNat_ofNat']
    exact Nat.mod_eq_of_lt (by omega)
  rw [<- hlen] at hback
  refine ⟨?_, ?_, hlen, ?_⟩
  · have hsecond : linux2freebsdAt (some linux) addrlen freebsd mem (freebsd + 1) = mem linux :=
      hbyte 1 (by omega)
    rw [freebsd2linuxAt_family, hsecond]
    rw [Foundation.Bytes.num_two] at hfamily ⊢
    omega
  · intro i hi
    have hdata : dataLen addrlen.toNat = addrlen.toNat - 2 := dataLen_of_le hlo (by omega)
    rw [freebsd2linuxAt_data (by omega) hback (by omega), Nat.add_assoc, hbyte _ (by omega)]
    have hnone : ¬ 2 + i = 1 := by omega
    simp [linux2freebsdSockaddr, Foundation.Bytes.drop, hdata, hi, hnone, Nat.add_assoc]
  · intro i hi
    rw [hbyte i hi]
    exact linux2freebsdAt_storage hlo (fun j hj _ => by omega) mem hi

end

def inetMemory : Foundation.Bytes :=
  fun k => if k = 1000 then 2 else if k = 1001 then 0 else 7

theorem sockaddr_round_trip_inet : inetMemory.num 1000 2 = 2 ∧
      (freebsd2linuxAt (some 3000) 2000 (linux2freebsdAt (some 1000) 16 2000 inetMemory)).num
        3000 2 = inetMemory.num 1000 2 := by
  have hfamily : inetMemory.num 1000 2 = 2 := by decide
  refine ⟨hfamily, (sockaddr_round_trip inetMemory (by decide) (by decide) ?_ ?_ ?_).1⟩
  · rw [hfamily]
    decide
  · exact Or.inl (by decide)
  · exact Or.inr (by decide)

end Sockaddr
end FStackLite
