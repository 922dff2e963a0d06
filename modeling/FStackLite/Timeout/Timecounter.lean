import Mathlib.RingTheory.Coprime.Lemmas

/-!
# The timecounter

`ff_tc_get_timecount` scales the nanoseconds of the monotonic clock to ticks of `hz`.  The product
is formed in 64 bits before it is divided.
-/

namespace FStackLite
namespace Timeout

structure Timespec where
  tvSec : Int
  tvNsec : Int

/-- `clock_gettime(CLOCK_MONOTONIC, ...)` at so many nanoseconds. -/
def clockGettime (ns : Nat) : Timespec :=
  ⟨ns / 10 ^ 9, ns % 10 ^ 9⟩

def ffGetTscNs (timespec : Timespec) : UInt64 :=
  UInt64.ofInt (timespec.tvSec * 1000 * 1000 * 1000 + timespec.tvNsec)

def ffNsecPerSec : UInt64 := 1000000000

def ffTcGetTimecount (tcFrequency : UInt64) (timespec : Timespec) : UInt32 :=
  ((ffGetTscNs timespec * tcFrequency) / ffNsecPerSec).toUInt32

def ticksAt (hz ns : Nat) : Nat :=
  ns * hz / 10 ^ 9

def CountsTicks (hz s t : Nat) : Prop :=
  ffTcGetTimecount (UInt64.ofNat hz) (clockGettime t) -
      ffTcGetTimecount (UInt64.ofNat hz) (clockGettime s) =
    UInt32.ofNat (ticksAt hz t - ticksAt hz s)

/-!
## What is lost
-/

def wraps (hz ns : Nat) : Nat :=
  ns * hz / 2 ^ 64

/--
The multiple of 2^64 that is lost and the rest of the product make up one more second's worth of
nanoseconds together.
-/
def Carries (hz ns : Nat) : Prop :=
  10 ^ 9 ≤ wraps hz ns * 2 ^ 64 % 10 ^ 9 + ns * hz % 2 ^ 64 % 10 ^ 9

instance (hz ns : Nat) : Decidable (Carries hz ns) :=
  inferInstanceAs (Decidable (_ ≤ _))

def lost (hz ns : Nat) : Nat :=
  wraps hz ns * 2 ^ 64 / 10 ^ 9 + if Carries hz ns then 1 else 0

variable {hz s t ns : Nat}

theorem ffGetTscNs_toNat (h : ns < 2 ^ 63) : (ffGetTscNs (clockGettime ns)).toNat = ns := by
  have hns : (clockGettime ns).tvSec * 1000 * 1000 * 1000 + (clockGettime ns).tvNsec = ns := by
    simp only [clockGettime]
    omega
  rw [ffGetTscNs, hns, UInt64.ofInt, UInt64.toNat_ofNat']
  omega

theorem ffTcGetTimecount_toNat (hhz : hz ≤ 10 ^ 6) (h : ns < 2 ^ 63) :
    (ffTcGetTimecount (UInt64.ofNat hz) (clockGettime ns)).toNat =
      ns * hz % 2 ^ 64 / 10 ^ 9 % 2 ^ 32 := by
  have hfrequency : (UInt64.ofNat hz).toNat = hz :=
    UInt64.toNat_ofNat_of_lt' (Nat.lt_of_le_of_lt hhz (by decide))
  rw [ffTcGetTimecount, UInt64.toNat_toUInt32, UInt64.toNat_div, UInt64.toNat_mul,
    ffGetTscNs_toNat h, hfrequency]
  rfl

theorem ticksAt_eq (hz ns : Nat) : ticksAt hz ns = ns * hz % 2 ^ 64 / 10 ^ 9 + lost hz ns := by
  have hsplit : ns * hz = wraps hz ns * 2 ^ 64 + ns * hz % 2 ^ 64 := by
    rw [wraps, Nat.mul_comm (ns * hz / 2 ^ 64)]
    exact (Nat.div_add_mod _ _).symm
  have hdiv : ticksAt hz ns =
      (wraps hz ns * 2 ^ 64 + ns * hz % 2 ^ 64) / 10 ^ 9 := by
    rw [ticksAt, <- hsplit]
  rw [hdiv, Nat.add_div (by decide), lost, Nat.add_right_comm, Nat.add_comm]
  exact congrArg _ (congrArg _ (if_congr Iff.rfl rfl rfl))

theorem ticksAt_mono (hst : s ≤ t) : ticksAt hz s ≤ ticksAt hz t :=
  Nat.div_le_div_right (Nat.mul_le_mul_right hz hst)

theorem countsTicks_iff_lost (hhz : hz ≤ 10 ^ 6) (hst : s ≤ t) (ht : t < 2 ^ 63) :
    CountsTicks hz s t <-> lost hz s % 2 ^ 32 = lost hz t % 2 ^ 32 := by
  have hs : s < 2 ^ 63 := Nat.lt_of_le_of_lt hst ht
  have hmono : ticksAt hz s ≤ ticksAt hz t := ticksAt_mono hst
  rw [CountsTicks, <- UInt32.toNat_inj, UInt32.toNat_sub, UInt32.toNat_ofNat',
    ffTcGetTimecount_toNat hhz hs, ffTcGetTimecount_toNat hhz ht]
  rw [ticksAt_eq, ticksAt_eq] at hmono ⊢
  omega

/-!
## When it is the same
-/

theorem wraps_mono (hst : s ≤ t) : wraps hz s ≤ wraps hz t :=
  Nat.div_le_div_right (Nat.mul_le_mul_right hz hst)

theorem wraps_lt (hhz : hz ≤ 10 ^ 6) (h : ns < 2 ^ 63) : wraps hz ns < 500000 := by
  have hproduct : ns * hz ≤ (2 ^ 63 - 1) * 10 ^ 6 := Nat.mul_le_mul (Nat.le_sub_one_of_lt h) hhz
  rw [wraps]
  omega

/--
Two multiples of 2^55 / 5^9, rounded down, that differ by about a multiple of 2^32 differ by
exactly that without the rounding.
-/
theorem multiples_exact {q q' a a' c c' m : Int} (ha : 5 ^ 9 * a ≤ q * 2 ^ 55)
    (ha_lt : q * 2 ^ 55 < 5 ^ 9 * a + 5 ^ 9) (ha' : 5 ^ 9 * a' ≤ q' * 2 ^ 55)
    (ha'_lt : q' * 2 ^ 55 < 5 ^ 9 * a' + 5 ^ 9) (hc : 0 ≤ c ∧ c ≤ 1) (hc' : 0 ≤ c' ∧ c' ≤ 1)
    (hm : a' + c' = a + c + 2 ^ 32 * m) : (q' - q) * 2 ^ 23 = 5 ^ 9 * m := by
  omega

theorem eq_zero_of_multiples {d m : Int} (hd : 0 ≤ d) (hlt : d < 5 ^ 9)
    (h : d * 2 ^ 23 = 5 ^ 9 * m) : d = 0 := by
  have hdvd : (5 ^ 9 : Int) ∣ d * 2 ^ 23 := Dvd.intro m h.symm
  have hcoprime : IsCoprime (5 ^ 9 : Int) (2 ^ 23) :=
    (Int.isCoprime_iff_gcd_eq_one.mpr (by decide : Int.gcd 5 2 = 1)).pow
  exact Int.eq_zero_of_dvd_of_nonneg_of_lt hd hlt (hcoprime.dvd_of_dvd_mul_right hdvd)

theorem multiple_bounds (q : Nat) : 5 ^ 9 * ((q * 2 ^ 64 / 10 ^ 9 : Nat) : Int) ≤ q * 2 ^ 55 ∧
      (q : Int) * 2 ^ 55 < 5 ^ 9 * ((q * 2 ^ 64 / 10 ^ 9 : Nat) : Int) + 5 ^ 9 := by
  omega

theorem exists_multiple {x x' c c' : Nat} (h : (x + c) % 2 ^ 32 = (x' + c') % 2 ^ 32) :
    exists m : Int, (x' : Int) + c' = x + c + 2 ^ 32 * m :=
  ⟨((x' + c') / 2 ^ 32 : Nat) - ((x + c) / 2 ^ 32 : Nat), by omega⟩

/--
Modulo 2^32 no two of the multiples of 2^64 / 10^9 come close to each other, because 5^9 divides
none of their differences.
-/
theorem multiples_apart {q q' c c' : Nat} (hq : q ≤ q') (hq' : q' < 500000) (hc : c ≤ 1)
    (hc' : c' ≤ 1) (h : (q * 2 ^ 64 / 10 ^ 9 + c) % 2 ^ 32 = (q' * 2 ^ 64 / 10 ^ 9 + c') % 2 ^ 32) :
    q = q' ∧ c = c' := by
  rcases exists_multiple h with ⟨m, hm⟩
  have hlt : (q' : Int) - q < 5 ^ 9 := by
    clear h hm
    omega
  have hbounds := multiple_bounds q
  have hbounds' := multiple_bounds q'
  have hexact := multiples_exact hbounds.1 hbounds.2 hbounds'.1 hbounds'.2
    ⟨Int.natCast_nonneg c, Int.ofNat_le.mpr hc⟩ ⟨Int.natCast_nonneg c', Int.ofNat_le.mpr hc'⟩ hm
  have hzero := eq_zero_of_multiples (Int.sub_nonneg_of_le (Int.ofNat_le.mpr hq)) hlt hexact
  rw [hzero, Int.zero_mul] at hexact
  have hm_zero : m = 0 := (Int.mul_eq_zero.mp hexact.symm).resolve_left (by decide)
  have heq : q = q' := (Int.ofNat_inj.mp (Int.eq_of_sub_eq_zero hzero)).symm
  subst heq
  refine ⟨rfl, ?_⟩
  rw [hm_zero, Int.mul_zero, Int.add_zero] at hm
  exact (Int.ofNat_inj.mp (Int.add_left_cancel hm)).symm

theorem ite_one_eq_iff {p q : Prop} [Decidable p] [Decidable q] :
    (if p then 1 else 0) = (if q then 1 else 0) <-> (p <-> q) := by
  cases Decidable.em p with
  | inl hp => simp [hp]
  | inr hp => simp [hp]

theorem lost_mod_eq_iff (hhz : hz ≤ 10 ^ 6) (hst : s ≤ t) (ht : t < 2 ^ 63) :
    lost hz s % 2 ^ 32 = lost hz t % 2 ^ 32 <->
      wraps hz s = wraps hz t ∧ (Carries hz s <-> Carries hz t) := by
  constructor
  · intro h
    have hapart := multiples_apart (wraps_mono hst) (wraps_lt hhz ht) (by split <;> omega)
      (by split <;> omega) h
    refine ⟨hapart.1, ?_⟩
    exact ite_one_eq_iff.mp hapart.2
  · rintro ⟨hwraps, hcarry⟩
    rw [lost, lost, hwraps, if_congr hcarry rfl rfl]

/--
The counter is right between two readings if and only if the product goes over 64 bits equally
often at both, and the rest carries at both or at none.
-/
theorem timecount_iff (hz s t : Nat) (hhz : hz ≤ 10 ^ 6) (hst : s ≤ t) (ht : t < 2 ^ 63) :
    CountsTicks hz s t <-> wraps hz s = wraps hz t ∧ (Carries hz s <-> Carries hz t) :=
  (countsTicks_iff_lost hhz hst ht).trans (lost_mod_eq_iff hhz hst ht)

theorem timecount_of_ten_seconds : CountsTicks 100 0 10000000000 :=
  (timecount_iff 100 0 10000000000 (by decide) (by decide) (by decide)).mpr
    ⟨by decide, by decide⟩

/-- With 100 ticks in a second, the counter starts again after somewhat less than six years. -/
theorem timecount_restarts : 184467440737095517 < 2 ^ 63 ∧
      ffTcGetTimecount 100 (clockGettime 184467440737095516) = 1266874889 ∧
      ffTcGetTimecount 100 (clockGettime 184467440737095517) = 0 ∧
      ticksAt 100 184467440737095517 - ticksAt 100 0 = 18446744073 ∧
      ¬ CountsTicks 100 0 184467440737095517 := by
  refine ⟨by decide, by decide +kernel, by decide +kernel, by decide, ?_⟩
  rw [CountsTicks]
  decide +kernel

end Timeout
end FStackLite
