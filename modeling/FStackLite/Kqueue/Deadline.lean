import Mathlib.Data.Nat.Find
import Mathlib.Tactic.Linarith
import Mathlib.Tactic.Ring
import FStackLite.Kqueue.Timer

/-!
# Deadlines in ticks

The macro `callout_reset_sbt_on` divides the absolute deadline itself, and not
the time left until it, by the length of a tick, and keeps the low 32 bits of
the quotient.  This module works out when the resulting number of ticks is the
right one, and that for a timer that rearms itself it goes wrong at some expiry.
-/

namespace FStackLite
namespace Kqueue

open Timeout

/-- The number of ticks after which a callout with this deadline is run, less one. -/
def ticksFor (t deadline : Int) : Int :=
  max (sbtTicks t deadline).toInt 1

/-- The quotient, modulo the width of an `int`, if it is positive as an `int`. -/
theorem ticksFor_eq {t deadline : Int} (hd : 0 ≤ deadline) : ticksFor t deadline =
      if 1 ≤ deadline / t % 2 ^ 32 ∧ deadline / t % 2 ^ 32 < 2 ^ 31 then
        deadline / t % 2 ^ 32
      else 1 := by
  have hq : deadline.tdiv t = deadline / t := Int.tdiv_eq_ediv_of_nonneg hd
  have hwidth : ((2 ^ 32 : Nat) : Int) = 2 ^ 32 := rfl
  unfold ticksFor sbtTicks
  rw [hq, BitVec.toInt_ofInt, Int.bmod_def, hwidth]
  have hlow := Int.emod_nonneg (deadline / t) (show (2 : Int) ^ 32 ≠ 0 by decide)
  have hhigh := Int.emod_lt_of_pos (deadline / t) (show (0 : Int) < 2 ^ 32 by decide)
  generalize deadline / t % 2 ^ 32 = r at hlow hhigh ⊢
  split <;> split <;> omega

theorem ticksFor_pos (t deadline : Int) : 1 ≤ ticksFor t deadline :=
  le_max_right _ _

/-!
## One deadline
-/

/--
When a callout armed at `uptime` for the absolute time `deadline` runs in time.
If the quotient is positive as an `int`, the uptime is within a tick of the part
of the deadline that the division and the conversion lose; otherwise the deadline
is at most two ticks away.
-/
def DeadlineCond (t uptime deadline : Int) : Prop :=
  if 1 ≤ deadline / t % 2 ^ 32 ∧ deadline / t % 2 ^ 32 < 2 ^ 31 then
    |uptime - (deadline % t + deadline / t / 2 ^ 32 * 2 ^ 32 * t)| ≤ t
  else
    deadline - uptime ≤ 2 * t

theorem deadlineCond_iff {t uptime deadline : Int} (hd : 0 ≤ deadline)
    (hlater : uptime < deadline) : (deadline ≤ uptime + t * (ticksFor t deadline + 1) ∧
      uptime + t * (ticksFor t deadline + 1) ≤ deadline + 2 * t) <->
      DeadlineCond t uptime deadline := by
  have hparts : deadline % t + t * (deadline / t) = deadline := Int.emod_add_mul_ediv deadline t
  have hquot : deadline / t % 2 ^ 32 + 2 ^ 32 * (deadline / t / 2 ^ 32) = deadline / t :=
    Int.emod_add_mul_ediv (deadline / t) (2 ^ 32)
  unfold DeadlineCond
  rw [ticksFor_eq hd]
  split
  · have hsplit : t * (deadline / t % 2 ^ 32) =
        deadline - (deadline % t + deadline / t / 2 ^ 32 * 2 ^ 32 * t) := by
      have hmul : t * (deadline / t % 2 ^ 32) +
          deadline / t / 2 ^ 32 * 2 ^ 32 * t = t * (deadline / t) := by
        calc
          t * (deadline / t % 2 ^ 32) + deadline / t / 2 ^ 32 * 2 ^ 32 * t =
              t * (deadline / t % 2 ^ 32 + 2 ^ 32 * (deadline / t / 2 ^ 32)) := by
            ring
          _ = t * (deadline / t) := by
            rw [hquot]
      linarith
    rw [mul_add, mul_one, hsplit, abs_le]
    constructor
    · rintro ⟨hlow, hhigh⟩
      constructor <;> linarith
    · rintro ⟨hlow, hhigh⟩
      constructor <;> linarith
  · constructor
    · rintro ⟨hlow, _⟩
      linarith
    · intro hnear
      constructor <;> linarith

/-!
## A deadline every period
-/

/-- The ticks from attaching a periodic timer to its `k`-th expiry. -/
def expiryTicks (t uptime period : Int) : Nat -> Int
  | 0 => 0
  | k + 1 => expiryTicks t uptime period k +
      (ticksFor t (uptime + (k + 1) * period) + 1)

theorem expiryTicks_succ (t uptime period : Int) (k : Nat) :
    expiryTicks t uptime period (k + 1) = expiryTicks t uptime period k +
      (ticksFor t (uptime + (k + 1) * period) + 1) := rfl

theorem expiryTicks_le_add (t uptime period : Int) (k d : Nat) :
    expiryTicks t uptime period k ≤ expiryTicks t uptime period (k + d) := by
  induction d with
  | zero => exact le_refl _
  | succ d ih =>
      have hpos := ticksFor_pos t (uptime + ((k + d : Nat) + 1) * period)
      rw [← Nat.add_assoc, expiryTicks_succ]
      linarith

theorem exists_passage {f : Nat -> Int} (hgrow : forall k, f k + 1 ≤ f (k + 1))
    {bound : Int} (hstart : f 1 < bound) : exists k, 1 ≤ k ∧ f k < bound ∧ bound ≤ f (k + 1) := by
  have hlinear : forall j : Nat, f 1 + j ≤ f (1 + j) := by
    intro j
    induction j with
    | zero => simp
    | succ j ih =>
        have hstep := hgrow (1 + j)
        rw [Nat.add_assoc] at hstep
        push_cast
        linarith
  have hreach : exists j, bound ≤ f (1 + j) := by
    refine ⟨(bound - f 1).toNat, ?_⟩
    have hj := hlinear (bound - f 1).toNat
    rw [Int.toNat_of_nonneg (by linarith)] at hj
    linarith
  have hleast := Nat.find_spec hreach
  cases hj : Nat.find hreach with
  | zero =>
      rw [hj] at hleast
      simp only [Nat.add_zero] at hleast
      exact absurd hleast (not_le.mpr hstart)
  | succ j =>
      have hbefore := Nat.find_min hreach (m := j) (by rw [hj]; exact Nat.lt_succ_self j)
      rw [hj] at hleast
      exact ⟨1 + j, Nat.le_add_right 1 j, not_le.mp hbefore, hleast⟩

section Period

variable {t uptime period : Int} (ht : 0 < t) (huptime : 0 ≤ uptime)
  (hperiod : t ≤ period)

/-- The `k`-th expiry is within two ticks of its nominal time. -/
def OnTime (t uptime period : Int) (k : Nat) : Prop :=
  |t * expiryTicks t uptime period k - k * period| ≤ 2 * t

theorem onTime_zero (ht : 0 < t) : OnTime t uptime period 0 := by
  unfold OnTime expiryTicks
  simp only [mul_zero, Nat.cast_zero, zero_mul, sub_zero, abs_zero]
  linarith

theorem OnTime.ticksFor_bound {k : Nat} (hk : OnTime t uptime period k)
    (hk' : OnTime t uptime period (k + 1)) :
    |t * (ticksFor t (uptime + (k + 1) * period) + 1) - period| ≤ 4 * t := by
  unfold OnTime at hk hk'
  rw [abs_le] at hk hk' ⊢
  unfold expiryTicks at hk'
  push_cast at hk'
  constructor
  · linarith [hk.left, hk.right, hk'.left, hk'.right]
  · linarith [hk.left, hk.right, hk'.left, hk'.right]

/-- The quotient of the `k`-th deadline. -/
def quotient (t uptime period : Int) (k : Nat) : Int :=
  (uptime + k * period) / t

theorem quotient_bounds (ht : 0 < t) (uptime period : Int) (k : Nat) :
    t * quotient t uptime period k ≤ uptime + k * period ∧
      uptime + k * period < t * quotient t uptime period k + t := by
  unfold quotient
  have hmod := Int.emod_add_mul_ediv (uptime + k * period) t
  have hlow := Int.emod_nonneg (uptime + k * period) ht.ne'
  have hhigh := Int.emod_lt_of_pos (uptime + k * period) ht
  constructor <;> linarith

include ht hperiod in
theorem quotient_grows (k : Nat) :
    quotient t uptime period k + 1 ≤ quotient t uptime period (k + 1) := by
  have hk := quotient_bounds ht uptime period k
  have hk' := quotient_bounds ht uptime period (k + 1)
  push_cast at hk'
  have hlt : t * quotient t uptime period k <
      t * quotient t uptime period (k + 1) := by
    linarith [hk.left, hk'.right]
  exact lt_of_mul_lt_mul_left hlt ht.le

include ht huptime hperiod in
theorem ticksFor_quotient (k : Nat) : ticksFor t (uptime + k * period) =
      if 1 ≤ quotient t uptime period k % 2 ^ 32 ∧
          quotient t uptime period k % 2 ^ 32 < 2 ^ 31 then
        quotient t uptime period k % 2 ^ 32
      else 1 := by
  have hnonneg : 0 ≤ uptime + k * period := by
    have hprod : 0 ≤ (k : Int) * period := mul_nonneg (Int.natCast_nonneg k) (by linarith)
    linarith
  exact ticksFor_eq hnonneg

include ht huptime hperiod in
/--
A long period: the first two deadlines differ by about a period, so they cannot
both have a quotient near the period.
-/
theorem not_onTime_of_long (hlong : 10 * t ≤ period) :
    ¬ (OnTime t uptime period 1 ∧ OnTime t uptime period 2) := by
  rintro ⟨h1, h2⟩
  have hn1 := (onTime_zero ht).ticksFor_bound h1
  have hn2 := h1.ticksFor_bound h2
  rw [abs_le] at hn1 hn2
  have hq1 := quotient_bounds ht uptime period 1
  have hq2 := quotient_bounds ht uptime period 2
  have he1 := ticksFor_quotient ht huptime hperiod 1
  have he2 := ticksFor_quotient ht huptime hperiod 2
  push_cast at hn1 hn2 hq1 hq2
  simp only [Nat.cast_one, Nat.cast_ofNat] at he1 he2
  rw [he1] at hn1
  rw [he2] at hn2
  generalize quotient t uptime period 1 = q1 at hn1 hq1
  generalize quotient t uptime period 2 = q2 at hn2 hq2
  have hbelow : q1 + 9 < q2 := by
    apply lt_of_mul_lt_mul_left _ ht.le
    linarith [hq1.left, hq2.right]
  have hsmall : forall n : Int, t * (n + 1) - period ≤ 4 * t ->
      -(4 * t) ≤ t * (n + 1) - period -> 5 ≤ n ∧ t * n ≤ period + 3 * t := by
    intro n hle hge
    have hn : 5 < n + 1 := by
      apply lt_of_mul_lt_mul_left _ ht.le
      linarith
    exact ⟨by linarith, by linarith⟩
  have hr1 := hsmall _ hn1.right hn1.left
  have hr2 := hsmall _ hn2.right hn2.left
  split at hn1
  · split at hn2
    · rename_i hrange1 hrange2
      have hupper : q2 - q1 < 2 ^ 31 + 6 := by
        apply lt_of_mul_lt_mul_left _ ht.le
        have hbound : t * (q1 % 2 ^ 32) < t * 2 ^ 31 := mul_lt_mul_of_pos_left hrange1.right ht
        linarith [hn1.left, hq1.right, hq2.left]
      have hnear1 : q2 % 2 ^ 32 - q1 % 2 ^ 32 < 9 := by
        apply lt_of_mul_lt_mul_left _ ht.le
        linarith [hn1.left, hn2.right]
      have hnear2 : q1 % 2 ^ 32 - q2 % 2 ^ 32 < 9 := by
        apply lt_of_mul_lt_mul_left _ ht.le
        linarith [hn1.right, hn2.left]
      omega
    · rename_i hrange2
      rw [if_neg hrange2] at hr2
      exact absurd hr2.left (by decide)
  · rename_i hrange1
    rw [if_neg hrange1] at hr1
    exact absurd hr1.left (by decide)

include ht huptime hperiod in
/--
A short period: the quotients advance in small steps, so one of them is a little
more than a multiple of `2 ^ 32`, but more than a few periods.
-/
theorem exists_late_of_short (hshort : period < 10 * t) :
    exists k : Nat, 1 ≤ k ∧ k * period ≤ 2 * period + 2 ^ 33 * t ∧
      ¬ (OnTime t uptime period k ∧ OnTime t uptime period (k + 1)) ∧
      (k + 1) * period ≤ 2 * period + 2 ^ 33 * t := by
  have hstart : quotient t uptime period 1 <
      (quotient t uptime period 1 / 2 ^ 32 + 1) * 2 ^ 32 + 13 := by
    omega
  rcases exists_passage (quotient_grows ht hperiod) hstart with ⟨k, hk, hbelow, habove⟩
  have hq1 := quotient_bounds ht uptime period 1
  have hqk := quotient_bounds ht uptime period k
  have hqk' := quotient_bounds ht uptime period (k + 1)
  have he := ticksFor_quotient ht huptime hperiod (k + 1)
  push_cast at hq1 hqk'
  rw [Nat.cast_add, Nat.cast_one] at he
  have hstep : quotient t uptime period (k + 1) <
      quotient t uptime period k + 12 := by
    apply lt_of_mul_lt_mul_left _ ht.le
    linarith [hqk.right, hqk'.left]
  have hlast : (k + 1) * period ≤ 2 * period + 2 ^ 33 * t := by
    have hk32 : quotient t uptime period k < quotient t uptime period 1 + (2 ^ 32 + 13) := by
      omega
    have hmul : t * quotient t uptime period k ≤
        t * (quotient t uptime period 1 + (2 ^ 32 + 13)) :=
      mul_le_mul_of_nonneg_left hk32.le ht.le
    linarith [hqk.right, hq1.left]
  refine ⟨k, hk, by linarith, ?_, hlast⟩
  rintro ⟨hon, hon'⟩
  have hn := hon.ticksFor_bound hon'
  rw [abs_le, he] at hn
  have hsmall : forall n : Int, t * (n + 1) - period ≤ 4 * t -> n < 13 := by
    intro n hle
    have hlt : n + 1 < 14 := by
      apply lt_of_mul_lt_mul_left _ ht.le
      linarith
    linarith
  have hr := hsmall _ hn.right
  split at hr
  · omega
  · rename_i hrange
    apply hrange
    omega

include ht huptime hperiod in
theorem exists_not_onTime : exists k : Nat, 1 ≤ k ∧ k * period ≤ 2 * period + 2 ^ 33 * t ∧
      ¬ OnTime t uptime period k := by
  have hpow : (0 : Int) ≤ 2 ^ 33 * t := mul_nonneg (by decide) ht.le
  cases lt_or_ge period (10 * t) with
  | inl hshort =>
      rcases exists_late_of_short ht huptime hperiod hshort with
        ⟨k, hk, hbound, hlate, hbound'⟩
      by_cases hon : OnTime t uptime period k
      · refine ⟨k + 1, Nat.le_add_left 1 k, ?_, fun hon' => hlate ⟨hon, hon'⟩⟩
        push_cast
        exact hbound'
      · exact ⟨k, hk, hbound, hon⟩
  | inr hlong =>
      have hlate := not_onTime_of_long ht huptime hperiod hlong
      by_cases hon : OnTime t uptime period 1
      · refine ⟨2, by decide, ?_, fun hon' => hlate ⟨hon, hon'⟩⟩
        push_cast
        linarith
      · refine ⟨1, le_refl 1, ?_, hon⟩
        push_cast
        linarith

end Period

end Kqueue
end FStackLite
