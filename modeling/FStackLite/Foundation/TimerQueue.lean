import Mathlib.Logic.Function.Basic
import Mathlib.Data.List.Basic

/-!
# Timer queues

What a timer facility is for, without buckets, lists or counters of a fixed
width.  The queue holds an unbounded clock and at most one deadline for each
timer.  A timer with deadline `d` is due in the tick that moves the clock from
`d` to `d + 1`: it fires after that tick and before the next one, and the clock
may not move on while a due timer is left.  The main theorem reads off a trace
of such a queue when an armed timer fires.
-/

namespace FStackLite
namespace Foundation

universe u v

inductive TimerEvent (ι : Type u) (π : Type v) where
  | tick
  | arm (c : ι) (n : Nat) (x : π)
  | cancel (c : ι)
  | fire (c : ι) (x : π)

structure TimerQueue (ι : Type u) (π : Type v) where
  now : Nat
  deadline : ι -> Option (Nat × π)

namespace TimerQueue

variable {ι : Type u} {π : Type v} {c : ι} {es : List (TimerEvent ι π)}

def Settled (q : TimerQueue ι π) : Prop :=
  forall c d x, q.deadline c = some (d, x) -> q.now ≤ d

section Steps

variable [DecidableEq ι] {q : TimerQueue ι π}

def setDeadline (q : TimerQueue ι π) (c : ι) (v : Option (Nat × π)) : TimerQueue ι π :=
  { q with deadline := Function.update q.deadline c v }

@[simp] theorem setDeadline_now (q : TimerQueue ι π) (c : ι)
    (v : Option (Nat × π)) : (q.setDeadline c v).now = q.now := rfl

@[simp] theorem setDeadline_deadline_self (q : TimerQueue ι π) (c : ι)
    (v : Option (Nat × π)) : (q.setDeadline c v).deadline c = v := by
  simp [setDeadline]

theorem setDeadline_deadline_of_ne (q : TimerQueue ι π) {b c : ι}
    (v : Option (Nat × π)) (h : b ≠ c) : (q.setDeadline c v).deadline b = q.deadline b := by
  simp [setDeadline, h]

theorem deadline_of_setDeadline_none {b c : ι} {v : Nat × π}
    (h : (q.setDeadline b none).deadline c = some v) : q.deadline c = some v := by
  by_cases hb : c = b
  · subst hb
    rw [setDeadline_deadline_self] at h
    cases h
  · rwa [setDeadline_deadline_of_ne _ _ hb] at h

inductive Step : TimerQueue ι π -> TimerEvent ι π -> TimerQueue ι π -> Prop where
  | tick {q : TimerQueue ι π} :
      q.Settled -> Step q TimerEvent.tick { q with now := q.now + 1 }
  | arm {q : TimerQueue ι π} (c : ι) (n : Nat) (x : π) :
      Step q (TimerEvent.arm c n x) (q.setDeadline c (some (q.now + n, x)))
  | cancel {q : TimerQueue ι π} (c : ι) :
      Step q (TimerEvent.cancel c) (q.setDeadline c none)
  | fire {q : TimerQueue ι π} {c : ι} {d : Nat} {x : π} :
      q.deadline c = some (d, x) -> d + 1 = q.now ->
      Step q (TimerEvent.fire c x) (q.setDeadline c none)

def Run : TimerQueue ι π -> List (TimerEvent ι π) -> TimerQueue ι π -> Prop
  | q, [], q' => q = q'
  | q, e :: es, q' => exists mid, Step q e mid ∧ Run mid es q'

theorem run_append {q' : TimerQueue ι π} {as bs : List (TimerEvent ι π)} :
    Run q (as ++ bs) q' <-> exists mid, Run q as mid ∧ Run mid bs q' := by
  induction as generalizing q with
  | nil =>
      constructor
      · intro h
        exact ⟨q, rfl, h⟩
      · rintro ⟨mid, rfl, h⟩
        exact h
  | cons e es ih =>
      constructor
      · rintro ⟨m1, hstep, hrest⟩
        rcases ih.mp hrest with ⟨mid, hes, hbs⟩
        exact ⟨mid, ⟨m1, hstep, hes⟩, hbs⟩
      · rintro ⟨mid, ⟨m1, hstep, hes⟩, hbs⟩
        exact ⟨m1, hstep, ih.mpr ⟨mid, hes, hbs⟩⟩

theorem run_snoc {mid q' : TimerQueue ι π} {es : List (TimerEvent ι π)} {e : TimerEvent ι π}
    (h : Run q es mid) (hstep : Step mid e q') : Run q (es ++ [e]) q' :=
  run_append.mpr ⟨mid, h, q', hstep, rfl⟩

end Steps

/-!
## Reading a trace
-/

def isTick : TimerEvent ι π -> Bool
  | TimerEvent.tick => true
  | _ => false

def isFire [DecidableEq ι] (c : ι) : TimerEvent ι π -> Bool
  | TimerEvent.fire b _ => decide (b = c)
  | _ => false

def ticks (es : List (TimerEvent ι π)) : Nat :=
  es.countP isTick

def fires [DecidableEq ι] (c : ι) (es : List (TimerEvent ι π)) : Nat :=
  es.countP (isFire c)

def Untouched (c : ι) (es : List (TimerEvent ι π)) : Prop :=
  forall e, e ∈ es -> (forall n x, e ≠ TimerEvent.arm c n x) ∧
    e ≠ TimerEvent.cancel c

def Unarmed (c : ι) (es : List (TimerEvent ι π)) : Prop :=
  forall e, e ∈ es -> forall n x, e ≠ TimerEvent.arm c n x

theorem Untouched.tail {e : TimerEvent ι π} (h : Untouched c (e :: es)) : Untouched c es :=
  fun e' he' => h e' (List.mem_cons_of_mem e he')

theorem Unarmed.tail {e : TimerEvent ι π} (h : Unarmed c (e :: es)) : Unarmed c es :=
  fun e' he' => h e' (List.mem_cons_of_mem e he')

theorem Untouched.unarmed (h : Untouched c es) : Unarmed c es :=
  fun e he => (h e he).left

@[simp] theorem ticks_nil : ticks ([] : List (TimerEvent ι π)) = 0 := rfl

theorem ticks_cons (e : TimerEvent ι π) (es : List (TimerEvent ι π)) :
    ticks (e :: es) = ticks es + if isTick e then 1 else 0 := by
  simp [ticks, List.countP_cons]

theorem ticks_append (as bs : List (TimerEvent ι π)) : ticks (as ++ bs) = ticks as + ticks bs := by
  simp [ticks]

section Exactness

variable [DecidableEq ι] {q q' : TimerQueue ι π} {es : List (TimerEvent ι π)} {c : ι} {d : Nat}
    {x : π}

theorem fires_cons (c : ι) (e : TimerEvent ι π) (es : List (TimerEvent ι π)) :
    fires c (e :: es) = fires c es + if isFire c e then 1 else 0 := by
  simp [fires, List.countP_cons]

theorem step_now {e : TimerEvent ι π} (h : Step q e q') :
    q'.now = q.now + if isTick e then 1 else 0 := by
  cases h <;> simp [isTick]

theorem run_now (h : Run q es q') : q'.now = q.now + ticks es := by
  induction es generalizing q with
  | nil =>
      have hq : q = q' := h
      simp [hq]
  | cons e es ih =>
      rcases h with ⟨mid, hstep, hrest⟩
      have hmid := step_now hstep
      have hend := ih hrest
      rw [ticks_cons]
      omega

theorem fires_of_unarmed (h : Run q es q') (hnone : q.deadline c = none) (hes : Unarmed c es) :
    fires c es = 0 ∧ q'.deadline c = none := by
  induction es generalizing q with
  | nil =>
      have hq : q = q' := h
      exact ⟨rfl, hq ▸ hnone⟩
  | cons e es ih =>
      rcases h with ⟨mid, hstep, hrest⟩
      have hmid : mid.deadline c = none ∧ isFire c e = false := by
        cases hstep with
        | tick hsettled => exact ⟨hnone, rfl⟩
        | arm b n x =>
            have hb : c ≠ b := by
              intro hcb
              exact hes _ (List.mem_cons_self ..) n x (by rw [hcb])
            exact ⟨by rw [setDeadline_deadline_of_ne _ _ hb, hnone], rfl⟩
        | cancel b =>
            by_cases hb : c = b
            · subst hb
              exact ⟨setDeadline_deadline_self _ _ _, rfl⟩
            · exact ⟨by rw [setDeadline_deadline_of_ne _ _ hb, hnone], rfl⟩
        | @fire b d x hd hnow =>
            have hb : c ≠ b := by
              intro hcb
              rw [← hcb, hnone] at hd
              cases hd
            exact ⟨by rw [setDeadline_deadline_of_ne _ _ hb, hnone], by simp [isFire, hb.symm]⟩
      rcases ih hrest hmid.left hes.tail with ⟨hcount, hend⟩
      refine ⟨?_, hend⟩
      rw [fires_cons, hcount, hmid.right]
      rfl

/--
One step seen from an armed timer that it does not touch: the timer stays
armed, or this is its firing, in the tick its deadline names.
-/
theorem step_of_armed {e : TimerEvent ι π} (h : Step q e q') (hd : q.deadline c = some (d, x))
    (hle : q.now ≤ d + 1) (harm : forall n y, e ≠ TimerEvent.arm c n y)
    (hcancel : e ≠ TimerEvent.cancel c) :
    (isFire c e = false ∧ q'.deadline c = some (d, x) ∧ q'.now ≤ d + 1) ∨
      (e = TimerEvent.fire c x ∧ q.now = d + 1 ∧ q'.deadline c = none) := by
  cases h with
  | tick hsettled =>
      have hnow := hsettled c d x hd
      exact Or.inl ⟨rfl, hd, by simp; omega⟩
  | arm b n y =>
      have hb : c ≠ b := by
        intro hcb
        exact harm n y (by rw [hcb])
      exact Or.inl ⟨rfl, by rw [setDeadline_deadline_of_ne _ _ hb, hd], hle⟩
  | cancel b =>
      have hb : c ≠ b := by
        intro hcb
        exact hcancel (by rw [hcb])
      exact Or.inl ⟨rfl, by rw [setDeadline_deadline_of_ne _ _ hb, hd], hle⟩
  | @fire b d' y hd' hnow =>
      by_cases hb : c = b
      · subst hb
        rw [hd] at hd'
        injection hd' with hpair
        injection hpair with hdd hxy
        subst hdd
        subst hxy
        exact Or.inr ⟨rfl, hnow.symm, setDeadline_deadline_self _ _ _⟩
      · exact Or.inl ⟨by simp [isFire, Ne.symm hb],
          by rw [setDeadline_deadline_of_ne _ _ hb, hd], hle⟩

/--
A trace that leaves an armed timer alone either does not contain a firing of it
and has not passed its deadline, or splits at its only firing, which stands
after exactly the ticks up to its deadline.
-/
theorem run_of_armed (h : Run q es q') (hd : q.deadline c = some (d, x)) (hle : q.now ≤ d + 1)
    (hes : Untouched c es) : (fires c es = 0 ∧ q'.deadline c = some (d, x) ∧ q'.now ≤ d + 1) ∨
      (exists as bs, es = as ++ TimerEvent.fire c x :: bs ∧
        q.now + ticks as = d + 1 ∧ fires c as = 0 ∧ fires c bs = 0 ∧ q'.deadline c = none) := by
  induction es generalizing q with
  | nil =>
      have hq : q = q' := h
      subst hq
      exact Or.inl ⟨rfl, hd, hle⟩
  | cons e es ih =>
      rcases h with ⟨mid, hstep, hrest⟩
      have hhead := hes e (List.mem_cons_self ..)
      have hnow := step_now hstep
      rcases step_of_armed hstep hd hle hhead.left hhead.right with hkeep | hfire
      · rcases hkeep with ⟨hnofire, hmid, hmidle⟩
        rcases ih hrest hmid hmidle hes.tail with hzero | hsplit
        · refine Or.inl ⟨?_, hzero.right⟩
          rw [fires_cons, hzero.left, hnofire]
          rfl
        · rcases hsplit with ⟨as, bs, hsplit, hticks, has, hbs, hend⟩
          refine Or.inr ⟨e :: as, bs, by rw [hsplit]; rfl, ?_, ?_, hbs, hend⟩
          · rw [ticks_cons]
            omega
          · rw [fires_cons, has, hnofire]
            rfl
      · rcases hfire with ⟨he, hdue, hmid⟩
        rcases fires_of_unarmed hrest hmid hes.tail.unarmed with ⟨hbs, hend⟩
        exact Or.inr ⟨[], es, by rw [he]; rfl, by simpa using hdue, rfl, hbs, hend⟩

theorem fire_of_arm {as bs : List (TimerEvent ι π)} {n : Nat} {y : π}
    (h : Run q (TimerEvent.arm c n x :: as ++ TimerEvent.fire c y :: bs) q')
    (has : Untouched c as) : ticks as = n + 1 ∧ y = x := by
  rcases run_append.mp h with ⟨atFire, ⟨mid, harm, hbefore⟩, hafter⟩
  rcases hafter with ⟨_, hfire, _⟩
  cases harm with
  | arm =>
      have hmid : (q.setDeadline c (some (q.now + n, x))).deadline c =
          some (q.now + n, x) := setDeadline_deadline_self _ _ _
      have hbeforeNow := run_now hbefore
      rw [setDeadline_now] at hbeforeNow
      cases hfire with
      | fire hd hnow =>
          rcases run_of_armed hbefore hmid (by simp; omega) has with hkeep | hgone
          · rw [hkeep.right.left] at hd
            injection hd with hpair
            injection hpair with hdeadline hpayload
            exact ⟨by omega, hpayload.symm⟩
          · rcases hgone with ⟨_, _, _, _, _, _, hnone⟩
            rw [hnone] at hd
            cases hd

/--
Exactness of a timer.  From the moment it is armed for `n` ticks, and as long
as the trace leaves it alone, it fires once if more than `n` ticks have passed
and not otherwise, and a firing stands after exactly `n + 1` ticks and carries
the payload it was armed with.
-/
theorem exact_of_arm {n : Nat} (h : Run q (TimerEvent.arm c n x :: es) q') (hes : Untouched c es)
    (hsettled : q'.Settled) : fires c es = (if n + 1 ≤ ticks es then 1 else 0) ∧
      (forall as bs y, es = as ++ TimerEvent.fire c y :: bs -> ticks as = n + 1 ∧ y = x) := by
  constructor
  · rcases h with ⟨mid, hstep, hrest⟩
    cases hstep with
    | arm =>
        have hmid : (q.setDeadline c (some (q.now + n, x))).deadline c =
            some (q.now + n, x) := setDeadline_deadline_self _ _ _
        have hend := run_now hrest
        rw [setDeadline_now] at hend
        rcases run_of_armed hrest hmid (by simp; omega) hes with hkeep | hgone
        · have hnow := hsettled c _ _ hkeep.right.left
          rw [hkeep.left, if_neg (by omega)]
        · rcases hgone with ⟨as, bs, hsplit, hticks, has, hbs, _⟩
          rw [setDeadline_now] at hticks
          have hsum : ticks es = ticks as + ticks bs := by
            rw [hsplit, ticks_append, ticks_cons]
            simp [isTick]
          rw [if_pos (by omega), hsplit]
          simp only [fires, List.countP_append, List.countP_cons] at has hbs ⊢
          simp [has, hbs, isFire]
  · intro as bs y hsplit
    subst hsplit
    exact fire_of_arm h fun e he => hes e (List.mem_append_left _ he)

theorem deadline_of_run (h : Run q es q') (hd : q'.deadline c = some (d, x)) :
    q.deadline c = some (d, x) ∨ exists n, TimerEvent.arm c n x ∈ es := by
  induction es generalizing q with
  | nil =>
      have hq : q = q' := h
      exact Or.inl (hq ▸ hd)
  | cons e es ih =>
      rcases h with ⟨mid, hstep, hrest⟩
      rcases ih hrest with hmid | ⟨n, hmem⟩
      · cases hstep with
        | tick _ => exact Or.inl hmid
        | arm b n y =>
            by_cases hb : c = b
            · subst hb
              rw [setDeadline_deadline_self] at hmid
              injection hmid with hpair
              injection hpair with _ hpayload
              exact Or.inr ⟨n, by simp [hpayload]⟩
            · rw [setDeadline_deadline_of_ne _ _ hb] at hmid
              exact Or.inl hmid
        | cancel b => exact Or.inl (deadline_of_setDeadline_none hmid)
        | fire _ _ => exact Or.inl (deadline_of_setDeadline_none hmid)
      · exact Or.inr ⟨n, List.mem_cons_of_mem e hmem⟩

end Exactness

end TimerQueue

end Foundation
end FStackLite
