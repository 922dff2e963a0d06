import FStackLite.Kqueue.Deadline
import FStackLite.Timeout.Laws

/-!
# A periodic timer in a run

The timer filter is a client of the callout wheel.  Its invariant says what the
log of a run looks like from the moment a periodic knote is attached, whatever
the other callouts do: its callout is called and armed again in turns, the
`k`-th time for the deadline `k` periods after the attachment.  The ticks between
the expiries then follow from the timer queue alone.
-/

namespace FStackLite
namespace Kqueue

open Foundation Timeout

def touches (c : CalloutRef) (e : Event) : Bool :=
  isCallOf c e || isResetOf c e || isStopOf c e

theorem touches_eq_false {c : CalloutRef} {e : Event} (h : touches c e = false) :
    isCallOf c e = false ∧ isResetOf c e = false ∧ isStopOf c e = false := by
  unfold touches at h
  simp only [Bool.or_eq_false_iff] at h
  exact ⟨h.left.left, h.left.right, h.right⟩

section Log

variable (t uptime period : Int) (c : CalloutRef) (f : FuncPtr) (a : ArgPtr)

/-- Arming the callout for its `k`-th deadline. -/
def armEvent (k : Nat) : Event :=
  Event.reset c (sbtTicks t (uptime + k * period)) f a false

/-- A log in which the callout has been called `k` times and armed again each time. -/
inductive PeriodicLog : Nat -> List Event -> Prop where
  | start : PeriodicLog 0 []
  | other {k : Nat} {log : List Event} (e : Event) :
      PeriodicLog k log -> touches c e = false -> PeriodicLog k (log ++ [e])
  | expire {k : Nat} {log : List Event} :
      PeriodicLog k log ->
      PeriodicLog (k + 1) (log ++
        [Event.call c f a, armEvent t uptime period c f a (k + 2), Event.ret c])

end Log

/-!
## Counting ticks
-/

theorem callsOf_append (c : CalloutRef) (as bs : List Event) :
    callsOf c (as ++ bs) = callsOf c as + callsOf c bs := by
  unfold callsOf
  rw [List.countP_append]

section Expiries

variable {t uptime period : Int} {c : CalloutRef} {f : FuncPtr} {a : ArgPtr} {k : Nat}
    {q : CalloutQueue} {post pre : List Event}

structure LastArming (t uptime period : Int) (c : CalloutRef) (f : FuncPtr)
    (a : ArgPtr) (k : Nat) (pre post lead seg : List Event) : Prop where
  split : pre ++ armEvent t uptime period c f a 1 :: post =
    lead ++ armEvent t uptime period c f a (k + 1) :: seg
  untouched : forall e, e ∈ seg -> touches c e = false
  ticks : (ticksIn post : Int) = expiryTicks t uptime period k + ticksIn seg

theorem ticksIn_of_arming {lead seg rest : List Event} (h : TimerQueue.Run bootQueue
      (timerTrace (lead ++ armEvent t uptime period c f a (k + 1) :: seg ++
        Event.call c f a :: rest)) q) (hseg : forall e, e ∈ seg -> touches c e = false) :
    (ticksIn seg : Int) = ticksFor t (uptime + (k + 1) * period) + 1 := by
  have htrace : timerTrace (lead ++ armEvent t uptime period c f a (k + 1) :: seg ++
      Event.call c f a :: rest) = timerTrace lead ++
      (TimerEvent.arm c (clampTicks (sbtTicks t (uptime + (k + 1 : Nat) * period))).toNat
        (f, a) :: timerTrace seg ++ TimerEvent.fire c (f, a) :: timerTrace rest) := by
    rw [List.append_assoc, timerTrace_append]
    congr 1
    rw [timerTrace_append]
    rfl
  rw [htrace, TimerQueue.run_append] at h
  rcases h with ⟨mid, _, hpost⟩
  have huntouched : TimerQueue.Untouched c (timerTrace seg) :=
    untouched_timerTrace (fun e he => (touches_eq_false (hseg e he)).right.left)
      fun e he => (touches_eq_false (hseg e he)).right.right
  have hticks := (TimerQueue.fire_of_arm hpost huntouched).left
  rw [ticks_timerTrace] at hticks
  have hclamp := (clampTicks_toNat (sbtTicks t (uptime + (k + 1 : Nat) * period))).left
  rw [hticks]
  push_cast at hclamp ⊢
  rw [hclamp]
  rfl

/-- The `i`-th call after the arming, and the ticks that it comes after. -/
def ExpiryAt (t uptime period : Int) (c : CalloutRef) (f : FuncPtr) (a : ArgPtr) (i : Nat)
    (post : List Event) : Prop :=
  exists before after, post = before ++ Event.call c f a :: after ∧ callsOf c before = i ∧
    (ticksIn before : Int) = expiryTicks t uptime period (i + 1)

theorem ExpiryAt.append {i : Nat} (h : ExpiryAt t uptime period c f a i post) (more : List Event) :
    ExpiryAt t uptime period c f a i (post ++ more) := by
  rcases h with ⟨before, after, hsplit, hcount, hticks⟩
  refine ⟨before, after ++ more, ?_, hcount, hticks⟩
  rw [hsplit, List.append_assoc]
  rfl

theorem LastArming.other {lead seg : List Event} {e : Event}
    (h : LastArming t uptime period c f a k pre post lead seg) (htouch : touches c e = false) :
    LastArming t uptime period c f a k pre (post ++ [e]) lead (seg ++ [e]) := by
  constructor
  · have hsplit := h.split
    rw [← List.cons_append, ← List.append_assoc, hsplit]
    simp
  · intro e' he'
    rcases List.mem_append.mp he' with hmem | hmem
    · exact h.untouched e' hmem
    · rw [List.mem_singleton.mp hmem]
      exact htouch
  · rw [ticksIn_append, ticksIn_append]
    push_cast
    rw [h.ticks]
    exact Int.add_assoc _ _ _

theorem lastArming_expire (hnow : (ticksIn post : Int) = expiryTicks t uptime period (k + 1)) :
    LastArming t uptime period c f a (k + 1) pre
      (post ++ [Event.call c f a, armEvent t uptime period c f a (k + 2), Event.ret c])
      (pre ++ armEvent t uptime period c f a 1 :: post ++ [Event.call c f a]) [Event.ret c] := by
  constructor
  · simp
  · intro e he
    rw [List.mem_singleton.mp he]
    rfl
  · rw [ticksIn_append]
    push_cast
    rw [hnow]
    rfl

theorem PeriodicLog.expiries (h : PeriodicLog t uptime period c f a k post) {rest : List Event}
    (hrun : TimerQueue.Run bootQueue
      (timerTrace (pre ++ armEvent t uptime period c f a 1 :: post ++ rest)) q) :
    callsOf c post = k ∧ (forall i, i < k -> ExpiryAt t uptime period c f a i post) ∧
      exists lead seg, LastArming t uptime period c f a k pre post lead seg := by
  induction h generalizing rest with
  | start =>
      refine ⟨rfl, ?_, pre, [], rfl, ?_, rfl⟩
      · intro i hi
        exact absurd hi (Nat.not_lt_zero i)
      · intro e he
        cases he
  | @other k log e _ htouch ih =>
      have hshape : pre ++ armEvent t uptime period c f a 1 :: (log ++ [e]) ++ rest =
          pre ++ armEvent t uptime period c f a 1 :: log ++ ([e] ++ rest) := by
        simp
      rw [hshape] at hrun
      rcases ih hrun with ⟨hcalls, hplaces, lead, seg, hlast⟩
      refine ⟨?_, fun i hi => (hplaces i hi).append [e], lead, seg ++ [e], hlast.other htouch⟩
      rw [callsOf_append, hcalls]
      simp [callsOf, (touches_eq_false htouch).left]
  | @expire k log _ ih =>
      have hshape : pre ++ armEvent t uptime period c f a 1 ::
          (log ++ [Event.call c f a, armEvent t uptime period c f a (k + 2),
            Event.ret c]) ++ rest =
          pre ++ armEvent t uptime period c f a 1 :: log ++
            (Event.call c f a :: armEvent t uptime period c f a (k + 2) ::
              Event.ret c :: rest) := by
        simp
      rw [hshape] at hrun
      rcases ih hrun with ⟨hcalls, hplaces, lead, seg, hlast⟩
      have hseg : (ticksIn seg : Int) =
          ticksFor t (uptime + (k + 1) * period) + 1 := by
        rw [hlast.split] at hrun
        exact ticksIn_of_arming hrun hlast.untouched
      have hnow : (ticksIn log : Int) = expiryTicks t uptime period (k + 1) := by
        rw [hlast.ticks, hseg]
        rfl
      refine ⟨?_, ?_, _, _, lastArming_expire hnow⟩
      · rw [callsOf_append, hcalls]
        simp [callsOf, isCallOf, armEvent]
      · intro i hi
        rcases Nat.lt_succ_iff_lt_or_eq.mp hi with hlt | heq
        · exact (hplaces i hlt).append _
        · subst heq
          exact ⟨log, _, rfl, hcalls, hnow⟩

/-- A run that lasts until the `k`-th expiry contains it. -/
theorem PeriodicLog.exists_expiry {j : Nat} (h : PeriodicLog t uptime period c f a j post)
    (hrun : TimerQueue.Run bootQueue
      (timerTrace (pre ++ armEvent t uptime period c f a 1 :: post)) q) (hsettled : q.Settled)
    (hlong : expiryTicks t uptime period (k + 1) ≤ (ticksIn post : Int)) :
    exists before after, post = before ++ Event.call c f a :: after ∧ callsOf c before = k ∧
      (ticksIn before : Int) = expiryTicks t uptime period (k + 1) := by
  have hrun' := hrun
  rw [← List.append_nil (pre ++ armEvent t uptime period c f a 1 :: post)] at hrun'
  rcases h.expiries hrun' with ⟨_, hplaces, lead, seg, hlast⟩
  apply hplaces
  have hexact := wheelExact_of_run hrun hsettled
  have hseg := (hexact.armed lead c _ f a false seg hlast.split
    (fun e he => (touches_eq_false (hlast.untouched e he)).right.left)
    (fun e he => (touches_eq_false (hlast.untouched e he)).right.right)).left
  have hnone : callsOf c seg = 0 := by
    unfold callsOf
    apply List.countP_eq_zero.mpr
    intro e he
    rw [(touches_eq_false (hlast.untouched e he)).left]
    decide
  have hshort : (ticksIn seg : Int) <
      max (sbtTicks t (uptime + (j + 1 : Nat) * period)).toInt 1 + 1 := by
    by_contra hge
    rw [hnone, if_pos (not_lt.mp hge)] at hseg
    cases hseg
  have hnext : (ticksIn post : Int) < expiryTicks t uptime period (j + 1) := by
    rw [hlast.ticks, expiryTicks_succ]
    unfold ticksFor
    push_cast at hshort
    linarith
  by_contra hjk
  have hle := expiryTicks_le_add t uptime period (j + 1) (k - j)
  rw [show j + 1 + (k - j) = k + 1 by lia] at hle
  linarith

end Expiries

end Kqueue
end FStackLite
