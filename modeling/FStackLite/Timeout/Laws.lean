import FStackLite.Timeout.Hardclock

/-!
# The laws of the callout wheel

Two contracts of the wheel, for every run of clock ticks and calls and whatever
the handlers do.  An armed callout runs exactly once, in the clock tick it was
armed for.  Stopping a callout tells whether it was found, and a drain function
given with the stop runs after the handler.
-/

namespace FStackLite
namespace Timeout

open Foundation

/-!
## Reading calls off a log
-/

def isCallOf (c : CalloutRef) : Event -> Bool
  | Event.call b _ _ => decide (b = c)
  | _ => false

def callsOf (c : CalloutRef) (log : List Event) : Nat :=
  log.countP (isCallOf c)

def isResetOf (c : CalloutRef) : Event -> Bool
  | Event.reset b _ _ _ _ => decide (b = c)
  | _ => false

def isStopOf (c : CalloutRef) : Event -> Bool
  | Event.stop b _ _ _ => decide (b = c)
  | _ => false

theorem ticks_timerTrace (log : List Event) : TimerQueue.ticks (timerTrace log) = ticksIn log := by
  unfold TimerQueue.ticks timerTrace ticksIn
  rw [List.countP_filterMap]
  congr 1
  funext e
  cases e <;> rfl

theorem fires_timerTrace (c : CalloutRef) (log : List Event) :
    TimerQueue.fires c (timerTrace log) = callsOf c log := by
  unfold TimerQueue.fires timerTrace callsOf
  rw [List.countP_filterMap]
  congr 1
  funext e
  cases e <;> rfl

variable {log : List Event}

theorem unarmed_timerTrace {c : CalloutRef} (h : forall e, e ∈ log -> isResetOf c e = false) :
    TimerQueue.Unarmed c (timerTrace log) := by
  intro t ht n x hx
  subst hx
  rcases arm_mem_timerTrace ht with ⟨toTicks, direct, hmem⟩
  have hreset := h _ hmem
  simp [isResetOf] at hreset

theorem untouched_timerTrace {c : CalloutRef} (hreset : forall e, e ∈ log -> isResetOf c e = false)
    (hstop : forall e, e ∈ log -> isStopOf c e = false) :
    TimerQueue.Untouched c (timerTrace log) := by
  intro t ht
  refine ⟨unarmed_timerTrace hreset t ht, ?_⟩
  intro hx
  subst hx
  rcases cancel_mem_timerTrace ht with ⟨drain, pending, r, hmem⟩
  have hnone := hstop _ hmem
  simp [isStopOf] at hnone

/-!
## Exactness
-/

/--
Each clock tick is the event `tick` followed by what `callout_tick` does in it,
so a call after `n + 1` ticks happens in the `ff_hardclock` that moves `ticks`
from `T + n` to `T + n + 1`.
-/
structure WheelExact (log : List Event) : Prop where
  armed : forall pre c toTicks f a direct post,
    log = pre ++ Event.reset c toTicks f a direct :: post ->
    (forall e, e ∈ post -> isResetOf c e = false) ->
    (forall e, e ∈ post -> isStopOf c e = false) ->
    callsOf c post = (if max toTicks.toInt 1 + 1 ≤ (ticksIn post : Int) then 1 else 0) ∧
      forall before f' a' after, post = before ++ Event.call c f' a' :: after ->
        (ticksIn before : Int) = max toTicks.toInt 1 + 1 ∧ f' = f ∧ a' = a
  stopped : forall pre c drain pending r post,
    log = pre ++ Event.stop c drain pending r :: post ->
    (forall e, e ∈ post -> isResetOf c e = false) -> callsOf c post = 0

theorem wheelExact_of_run {q : CalloutQueue} (h : TimerQueue.Run bootQueue (timerTrace log) q)
    (hsettled : q.Settled) : WheelExact log := by
  constructor
  · intro pre c toTicks f a direct post hlog hreset hstop
    have hclamp := (clampTicks_toNat toTicks).left
    have htrace : timerTrace log = timerTrace pre ++
        TimerEvent.arm c (clampTicks toTicks).toNat (f, a) :: timerTrace post := by
      rw [hlog, timerTrace_append]
      rfl
    rw [htrace, TimerQueue.run_append] at h
    rcases h with ⟨mid, _, hpost⟩
    rcases TimerQueue.exact_of_arm hpost (untouched_timerTrace hreset hstop) hsettled
      with ⟨hcount, hplace⟩
    constructor
    · rw [fires_timerTrace, ticks_timerTrace] at hcount
      rw [hcount, ← hclamp]
      norm_cast
    · intro before f' a' after hsplit
      have hpart := hplace (timerTrace before) (timerTrace after) (f', a') (by
        rw [hsplit, timerTrace_append]
        rfl)
      rw [ticks_timerTrace] at hpart
      injection hpart.right with hf ha
      refine ⟨?_, hf, ha⟩
      rw [hpart.left, ← hclamp]
      norm_cast
  · intro pre c drain pending r post hlog hreset
    have htrace : timerTrace log =
        timerTrace pre ++ TimerEvent.cancel c :: timerTrace post := by
      rw [hlog, timerTrace_append]
      rfl
    rw [htrace, TimerQueue.run_append] at h
    rcases h with ⟨mid, _, mid', hcancel, hpost⟩
    have hnone : mid'.deadline c = none := by
      cases hcancel
      exact TimerQueue.setDeadline_deadline_self _ _ _
    have hcount := (TimerQueue.fires_of_unarmed hpost hnone (unarmed_timerTrace hreset)).left
    rwa [fires_timerTrace] at hcount

section Laws

variable {ω : Type}

/--
Every run of clock ticks and calls ends, in a state between two ticks, and the
uptime has advanced by one tick for each of them.
-/
theorem boot_converges (shift : Nat) {callouts : CalloutRef -> Callout}
    (hinit : forall c, Initialised (callouts c))
    (hlock : forall c l, (callouts c).lock = some l -> l.lockClass.lcLock = true)
    (tickSbt : Int) {env : Env ω} (henv : env.Admissible)
    {actions : List (Action ω)} (hactions : forall a, a ∈ actions -> a.Admissible)
    (uptime : Int) (world : ω) :
    exists m, Converges (fun fuel => runActions tickSbt env fuel actions
      (bootMachine shift callouts uptime world)) m ∧
      m.uptime = uptime + tickSbt * ticksIn m.log ∧ exists q, Between q m := by
  have hboot : Between bootQueue (bootMachine shift callouts uptime world) :=
    between_boot shift hinit (fun c => (hinit c).runnable_iff.mpr (hlock c)) uptime world
  have hkeeps : forall a, a ∈ actions -> a.Keeps (henv.client tickSbt uptime) :=
    fun a ha => (hactions a ha).keeps henv
  have hstart : (henv.client tickSbt uptime).Holds bootQueue
      (bootMachine shift callouts uptime world) := by
    show uptime = uptime + tickSbt * ((0 : Nat) : Int)
    simp
  rcases runActions_converges hkeeps ⟨bootQueue, hboot, hstart⟩ with
    ⟨m, hconv, q, hbetween, hclock⟩
  exact ⟨m, hconv, hclock, q, hbetween⟩

/--
The wheel is exact if every callout that has a lock has one whose class sets
`lc_lock`.
-/
theorem callout_wheel_exact (shift : Nat) (callouts : CalloutRef -> Callout)
    (hinit : forall c, Initialised (callouts c))
    (hlock : forall c l, (callouts c).lock = some l -> l.lockClass.lcLock = true)
    (tickSbt : Int) (env : Env ω) (henv : env.Admissible)
    (actions : List (Action ω)) (hactions : forall a, a ∈ actions -> a.Admissible)
    (uptime : Int) (world : ω) :
    exists m, Converges (fun fuel => runActions tickSbt env fuel actions
        (bootMachine shift callouts uptime world)) m ∧
      m.cc.ticks = BitVec.ofNat 32 (ticksIn m.log) ∧ WheelExact m.log := by
  rcases boot_converges shift hinit hlock tickSbt henv hactions uptime world with
    ⟨m, hconv, _, q, p, hinv⟩
  refine ⟨m, hconv, ?_, wheelExact_of_run hinv.consistent.timers hinv.settled⟩
  rw [hinv.consistent.refines.now, TimerQueue.run_now hinv.consistent.timers, ticks_timerTrace]
  simp [bootQueue]

end Laws

/-!
Two callouts to try the law on: one without a lock, and one with a lock of the
class `rm`, for which `lc_lock` is null.
-/

def quietEnv : Env Unit :=
  fun _ _ _ w => Prog.ret w

def armAndTick : List (Action Unit) :=
  [Action.calls fun _ w =>
      Prog.op (Op.reset 0 1 7 5 (-1) {}) fun _ => Prog.ret w,
    Action.hardclock, Action.hardclock]

theorem armAndTick_admissible (a : Action Unit) (ha : a ∈ armAndTick) : a.Admissible := by
  simp only [armAndTick, List.mem_cons, List.not_mem_nil, or_false] at ha
  rcases ha with rfl | rfl | rfl
  · intro uptime world
    exact ⟨by show (-1 : Int) < 1; decide, fun _ => True.intro⟩
  · exact True.intro
  · exact True.intro

theorem callout_wheel_exact_mpsafe :
    exists m, Converges (fun fuel => runActions 1 quietEnv fuel armAndTick
        (bootMachine 3 (fun _ => calloutInit true) 0 ())) m ∧
      m.cc.ticks = BitVec.ofNat 32 (ticksIn m.log) ∧ WheelExact m.log :=
  callout_wheel_exact 3 (fun _ => calloutInit true) (fun _ => Initialised.init true)
    (fun _ l hl => by cases hl) 1 quietEnv (fun _ _ _ _ => True.intro) armAndTick
    armAndTick_admissible 0 ()

/-- The clock tick that should run a callout with an `rm` lock does not return. -/
theorem callout_wheel_not_exact_rm :
    Initialised (calloutInitLock (some (LockObject.other LockClass.rm)) false) ∧
      ¬ exists m, Converges (fun fuel => runActions 1 quietEnv fuel armAndTick (bootMachine 3
          (fun _ => calloutInitLock (some (LockObject.other LockClass.rm)) false)
          0 ())) m := by
  refine ⟨Initialised.lock _ _ rfl, ?_⟩
  rintro ⟨m, n0, hconv⟩
  have hcrash : runActions 1 quietEnv (n0 + 3) armAndTick
      (bootMachine 3
        (fun _ => calloutInitLock (some (LockObject.other LockClass.rm)) false)
        0 ()) = none := by
    rfl
  have hreturn := hconv (n0 + 3) (by lia)
  simp only [hcrash] at hreturn
  cases hreturn

/-!
## Stopping
-/

/--
The law of stopping holds for exactly those stops of a run that meet
`StopCond`, if every callout that has a lock has one whose class sets `lc_lock`.
-/
theorem callout_stop_law {ω : Type} (shift : Nat)
    (callouts : CalloutRef -> Callout) (hinit : forall c, Initialised (callouts c))
    (hlock : forall c l, (callouts c).lock = some l -> l.lockClass.lcLock = true)
    (tickSbt : Int) (env : Env ω) (henv : env.Admissible)
    (actions : List (Action ω)) (hactions : forall a, a ∈ actions -> a.Admissible)
    (uptime : Int) (world : ω) :
    exists m, Converges (fun fuel => runActions tickSbt env fuel actions
        (bootMachine shift callouts uptime world)) m ∧ forall pre c drain pending r post,
        m.log = pre ++ Event.stop c drain pending r :: post ->
        (StopLaw pre c drain pending r post <-> StopCond pre c drain pending post) := by
  rcases boot_converges shift hinit hlock tickSbt henv hactions uptime world with
    ⟨m, hconv, _, q, p, hinv⟩
  refine ⟨m, hconv, ?_⟩
  intro pre c drain pending r post hlog
  have haccepted := hinv.consistent.accepted
  rw [hlog] at haccepted
  exact StopProtocol.stopLaw_iff haccepted hinv.idle hinv.consistent.matched.due

def stopSelfEnv : Env Unit :=
  fun f _ _ w =>
    if f = 7 then Prog.op (Op.stop 0 (some 9)) fun _ => Prog.ret w else Prog.ret w

theorem stopSelfEnv_admissible : stopSelfEnv.Admissible := by
  intro f arg uptime world
  unfold stopSelfEnv
  split
  · exact ⟨True.intro, fun _ => True.intro⟩
  · exact True.intro

theorem callout_stop_law_mpsafe :
    exists m, Converges (fun fuel => runActions 1 stopSelfEnv fuel armAndTick
        (bootMachine 3 (fun _ => calloutInit true) 0 ())) m ∧ forall pre c drain pending r post,
        m.log = pre ++ Event.stop c drain pending r :: post ->
        (StopLaw pre c drain pending r post <-> StopCond pre c drain pending post) :=
  callout_stop_law 3 (fun _ => calloutInit true) (fun _ => Initialised.init true)
    (fun _ l hl => by cases hl) 1 stopSelfEnv stopSelfEnv_admissible armAndTick
    armAndTick_admissible 0 ()

/--
A callout armed without `C_DIRECT_EXEC` is not found while it executes: the stop
returns `-1`, and its drain function is not called.
-/
theorem callout_stop_law_fails :
    exists m pre post, Converges (fun fuel => runActions 1 stopSelfEnv fuel armAndTick
        (bootMachine 3 (fun _ => calloutInit true) 0 ())) m ∧
      m.log = pre ++ Event.stop 0 (some 9) false (-1) :: post ∧
      ¬ StopLaw pre 0 (some 9) false (-1) post := by
  rcases boot_converges 3 (fun _ => Initialised.init true) (fun _ l hl => by cases hl)
    1 stopSelfEnv_admissible armAndTick_admissible 0 () with ⟨m, hconv, _⟩
  refine ⟨m, [Event.reset 0 1 7 5 false, Event.tick, Event.tick, Event.call 0 7 5],
    [Event.ret 0], hconv, ?_, ?_⟩
  · rcases hconv with ⟨n0, hconv⟩
    have hlog : (runActions 1 stopSelfEnv (n0 + 3) armAndTick
        (bootMachine 3 (fun _ => calloutInit true) 0 ())).map Machine.log =
        some [Event.reset 0 1 7 5 false, Event.tick, Event.tick, Event.call 0 7 5,
          Event.stop 0 (some 9) false (-1), Event.ret 0] := by
      rfl
    have hreturn := hconv (n0 + 3) (by lia)
    simp only at hreturn
    rw [hreturn] at hlog
    injection hlog
  · intro hlaw
    exact (hlaw.unknown rfl).right rfl

end Timeout
end FStackLite
