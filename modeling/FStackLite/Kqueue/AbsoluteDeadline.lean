import FStackLite.Kqueue.TimerClient

/-!
# Absolute deadlines

What the arithmetic of the deadlines means for runs: a callout armed with an
absolute deadline meets it only under a condition on the uptime, and a periodic
timer does not stay within two ticks of its schedule.
-/

namespace FStackLite
namespace Kqueue

open Foundation Timeout

/-!
## One deadline
-/

/-- The callout runs in a clock tick whose uptime is at most two ticks late. -/
def MetDeadline (t uptime deadline : Int) (c : CalloutRef) (post : List Event) : Prop :=
  exists before f a after, post = before ++ Event.call c f a :: after ∧
    deadline ≤ uptime + t * ticksIn before ∧
    uptime + t * ticksIn before ≤ deadline + 2 * t

/--
The log of a run that began at uptime `start` meets exactly the deadlines for
which `DeadlineCond` holds, as far as it goes beyond them.
-/
def DeadlineLaw (t start : Int) (log : List Event) : Prop :=
  forall pre c deadline f a direct post,
    log = pre ++ Event.reset c (sbtTicks t deadline) f a direct :: post ->
    (forall e, e ∈ post -> isResetOf c e = false) ->
    (forall e, e ∈ post -> isStopOf c e = false) ->
    start + t * ticksIn pre < deadline ->
    deadline - (start + t * ticksIn pre) < 2 ^ 31 * t ->
    deadline + 2 * t < start + t * ticksIn pre + t * ticksIn post ->
    (MetDeadline t (start + t * ticksIn pre) deadline c post <->
      DeadlineCond t (start + t * ticksIn pre) deadline)

variable {c : CalloutRef} {t : Int} {ω : Type}

theorem exists_call {log : List Event} (h : callsOf c log ≠ 0) :
    exists before f a after, log = before ++ Event.call c f a :: after := by
  unfold callsOf at h
  have hmem : exists e, e ∈ log ∧ isCallOf c e = true := by
    by_contra hnone
    apply h
    apply List.countP_eq_zero.mpr
    intro e he hcall
    exact hnone ⟨e, he, hcall⟩
  rcases hmem with ⟨e, he, hcall⟩
  rcases List.append_of_mem he with ⟨before, after, hsplit⟩
  cases e with
  | call b f a =>
      have hb : b = c := by
        simpa [isCallOf] using hcall
      subst hb
      exact ⟨before, f, a, after, hsplit⟩
  | tick => cases hcall
  | reset b toTicks f a direct => cases hcall
  | stop b drain pending r => cases hcall
  | ret b => cases hcall
  | drain d a => cases hcall

theorem deadlineLaw_of_exact {start : Int} (ht : 0 < t) (hstart : 0 ≤ start) {log : List Event}
    (h : WheelExact log) : DeadlineLaw t start log := by
  intro pre c deadline f a direct post hlog hreset hstop hlater _ hlong
  rcases h.armed pre c _ f a direct post hlog hreset hstop with ⟨hcount, hplace⟩
  have hpre : 0 ≤ t * (ticksIn pre : Int) := mul_nonneg ht.le (Int.natCast_nonneg _)
  have hnonneg : 0 ≤ deadline := by
    linarith
  change callsOf c post =
    if ticksFor t deadline + 1 ≤ (ticksIn post : Int) then 1 else 0 at hcount
  generalize start + t * (ticksIn pre : Int) = uptime at hlater hlong ⊢
  rw [← deadlineCond_iff hnonneg hlater]
  constructor
  · rintro ⟨before, f', a', after, hsplit, hlow, hhigh⟩
    have hticks : (ticksIn before : Int) = ticksFor t deadline + 1 :=
      (hplace before f' a' after hsplit).left
    rw [hticks] at hlow hhigh
    exact ⟨hlow, hhigh⟩
  · rintro ⟨hlow, hhigh⟩
    have henough : ticksFor t deadline + 1 ≤ (ticksIn post : Int) := by
      apply le_of_mul_le_mul_left _ ht
      linarith
    rw [if_pos henough] at hcount
    have hcalled : callsOf c post ≠ 0 := by
      rw [hcount]
      decide
    rcases exists_call hcalled with ⟨before, f', a', after, hsplit⟩
    have hticks : (ticksIn before : Int) = ticksFor t deadline + 1 :=
      (hplace before f' a' after hsplit).left
    refine ⟨before, f', a', after, hsplit, ?_, ?_⟩
    · rw [hticks]
      exact hlow
    · rw [hticks]
      exact hhigh

/-!
## A periodic timer
-/

def attachAction {ω : Type} (t : Int) (expire : FuncPtr) (calloutmax : Nat) (k : ArgPtr)
    (c : CalloutRef) : Action (TimerWorld ω) :=
  Action.calls fun uptime w => (filtTimerattach t expire calloutmax k c uptime w).2

/--
The state in which a periodic knote is attached: `filt_timerattach` succeeds,
the knote and its callout are new, and nobody uses `filt_timerexpire` as a drain
function.
-/
structure Attachable {ω : Type} (t : Int) (expire : FuncPtr) (calloutmax : Nat)
    (k : ArgPtr) (c : CalloutRef) (period : Int) (m : Machine (TimerWorld ω)) :
    Prop where
  accepted : (filtTimerattach t expire calloutmax k c m.uptime m.world).1 = none
  repeats : (m.world.knotes k).oneshot = false
  period : (defaultPeriod (m.world.knotes k)).period = period
  owned : Owned k c m.world
  unused : forall b n direct, Event.reset b n expire k direct ∉ m.log
  noDrain : ¬ DrainLeft expire m.log

theorem filtTimerattach_accepted {expire : FuncPtr} {calloutmax : Nat} {k : ArgPtr} {uptime : Int}
    {w : TimerWorld ω} (h : (filtTimerattach t expire calloutmax k c uptime w).1 = none) :
    (filtTimerattach t expire calloutmax k c uptime w).2 = Prog.op
        (calloutResetSbtOn t c ((defaultPeriod (w.knotes k)).period + uptime) expire k 0
          { absolute := true })
        fun _ => Prog.ret ({ w with ncallouts := w.ncallouts + 1 }.setKnote k
          { defaultPeriod (w.knotes k) with
            clear := true
            hook := c
            nexttime := (defaultPeriod (w.knotes k)).period + uptime }) := by
  unfold filtTimerattach at h ⊢
  split at h
  · cases h
  · rename_i hsdata
    rw [if_neg hsdata]
    simp only at h ⊢
    split at h
    · cases h
    · rename_i hflags
      rw [if_neg hflags]
      split at h
      · cases h
      · rename_i hperiod
        rw [if_neg hperiod]
        split at h
        · cases h
        · rename_i hmax
          rw [if_neg hmax]

theorem attach_meets {expire : FuncPtr} {calloutmax : Nat} {k : ArgPtr} {period : Int}
    {m : Machine (TimerWorld ω)} (h : Attachable t expire calloutmax k c period m)
    {q : CalloutQueue} (hrun : TimerQueue.Run bootQueue (timerTrace m.log) q) :
    (filtTimerattach t expire calloutmax k c m.uptime m.world).2.Meets
      (TimerInv t expire k c m.uptime period m.log m.uptime) q m.log := by
  have hrepeats : (defaultPeriod (m.world.knotes k)).oneshot = false := by
    unfold defaultPeriod
    split
    · exact h.repeats
    · exact h.repeats
  rw [filtTimerattach_accepted h.accepted, h.period]
  refine ⟨by show (0 : Int) < 1; decide, ?_⟩
  intro s r
  have hevent : Op.event s r (calloutResetSbtOn t c (period + m.uptime) expire k 0
      { absolute := true }) = armEvent t m.uptime period c expire k 1 := by
    show Event.reset c (sbtTicks t (period + m.uptime)) expire k false =
      Event.reset c (sbtTicks t (m.uptime + ((1 : Nat) : Int) * period)) expire k false
    rw [Nat.cast_one, one_mul, add_comm]
  rw [hevent]
  refine ⟨0, ⟨⟨[], rfl, PeriodicLog.start, ?_⟩, ?_⟩, ?_, ?_, ?_⟩
  · simp [ticksIn]
  · intro hleft
    rcases drainLeft_snoc hleft with hlog | ⟨b, pending, r', hmem⟩
    · exact h.noDrain hlog
    · simp [armEvent] at hmem
  · constructor
    · intro d x hd
      have hself := TimerQueue.setDeadline_deadline_self q c
        (some (q.now + (clampTicks (sbtTicks t (period + m.uptime))).toNat, (expire, k)))
      have hsame := hself.symm.trans hd
      injection hsame with hpair
      injection hpair with _ hx
      exact hx.symm
    · intro b d a hb hd
      have hother := TimerQueue.setDeadline_deadline_of_ne q
        (some (q.now + (clampTicks (sbtTicks t (period + m.uptime))).toNat, (expire, k))) hb
      have hold := hother.symm.trans hd
      rcases TimerQueue.deadline_of_run hrun hold with hboot | ⟨n, hmem⟩
      · cases hboot
      · intro ha
        subst ha
        rcases arm_mem_timerTrace hmem with ⟨toTicks, direct, hreset⟩
        exact h.unused b toTicks direct hreset
  · rw [setKnote_knotes_self]
    refine ⟨rfl, hrepeats, h.period, ?_⟩
    show period + m.uptime = m.uptime + (((0 : Nat) : Int) + 1) * period
    rw [Nat.cast_zero, zero_add, one_mul, add_comm]
  · apply Owned.setKnote h.owned
    intro hne
    exact absurd rfl hne

/--
In every run in which a periodic knote is attached at this uptime, its `n`-th
expiry is more than two ticks away from its nominal time, if the run lasts that
long.
-/
def DriftsAt (t uptime period : Int) (n : Nat) : Prop :=
  forall (ω : Type) (shift : Nat) (callouts : CalloutRef -> Callout) (start : Int)
    (world : TimerWorld ω) (others : Env (TimerWorld ω)) (expire : FuncPtr)
    (calloutmax : Nat) (k : ArgPtr) (c : CalloutRef)
    (before after : List (Action (TimerWorld ω))) (m : Machine (TimerWorld ω)),
    (forall b, Initialised (callouts b)) ->
    (forall b l, (callouts b).lock = some l -> l.lockClass.lcLock = true) ->
    others.Admissible -> EnvSpares expire k c others ->
    (forall a, a ∈ before -> a.Admissible) ->
    (forall a, a ∈ after -> ActionSpares expire k c a) ->
    Converges (fun fuel => runActions t (timerEnv t expire others) fuel before
      (bootMachine shift callouts start world)) m ->
    m.uptime = uptime -> Attachable t expire calloutmax k c period m ->
    exists m' post, Converges (fun fuel => runActions t (timerEnv t expire others) fuel
        (attachAction t expire calloutmax k c :: after) m) m' ∧
      m'.log = m.log ++ armEvent t uptime period c expire k 1 :: post ∧
      (expiryTicks t uptime period n ≤ ticksIn post ->
        exists past future, post = past ++ Event.call c expire k :: future ∧
          callsOf c past + 1 = n ∧
          2 * t < |uptime + t * ticksIn past - (uptime + n * period)|)

theorem filtTimerexpire_admissible (t : Int) (expire : FuncPtr) (k : ArgPtr) (w : TimerWorld ω) :
    (filtTimerexpire t expire k w).Admissible := by
  unfold filtTimerexpire
  simp only
  split
  · exact True.intro
  · exact ⟨by show (0 : Int) < 1; decide, fun _ => True.intro⟩

theorem timerEnv_admissible {others : Env (TimerWorld ω)} (h : others.Admissible) (t : Int)
    (expire : FuncPtr) : (timerEnv t expire others).Admissible := by
  intro f arg uptime w
  unfold timerEnv
  split
  · exact filtTimerexpire_admissible t expire arg w
  · exact h f arg uptime w

theorem driftsAt_of_not_onTime {uptime period : Int} {n : Nat}
    (hlate : ¬ OnTime t uptime period (n + 1)) : DriftsAt t uptime period (n + 1) := by
  intro ω shift callouts start world others expire calloutmax k c before after m hinit
    hlock hadm hspares hbefore hafter hconv huptime hattach
  subst huptime
  rcases boot_converges shift hinit hlock t (timerEnv_admissible hadm t expire) hbefore
    start world with ⟨m0, hconv0, _, q, hbetween⟩
  have hm0 := hconv0.unique hconv
  subst hm0
  have hrun : TimerQueue.Run bootQueue (timerTrace m0.log) q := by
    rcases hbetween with ⟨p, hinv⟩
    exact hinv.consistent.timers
  rcases hbetween.run (attach_meets hattach hrun) with ⟨m1, q1, hrun1, hm1, huptime1, hinv1⟩
  have hresting : Resting (timerClient t expire k c m0.uptime period m0.log hspares) m1 := by
    refine ⟨q1, hm1, ?_⟩
    unfold Client.Holds
    rw [huptime1]
    exact hinv1
  rcases runActions_converges (fun a ha => (hafter a ha).keeps hspares) hresting with
    ⟨m2, hconv2, q2, ⟨p2, hbetween2⟩, j, hlog2, _⟩
  rcases hlog2.shape with ⟨post, hpost, hperiodic, _⟩
  refine ⟨m2, post, ?_, hpost, ?_⟩
  · exact (Converges.of_eq fun _ => hrun1).bind
      (g := fun x fuel => runActions t (timerEnv t expire others) fuel after x) hconv2
  · intro hlong
    have hrun2 := hbetween2.consistent.timers
    rw [hpost] at hrun2
    rcases hperiodic.exists_expiry hrun2 hbetween2.settled hlong with
      ⟨past, future, hsplit, hcount, hticks⟩
    refine ⟨past, future, hsplit, by rw [hcount], ?_⟩
    unfold OnTime at hlate
    rw [hticks]
    have hsame : m0.uptime + t * expiryTicks t m0.uptime period (n + 1) -
        (m0.uptime + ((n + 1 : Nat) : Int) * period) =
        t * expiryTicks t m0.uptime period (n + 1) - ((n + 1 : Nat) : Int) * period := by
      ring
    rw [hsame]
    exact not_le.mp hlate

/-!
## The law
-/

/--
In every run a callout armed with an absolute deadline meets it exactly under
`DeadlineCond`.  A periodic timer misses its schedule by more than two ticks at
some expiry, whatever its period and the uptime at which it is attached; the
deadline of that expiry is bounded, so that it is reached before the 64 bits of
a `sbintime_t` run out.
-/
theorem absolute_deadlines (t : Int) (ht : 0 < t) :
    (forall (ω : Type) (shift : Nat) (callouts : CalloutRef -> Callout) (start : Int)
      (world : ω) (env : Env ω) (actions : List (Action ω)),
      0 ≤ start -> (forall c, Initialised (callouts c)) ->
      (forall c l, (callouts c).lock = some l -> l.lockClass.lcLock = true) ->
      env.Admissible -> (forall a, a ∈ actions -> a.Admissible) ->
      exists m, Converges (fun fuel => runActions t env fuel actions
          (bootMachine shift callouts start world)) m ∧
        m.uptime = start + t * ticksIn m.log ∧ DeadlineLaw t start m.log) ∧
    (forall uptime period, 0 ≤ uptime -> t ≤ period ->
      exists n : Nat, 1 ≤ n ∧ n * period ≤ 2 * period + 2 ^ 33 * t ∧
        DriftsAt t uptime period n) := by
  constructor
  · intro ω shift callouts start world env actions hstart hinit hlock henv hactions
    rcases boot_converges shift hinit hlock t henv hactions start world with
      ⟨m, hconv, hclock, q, p, hinv⟩
    refine ⟨m, hconv, hclock, ?_⟩
    exact deadlineLaw_of_exact ht hstart (wheelExact_of_run hinv.consistent.timers hinv.settled)
  · intro uptime period huptime hperiod
    rcases exists_not_onTime ht huptime hperiod with ⟨n, hn, hbound, hlate⟩
    refine ⟨n, hn, hbound, ?_⟩
    cases n with
    | zero => exact absurd hn (by decide)
    | succ n => exact driftsAt_of_not_onTime hlate

def monthsWorld : TimerWorld Unit where
  knotes := fun _ =>
    { sdata := 17179867, sfflags := noteSeconds, oneshot := false, clear := false, data := 0,
      nexttime := 0, hook := 1 }
  ncallouts := 0
  rest := ()

def quietTimerEnv : Env (TimerWorld Unit) :=
  fun _ _ _ w => Prog.ret w

def monthsActions : List (Action (TimerWorld Unit)) :=
  attachAction 4294967 9 4096 1 0 :: List.replicate 4 Action.hardclock

/--
A clock with 1000 ticks a second, and a knote with a period of 199 days: the number of ticks
does not fit an `int`, and the knote expires with the first ticks.
-/
theorem absolute_deadlines_months :
    (exists m, Converges (fun fuel => runActions 4294967 quietEnv fuel armAndTick
        (bootMachine 3 (fun _ => calloutInit true) 0 ())) m ∧
      m.uptime = 0 + 4294967 * ticksIn m.log ∧ DeadlineLaw 4294967 0 m.log) ∧
    exists (n : Nat) (m : Machine (TimerWorld Unit)) (past future : List Event),
      Converges (fun fuel => runActions 4294967 (timerEnv 4294967 9 quietTimerEnv) fuel monthsActions
          (bootMachine 3 (fun _ => calloutInit true) 0 monthsWorld)) m ∧
        m.log = armEvent 4294967 0 (17179867 * 2 ^ 32) 0 9 1 1 ::
          (past ++ Event.call 0 9 1 :: future) ∧ callsOf 0 past + 1 = n ∧
        2 * 4294967 < |(0 : Int) + 4294967 * ticksIn past - (0 + n * (17179867 * 2 ^ 32))| := by
  have hlaw := absolute_deadlines 4294967 (by decide)
  constructor
  · exact hlaw.left Unit 3 (fun _ => calloutInit true) 0 () quietEnv armAndTick
      (by decide) (fun _ => Initialised.init true) (fun _ l hl => by cases hl)
      (fun _ _ _ _ => True.intro) armAndTick_admissible
  · rcases hlaw.right 0 (17179867 * 2 ^ 32) (by decide) (by decide) with
      ⟨n, hpos, hbound, hdrifts⟩
    have hattach : Attachable 4294967 9 4096 1 0 (17179867 * 2 ^ 32)
        (bootMachine 3 (fun _ => calloutInit true) 0 monthsWorld) := by
      refine ⟨by decide, rfl, by decide, ?_, ?_, ?_⟩
      · intro k' _
        show (1 : Nat) ≠ 0
        decide
      · intro b n' direct
        exact List.not_mem_nil
      · rintro ⟨b, pending, r, hmem⟩
        cases hmem
    rcases hdrifts Unit 3 (fun _ => calloutInit true) 0 monthsWorld quietTimerEnv 9 4096
      1 0 [] (List.replicate 4 Action.hardclock) _ (fun _ => Initialised.init true)
      (fun _ l hl => by cases hl) (fun _ _ _ _ => True.intro)
      (fun _ _ _ _ _ howned => ⟨rfl, howned⟩) (fun a ha => by cases ha)
      (fun a ha => by rw [List.eq_of_mem_replicate ha]; exact True.intro)
      Converges.of_some rfl hattach with ⟨m, post, hconv, hlog, hlate⟩
    have hticks : ticksIn post = 4 := by
      rcases hconv with ⟨n0, hout⟩
      have hrun : runActions 4294967 (timerEnv 4294967 9 quietTimerEnv) (n0 + 5) monthsActions
          (bootMachine 3 (fun _ => calloutInit true) 0 monthsWorld) = some m :=
        hout (n0 + 5) (Nat.le_add_right n0 5)
      have hseen : (runActions 4294967 (timerEnv 4294967 9 quietTimerEnv) (n0 + 5) monthsActions
          (bootMachine 3 (fun _ => calloutInit true) 0 monthsWorld)).map
            (fun m => ticksIn m.log) = some 4 := rfl
      rw [hrun, Option.map_some, hlog] at hseen
      exact Option.some.inj hseen
    have hsmall : n = 1 ∨ n = 2 := by omega
    have hreached : expiryTicks 4294967 0 (17179867 * 2 ^ 32) n ≤ ticksIn post := by
      rw [hticks]
      rcases hsmall with rfl | rfl <;> decide
    rcases hlate hreached with ⟨past, future, hpost, hcalls, hdrift⟩
    exact ⟨n, m, past, future, hconv, by rw [hlog, hpost]; rfl, hcalls, hdrift⟩

def deadlineActions : List (Action Unit) :=
  List.replicate 3 Action.hardclock ++
    (Action.calls fun _ w =>
      Prog.op (calloutResetSbtOn 1 0 5 7 0 (-1) { absolute := true }) fun _ =>
        Prog.ret w) ::
    List.replicate 6 Action.hardclock

theorem deadlineActions_admissible (a : Action Unit) (ha : a ∈ deadlineActions) : a.Admissible := by
  unfold deadlineActions at ha
  rcases List.mem_append.mp ha with hfirst | hrest
  · rw [List.eq_of_mem_replicate hfirst]
    exact True.intro
  · rcases List.mem_cons.mp hrest with harm | hlast
    · rw [harm]
      intro uptime world
      exact ⟨by show (-1 : Int) < 1; decide, fun _ => True.intro⟩
    · rw [List.eq_of_mem_replicate hlast]
      exact True.intro

/--
Armed at uptime 3 for the absolute time 5, with ticks of length 1, the callout
runs at uptime 9.
-/
theorem absolute_deadline_missed :
    exists m pre post, Converges (fun fuel => runActions 1 quietEnv fuel deadlineActions
        (bootMachine 3 (fun _ => calloutInit true) 0 ())) m ∧
      m.log = pre ++ Event.reset 0 (sbtTicks 1 5) 7 0 false :: post ∧
      (0 : Int) + 1 * ticksIn pre = 3 ∧ ticksIn post = 6 ∧
      (forall e, e ∈ post -> isResetOf 0 e = false) ∧ (forall e, e ∈ post -> isStopOf 0 e = false) ∧
      ¬ MetDeadline 1 3 5 0 post := by
  rcases boot_converges 3 (fun _ => Initialised.init true) (fun _ l hl => by cases hl)
    1 (show quietEnv.Admissible from fun _ _ _ _ => True.intro)
    deadlineActions_admissible 0 () with ⟨m, hconv, _, q, p, hinv⟩
  have hlaw : DeadlineLaw 1 0 m.log :=
    deadlineLaw_of_exact (by decide) (le_refl 0)
      (wheelExact_of_run hinv.consistent.timers hinv.settled)
  have hlog : m.log = List.replicate 3 Event.tick ++
      Event.reset 0 (sbtTicks 1 5) 7 0 false ::
        (List.replicate 6 Event.tick ++ [Event.call 0 7 0, Event.ret 0]) := by
    rcases hconv with ⟨n0, hconv⟩
    have hrun : (runActions 1 quietEnv (n0 + 3) deadlineActions
        (bootMachine 3 (fun _ => calloutInit true) 0 ())).map Machine.log =
        some (List.replicate 3 Event.tick ++ Event.reset 0 (sbtTicks 1 5) 7 0 false ::
          (List.replicate 6 Event.tick ++ [Event.call 0 7 0, Event.ret 0])) := by
      rfl
    have hreturn := hconv (n0 + 3) (by lia)
    simp only at hreturn
    rw [hreturn] at hrun
    injection hrun
  refine ⟨m, _, _, hconv, hlog, by decide, by decide, by decide, by decide, ?_⟩
  intro hmet
  have hcond := (hlaw _ 0 5 7 0 false _ hlog (by decide) (by decide) (by decide)
    (by decide) (by decide)).mp hmet
  revert hcond
  unfold DeadlineCond
  decide

end Kqueue
end FStackLite
