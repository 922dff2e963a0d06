import FStackLite.Foundation.TimerQueue
import FStackLite.Timeout.Operations

/-!
# The wheel as a timer queue

The wheel keeps the low 32 bits of each deadline and finds due callouts by
comparing them with the low 32 bits of the clock.  This is sound because every
deadline lies less than `2 ^ 31` ticks ahead of the clock and at most one tick
behind it.  With that bound carried along, each event of the wheel is a step of
the unbounded timer queue.
-/

namespace FStackLite
namespace Timeout

open Foundation

/-- The timer queue of callouts; the payload is the handler and its argument. -/
abbrev CalloutQueue := TimerQueue CalloutRef (FuncPtr × ArgPtr)

def timerEvent : Event -> Option (TimerEvent CalloutRef (FuncPtr × ArgPtr))
  | Event.tick => some TimerEvent.tick
  | Event.reset c toTicks ftn arg _ =>
      some (TimerEvent.arm c (clampTicks toTicks).toNat (ftn, arg))
  | Event.stop c _ _ _ => some (TimerEvent.cancel c)
  | Event.call c ftn arg => some (TimerEvent.fire c (ftn, arg))
  | Event.ret _ => none
  | Event.drain _ _ => none

def timerTrace (log : List Event) : List (TimerEvent CalloutRef (FuncPtr × ArgPtr)) :=
  log.filterMap timerEvent

theorem timerTrace_append (log log' : List Event) :
    timerTrace (log ++ log') = timerTrace log ++ timerTrace log' :=
  List.filterMap_append

variable {c : CalloutRef} {s s' : CalloutCpu} {q : CalloutQueue}

theorem arm_mem_timerTrace {log : List Event} {n : Nat} {f : FuncPtr} {a : ArgPtr}
    (h : TimerEvent.arm c n (f, a) ∈ timerTrace log) :
    exists toTicks direct, Event.reset c toTicks f a direct ∈ log := by
  rcases List.mem_filterMap.mp h with ⟨e, he, heq⟩
  cases e with
  | reset b toTicks ftn arg direct =>
      injection heq with heq
      injection heq with hb _ hx
      injection hx with hf ha
      subst hb hf ha
      exact ⟨toTicks, direct, he⟩
  | tick => injection heq with heq; injection heq
  | stop b drain pending r => injection heq with heq; injection heq
  | call b ftn arg => injection heq with heq; injection heq
  | ret b => injection heq
  | drain d arg => injection heq

theorem cancel_mem_timerTrace {log : List Event} (h : TimerEvent.cancel c ∈ timerTrace log) :
    exists drain pending r, Event.stop c drain pending r ∈ log := by
  rcases List.mem_filterMap.mp h with ⟨e, he, heq⟩
  cases e with
  | stop b drain pending r =>
      injection heq with heq
      injection heq with hb
      subst hb
      exact ⟨drain, pending, r, he⟩
  | tick => injection heq with heq; injection heq
  | reset b toTicks ftn arg direct => injection heq with heq; injection heq
  | call b ftn arg => injection heq with heq; injection heq
  | ret b => injection heq
  | drain d arg => injection heq

def bootQueue : CalloutQueue where
  now := 0
  deadline := fun _ => none

/-- The callout is armed for the deadline `d` with the payload `x`. -/
structure ArmedFor (s : CalloutCpu) (q : CalloutQueue) (c : CalloutRef)
    (d : Nat) (x : FuncPtr × ArgPtr) : Prop where
  time : (s.callouts c).time = BitVec.ofNat 32 d
  func : (s.callouts c).func = some x.1
  arg : (s.callouts c).arg = x.2
  recent : q.now ≤ d + 1
  ahead : d < q.now + 2 ^ 31

structure Refines (s : CalloutCpu) (q : CalloutQueue) : Prop where
  now : s.ticks = BitVec.ofNat 32 q.now
  pending : forall c, (s.callouts c).iflags.pending = (q.deadline c).isSome
  armed : forall c d x, q.deadline c = some (d, x) -> ArmedFor s q c d x

theorem refines_init (shift : Nat) {callouts : CalloutRef -> Callout}
    (h : forall c, Initialised (callouts c)) :
    Refines (calloutCallwheelInit shift callouts) bootQueue := by
  refine ⟨rfl, ?_, ?_⟩
  · intro c
    exact (h c).idle.right.left
  · intro c d x hd
    cases hd

theorem ofNat_inj_of_near {now d e : Nat} (hd : now ≤ d + 1) (hd' : d < now + 2 ^ 31)
    (he : now ≤ e + 1) (he' : e < now + 2 ^ 31)
    (heq : BitVec.ofNat 32 d = BitVec.ofNat 32 e) : d = e := by
  have hnat := congrArg BitVec.toNat heq
  simp only [BitVec.toNat_ofNat] at hnat
  lia

/-!
## Frames

A step on one callout leaves the others armed as they are.
-/

theorem ArmedFor.congr {q' : CalloutQueue} {d : Nat} {x : FuncPtr × ArgPtr}
    (h : ArmedFor s q c d x) (htime : (s'.callouts c).time = (s.callouts c).time)
    (hfunc : (s'.callouts c).func = (s.callouts c).func)
    (harg : (s'.callouts c).arg = (s.callouts c).arg) (hnow : q'.now = q.now) :
    ArmedFor s' q' c d x := by
  refine ⟨htime.trans h.time, hfunc.trans h.func, harg.trans h.arg, ?_, ?_⟩
  · rw [hnow]
    exact h.recent
  · rw [hnow]
    exact h.ahead

theorem Refines.congr (h : Refines s q) (hticks : s'.ticks = s.ticks)
    (hcallouts : forall c, (s'.callouts c).time = (s.callouts c).time ∧
      (s'.callouts c).func = (s.callouts c).func ∧ (s'.callouts c).arg = (s.callouts c).arg ∧
      (s'.callouts c).iflags.pending = (s.callouts c).iflags.pending) : Refines s' q := by
  refine ⟨hticks.trans h.now, ?_, ?_⟩
  · intro c
    exact (hcallouts c).right.right.right.trans (h.pending c)
  · intro c d x hd
    have hc := hcallouts c
    exact (h.armed c d x hd).congr hc.left hc.right.left hc.right.right.left rfl

theorem Refines.disarm (h : Refines s q) (c : CalloutRef) (hticks : s'.ticks = s.ticks)
    (hidle : (s'.callouts c).iflags.pending = false)
    (hother : forall b, b ≠ c -> (s'.callouts b).time = (s.callouts b).time ∧
      (s'.callouts b).func = (s.callouts b).func ∧ (s'.callouts b).arg = (s.callouts b).arg ∧
      (s'.callouts b).iflags.pending = (s.callouts b).iflags.pending) :
    Refines s' (q.setDeadline c none) := by
  refine ⟨hticks.trans h.now, ?_, ?_⟩
  · intro b
    by_cases hb : b = c
    · subst hb
      rw [hidle, TimerQueue.setDeadline_deadline_self]
      rfl
    · rw [TimerQueue.setDeadline_deadline_of_ne _ _ hb, ← h.pending b]
      exact (hother b hb).right.right.right
  · intro b d x hd
    by_cases hb : b = c
    · subst hb
      rw [TimerQueue.setDeadline_deadline_self] at hd
      cases hd
    · rw [TimerQueue.setDeadline_deadline_of_ne _ _ hb] at hd
      have hb' := hother b hb
      exact (h.armed b d x hd).congr hb'.left hb'.right.left hb'.right.right.left rfl

/-!
## The interface
-/

theorem op_effect_stop_callouts (h : CpuInv s) (c : CalloutRef) (drain : Option FuncPtr)
    (b : CalloutRef) : (((Op.stop c drain).effect s).callouts b).time = (s.callouts b).time ∧
      (((Op.stop c drain).effect s).callouts b).func = (s.callouts b).func ∧
      (((Op.stop c drain).effect s).callouts b).arg = (s.callouts b).arg ∧
      (((Op.stop c drain).effect s).callouts b).iflags.pending =
        if b = c then false else (s.callouts b).iflags.pending := by
  have hlinks := markStopped_sameLinks s c drain
  have hwheel := h.wheel.congr hlinks
  have hoff := offWheel_callouts hwheel c b
  have hmarked : ((markStopped s c drain).callouts b).func = (s.callouts b).func ∧
      ((markStopped s c drain).callouts b).arg = (s.callouts b).arg := by
    rw [markStopped]
    split
    · by_cases hb : b = c
      · subst hb
        cases drain <;> simp [setDrain]
      · cases drain <;>
          simp [setDrain, CalloutCpu.setCallout_callouts_of_ne _ _ _ _ hb]
    · exact ⟨rfl, rfl⟩
  refine ⟨hoff.left.trans (hlinks.right.right b).left,
    hoff.right.left.trans hmarked.left,
    hoff.right.right.left.trans hmarked.right, ?_⟩
  show ((offWheel (markStopped s c drain) c).callouts b).iflags.pending = _
  rw [offWheel_pending hwheel, (hlinks.right.right b).right]

theorem op_effect_reset_callouts_of_ne (h : CpuInv s) (c : CalloutRef) (toTicks : CInt)
    (ftn : FuncPtr) (arg : ArgPtr) (cpu : Int) (flags : CalloutFlags) {b : CalloutRef}
    (hb : b ≠ c) : (((Op.reset c toTicks ftn arg cpu flags).effect s).callouts b).time =
        (s.callouts b).time ∧ (((Op.reset c toTicks ftn arg cpu flags).effect s).callouts b).func =
        (s.callouts b).func ∧ (((Op.reset c toTicks ftn arg cpu flags).effect s).callouts b).arg =
        (s.callouts b).arg ∧
      (((Op.reset c toTicks ftn arg cpu flags).effect s).callouts b).iflags.pending =
        (s.callouts b).iflags.pending := by
  have hoff := offWheel_callouts h.wheel c b
  have hpending := offWheel_pending h.wheel c b
  rw [if_neg hb] at hpending
  simp only [Op.effect]
  rw [calloutCcAdd_callouts_of_ne _ _ _ _ _ _ hb]
  exact ⟨hoff.left, hoff.right.left, hoff.right.right.left, hpending⟩

def Op.queue (q : CalloutQueue) : Op -> CalloutQueue
  | reset c toTicks ftn arg _ _ =>
      q.setDeadline c (some (q.now + (clampTicks toTicks).toNat, (ftn, arg)))
  | stop c _ => q.setDeadline c none

theorem op_queue_now (q : CalloutQueue) (o : Op) : (o.queue q).now = q.now := by
  cases o <;> rfl

theorem op_queue_settled (h : q.Settled) (o : Op) : (o.queue q).Settled := by
  intro b d x hd
  rw [op_queue_now]
  cases o with
  | reset c toTicks ftn arg cpu flags =>
      unfold Op.queue at hd
      by_cases hb : b = c
      · subst hb
        rw [TimerQueue.setDeadline_deadline_self] at hd
        injection hd with hpair
        injection hpair with hdd _
        lia
      · rw [TimerQueue.setDeadline_deadline_of_ne _ _ hb] at hd
        exact h b d x hd
  | stop c drain => exact h b d x (TimerQueue.deadline_of_setDeadline_none hd)

theorem op_step (s : CalloutCpu) (q : CalloutQueue) (o : Op) (r : Int) :
    exists e, timerEvent (o.event s r) = some e ∧ TimerQueue.Step q e (o.queue q) := by
  cases o with
  | reset c toTicks ftn arg cpu flags =>
      exact ⟨_, rfl, TimerQueue.Step.arm c (clampTicks toTicks).toNat (ftn, arg)⟩
  | stop c drain => exact ⟨_, rfl, TimerQueue.Step.cancel c⟩

theorem op_refines (h : CpuInv s) (href : Refines s q) (o : Op) :
    Refines (o.effect s) (o.queue q) := by
  cases o with
  | reset c toTicks ftn arg cpu flags =>
      have hclamp := clampTicks_toNat toTicks
      have hticks := (op_effect_clock h (Op.reset c toTicks ftn arg cpu flags)).left
      refine ⟨hticks.trans href.now, ?_, ?_⟩
      · intro b
        unfold Op.queue
        by_cases hb : b = c
        · subst hb
          rw [TimerQueue.setDeadline_deadline_self]
          simp only [Op.effect, calloutCcAdd_callouts_self]
          rfl
        · rw [TimerQueue.setDeadline_deadline_of_ne _ _ hb, ← href.pending b]
          exact (op_effect_reset_callouts_of_ne h c toTicks ftn arg cpu flags hb).right.right.right
      · intro b d x hd
        unfold Op.queue at hd ⊢
        by_cases hb : b = c
        · subst hb
          rw [TimerQueue.setDeadline_deadline_self] at hd
          injection hd with hpair
          injection hpair with hdd hx
          subst hdd
          subst hx
          have htime : (offWheel s b).ticks + clampTicks toTicks =
              BitVec.ofNat 32 (q.now + (clampTicks toTicks).toNat) := by
            rw [(offWheel_clock h.wheel b).left, href.now]
            apply BitVec.eq_of_toNat_eq
            simp
          constructor
          · simp only [Op.effect, calloutCcAdd_callouts_self]
            exact htime
          · simp only [Op.effect, calloutCcAdd_callouts_self]
            rfl
          · simp only [Op.effect, calloutCcAdd_callouts_self]
            rfl
          · rw [TimerQueue.setDeadline_now]
            lia
          · rw [TimerQueue.setDeadline_now]
            lia
        · rw [TimerQueue.setDeadline_deadline_of_ne _ _ hb] at hd
          have hframe := op_effect_reset_callouts_of_ne h c toTicks ftn arg cpu flags hb
          exact (href.armed b d x hd).congr hframe.left hframe.right.left
            hframe.right.right.left rfl
  | stop c drain =>
      have hidle := op_effect_stop_callouts h c drain c
      rw [if_pos rfl] at hidle
      apply href.disarm c (op_effect_clock h (Op.stop c drain)).left hidle.right.right.right
      intro b hb
      have hframe := op_effect_stop_callouts h c drain b
      rw [if_neg hb] at hframe
      exact hframe

/-!
## The clock
-/

theorem tick_refines (href : Refines s q) (hsettled : q.Settled) :
    TimerQueue.Step q TimerEvent.tick { q with now := q.now + 1 } ∧
      Refines { s with ticks := s.ticks + 1 } { q with now := q.now + 1 } := by
  refine ⟨TimerQueue.Step.tick hsettled, ?_, ?_, ?_⟩
  · show s.ticks + 1 = BitVec.ofNat 32 (q.now + 1)
    rw [href.now, BitVec.ofNat_add]
    rfl
  · intro c
    exact href.pending c
  · intro c d x hd
    have harmed := href.armed c d x hd
    have hnow := hsettled c d x hd
    have hahead := harmed.ahead
    refine ⟨harmed.time, harmed.func, harmed.arg, Nat.succ_le_succ hnow, ?_⟩
    show d < q.now + 1 + 2 ^ 31
    omega

theorem Refines.due (h : Refines s q) {curticks : CInt} (hclock : s.ticks = curticks + 1)
    (hpending : (s.callouts c).iflags.pending = true) (htime : (s.callouts c).time = curticks)
    (hnow : 0 < q.now) : exists d x, q.deadline c = some (d, x) ∧ d + 1 = q.now := by
  rw [h.pending c] at hpending
  rcases Option.isSome_iff_exists.mp hpending with ⟨⟨d, x⟩, hd⟩
  refine ⟨d, x, hd, ?_⟩
  have harmed := h.armed c d x hd
  have hcur : curticks = BitVec.ofNat 32 (q.now - 1) := by
    have hticks : curticks + 1 = BitVec.ofNat 32 (q.now - 1) + 1 := by
      rw [← hclock, h.now]
      have hsucc : q.now = (q.now - 1) + 1 := by
        lia
      rw [hsucc, BitVec.ofNat_add]
      rfl
    exact (BitVec.add_left_inj 1).mp hticks
  have hd' : d = q.now - 1 := by
    apply ofNat_inj_of_near harmed.recent harmed.ahead (by lia) (by lia)
    rw [← harmed.time, htime, hcur]
  lia

end Timeout
end FStackLite
