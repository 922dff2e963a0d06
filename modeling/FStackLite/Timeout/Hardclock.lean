import FStackLite.Timeout.Softclock

/-!
# The hard clock

Total correctness of the loops: the scan of a bucket, the two loops around it,
one clock tick, and a run of any number of ticks and calls in any order.
-/

namespace FStackLite
namespace Timeout

open Foundation

theorem settled_of_dueCount {s : CalloutCpu} {q : CalloutQueue} (hwheel : WheelInv s)
    (h : Refines s q) {curticks : CInt} (hclock : s.ticks = curticks + 1)
    (hzero : dueCount s curticks = 0) : q.Settled := by
  intro c d x hd
  have harmed := h.armed c d x hd
  have hpending : (s.callouts c).iflags.pending = true := by
    rw [h.pending c, hd]
    rfl
  have hnot := dueCount_eq_zero hwheel hzero hpending
  have hne : q.now ≠ d + 1 := by
    intro hnow
    apply hnot
    rw [harmed.time]
    have hticks : BitVec.ofNat 32 d + 1 = curticks + 1 := by
      rw [← hclock, h.now, hnow, BitVec.ofNat_add]
      rfl
    exact (BitVec.add_left_inj 1).mp hticks
  have hrecent := harmed.recent
  lia

section Clock

variable {ω : Type}

variable {tickSbt : Int} {env : Env ω} (client : Client tickSbt env)

def Resting (m : Machine ω) : Prop :=
  exists q, Between q m ∧ client.Holds q m

def Scanning (curticks : CInt) (pos : Option CalloutRef) (m : Machine ω) : Prop :=
  exists q p, ScanInv curticks pos m q p ∧ client.Holds q m

variable {client}

theorem Scanning.resting {curticks : CInt} {m : Machine ω}
    (h : Scanning client curticks none m) : Resting client m := by
  rcases h with ⟨q, p, hinv, hholds⟩
  have hsettled := settled_of_dueCount hinv.consistent.cpu.wheel
    hinv.consistent.refines hinv.ticks hinv.pos.dueCount_of_none
  exact ⟨q, ⟨p, hinv.consistent, hsettled, hinv.idle, hinv.softticks⟩, hholds⟩

theorem Handling.scanning {curticks : CInt} {k : Nat} {q : CalloutQueue}
    {m : Machine ω} (h : Handling curticks k none q m) (hholds : client.Holds q m) :
    Scanning client curticks m.cc.next { m with cc := { m.cc with next := none } } := by
  rcases h with ⟨p, hinv⟩
  have hcons := hinv.consistent
  have hexec := hcons.cpu.exec
  refine ⟨q, p, ⟨⟨⟨?_, ⟨hexec.unused, hexec.waiting, hexec.started⟩,
    hcons.cpu.runnable⟩, hcons.timers, ?_, hcons.accepted, ?_⟩, hinv.now,
    hinv.executing, hinv.ticks, hinv.softticks, hinv.pos⟩, hholds⟩
  · exact hcons.cpu.wheel.congr ⟨rfl, rfl, fun _ => ⟨rfl, rfl⟩⟩
  · exact hcons.refines.congr rfl fun _ => ⟨rfl, rfl, rfl, rfl⟩
  · exact ⟨hcons.matched.executing, hcons.matched.drain, hcons.matched.direct, hcons.matched.due⟩

/-!
## The scan of a bucket
-/

/-- The due callouts of the bucket, then the elements from the position on. -/
def scanSize (curticks : CInt) (x : Option CalloutRef × Machine ω) : Nat × Nat :=
  (dueCount x.2.cc curticks, scanRest x.2.cc curticks x.1)

def scanLt (curticks : CInt) (x y : Option CalloutRef × Machine ω) : Prop :=
  Prod.Lex (fun a b => a < b) (fun a b => a < b) (scanSize curticks x)
    (scanSize curticks y)

theorem scanLt_wellFounded (curticks : CInt) :
    WellFounded (fun x y : Option CalloutRef × Machine ω => scanLt curticks x y) :=
  InvImage.wf (scanSize curticks)
    (WellFounded.prod_lex Nat.lt_wfRel.wf Nat.lt_wfRel.wf)

theorem scanBody_step {curticks : CInt} {pos : Option CalloutRef} {m : Machine ω}
    (h : Scanning client curticks pos m) :
    (scanBody env curticks (pos, m) = some (LoopStep.done m) ∧ Resting client m) ∨
      (exists x, scanBody env curticks (pos, m) = some (LoopStep.next x) ∧
        Scanning client curticks x.1 x.2 ∧ scanLt curticks x (pos, m)) := by
  cases pos with
  | none => exact Or.inl ⟨rfl, h.resting⟩
  | some c =>
      right
      rcases h with ⟨q, p, hinv, hholds⟩
      by_cases hdue : (m.cc.callouts c).time = curticks
      · rcases softclockCallCc_total client hinv hholds hdue with
          ⟨m', q', k, hcall, hk, hm', hholds'⟩
        refine ⟨(m'.cc.next, { m' with cc := { m'.cc with next := none } }), ?_,
          hm'.scanning hholds', ?_⟩
        · unfold taken at hcall
          simp [scanBody, hdue, hcall]
        · rcases hm' with ⟨p', hinv'⟩
          exact Prod.Lex.left _ _ (Nat.lt_of_le_of_lt hinv'.due hk)
      · have hnext := scanPos_listNext hinv.consistent.cpu.wheel hinv.pos hdue
        refine ⟨(listNext m.cc c, m), if_pos hdue, ?_, ?_⟩
        · exact ⟨q, p, ⟨hinv.consistent, hinv.now, hinv.idle, hinv.ticks,
            hinv.softticks, hnext.left⟩, hholds⟩
        · exact Prod.Lex.right _ hnext.right

theorem scan_converges {curticks : CInt} {m : Machine ω}
    (h : Scanning client curticks (scanList m.cc curticks).head? m) :
    exists m', Converges (fun fuel => scan env curticks fuel m) m' ∧ Resting client m' := by
  have hbody : forall x : Option CalloutRef × Machine ω,
      Scanning client curticks x.1 x.2 ->
      (exists m', Converges (fun _ => scanBody env curticks x) (LoopStep.done m') ∧
        Resting client m') ∨
      (exists x', Converges (fun _ => scanBody env curticks x) (LoopStep.next x') ∧
        Scanning client curticks x'.1 x'.2 ∧ scanLt curticks x' x) := by
    rintro ⟨pos, m⟩ hpos
    rcases scanBody_step hpos with ⟨hdone, hresting⟩ | ⟨x, hnext, hx, hlt⟩
    · exact Or.inl ⟨m, Converges.of_eq fun _ => hdone, hresting⟩
    · exact Or.inr ⟨x, Converges.of_eq fun _ => hnext, hx, hlt⟩
  exact loop_converges (scanLt_wellFounded curticks) hbody h

/-!
## One clock tick
-/

/-- The clock has ticked and the bucket of the last tick has not been looked at. -/
structure TickedInv (m : Machine ω) (q : CalloutQueue) (p : StopProtocol) :
    Prop where
  consistent : Consistent m q p
  now : 0 < q.now
  idle : p.executing = none
  ticks : m.cc.ticks = m.cc.softticks + 1

variable (client) in
def Ticked (m : Machine ω) : Prop :=
  exists q p, TickedInv m q p ∧ client.Holds q m

def caughtUp (m : Machine ω) : Machine ω :=
  { m with cc := { m.cc with softticks := m.cc.softticks + 1 } }

theorem Ticked.scanning {m : Machine ω} (h : Ticked client m) :
    Scanning client m.cc.softticks (scanList (caughtUp m).cc m.cc.softticks).head?
      (caughtUp m) := by
  rcases h with ⟨q, p, hinv, hholds⟩
  have hcons := hinv.consistent
  have hexec := hcons.cpu.exec
  refine ⟨q, p, ⟨⟨⟨?_, ⟨hexec.unused, hexec.waiting, hexec.started⟩,
    hcons.cpu.runnable⟩, hcons.timers, ?_, hcons.accepted, ?_⟩, hinv.now, hinv.idle,
    hinv.ticks, hinv.ticks.symm, scanPos_head _ _⟩, hholds⟩
  · exact hcons.cpu.wheel.congr ⟨rfl, rfl, fun _ => ⟨rfl, rfl⟩⟩
  · exact hcons.refines.congr rfl fun _ => ⟨rfl, rfl, rfl, rfl⟩
  · exact ⟨hcons.matched.executing, hcons.matched.drain, hcons.matched.direct, hcons.matched.due⟩

theorem softticks_ne {s : CalloutCpu} (h : s.ticks = s.softticks + 1) : s.softticks ≠ s.ticks := by
  rw [h]
  bv_omega

/-- Passes the outer loop of `softclock` still has to make. -/
def softLag (m : Machine ω) : Nat :=
  if m.cc.softticks = m.cc.ticks then 0 else 1

theorem softclock_converges {m : Machine ω} (h : Ticked client m) :
    exists m', Converges (fun fuel => softclock env fuel m) m' ∧ Resting client m' := by
  have hbody : forall m : Machine ω, Ticked client m ∨ Resting client m ->
      (exists m', Converges (fun fuel => softclockBody env fuel m) (LoopStep.done m') ∧
        Resting client m') ∨
      (exists m', Converges (fun fuel => softclockBody env fuel m) (LoopStep.next m') ∧
        (Ticked client m' ∨ Resting client m') ∧ softLag m' < softLag m) := by
    intro m hm
    rcases hm with hticked | hresting
    · right
      rcases scan_converges hticked.scanning with ⟨m', hscan, hm'⟩
      rcases hticked with ⟨q, p, hinv, _⟩
      have hbehind := softticks_ne hinv.ticks
      refine ⟨m', ?_, Or.inr hm', ?_⟩
      · unfold softclockBody
        simp only [hbehind, if_false]
        exact hscan.map LoopStep.next
      · rcases hm' with ⟨q', ⟨p', hinv'⟩, _⟩
        simp [softLag, hinv'.softticks, hbehind]
    · left
      refine ⟨m, Converges.of_eq ?_, hresting⟩
      intro fuel
      rcases hresting with ⟨q, ⟨p, hinv⟩, _⟩
      exact if_pos hinv.softticks
  exact loop_converges_of_measure softLag hbody (Or.inl h)

theorem calloutTickBody_ticked {s : CalloutCpu} (h : s.ticks = s.softticks + 1) :
    calloutTickBody s =
      if s.callwheel (calloutGetBucket s s.softticks) ≠ [] then
        some (LoopStep.done (true, s))
      else
        some (LoopStep.next { s with softticks := s.softticks + 1 }) := by
  have hslt : (s.softticks - s.ticks).slt 0 = true := by
    have hminus : s.softticks - s.ticks = -1 := by
      rw [h]
      bv_omega
    rw [hminus]
    decide
  unfold calloutTickBody
  rw [if_pos hslt]

theorem calloutTickBody_settled {s : CalloutCpu} (h : s.softticks = s.ticks) :
    calloutTickBody s = some (LoopStep.done (false, s)) := by
  have hslt : (s.softticks - s.ticks).slt 0 = false := by
    rw [h, BitVec.sub_self]
    decide
  unfold calloutTickBody
  rw [hslt]
  rfl

theorem calloutTick_converges {m : Machine ω} (h : Ticked client m) :
    exists m', Converges (fun fuel => calloutTick env fuel m) m' ∧ Resting client m' := by
  have hscanning := h.scanning
  have hsoft := softclock_converges h
  rcases h with ⟨q, p, hinv, _⟩
  have hbody := calloutTickBody_ticked hinv.ticks
  cases hlist : m.cc.callwheel (calloutGetBucket m.cc m.cc.softticks) with
  | nil =>
      rw [if_neg (not_not.mpr hlist)] at hbody
      have hpos : (scanList (caughtUp m).cc m.cc.softticks).head? = none := by
        show (m.cc.callwheel (calloutGetBucket m.cc m.cc.softticks)).head? = none
        rw [hlist]
        rfl
      rw [hpos] at hscanning
      refine ⟨caughtUp m, ⟨2, ?_⟩, hscanning.resting⟩
      intro fuel hfuel
      rcases Nat.exists_eq_add_of_le hfuel with ⟨k, rfl⟩
      have hloop : loop (fun _ => calloutTickBody) (2 + k) m.cc =
          some (false, (caughtUp m).cc) := by
        unfold loop
        rw [show 2 + k = (k + 1) + 1 by lia, loopN_succ_next hbody]
        exact loopN_succ_done (calloutTickBody_settled hinv.ticks.symm)
      show calloutTick env (2 + k) m = some (caughtUp m)
      unfold calloutTick
      rw [hloop]
      rfl
  | cons x xs =>
      rw [if_pos (by simp [hlist])] at hbody
      rcases hsoft with ⟨m', ⟨n0, hconv⟩, hm'⟩
      refine ⟨m', ⟨n0 + 1, ?_⟩, hm'⟩
      intro fuel hfuel
      rcases Nat.exists_eq_add_of_lt hfuel with ⟨k, rfl⟩
      have hloop : loop (fun _ => calloutTickBody) (n0 + k + 1) m.cc =
          some (true, m.cc) :=
        loopN_succ_done hbody
      show calloutTick env (n0 + k + 1) m = some m'
      unfold calloutTick
      rw [hloop]
      exact hconv (n0 + k + 1) (by lia)

theorem Resting.tick {m : Machine ω} (h : Resting client m) : Ticked client (({ m with
      cc := { m.cc with ticks := m.cc.ticks + 1 }
      uptime := m.uptime + tickSbt } : Machine ω).record Event.tick) := by
  rcases h with ⟨q, ⟨p, hinv⟩, hholds⟩
  have hcons := hinv.consistent
  have hexec := hcons.cpu.exec
  rcases tick_refines hcons.refines hinv.settled with ⟨hstep, href⟩
  refine ⟨{ q with now := q.now + 1 }, p,
    ⟨⟨⟨?_, ⟨hexec.unused, hexec.waiting, hexec.started⟩, hcons.cpu.runnable⟩, ?_, href,
      ?_, ?_⟩, Nat.succ_pos _, hinv.idle, ?_⟩,
    client.tick m.uptime q m.world m.log hholds hinv.settled⟩
  · exact hcons.cpu.wheel.congr ⟨rfl, rfl, fun _ => ⟨rfl, rfl⟩⟩
  · show TimerQueue.Run bootQueue (timerTrace (m.log ++ [_])) _
    rw [timerTrace_snoc_some (by rfl)]
    exact TimerQueue.run_snoc hcons.timers hstep
  · apply StopProtocol.run_snoc hcons.accepted
    simp [StopProtocol.step, hinv.idle, hcons.matched.due]
  · exact ⟨hcons.matched.executing, hcons.matched.drain, hcons.matched.direct, hcons.matched.due⟩
  · show m.cc.ticks + 1 = m.cc.softticks + 1
    rw [hinv.softticks]

theorem ffHardclock_converges {m : Machine ω} (h : Resting client m) :
    exists m', Converges (fun fuel => ffHardclock tickSbt env fuel m) m' ∧ Resting client m' :=
  calloutTick_converges h.tick

/-!
## Whole runs
-/

theorem action_converges {a : Action ω} (ha : a.Keeps client) {m : Machine ω}
    (h : Resting client m) : exists m', Converges (fun fuel => a.run tickSbt env fuel m) m' ∧
      Resting client m' := by
  cases a with
  | hardclock => exact ffHardclock_converges h
  | calls p =>
      rcases h with ⟨q, hbetween, hholds⟩
      have hprog : (p m.uptime m.world).Meets (client.inv m.uptime) q m.log :=
        ha m.uptime q m.world m.log hholds
      rcases hbetween.run hprog with ⟨m', q', hrun, hm', huptime, hpost⟩
      refine ⟨m', Converges.of_eq fun _ => hrun, q', hm', ?_⟩
      unfold Client.Holds
      rw [huptime]
      exact hpost

theorem runActions_converges {actions : List (Action ω)}
    (hactions : forall a, a ∈ actions -> a.Keeps client) {m : Machine ω} (h : Resting client m) :
    exists m', Converges (fun fuel => runActions tickSbt env fuel actions m) m' ∧
      Resting client m' := by
  induction actions generalizing m with
  | nil => exact ⟨m, Converges.of_some, h⟩
  | cons a rest ih =>
      rcases action_converges (hactions a (by simp)) h with ⟨m1, hfirst, hm1⟩
      rcases ih (fun b hb => hactions b (by simp [hb])) hm1 with ⟨m2, hrest, hm2⟩
      exact ⟨m2, hfirst.bind (g := fun x n => runActions tickSbt env n rest x) hrest, hm2⟩

end Clock

/-!
## The uptime

For every kernel whose functions do not panic, the uptime is a client: it counts
the ticks of the log.
-/

def ticksIn (log : List Event) : Nat :=
  log.countP fun e => decide (e = Event.tick)

theorem ticksIn_append (as bs : List Event) : ticksIn (as ++ bs) = ticksIn as + ticksIn bs := by
  unfold ticksIn
  rw [List.countP_append]

theorem ticksIn_snoc {log : List Event} {e : Event} (h : e ≠ Event.tick) :
    ticksIn (log ++ [e]) = ticksIn log := by
  rw [ticksIn_append]
  simp [ticksIn, h]

section Admissible

variable {ω : Type}

def Prog.Admissible : Prog ω -> Prop
  | ret _ => True
  | op o rest => o.Admissible ∧ forall r, (rest r).Admissible

def Env.Admissible (env : Env ω) : Prop :=
  forall f arg uptime world, (env f arg uptime world).Admissible

def Action.Admissible : Action ω -> Prop
  | hardclock => True
  | calls p => forall uptime world, (p uptime world).Admissible

theorem op_event_ne_tick (o : Op) (s : CalloutCpu) (r : Int) : o.event s r ≠ Event.tick := by
  cases o <;> intro htick <;> cases htick

theorem Prog.Admissible.meets {prog : Prog ω} (h : prog.Admissible)
    {q : CalloutQueue} {log : List Event} {n : Nat} (hlog : ticksIn log = n) :
    prog.Meets (fun _ _ log' => ticksIn log' = n) q log := by
  induction prog generalizing q log with
  | ret w => exact hlog
  | op o rest ih =>
      refine ⟨h.left, ?_⟩
      intro s r
      apply ih r (h.right r)
      rw [ticksIn_snoc (op_event_ne_tick o s r)]
      exact hlog

def Env.Admissible.client {env : Env ω} (henv : env.Admissible) (tickSbt start : Int) :
    Client tickSbt env where
  inv := fun uptime _ _ log => uptime = start + tickSbt * ticksIn log
  tick := by
    intro uptime q world log huptime _
    rw [ticksIn_append, huptime]
    show start + tickSbt * ticksIn log + tickSbt = start + tickSbt * (ticksIn log + 1 : Nat)
    push_cast
    rw [Int.mul_add, Int.mul_one, Int.add_assoc]
  call := by
    intro uptime q world log c d f a huptime _ _
    have hlog : ticksIn (log ++ [Event.call c f a]) = ticksIn log :=
      ticksIn_snoc (by intro htick; cases htick)
    apply ((henv f a uptime world).meets hlog).mono
    intro q' world' log' hlog'
    rw [ticksIn_snoc (by intro htick; cases htick), hlog']
    exact huptime
  drain := by
    intro uptime q world log d a huptime _
    have hlog : ticksIn (log ++ [Event.drain d a]) = ticksIn log :=
      ticksIn_snoc (by intro htick; cases htick)
    apply ((henv d a uptime world).meets hlog).mono
    intro q' world' log' hlog'
    rw [hlog']
    exact huptime

theorem Action.Admissible.keeps {env : Env ω} (henv : env.Admissible)
    {tickSbt start : Int} {a : Action ω} (ha : a.Admissible) :
    a.Keeps (henv.client tickSbt start) := by
  cases a with
  | hardclock => exact True.intro
  | calls p =>
      intro uptime q world log huptime
      apply ((ha uptime world).meets rfl).mono
      intro q' world' log' hlog'
      show uptime = start + tickSbt * ticksIn log'
      rw [hlog']
      exact huptime

end Admissible

end Timeout
end FStackLite
