import FStackLite.Timeout.Refinement
import FStackLite.Timeout.StopProtocol

/-!
# Runs of the wheel

Every run of the wheel ends, whatever the handlers do, and its log is at once a
trace of the timer queue and a log the stop protocol accepts.  The invariant is
carried through three phases: between two clock ticks, through the scan of a
bucket, and inside a handler that the scan has called.
-/

namespace FStackLite
namespace Timeout

open Foundation

section Runs

variable {ω : Type} {q : CalloutQueue} {m : Machine ω}
    {post : CalloutQueue -> ω -> List Event -> Prop} {prog : Prog ω}

/-- The log leads to the state `q` of the queue and to the state `p` of the protocol. -/
structure Consistent (m : Machine ω) (q : CalloutQueue) (p : StopProtocol) :
    Prop where
  cpu : CpuInv m.cc
  timers : TimerQueue.Run bootQueue (timerTrace m.log) q
  refines : Refines m.cc q
  accepted : StopProtocol.run StopProtocol.boot m.log = some p
  matched : Matches m.cc p

def bootMachine (shift : Nat) (callouts : CalloutRef -> Callout) (uptime : Int)
    (world : ω) : Machine ω where
  cc := calloutCallwheelInit shift callouts
  uptime := uptime
  world := world
  log := []

theorem timerTrace_snoc_some {log : List Event} {e : Event}
    {t : TimerEvent CalloutRef (FuncPtr × ArgPtr)} (h : timerEvent e = some t) :
    timerTrace (log ++ [e]) = timerTrace log ++ [t] := by
  rw [timerTrace_append]
  simp [timerTrace, h]

/-!
## Programs

A program is judged by what it does to the timer queue and to the log; the
results its calls return may be any.
-/

/-- The program does not panic, and it ends as `post` demands. -/
def Prog.Meets (post : CalloutQueue -> ω -> List Event -> Prop) :
    Prog ω -> CalloutQueue -> List Event -> Prop
  | ret w, q, log => post q w log
  | op o rest, q, log => o.Admissible ∧ forall s r,
      (rest r).Meets post (o.queue q) (log ++ [o.event s r])

def opStep (m : Machine ω) (o : Op) : Machine ω :=
  ({ m with cc := o.effect m.cc } : Machine ω).record
    (o.event m.cc (o.result m.cc))

theorem Prog.run_total {P : CalloutQueue -> Machine ω -> Prop}
    (hcpu : forall q m, P q m -> CpuInv m.cc)
    (hworld : forall q m w, P q m -> P q { m with world := w })
    (hop : forall q m o, P q m -> P (o.queue q) (opStep m o)) (hprog : prog.Meets post q m.log)
    (hm : P q m) :
    exists m' q', prog.run m = some m' ∧ P q' m' ∧ m'.uptime = m.uptime ∧
      post q' m'.world m'.log := by
  induction prog generalizing q m with
  | ret w => exact ⟨_, q, rfl, hworld q m w hm, rfl, hprog⟩
  | op o rest ih =>
      rcases ih (o.result m.cc) (hprog.right _ _) (hop q m o hm) with
        ⟨m', q', hrun, hm', huptime, hpost⟩
      refine ⟨m', q', ?_, hm', huptime, hpost⟩
      rw [Prog.run, op_exec_eq (hcpu q m hm) hprog.left]
      exact hrun

theorem Prog.Meets.mono {post' : CalloutQueue -> ω -> List Event -> Prop}
    (hpost : forall q w log, post q w log -> post' q w log) {log : List Event}
    (h : prog.Meets post q log) : prog.Meets post' q log := by
  induction prog generalizing q log with
  | ret w => exact hpost q w log h
  | op o rest ih =>
      refine ⟨h.left, ?_⟩
      intro s r
      exact ih r (h.right s r)

theorem Consistent.setWorld {p : StopProtocol} (h : Consistent m q p) (w : ω) :
    Consistent { m with world := w } q p :=
  ⟨h.cpu, h.timers, h.refines, h.accepted, h.matched⟩

theorem Consistent.opStep {m : Machine ω} {q : CalloutQueue} {p : StopProtocol}
    (h : Consistent m q p) (o : Op) : exists p', Consistent (opStep m o) (o.queue q) p' ∧
      p'.executing = p.executing := by
  rcases op_step m.cc q o (o.result m.cc) with ⟨e, hevent, hqstep⟩
  rcases op_matches h.cpu h.matched o with ⟨p', hpstep, hmatch, hexec⟩
  refine ⟨p', ⟨op_effect_cpuInv h.cpu o, ?_, op_refines h.cpu h.refines o, ?_, hmatch⟩, hexec⟩
  · show TimerQueue.Run bootQueue (timerTrace (m.log ++ [_])) _
    rw [timerTrace_snoc_some hevent]
    exact TimerQueue.run_snoc h.timers hqstep
  · exact StopProtocol.run_snoc h.accepted hpstep

/-!
## Clients

What the users of the wheel keep between the calls of their handlers is an
invariant over the uptime, the timer queue, their own state and the log.  Each
handler keeps it when its timer fires, and each drain function when it is called.
-/

structure Client (tickSbt : Int) (env : Env ω) where
  inv : Int -> CalloutQueue -> ω -> List Event -> Prop
  tick : forall uptime q world log, inv uptime q world log -> q.Settled ->
    inv (uptime + tickSbt) { q with now := q.now + 1 } world (log ++ [Event.tick])
  call : forall uptime q world log c d f a, inv uptime q world log ->
    q.deadline c = some (d, (f, a)) -> d + 1 = q.now ->
    (env f a uptime world).Meets
      (fun q' world' log' => inv uptime q' world' (log' ++ [Event.ret c]))
      (q.setDeadline c none) (log ++ [Event.call c f a])
  drain : forall uptime q world log d a, inv uptime q world log -> DrainLeft d log ->
    (env d a uptime world).Meets (inv uptime) q (log ++ [Event.drain d a])

def Client.Holds {tickSbt : Int} {env : Env ω} (client : Client tickSbt env)
    (q : CalloutQueue) (m : Machine ω) : Prop :=
  client.inv m.uptime q m.world m.log

def Action.Keeps {tickSbt : Int} {env : Env ω} (client : Client tickSbt env) : Action ω -> Prop
  | hardclock => True
  | calls p => forall uptime q world log, client.inv uptime q world log ->
      (p uptime world).Meets (client.inv uptime) q log

/-!
## Between two clock ticks
-/

structure BetweenInv (m : Machine ω) (q : CalloutQueue) (p : StopProtocol) :
    Prop where
  consistent : Consistent m q p
  settled : q.Settled
  idle : p.executing = none
  softticks : m.cc.softticks = m.cc.ticks

def Between (q : CalloutQueue) (m : Machine ω) : Prop :=
  exists p, BetweenInv m q p

theorem between_boot (shift : Nat) {callouts : CalloutRef -> Callout}
    (h : forall c, Initialised (callouts c))
    (hrun : forall c, Runnable (callouts c)) (uptime : Int) (world : ω) :
    Between bootQueue (bootMachine shift callouts uptime world) := by
  refine ⟨StopProtocol.boot, ⟨?_, ?_, rfl, rfl⟩⟩
  · exact ⟨cpuInv_init shift h hrun, rfl, refines_init shift h, rfl, matches_init shift h⟩
  · intro c d x hd
    cases hd

theorem Between.run (h : Between q m) (hprog : prog.Meets post q m.log) :
    exists m' q', prog.run m = some m' ∧ Between q' m' ∧ m'.uptime = m.uptime ∧
      post q' m'.world m'.log := by
  apply Prog.run_total _ _ _ hprog h
  · rintro q m ⟨p, hinv⟩
    exact hinv.consistent.cpu
  · rintro q m w ⟨p, hinv⟩
    exact ⟨p, hinv.consistent.setWorld w, hinv.settled, hinv.idle, hinv.softticks⟩
  · rintro q m o ⟨p, hinv⟩
    rcases hinv.consistent.opStep o with ⟨p', hcons, hexec⟩
    have hclock := op_effect_clock hinv.consistent.cpu o
    refine ⟨p', hcons, op_queue_settled hinv.settled o, hexec.trans hinv.idle, ?_⟩
    exact hclock.right.left.trans (hinv.softticks.trans hclock.left.symm)

/-!
## Inside a handler

The scan for `curticks` has called a handler, or a drain function after it.  The
saved next element is a position of the scan, so the scan may go on from there.
-/

structure HandlerInv (curticks : CInt) (k : Nat) (current : Option CalloutRef)
    (m : Machine ω) (q : CalloutQueue) (p : StopProtocol) : Prop where
  consistent : Consistent m q p
  now : 0 < q.now
  executing : p.executing = current
  ticks : m.cc.ticks = curticks + 1
  softticks : m.cc.softticks = m.cc.ticks
  bucket : m.cc.bucket = calloutGetBucket m.cc curticks
  pos : ScanPos m.cc curticks m.cc.next
  due : dueCount m.cc curticks ≤ k

def Handling (curticks : CInt) (k : Nat) (current : Option CalloutRef)
    (q : CalloutQueue) (m : Machine ω) : Prop :=
  exists p, HandlerInv curticks k current m q p

theorem Handling.opStep {curticks : CInt} {k : Nat} {current : Option CalloutRef}
    {q : CalloutQueue} {m : Machine ω} (h : Handling curticks k current q m) (o : Op) :
    Handling curticks k current (o.queue q) (opStep m o) := by
  rcases h with ⟨p, hinv⟩
  rcases hinv.consistent.opStep o with ⟨p', hcons, hexec⟩
  have hclock := op_effect_clock hinv.consistent.cpu o
  have hscan := op_effect_scan hinv.consistent.cpu o hinv.ticks hinv.bucket hinv.pos
  refine ⟨p', hcons, ?_, hexec.trans hinv.executing,
    hclock.left.trans hinv.ticks, ?_, ?_, hscan.left,
    Nat.le_trans hscan.right hinv.due⟩
  · rw [op_queue_now]
    exact hinv.now
  · exact hclock.right.left.trans (hinv.softticks.trans hclock.left.symm)
  · refine hclock.right.right.left.trans (hinv.bucket.trans ?_)
    unfold calloutGetBucket
    rw [← hclock.right.right.right]
    rfl

theorem Handling.run {curticks : CInt} {k : Nat} {current : Option CalloutRef}
    (h : Handling curticks k current q m) (hprog : prog.Meets post q m.log) :
    exists m' q', prog.run m = some m' ∧ Handling curticks k current q' m' ∧
      m'.uptime = m.uptime ∧ post q' m'.world m'.log := by
  apply Prog.run_total _ _ _ hprog h
  · rintro q m ⟨p, hinv⟩
    exact hinv.consistent.cpu
  · rintro q m w ⟨p, hinv⟩
    exact ⟨p, hinv.consistent.setWorld w, hinv.now, hinv.executing, hinv.ticks,
      hinv.softticks, hinv.bucket, hinv.pos, hinv.due⟩
  · intro q m o hm
    exact hm.opStep o

end Runs

end Timeout
end FStackLite
