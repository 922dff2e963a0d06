import FStackLite.Foundation.Loop
import FStackLite.Timeout.State

/-!
# Operations of the callout wheel

The functions of `lib/ff_kern_timeout.c` that arm, stop and run callouts, in the
order of the source.  The assertions of the source are not compiled in.  A
result `none` stands for a run that does not return: a panic, a call through a
null pointer, or the wait of `callout_drain`, whose sleep queue macros are empty
in this port.
-/

namespace FStackLite
namespace Timeout

open Foundation

/-- `MAXCPU` of a kernel without SMP. -/
def maxcpu : Int := 1

/-!
## Links
-/

/-- The element that follows `c` in a list. -/
def nextIn (c : CalloutRef) : List CalloutRef -> Option CalloutRef
  | [] => none
  | x :: xs => if x = c then xs.head? else nextIn c xs

/-- `LIST_NEXT(c, c_links.le)`. -/
def listNext (s : CalloutCpu) (c : CalloutRef) : Option CalloutRef :=
  nextIn c (s.callwheel (s.bucketOf c))

/-- `LIST_REMOVE(c, c_links.le)`. -/
def listRemove (s : CalloutCpu) (c : CalloutRef) : CalloutCpu :=
  s.setBucket (s.bucketOf c) ((s.callwheel (s.bucketOf c)).erase c)

/-- `LIST_INSERT_HEAD(&cc->cc_callwheel[b], c, c_links.le)`. -/
def listInsertHead (s : CalloutCpu) (b : CInt) (c : CalloutRef) : CalloutCpu :=
  s.setBucket b (c :: s.callwheel b)

/--
Take a pending callout off the list it is on.  A callout that is the saved next
element of the bucket under scan hands that role to its successor.
-/
def dequeue (s : CalloutCpu) (c : CalloutRef) : CalloutCpu :=
  if (s.callouts c).iflags.processed then
    { s with expireq := s.expireq.erase c }
  else if s.next = some c then
    listRemove { s with next := listNext s c } c
  else
    listRemove s c

/-- `c->c_iflags &= ~CALLOUT_PENDING; c->c_flags &= ~CALLOUT_ACTIVE`. -/
def clearPending (s : CalloutCpu) (c : CalloutRef) : CalloutCpu :=
  s.setCallout c
    { s.callouts c with
      active := false
      iflags := { (s.callouts c).iflags with pending := false } }

/-!
## Arming
-/

/-- The fields `callout_cc_add` writes into the callout. -/
def armed (s : CalloutCpu) (c : CalloutRef) (toTicks : CInt) (func : FuncPtr)
    (arg : ArgPtr) (flags : CalloutFlags) : Callout :=
  { s.callouts c with
    arg := arg
    func := some func
    active := true
    time := s.ticks + toTicks
    iflags :=
      { (s.callouts c).iflags with
        pending := true
        processed := false
        direct := (s.callouts c).iflags.direct || flags.directExec } }

/-- `callout_cc_add`. -/
def calloutCcAdd (s : CalloutCpu) (c : CalloutRef) (toTicks : CInt)
    (func : FuncPtr) (arg : ArgPtr) (flags : CalloutFlags) : CalloutCpu :=
  let s1 := s.setCallout c (armed s c toTicks func arg flags)
  let bucket := calloutGetBucket s1 (s1.callouts c).time
  let s2 := listInsertHead s1 bucket c
  if s2.bucket = bucket then { s2 with next := some c } else s2

/-- `callout_cc_del`. -/
def calloutCcDel (s : CalloutCpu) (c : CalloutRef) : CalloutCpu :=
  if (s.callouts c).iflags.localAlloc then
    { s.setCallout c { s.callouts c with func := none } with
      callfree := c :: s.callfree }
  else
    s

def clampTicks (toTicks : CInt) : CInt :=
  if toTicks.sle 0 then 1 else toTicks

/-- `callout_reset_tick_on`; it returns whether a callout was cancelled. -/
def calloutResetTickOn (s : CalloutCpu) (c : CalloutRef) (toTicks : CInt)
    (ftn : FuncPtr) (arg : ArgPtr) (cpu : Int) (flags : CalloutFlags) : Option (Int × CalloutCpu) :=
  if cpu ≠ -1 ∧ maxcpu ≤ cpu then
    none
  else
    let direct := flags.directExec
    let exec := s.execEntity direct
    let cancels :=
      decide (exec.curr = some c) && (s.callouts c).lock.isSome && !exec.cancel
    let s1 := if cancels then s.setExec direct { exec with cancel := true } else s
    if exec.curr = some c ∧ exec.waiting = true then
      some (if cancels then 1 else 0, s1)
    else if (s1.callouts c).iflags.pending then
      some (1,
        calloutCcAdd (clearPending (dequeue s1 c) c) c (clampTicks toTicks)
          ftn arg flags)
    else
      some (if cancels then 1 else 0,
        calloutCcAdd s1 c (clampTicks toTicks) ftn arg flags)

/-!
## Stopping
-/

/-- The value of `use_lock`, or `none` if `lc_assert` of the lock is null. -/
def stopUseLock (lock : Option LockObject) (flags : StopFlags) : Option Bool :=
  match lock with
  | none => some false
  | some l =>
      if flags.drain then
        some false
      else if l = LockObject.giant then
        some true
      else if l.lockClass.lcAssert then
        some true
      else
        none

/-- The end of `_callout_stop_safe`, from the test for a pending callout on. -/
def stopPending (s : CalloutCpu) (c : CalloutRef) (direct notOnAList : Bool)
    (cancelled : Int) : Int × CalloutCpu :=
  if (s.callouts c).iflags.pending then
    let s1 := clearPending s c
    let s2 := if notOnAList then s1 else dequeue s1 c
    (cancelled, calloutCcDel s2 c)
  else
    (if (s.execEntity direct).curr ≠ some c then -1 else cancelled, s)

/-- `cc_exec_drain(cc, direct) = drain` if there is a drain function. -/
def setDrain (s : CalloutCpu) (direct : Bool) (drain : Option FuncPtr) : CalloutCpu :=
  match drain with
  | none => s
  | some d => s.setExec direct { s.execEntity direct with drain := some d }

/-- `c->c_iflags &= ~CALLOUT_DFRMIGRATION`. -/
def clearMigration (s : CalloutCpu) (c : CalloutRef) : CalloutCpu :=
  s.setCallout c
    { s.callouts c with
      iflags := { (s.callouts c).iflags with dfrMigration := false } }

/-- The branch of `_callout_stop_safe` for the callout that is executing. -/
def stopExecuting (s : CalloutCpu) (c : CalloutRef) (direct notOnAList : Bool)
    (useLock : Bool) (flags : StopFlags) (drain : Option FuncPtr) : Option (Int × CalloutCpu) :=
  let s1 := s.setCallout c { s.callouts c with active := false }
  let executing : Int := if flags.executing then 1 else 0
  if flags.drain then
    none
  else if useLock ∧ (s1.execEntity direct).cancel = false ∧ drain = none then
    let s2 := s1.setExec direct { s1.execEntity direct with cancel := true }
    some (1, if (s2.callouts c).iflags.dfrMigration then clearMigration s2 c else s2)
  else if (s1.callouts c).iflags.dfrMigration then
    some (executing, setDrain (clearMigration s1 c) direct drain)
  else
    some (stopPending (setDrain s1 direct drain) c direct notOnAList executing)

/-- `_callout_stop_safe`. -/
def calloutStopSafe (s : CalloutCpu) (c : CalloutRef) (flags : StopFlags)
    (drain : Option FuncPtr) : Option (Int × CalloutCpu) :=
  (stopUseLock (s.callouts c).lock flags).bind fun useLock =>
    let direct := (s.callouts c).iflags.direct
    let notOnAList :=
      (s.callouts c).iflags.dfrMigration && (s.callouts c).iflags.pending &&
        (s.callouts c).active
    let s1 := if notOnAList then clearPending s c else s
    if (s1.execEntity direct).curr = some c then
      stopExecuting s1 c direct notOnAList useLock flags drain
    else
      some (stopPending s1 c direct notOnAList 1)

/-!
## Handlers

A handler may do anything as long as it ends; towards the wheel it issues calls
of the operations above and reads their results.  It is a finite tree of such
calls, chosen from its argument, the uptime and a state of its own.
-/

inductive Op where
  | reset (c : CalloutRef) (toTicks : CInt) (ftn : FuncPtr) (arg : ArgPtr)
      (cpu : Int) (flags : CalloutFlags)
  | stop (c : CalloutRef) (drain : Option FuncPtr)

/-- `callout_reset_tick_on`, or `_callout_stop_safe` with no flags. -/
def Op.exec (s : CalloutCpu) : Op -> Option (Int × CalloutCpu)
  | reset c toTicks ftn arg cpu flags => calloutResetTickOn s c toTicks ftn arg cpu flags
  | stop c drain => calloutStopSafe s c {} drain

inductive Prog (ω : Type) where
  | ret (world : ω)
  | op (o : Op) (rest : Int -> Prog ω)

inductive Event where
  | tick
  | reset (c : CalloutRef) (toTicks : CInt) (ftn : FuncPtr) (arg : ArgPtr)
      (direct : Bool)
  | stop (c : CalloutRef) (drain : Option FuncPtr) (pending : Bool) (ret : Int)
  | call (c : CalloutRef) (ftn : FuncPtr) (arg : ArgPtr)
  | ret (c : CalloutRef)
  | drain (ftn : FuncPtr) (arg : ArgPtr)
  deriving DecidableEq

/-- The event of a call made in state `s` that returned `r`. -/
def Op.event (s : CalloutCpu) (r : Int) : Op -> Event
  | reset c toTicks ftn arg _ flags => Event.reset c toTicks ftn arg flags.directExec
  | stop c drain => Event.stop c drain (s.callouts c).iflags.pending r

/-- The wheel, the uptime, what the handlers keep between calls, and the log. -/
structure Machine (ω : Type) where
  cc : CalloutCpu
  uptime : Int
  world : ω
  log : List Event

def Machine.record {ω : Type} (m : Machine ω) (e : Event) : Machine ω :=
  { m with log := m.log ++ [e] }

abbrev Env (ω : Type) := FuncPtr -> ArgPtr -> Int -> ω -> Prog ω

def Prog.run {ω : Type} : Prog ω -> Machine ω -> Option (Machine ω)
  | ret w, m => some { m with world := w }
  | op o rest, m =>
      match o.exec m.cc with
      | none => none
      | some (r, cc') =>
          (rest r).run (({ m with cc := cc' } : Machine ω).record (o.event m.cc r))

/-- Call the function at `f`. -/
def Env.invoke {ω : Type} (env : Env ω) (f : FuncPtr) (arg : ArgPtr)
    (m : Machine ω) : Option (Machine ω) :=
  (env f arg m.uptime m.world).run m

/-!
## Running callouts
-/

/-- `softclock_call_cc` up to the point where it drops the callout lock. -/
def softclockEnter (s : CalloutCpu) (c : CalloutRef) (direct : Bool) : CalloutCpu :=
  let co := s.callouts c
  let iflags :=
    if co.iflags.localAlloc then { localAlloc := true }
    else { co.iflags with pending := false }
  (s.setCallout c { co with iflags := iflags }).setExec direct
    { s.execEntity direct with curr := some c, cancel := false, drain := none }

/-- `softclock_call_cc` after the handler: the drain function and the wakeup. -/
def softclockLeave {ω : Type} (env : Env ω) (c : CalloutRef) (direct : Bool)
    (arg : ArgPtr) (localAlloc : Bool) (m : Machine ω) : Option (Machine ω) :=
  let exec := m.cc.execEntity direct
  let m1 : Machine ω :=
    { m with cc := m.cc.setExec direct { exec with curr := none, drain := none } }
  let drained :=
    match exec.drain with
    | none => some m1
    | some d => env.invoke d arg (m1.record (Event.drain d arg))
  drained.map fun m2 =>
    let cc2 :=
      m2.cc.setExec direct { m2.cc.execEntity direct with waiting := false }
    { m2 with cc := if localAlloc then calloutCcDel cc2 c else cc2 }

def softclockInvoke {ω : Type} (env : Env ω) (c : CalloutRef) (co : Callout)
    (m : Machine ω) : Option (Machine ω) :=
  match co.func with
  | none => none
  | some f =>
      (env.invoke f co.arg (m.record (Event.call c f co.arg))).bind fun m1 =>
        if co.iflags.returnUnlocked then
          some (m1.record (Event.ret c))
        else
          match co.lock with
          | none => none
          | some l => if l.lockClass.lcLock then some (m1.record (Event.ret c)) else none

/-- `softclock_call_cc`. -/
def softclockCallCc {ω : Type} (env : Env ω) (c : CalloutRef) (direct : Bool)
    (m : Machine ω) : Option (Machine ω) :=
  let co := m.cc.callouts c
  let m1 : Machine ω := { m with cc := softclockEnter m.cc c direct }
  let ran :=
    match co.lock with
    | none => softclockInvoke env c co m1
    | some l =>
        if l.lockClass.lcLock then
          if (m1.cc.execEntity direct).cancel then
            some m1
          else
            softclockInvoke env c co
              { m1 with
                cc := m1.cc.setExec direct
                  { m1.cc.execEntity direct with cancel := true } }
        else
          none
  ran.bind (softclockLeave env c direct co.arg co.iflags.localAlloc)

/-- One pass of the inner loop of `softclock`. -/
def scanBody {ω : Type} (env : Env ω) (curticks : CInt) : Option CalloutRef × Machine ω ->
      Option (LoopStep (Option CalloutRef × Machine ω) (Machine ω))
  | (none, m) => some (LoopStep.done m)
  | (some c, m) =>
      if (m.cc.callouts c).time ≠ curticks then
        some (LoopStep.next (listNext m.cc c, m))
      else
        let cc1 :=
          listRemove
            { m.cc with
              next := listNext m.cc c
              bucket := calloutGetBucket m.cc curticks } c
        (softclockCallCc env c true { m with cc := cc1 }).map fun m2 =>
          LoopStep.next (m2.cc.next, { m2 with cc := { m2.cc with next := none } })

/-- The inner loop of `softclock`, over the bucket of `curticks`. -/
def scan {ω : Type} (env : Env ω) (curticks : CInt) (fuel : Nat)
    (m : Machine ω) : Option (Machine ω) :=
  loop (fun _ => scanBody env curticks) fuel
    ((m.cc.callwheel (calloutGetBucket m.cc curticks)).head?, m)

/-- One pass of the outer loop of `softclock`. -/
def softclockBody {ω : Type} (env : Env ω) (fuel : Nat) (m : Machine ω) :
    Option (LoopStep (Machine ω) (Machine ω)) :=
  if m.cc.softticks = m.cc.ticks then
    some (LoopStep.done m)
  else
    (scan env m.cc.softticks fuel
      { m with cc := { m.cc with softticks := m.cc.softticks + 1 } }).map
      LoopStep.next

/-- `softclock`. -/
def softclock {ω : Type} (env : Env ω) (fuel : Nat) (m : Machine ω) : Option (Machine ω) :=
  loop (softclockBody env) fuel m

/-- One pass of the loop of `callout_tick`; the result is `need_softclock`. -/
def calloutTickBody (s : CalloutCpu) : Option (LoopStep CalloutCpu (Bool × CalloutCpu)) :=
  if (s.softticks - s.ticks).slt 0 then
    if s.callwheel (calloutGetBucket s s.softticks) ≠ [] then
      some (LoopStep.done (true, s))
    else
      some (LoopStep.next { s with softticks := s.softticks + 1 })
  else
    some (LoopStep.done (false, s))

/-- `callout_tick`. -/
def calloutTick {ω : Type} (env : Env ω) (fuel : Nat) (m : Machine ω) : Option (Machine ω) :=
  (loop (fun _ => calloutTickBody) fuel m.cc).bind fun found =>
    if found.1 then
      softclock env fuel { m with cc := found.2 }
    else
      some { m with cc := found.2 }

/--
`ff_hardclock`.  The uptime advances by one tick with it; `tc_ticktock` does not
touch the wheel.
-/
def ffHardclock {ω : Type} (tickSbt : Int) (env : Env ω) (fuel : Nat)
    (m : Machine ω) : Option (Machine ω) :=
  calloutTick env fuel
    (({ m with
        cc := { m.cc with ticks := m.cc.ticks + 1 }
        uptime := m.uptime + tickSbt } : Machine ω).record Event.tick)

/-!
## Runs
-/

/-- What the main loop does: a clock tick, or calls of the callout interface. -/
inductive Action (ω : Type) where
  | hardclock
  | calls (p : Int -> ω -> Prog ω)

def Action.run {ω : Type} (tickSbt : Int) (env : Env ω) (fuel : Nat)
    (m : Machine ω) : Action ω -> Option (Machine ω)
  | hardclock => ffHardclock tickSbt env fuel m
  | calls p => (p m.uptime m.world).run m

def runActions {ω : Type} (tickSbt : Int) (env : Env ω) (fuel : Nat) :
    List (Action ω) -> Machine ω -> Option (Machine ω)
  | [], m => some m
  | a :: rest, m => (a.run tickSbt env fuel m).bind (runActions tickSbt env fuel rest)

end Timeout
end FStackLite
