import FStackLite.Foundation.Queue
import FStackLite.Timeout.Wheel

/-!
# The callouts of `timeout`

`timeout` and `untimeout` use callouts that are allocated once.  The free ones are on
`cc_callfree`, whose links are members of the union that holds the links of the wheel.  Here
the links are what the source has, so that an element on two lists would damage both.

A handler may make the same calls, and `ff_hardclock` may be called from inside a handler; then
several activations of `softclock` are on the stack.  Nobody drains a callout of `timeout`, so
`cc_drain` and `cc_waiting` keep their values and are left out, and nothing is ever put on
`cc_expireq`.
-/

namespace FStackLite
namespace Timeout
namespace Legacy

open Foundation

/-- The heads of the lists that go through `c_links`. -/
inductive ListHead where
  | callfree
  | callwheel (bucket : CInt)
deriving DecidableEq

/-- The buckets of the wheel are `LIST`s, and `cc_callfree` is an `SLIST`. -/
def ListHead.isList : ListHead -> Bool
  | callfree => false
  | callwheel _ => true

/-- `cc_curr` and `cc_cancel`. -/
structure Exec where
  curr : Option CalloutRef
  cancel : Bool

structure Cpu where
  callouts : CalloutRef -> Callout
  links : Links ListHead CalloutRef
  execEntity : Bool -> Exec
  next : Option CalloutRef
  softticks : CInt
  bucket : CInt
  ticks : CInt
  callwheelmask : CInt

inductive Trap where
  | panic
  /-- A null pointer is followed. -/
  | undefined
deriving DecidableEq

def Cpu.setCallout (s : Cpu) (c : CalloutRef) (co : Callout) : Cpu :=
  { s with callouts := Function.update s.callouts c co }

def Cpu.setExec (s : Cpu) (direct : Bool) (e : Exec) : Cpu :=
  { s with execEntity := Function.update s.execEntity direct e }

/-- `callout_get_bucket` -/
def calloutGetBucket (s : Cpu) (toTicks : CInt) : CInt :=
  toTicks &&& s.callwheelmask

/-!
## The set-up
-/

def fls (n : Nat) : Nat :=
  if n = 0 then 0 else n.log2 + 1

/-- One pass of the loop of `callout_cpu_init`. -/
def initCallout (s : Cpu) (c : CalloutRef) : Cpu :=
  { s.setCallout c { calloutInit false with iflags := { localAlloc := true } } with
    links := s.links.slistInsertHead .callfree c }

/-- `callout_callwheel_init`; `memory` is what the callouts hold before. -/
def calloutCpuInit (memory : CalloutRef -> Callout) (ncallout : Nat) : Cpu :=
  (List.range ncallout).foldl initCallout
    { callouts := memory
      links := .empty
      execEntity := fun _ => ⟨none, false⟩
      next := none
      softticks := 0
      bucket := 0
      ticks := 0
      callwheelmask := callwheelsize (fls ncallout) - 1 }

/-!
## Arming and stopping
-/

def calloutCcAdd (s : Cpu) (c : CalloutRef) (toTicks : CInt) (func : Option FuncPtr)
    (arg : ArgPtr) (flags : CalloutFlags) : Cpu :=
  let time := s.ticks + toTicks
  let bucket := calloutGetBucket s time
  { s.setCallout c
      { s.callouts c with
        arg := arg
        func := func
        active := true
        time := time
        iflags :=
          { (s.callouts c).iflags with
            pending := true
            processed := false
            direct := (s.callouts c).iflags.direct || flags.directExec } } with
    links := s.links.listInsertHead (.callwheel bucket) c
    next := if s.bucket = bucket then some c else s.next }

def calloutCcDel (s : Cpu) (c : CalloutRef) : Cpu :=
  if (s.callouts c).iflags.localAlloc then
    { s.setCallout c { s.callouts c with func := none } with
      links := s.links.slistInsertHead .callfree c }
  else
    s

/-- `LIST_REMOVE(c, c_links.le)` -/
def listRemove (s : Cpu) (c : CalloutRef) : Except Trap Cpu :=
  match s.links.listRemove c with
  | none => .error .undefined
  | some links => .ok { s with links := links }

def dequeue (s : Cpu) (c : CalloutRef) : Except Trap Cpu :=
  if (s.callouts c).iflags.processed then
    .error .undefined
  else if s.next = some c then
    listRemove { s with next := s.links.next c } c
  else
    listRemove s c

def clearPending (s : Cpu) (c : CalloutRef) : Cpu :=
  s.setCallout c
    { s.callouts c with
      active := false
      iflags := { (s.callouts c).iflags with pending := false } }

def clearMigration (s : Cpu) (c : CalloutRef) : Cpu :=
  s.setCallout c
    { s.callouts c with iflags := { (s.callouts c).iflags with dfrMigration := false } }

/-- `callout_reset`, which is `callout_reset_tick_on` for any cpu and with `C_HARDCLOCK`. -/
def calloutReset (s : Cpu) (c : CalloutRef) (toTicks : CInt) (ftn : Option FuncPtr)
    (arg : ArgPtr) : Except Trap Cpu :=
  let exec := s.execEntity false
  let s1 :=
    if exec.curr = some c ∧ (s.callouts c).lock.isSome = true ∧ exec.cancel = false then
      s.setExec false { exec with cancel := true }
    else
      s
  if (s1.callouts c).iflags.pending then
    (dequeue s1 c).map fun s2 =>
      calloutCcAdd (clearPending s2 c) c (clampTicks toTicks) ftn arg { hardclock := true }
  else
    .ok (calloutCcAdd s1 c (clampTicks toTicks) ftn arg { hardclock := true })

/-- The end of `_callout_stop_safe`, from the test for a pending callout on. -/
def stopPending (s : Cpu) (c : CalloutRef) (notOnAList : Bool) : Except Trap Cpu :=
  if (s.callouts c).iflags.pending then
    let s1 := clearPending s c
    (if notOnAList then .ok s1 else dequeue s1 c).map fun s2 => calloutCcDel s2 c
  else
    .ok s

/-- `callout_stop`, which is `_callout_stop_safe` with no flags and no drain function. -/
def calloutStop (s : Cpu) (c : CalloutRef) : Except Trap Cpu :=
  match stopUseLock (s.callouts c).lock {} with
  | none => .error .undefined
  | some useLock =>
      let direct := (s.callouts c).iflags.direct
      let notOnAList :=
        (s.callouts c).iflags.dfrMigration && (s.callouts c).iflags.pending &&
          (s.callouts c).active
      let s1 := if notOnAList then clearPending s c else s
      if (s1.execEntity direct).curr = some c then
        let s2 := s1.setCallout c { s1.callouts c with active := false }
        if useLock = true ∧ (s2.execEntity direct).cancel = false then
          .ok (clearMigration
            (s2.setExec direct { s2.execEntity direct with cancel := true }) c)
        else if (s2.callouts c).iflags.dfrMigration then
          .ok (clearMigration s2 c)
        else
          stopPending s2 c notOnAList
      else
        stopPending s1 c notOnAList

def timeout (s : Cpu) (ftn : Option FuncPtr) (arg : ArgPtr) (toTicks : CInt) :
    Except Trap (CalloutRef × Cpu) :=
  match s.links.first .callfree with
  | none => .error .panic
  | some new =>
      (calloutReset { s with links := s.links.slistRemoveHead .callfree } new toTicks ftn arg).map
        fun s' => (new, s')

def untimeout (s : Cpu) (ftn : Option FuncPtr) (arg : ArgPtr) (handle : Option CalloutRef) :
    Except Trap Cpu :=
  match handle with
  | none => .ok s
  | some c =>
      if (s.callouts c).func = ftn ∧ (s.callouts c).arg = arg then
        calloutStop s c
      else
        .ok s

/-!
## Running callouts

An activation of `ff_hardclock` is somewhere in `callout_tick` or in `softclock`.
-/

inductive Phase where
  /-- At the head of the loop of `callout_tick`. -/
  | tick
  /-- At the head of the outer loop of `softclock`. -/
  | outer
  /-- At the head of its inner loop, over the bucket of a tick. -/
  | scan (curticks : CInt) (c : Option CalloutRef)
  /-- In a handler; `c_lock` and `c_iflags` are what `softclock_call_cc` saved. -/
  | running (curticks : CInt) (c : CalloutRef) (lock : Option LockObject) (iflags : IFlags)

def Phase.isRunning : Phase -> Bool
  | running .. => true
  | _ => false

def Phase.executing : Phase -> Option CalloutRef
  | running _ c _ _ => some c
  | _ => none

structure Machine where
  cc : Cpu
  frames : List Phase

def Machine.executing (m : Machine) : List CalloutRef :=
  m.frames.filterMap Phase.executing

/-- The code that runs is not the one of the wheel but a handler or the main loop. -/
def Machine.outside (m : Machine) : Bool :=
  m.frames.head?.all Phase.isRunning

/-- There is a lock, and neither `lc_lock` nor `lc_unlock` of its class is a null pointer. -/
def lockable : Option LockObject -> Bool
  | none => false
  | some l => l.lockClass.lcLock

/--
`softclock_call_cc` up to the call of the handler.  Taking the lock lets nobody else run, so the
callout is not cancelled in between.
-/
def softclockEnter (s : Cpu) (c : CalloutRef) : Except Trap Cpu :=
  let co := s.callouts c
  let iflags :=
    if co.iflags.localAlloc then { localAlloc := true } else { co.iflags with pending := false }
  let s1 := s.setCallout c { co with iflags := iflags }
  if co.func = none then
    .error .undefined
  else if co.lock = none then
    .ok (s1.setExec true ⟨some c, false⟩)
  else if lockable co.lock then
    .ok (s1.setExec true ⟨some c, true⟩)
  else
    .error .undefined

/-- `softclock_call_cc` from the return of the handler on. -/
def softclockLeave (s : Cpu) (c : CalloutRef) (lock : Option LockObject) (iflags : IFlags) :
    Except Trap Cpu :=
  if iflags.returnUnlocked = true ∨ lockable lock = true then
    let s1 := s.setExec true { s.execEntity true with curr := none }
    .ok (if iflags.localAlloc then calloutCcDel s1 c else s1)
  else
    .error .undefined

def advance (s : Cpu) (rest : List Phase) : Phase -> Except Trap Machine
  | .tick =>
      if (s.softticks - s.ticks).slt 0 then
        if (s.links.first (.callwheel (calloutGetBucket s s.softticks))).isSome then
          .ok ⟨s, .outer :: rest⟩
        else
          .ok ⟨{ s with softticks := s.softticks + 1 }, .tick :: rest⟩
      else
        .ok ⟨s, rest⟩
  | .outer =>
      if s.softticks = s.ticks then
        .ok ⟨s, rest⟩
      else
        .ok ⟨{ s with softticks := s.softticks + 1 },
          .scan s.softticks (s.links.first (.callwheel (calloutGetBucket s s.softticks))) :: rest⟩
  | .scan _ none => .ok ⟨s, .outer :: rest⟩
  | .scan curticks (some c) =>
      if (s.callouts c).time = curticks then
        (listRemove
            { s with next := s.links.next c, bucket := calloutGetBucket s curticks } c).bind
          fun s1 => (softclockEnter s1 c).map fun s2 =>
            ⟨s2, .running curticks c (s.callouts c).lock (s.callouts c).iflags :: rest⟩
      else
        .ok ⟨s, .scan curticks (s.links.next c) :: rest⟩
  | .running curticks c lock iflags =>
      (softclockLeave s c lock iflags).map fun s1 =>
        ⟨{ s1 with next := none }, .scan curticks s1.next :: rest⟩

/-!
## Runs
-/

/--
What happens next.  A handle is one that `timeout` may have returned; an activation goes on, and a
handler that it waits for returns.
-/
inductive Step (ncallout : Nat) (m : Machine) : Except Trap Machine -> Prop where
  | timeout (houtside : m.outside = true) (ftn : Option FuncPtr) (arg : ArgPtr) (toTicks : CInt) :
      Step ncallout m ((timeout m.cc ftn arg toTicks).map fun r => { m with cc := r.2 })
  | untimeout (houtside : m.outside = true) (ftn : Option FuncPtr) (arg : ArgPtr)
      (handle : Option CalloutRef) (hhandle : forall c, handle = some c -> c < ncallout) :
      Step ncallout m ((untimeout m.cc ftn arg handle).map fun s => { m with cc := s })
  | hardclock (houtside : m.outside = true) :
      Step ncallout m (.ok ⟨{ m.cc with ticks := m.cc.ticks + 1 }, .tick :: m.frames⟩)
  | advance {p : Phase} {rest : List Phase} (hframes : m.frames = p :: rest) :
      Step ncallout m (advance m.cc rest p)

inductive Reachable (memory : CalloutRef -> Callout) (ncallout : Nat) : Machine -> Prop where
  | start : Reachable memory ncallout ⟨calloutCpuInit memory ncallout, []⟩
  | step {m m' : Machine} (h : Reachable memory ncallout m) (hstep : Step ncallout m (.ok m')) :
      Reachable memory ncallout m'

end Legacy
end Timeout
end FStackLite
