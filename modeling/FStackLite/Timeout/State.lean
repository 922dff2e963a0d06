import Mathlib.Logic.Function.Basic

/-!
# Callouts and the callout wheel

The data of `lib/ff_kern_timeout.c`: the callout structure with its two flag
words, the lock classes of `lib/ff_lock.c` that a callout may refer to, the
execution entities and the wheel.  There is one callout cpu, so the globals
`ticks` and `callwheelmask` and the memory that holds the callouts stand in the
same record.

Tick counters have the C type `int`; they are bit vectors of width 32 and wrap.
A bucket of the wheel is the list its `LIST_HEAD` links, first element first.
-/

namespace FStackLite
namespace Timeout

/-- The C type `int`. -/
abbrev CInt := BitVec 32

/-- The address of a `struct callout`. -/
abbrev CalloutRef := Nat

abbrev FuncPtr := Nat

/-- The `void *` a handler is called with. -/
abbrev ArgPtr := Nat

/-!
## Locks

The locks themselves do nothing in this port, but `softclock_call_cc` and
`_callout_stop_safe` call through the members of the lock class, and not every
class of `lib/ff_lock.c` sets them.
-/

/-- The entries of `lock_classes`. -/
inductive LockClass where
  | mtxSpin
  | mtxSleep
  | sx
  | rm
  | rmSleepable
  | rw
  | lockmgr
  deriving DecidableEq, Repr

/-- The class sets `lc_lock` and `lc_unlock`; the members of the others are null. -/
def LockClass.lcLock : LockClass -> Bool
  | mtxSpin => true
  | mtxSleep => true
  | sx => false
  | rm => false
  | rmSleepable => true
  | rw => true
  | lockmgr => false

/-- The class sets `lc_assert`. -/
def LockClass.lcAssert : LockClass -> Bool
  | mtxSpin => true
  | mtxSleep => true
  | sx => false
  | rm => true
  | rmSleepable => true
  | rw => true
  | lockmgr => false

/-- `lc_flags & (LC_SPINLOCK | LC_SLEEPABLE)`: what `_callout_init_lock` refuses. -/
def LockClass.spinOrSleepable : LockClass -> Bool
  | mtxSpin => true
  | mtxSleep => false
  | sx => true
  | rm => false
  | rmSleepable => true
  | rw => false
  | lockmgr => false

/-- The lock of a callout: `Giant`, or another lock of some class. -/
inductive LockObject where
  | giant
  | other (lockClass : LockClass)
  deriving DecidableEq, Repr

/-- `LOCK_CLASS(lock)`. -/
def LockObject.lockClass : LockObject -> LockClass
  | giant => LockClass.mtxSleep
  | other cls => cls

/-!
## Callouts
-/

/-- The bits of `c_iflags`. -/
structure IFlags where
  localAlloc : Bool := false
  pending : Bool := false
  returnUnlocked : Bool := false
  dfrMigration : Bool := false
  processed : Bool := false
  direct : Bool := false
  deriving DecidableEq, Repr

/-- `struct callout`; `active` is the bit `CALLOUT_ACTIVE` of `c_flags`. -/
structure Callout where
  time : CInt := 0
  arg : ArgPtr := 0
  func : Option FuncPtr := none
  lock : Option LockObject := none
  active : Bool := false
  iflags : IFlags := {}
  deriving DecidableEq, Repr

/-- The bits of the `flags` argument of `callout_reset_tick_on`. -/
structure CalloutFlags where
  directExec : Bool := false
  hardclock : Bool := false
  absolute : Bool := false
  deriving DecidableEq, Repr

/-- The bits of the `flags` argument of `_callout_stop_safe`. -/
structure StopFlags where
  drain : Bool := false
  executing : Bool := false
  deriving DecidableEq, Repr

/-- `callout_init`. -/
def calloutInit (mpsafe : Bool) : Callout :=
  if mpsafe then
    { lock := none, iflags := { returnUnlocked := true } }
  else
    { lock := some LockObject.giant }

/-- `_callout_init_lock`, with the bit `CALLOUT_RETURNUNLOCKED` of its flags. -/
def calloutInitLock (lock : Option LockObject) (returnUnlocked : Bool) : Callout :=
  { lock := lock, iflags := { returnUnlocked := returnUnlocked } }

/--
A callout as its owner sets it up: with `callout_init`, or with a lock that is
not null and that the assertion of `_callout_init_lock` lets pass.
-/
inductive Initialised : Callout -> Prop where
  | init (mpsafe : Bool) : Initialised (calloutInit mpsafe)
  | lock (l : LockObject) (returnUnlocked : Bool) :
      l.lockClass.spinOrSleepable = false ->
      Initialised (calloutInitLock (some l) returnUnlocked)

/-!
## The callout cpu
-/

/-- `struct cc_exec`. -/
structure CcExec where
  curr : Option CalloutRef := none
  drain : Option FuncPtr := none
  cancel : Bool := false
  waiting : Bool := false
  deriving DecidableEq, Repr

/--
`struct callout_cpu` with `ticks`, `callwheelmask` and the callouts.  The
execution entity `cc_exec_entity[1]` is `execEntity true`.
-/
structure CalloutCpu where
  callouts : CalloutRef -> Callout
  execEntity : Bool -> CcExec
  next : Option CalloutRef
  callwheel : CInt -> List CalloutRef
  expireq : List CalloutRef
  callfree : List CalloutRef
  softticks : CInt
  bucket : CInt
  ticks : CInt
  callwheelmask : CInt

/-- `callwheelsize = 1 << fls(ncallout)`. -/
def callwheelsize (shift : Nat) : CInt :=
  1#32 <<< shift

/--
The state `callout_callwheel_init` leaves, with `ticks` in its static initial
value; none of the preallocated callouts of `timeout` is used.
-/
def calloutCallwheelInit (shift : Nat) (callouts : CalloutRef -> Callout) : CalloutCpu where
  callouts := callouts
  execEntity := fun _ => {}
  next := none
  callwheel := fun _ => []
  expireq := []
  callfree := []
  softticks := 0
  bucket := 0
  ticks := 0
  callwheelmask := callwheelsize shift - 1

/-- `callout_get_bucket`. -/
def calloutGetBucket (s : CalloutCpu) (toTicks : CInt) : CInt :=
  toTicks &&& s.callwheelmask

namespace CalloutCpu

def setCallout (s : CalloutCpu) (c : CalloutRef) (v : Callout) : CalloutCpu :=
  { s with callouts := Function.update s.callouts c v }

def setExec (s : CalloutCpu) (direct : Bool) (e : CcExec) : CalloutCpu :=
  { s with execEntity := Function.update s.execEntity direct e }

def setBucket (s : CalloutCpu) (b : CInt) (l : List CalloutRef) : CalloutCpu :=
  { s with callwheel := Function.update s.callwheel b l }

def bucketOf (s : CalloutCpu) (c : CalloutRef) : CInt :=
  calloutGetBucket s (s.callouts c).time

section UpdateLemmas

variable (s : CalloutCpu) (b c : CalloutRef) (v : Callout) (d : Bool) (e : CcExec)
  (i : CInt) (l : List CalloutRef)

@[simp] theorem setCallout_callouts_self : (s.setCallout c v).callouts c = v := by
  simp [setCallout]

theorem setCallout_callouts_of_ne (h : b ≠ c) : (s.setCallout c v).callouts b = s.callouts b := by
  simp [setCallout, h]

@[simp] theorem setCallout_execEntity :
    (s.setCallout c v).execEntity = s.execEntity := rfl

@[simp] theorem setCallout_callwheelmask :
    (s.setCallout c v).callwheelmask = s.callwheelmask := rfl

@[simp] theorem setExec_callouts : (s.setExec d e).callouts = s.callouts := rfl

@[simp] theorem setExec_execEntity_self : (s.setExec d e).execEntity d = e := by
  simp [setExec]

theorem setExec_execEntity_of_ne {d' : Bool} (h : d' ≠ d) :
    (s.setExec d e).execEntity d' = s.execEntity d' := by
  simp [setExec, h]

@[simp] theorem setBucket_callouts : (s.setBucket i l).callouts = s.callouts := rfl

end UpdateLemmas

end CalloutCpu

end Timeout
end FStackLite
