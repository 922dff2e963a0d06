import FStackLite.Timeout.Wheel

/-!
# Timer events

The `EVFILT_TIMER` filter of `freebsd/kern/kern_event.c` and the macro through
which it arms its callout.  A `sbintime_t` is a time in units of `2 ^ -32`
seconds; the deadlines are kept as integers without a bound, periods as the 64
bits that `timer2sbintime` computes.
-/

namespace FStackLite
namespace Kqueue

open Timeout

/--
The `to_ticks` argument that `callout_reset_sbt_on` of `sys/callout.h` passes:
the quotient, converted to `int`.
-/
def sbtTicks (tickSbt sbt : Int) : CInt :=
  BitVec.ofInt 32 (sbt.tdiv tickSbt)

/-- `callout_reset_sbt_on`; the macro hands its flags on and drops the precision. -/
def calloutResetSbtOn (tickSbt : Int) (c : CalloutRef) (sbt : Int) (ftn : FuncPtr)
    (arg : ArgPtr) (cpu : Int) (flags : CalloutFlags) : Op :=
  Op.reset c (sbtTicks tickSbt sbt) ftn arg cpu flags

/-!
## Periods
-/

def noteSeconds : BitVec 32 := 1#32
def noteMseconds : BitVec 32 := 2#32
def noteUseconds : BitVec 32 := 4#32
def noteNseconds : BitVec 32 := 8#32

/-- `NOTE_TIMER_PRECMASK`. -/
def noteTimerPrecmask : BitVec 32 :=
  noteSeconds ||| noteMseconds ||| noteUseconds ||| noteNseconds

def sbtMax : BitVec 64 := 0x7fffffffffffffff#64

/-- `SBT_MAX / SBT_1S`. -/
def secsMax : BitVec 64 := 0x7fffffff#64

/-- `MS_TO_SBT`, `US_TO_SBT` and `NS_TO_SBT`, for half the units of a second. -/
def toSbt (half : BitVec 64) (units : BitVec 64) : BitVec 64 :=
  (units * ((1#64 <<< 63) / half)) >>> 32

/--
A case of `timer2sbintime`: whole seconds first, then the rest, converted for
`restHalf`; data below one second is converted for `half`.
-/
def splitSbt (perSecond half restHalf data : BitVec 64) : BitVec 64 :=
  if perSecond.sle data then
    let secs := data.sdiv perSecond
    if secsMax.slt secs then sbtMax
    else (secs <<< 32) ||| toSbt restHalf (data.srem perSecond)
  else
    toSbt half data

/--
`timer2sbintime`.  The rest of a number of nanoseconds is converted with the
macro for microseconds.
-/
def timer2sbintime (data : BitVec 64) (flags : BitVec 32) : BitVec 64 :=
  let unit := flags &&& noteTimerPrecmask
  if unit = noteSeconds then
    if secsMax.slt data then sbtMax else data <<< 32
  else if unit = noteMseconds ∨ unit = 0 then
    splitSbt 1000 500 500 data
  else if unit = noteUseconds then
    splitSbt 1000000 500000 500000 data
  else if unit = noteNseconds then
    splitSbt 1000000000 500000000 500000 data
  else
    -1

/-!
## Knotes
-/

structure TimerKnote where
  sdata : BitVec 64
  sfflags : BitVec 32
  oneshot : Bool
  clear : Bool
  data : BitVec 64
  nexttime : Int
  hook : CalloutRef
  deriving DecidableEq

def TimerKnote.period (kn : TimerKnote) : Int :=
  (timer2sbintime kn.sdata kn.sfflags).toInt

structure TimerWorld (ω : Type) where
  knotes : ArgPtr -> TimerKnote
  ncallouts : Nat
  rest : ω

def TimerWorld.setKnote {ω : Type} (w : TimerWorld ω) (k : ArgPtr)
    (kn : TimerKnote) : TimerWorld ω :=
  { w with knotes := Function.update w.knotes k kn }

section Filter

variable {ω : Type} (tickSbt : Int) (expire : FuncPtr)

/--
`filt_timerexpire`, at the address `expire`; it runs on the only cpu.  The
activation of the knote does not touch the callout.
-/
def filtTimerexpire (k : ArgPtr) (w : TimerWorld ω) : Prog (TimerWorld ω) :=
  let kn := { w.knotes k with data := (w.knotes k).data + 1 }
  if kn.oneshot then
    Prog.ret (w.setKnote k kn)
  else
    let kn1 := { kn with nexttime := kn.nexttime + kn.period }
    Prog.op
      (calloutResetSbtOn tickSbt kn1.hook kn1.nexttime expire k 0 { absolute := true })
      fun _ => Prog.ret (w.setKnote k kn1)

inductive Errno where
  | einval
  | enomem
  deriving DecidableEq

/-- The knote as `filt_timerattach` checks it. -/
def defaultPeriod (kn : TimerKnote) : TimerKnote :=
  if kn.sdata = 0 ∧ kn.oneshot = false then { kn with sdata := 1 } else kn

/--
`filt_timerattach`; `calloutp` is the callout that `malloc` returns and that
`callout_init` initialises.  The first component is the error.
-/
def filtTimerattach (calloutmax : Nat) (k : ArgPtr) (calloutp : CalloutRef)
    (uptime : Int) (w : TimerWorld ω) : Option Errno × Prog (TimerWorld ω) :=
  if (w.knotes k).sdata.slt 0 then
    (some Errno.einval, Prog.ret w)
  else
    let kn := defaultPeriod (w.knotes k)
    if kn.sfflags &&& ~~~ noteTimerPrecmask ≠ 0 then
      (some Errno.einval, Prog.ret (w.setKnote k kn))
    else if kn.period < 0 then
      (some Errno.einval, Prog.ret (w.setKnote k kn))
    else if calloutmax ≤ w.ncallouts then
      (some Errno.enomem, Prog.ret (w.setKnote k kn))
    else
      let kn1 :=
        { kn with clear := true, hook := calloutp, nexttime := kn.period + uptime }
      (none,
        Prog.op
          (calloutResetSbtOn tickSbt calloutp kn1.nexttime expire k 0
            { absolute := true })
          fun _ =>
            Prog.ret ({ w with ncallouts := w.ncallouts + 1 }.setKnote k kn1))

/-- The functions of a kernel in which `filt_timerexpire` stands at `expire`. -/
def timerEnv (others : Env (TimerWorld ω)) : Env (TimerWorld ω) :=
  fun f arg uptime w =>
    if f = expire then filtTimerexpire tickSbt expire arg w
    else others f arg uptime w

end Filter

/-- One second, one millisecond and 1.5 milliseconds given in microseconds. -/
example : timer2sbintime 1 noteSeconds = 0x100000000#64 ∧
    timer2sbintime 1 0 = 0x418937#64 ∧
    timer2sbintime 1500 noteUseconds = 0x624dd2#64 := by
  decide

end Kqueue
end FStackLite
