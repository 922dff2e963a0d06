import Mathlib.Tactic.Ring
import FStackLite.Timeout.Invariant

/-!
# What the callout interface does

In every state that a run reaches, the branches of `callout_reset_tick_on` and
`_callout_stop_safe` for migration, for waiting threads and for a handler that
has not started yet are dead: all callouts are local to the one cpu, nobody
waits, and a handler whose callout has a lock starts in the same step in which
its callout becomes current.  What is left is stated here once; later modules
use these equations and do not open the two functions again.
-/

namespace FStackLite
namespace Timeout

/-!
## The execution entities
-/

/--
`softclock` only uses the second entity, nobody waits for a callout, and the
callout that is current and has a lock can no longer be cancelled.
-/
structure ExecInv (s : CalloutCpu) : Prop where
  unused : (s.execEntity false).curr = none
  waiting : forall d, (s.execEntity d).waiting = false
  started : forall c, (s.execEntity true).curr = some c ->
    (s.callouts c).lock.isSome = true -> (s.execEntity true).cancel = true

/--
The locking of the callout does not go through a null pointer: without a lock
it is marked as returning unlocked, and otherwise its lock class can lock.
-/
def Runnable (co : Callout) : Prop :=
  match co.lock with
  | none => co.iflags.returnUnlocked = true
  | some l => l.lockClass.lcLock = true

structure CpuInv (s : CalloutCpu) : Prop where
  wheel : WheelInv s
  exec : ExecInv s
  runnable : forall c, Runnable (s.callouts c)

variable {co : Callout} {s : CalloutCpu} {curticks : CInt}

theorem Initialised.runnable_iff (h : Initialised co) :
    Runnable co <-> forall l, co.lock = some l -> l.lockClass.lcLock = true := by
  cases h with
  | init mpsafe =>
      cases mpsafe
      · simp [Runnable, calloutInit, LockObject.lockClass, LockClass.lcLock]
      · simp [Runnable, calloutInit]
  | lock l returnUnlocked _ => simp [Runnable, calloutInitLock]

theorem cpuInv_init (shift : Nat) {callouts : CalloutRef -> Callout}
    (h : forall c, Initialised (callouts c)) (hrun : forall c, Runnable (callouts c)) :
    CpuInv (calloutCallwheelInit shift callouts) := by
  refine ⟨wheelInv_init shift h, ⟨rfl, fun _ => rfl, ?_⟩, hrun⟩
  intro c hcurr
  cases hcurr

theorem CpuInv.not_cancels (h : CpuInv s) (c : CalloutRef) (d : Bool)
    (hcurr : (s.execEntity d).curr = some c) (hlock : (s.callouts c).lock.isSome = true) :
    (s.execEntity d).cancel = true := by
  cases d with
  | false =>
      rw [h.exec.unused] at hcurr
      cases hcurr
  | true => exact h.exec.started c hcurr hlock

/-!
## Resetting a callout
-/

def offWheel (s : CalloutCpu) (c : CalloutRef) : CalloutCpu :=
  if (s.callouts c).iflags.pending then unlink s c else s

theorem calloutResetTickOn_eq (h : CpuInv s) (c : CalloutRef) (toTicks : CInt) (ftn : FuncPtr)
    (arg : ArgPtr) {cpu : Int} (flags : CalloutFlags) (hcpu : cpu < maxcpu) :
    calloutResetTickOn s c toTicks ftn arg cpu flags =
      some (if (s.callouts c).iflags.pending then 1 else 0,
        calloutCcAdd (offWheel s c) c (clampTicks toTicks) ftn arg flags) := by
  have hnopanic : ¬ (cpu ≠ -1 ∧ maxcpu ≤ cpu) := by
    intro hpanic
    exact absurd hpanic.right (by lia)
  have hnocancel :
      (decide ((s.execEntity flags.directExec).curr = some c) &&
        (s.callouts c).lock.isSome &&
        !(s.execEntity flags.directExec).cancel) = false := by
    by_cases hcurr : (s.execEntity flags.directExec).curr = some c
    · by_cases hlock : (s.callouts c).lock.isSome = true
      · simp [h.not_cancels c _ hcurr hlock]
      · simp [hlock]
    · simp [hcurr]
  by_cases hpending : (s.callouts c).iflags.pending = true
  · simp [calloutResetTickOn, hnopanic, hnocancel, h.exec.waiting, hpending, offWheel, unlink]
  · simp [calloutResetTickOn, hnopanic, hnocancel, h.exec.waiting, hpending, offWheel]

/-!
## Stopping a callout
-/

/-- The callout is the one that the entity of its `CALLOUT_DIRECT` bit executes. -/
def isCurrent (s : CalloutCpu) (c : CalloutRef) : Bool :=
  decide ((s.execEntity (s.callouts c).iflags.direct).curr = some c)

def markStopped (s : CalloutCpu) (c : CalloutRef) (drain : Option FuncPtr) : CalloutCpu :=
  if isCurrent s c then
    setDrain (s.setCallout c { s.callouts c with active := false })
      (s.callouts c).iflags.direct drain
  else
    s

/-- The result of `_callout_stop_safe` without flags. -/
def stopResult (pending current : Bool) : Int :=
  if current then 0 else if pending then 1 else -1

theorem stopUseLock_of_runnable (h : Runnable co) :
    stopUseLock co.lock {} = some co.lock.isSome := by
  cases hlock : co.lock with
  | none => rfl
  | some l =>
      cases l with
      | giant => rfl
      | other cls =>
          have hcls : cls.lcLock = true := by
            simpa [Runnable, hlock, LockObject.lockClass] using h
          cases cls <;> first | rfl | cases hcls

theorem calloutCcDel_of_plain {c : CalloutRef} (h : Plain (s.callouts c)) :
    calloutCcDel s c = s := by
  simp [calloutCcDel, h.left]

theorem stopPending_eq (h : WheelInv s) (c : CalloutRef) (cancelled : Int) :
    stopPending s c (s.callouts c).iflags.direct false cancelled =
      (if (s.callouts c).iflags.pending then cancelled
        else if isCurrent s c then cancelled else -1, offWheel s c) := by
  by_cases hpending : (s.callouts c).iflags.pending = true
  · have hplain : Plain ((unlink s c).callouts c) := (unlink_wheelInv h c).plain c
    simp only [stopPending, hpending, if_true, Bool.false_eq_true, if_false, offWheel]
    rw [dequeue_clearPending]
    rw [unlink] at hplain ⊢
    rw [calloutCcDel_of_plain hplain]
  · by_cases hcurr :
        (s.execEntity (s.callouts c).iflags.direct).curr = some c
    · simp [stopPending, hpending, offWheel, isCurrent, hcurr]
    · simp [stopPending, hpending, offWheel, isCurrent, hcurr]

theorem markStopped_member {α : Type} (member : Callout -> α)
    (hmember : forall co : Callout, member { co with active := false } = member co)
    (s : CalloutCpu) (b c : CalloutRef) (drain : Option FuncPtr) :
    member ((markStopped s c drain).callouts b) = member (s.callouts b) := by
  have hactive :
      member ((s.setCallout c { s.callouts c with active := false }).callouts b) =
        member (s.callouts b) := by
    by_cases hb : b = c
    · subst hb
      rw [CalloutCpu.setCallout_callouts_self, hmember]
    · rw [CalloutCpu.setCallout_callouts_of_ne _ _ _ _ hb]
  by_cases hcurr : isCurrent s c = true
  · rw [markStopped, if_pos hcurr]
    cases drain with
    | none => exact hactive
    | some d => exact hactive
  · rw [markStopped, if_neg hcurr]

theorem markStopped_wheel (s : CalloutCpu) (c : CalloutRef) (drain : Option FuncPtr) :
    (markStopped s c drain).callwheel = s.callwheel ∧
      (markStopped s c drain).callwheelmask = s.callwheelmask := by
  by_cases hcurr : isCurrent s c = true
  · rw [markStopped, if_pos hcurr]
    cases drain with
    | none => exact ⟨rfl, rfl⟩
    | some d => exact ⟨rfl, rfl⟩
  · rw [markStopped, if_neg hcurr]
    exact ⟨rfl, rfl⟩

theorem markStopped_sameLinks (s : CalloutCpu) (c : CalloutRef)
    (drain : Option FuncPtr) : SameLinks s (markStopped s c drain) := by
  refine ⟨(markStopped_wheel s c drain).1, (markStopped_wheel s c drain).2, ?_⟩
  intro b
  exact ⟨markStopped_member Callout.time (fun _ => rfl) s b c drain,
    markStopped_member Callout.iflags (fun _ => rfl) s b c drain⟩

theorem markStopped_lock (s : CalloutCpu) (b c : CalloutRef) (drain : Option FuncPtr) :
    ((markStopped s c drain).callouts b).lock = (s.callouts b).lock :=
  markStopped_member Callout.lock (fun _ => rfl) s b c drain

theorem markStopped_execEntity (s : CalloutCpu) (c : CalloutRef)
    (drain : Option FuncPtr) (d : Bool) : (markStopped s c drain).execEntity d =
      { s.execEntity d with
        drain :=
          if isCurrent s c ∧ d = (s.callouts c).iflags.direct ∧ drain.isSome then
            drain
          else (s.execEntity d).drain } := by
  by_cases hcurr : isCurrent s c = true
  · rw [markStopped, if_pos hcurr]
    cases drain with
    | none => simp [setDrain]
    | some f =>
        by_cases hd : d = (s.callouts c).iflags.direct
        · subst hd
          simp [setDrain, hcurr]
        · rw [setDrain, CalloutCpu.setExec_execEntity_of_ne _ _ _ hd]
          simp [hd]
  · rw [markStopped, if_neg hcurr]
    simp [hcurr]

theorem markStopped_isCurrent (s : CalloutCpu) (c : CalloutRef) (drain : Option FuncPtr) :
    isCurrent (markStopped s c drain) c = isCurrent s c := by
  rw [isCurrent, ((markStopped_sameLinks s c drain).right.right c).right, markStopped_execEntity]
  rfl

theorem markStopped_clock (s : CalloutCpu) (c : CalloutRef) (drain : Option FuncPtr) :
    (markStopped s c drain).ticks = s.ticks ∧ (markStopped s c drain).softticks = s.softticks ∧
      (markStopped s c drain).bucket = s.bucket ∧ (markStopped s c drain).next = s.next := by
  by_cases hcurr : isCurrent s c = true
  · rw [markStopped, if_pos hcurr]
    cases drain with
    | none => exact ⟨rfl, rfl, rfl, rfl⟩
    | some f => exact ⟨rfl, rfl, rfl, rfl⟩
  · rw [markStopped, if_neg hcurr]
    exact ⟨rfl, rfl, rfl, rfl⟩

theorem calloutStopSafe_eq (h : CpuInv s) (c : CalloutRef) (drain : Option FuncPtr) :
    calloutStopSafe s c {} drain = some (stopResult (s.callouts c).iflags.pending (isCurrent s c),
        offWheel (markStopped s c drain) c) := by
  have hplain := h.wheel.plain c
  have hmarked := h.wheel.congr (markStopped_sameLinks s c drain)
  have hflags := ((markStopped_sameLinks s c drain).right.right c).right
  have hend := stopPending_eq hmarked c
  rw [hflags, markStopped_isCurrent] at hend
  rw [calloutStopSafe, stopUseLock_of_runnable (h.runnable c)]
  simp only [Option.bind_some, hplain.right.left, Bool.false_and, Bool.false_eq_true, if_false]
  by_cases hcurr : (s.execEntity (s.callouts c).iflags.direct).curr = some c
  · have hcurr' : isCurrent s c = true := by
      simp [isCurrent, hcurr]
    -- With a lock the handler has started, without one there is nothing to cancel.
    have hstarted : ¬ ((s.callouts c).lock.isSome = true ∧
        (s.execEntity (s.callouts c).iflags.direct).cancel = false ∧
          drain = none) := by
      intro hbranch
      have hcancel := h.not_cancels c _ hcurr hbranch.left
      rw [hbranch.right.left] at hcancel
      cases hcancel
    have hmark : setDrain (s.setCallout c { s.callouts c with active := false })
        (s.callouts c).iflags.direct drain = markStopped s c drain := by
      rw [markStopped, if_pos hcurr']
    rw [if_pos hcurr, stopExecuting]
    simp only [Bool.false_eq_true, if_false, CalloutCpu.setCallout_execEntity, hstarted,
      CalloutCpu.setCallout_callouts_self, hplain.right.left, hmark]
    rw [hend 0]
    simp [stopResult, hcurr']
  · have hcurr' : isCurrent s c = false := by
      simp [isCurrent, hcurr]
    have hmark : markStopped s c drain = s := by
      rw [markStopped, hcurr']
      rfl
    rw [hmark] at hend ⊢
    rw [if_neg hcurr, hend 1]
    simp [stopResult, hcurr']

/-!
## The invariant through the interface
-/

/-- The arguments for which `callout_reset_tick_on` does not panic. -/
def Op.Admissible : Op -> Prop
  | reset _ _ _ _ cpu _ => cpu < maxcpu
  | stop _ _ => True

def Op.effect (s : CalloutCpu) : Op -> CalloutCpu
  | reset c toTicks ftn arg _ flags =>
      calloutCcAdd (offWheel s c) c (clampTicks toTicks) ftn arg flags
  | stop c drain => offWheel (markStopped s c drain) c

def Op.result (s : CalloutCpu) : Op -> Int
  | reset c _ _ _ _ _ => if (s.callouts c).iflags.pending then 1 else 0
  | stop c _ => stopResult (s.callouts c).iflags.pending (isCurrent s c)

theorem op_exec_eq (h : CpuInv s) {o : Op} (ho : o.Admissible) :
    o.exec s = some (o.result s, o.effect s) := by
  cases o with
  | reset c toTicks ftn arg cpu flags =>
      exact calloutResetTickOn_eq h c toTicks ftn arg flags ho
  | stop c drain => exact calloutStopSafe_eq h c drain

section OffWheel

variable {s : CalloutCpu} (h : WheelInv s) (c : CalloutRef)

include h

theorem offWheel_wheelInv : WheelInv (offWheel s c) := by
  rw [offWheel]
  split
  · exact unlink_wheelInv h c
  · exact h

theorem offWheel_pending (b : CalloutRef) : ((offWheel s c).callouts b).iflags.pending =
      if b = c then false else (s.callouts b).iflags.pending := by
  by_cases hpending : (s.callouts c).iflags.pending = true
  · rw [offWheel, if_pos hpending, unlink_pending h]
  · rw [offWheel, if_neg hpending]
    by_cases hb : b = c
    · subst hb
      simpa using hpending
    · rw [if_neg hb]

theorem offWheel_clock : (offWheel s c).ticks = s.ticks ∧ (offWheel s c).softticks = s.softticks ∧
      (offWheel s c).bucket = s.bucket ∧ (offWheel s c).callwheelmask = s.callwheelmask := by
  rw [offWheel]
  split
  · exact unlink_clock h c
  · exact ⟨rfl, rfl, rfl, rfl⟩

theorem offWheel_execEntity : (offWheel s c).execEntity = s.execEntity := by
  rw [offWheel]
  split
  · exact unlink_execEntity h c
  · rfl

theorem offWheel_callouts (b : CalloutRef) :
    ((offWheel s c).callouts b).time = (s.callouts b).time ∧
      ((offWheel s c).callouts b).func = (s.callouts b).func ∧
      ((offWheel s c).callouts b).arg = (s.callouts b).arg ∧
      ((offWheel s c).callouts b).lock = (s.callouts b).lock ∧
      ((offWheel s c).callouts b).iflags.direct = (s.callouts b).iflags.direct ∧
      ((offWheel s c).callouts b).iflags.returnUnlocked = (s.callouts b).iflags.returnUnlocked := by
  rw [offWheel]
  split
  · by_cases hb : b = c
    · subst hb
      rw [unlink_callouts_self h]
      exact ⟨rfl, rfl, rfl, rfl, rfl, rfl⟩
    · rw [unlink_callouts_of_ne h c hb]
      exact ⟨rfl, rfl, rfl, rfl, rfl, rfl⟩
  · exact ⟨rfl, rfl, rfl, rfl, rfl, rfl⟩

end OffWheel

theorem runnable_congr {co' : Callout} (hlock : co'.lock = co.lock)
    (hunlocked : co'.iflags.returnUnlocked = co.iflags.returnUnlocked) :
    Runnable co' <-> Runnable co := by
  rw [Runnable, Runnable, hlock, hunlocked]

theorem op_effect_lock (h : CpuInv s) (o : Op) (b : CalloutRef) :
    ((o.effect s).callouts b).lock = (s.callouts b).lock ∧
      ((o.effect s).callouts b).iflags.returnUnlocked = (s.callouts b).iflags.returnUnlocked := by
  cases o with
  | reset c toTicks ftn arg cpu flags =>
      have hoff := offWheel_callouts h.wheel c b
      by_cases hb : b = c
      · subst hb
        simp only [Op.effect, calloutCcAdd_callouts_self]
        exact ⟨hoff.right.right.right.left, hoff.right.right.right.right.right⟩
      · simp only [Op.effect]
        rw [calloutCcAdd_callouts_of_ne _ _ _ _ _ _ hb]
        exact ⟨hoff.right.right.right.left, hoff.right.right.right.right.right⟩
  | stop c drain =>
      have hlinks := markStopped_sameLinks s c drain
      have hoff := offWheel_callouts (h.wheel.congr hlinks) c b
      have hflags := (hlinks.right.right b).right
      refine ⟨?_, ?_⟩
      · exact hoff.right.right.right.left.trans (markStopped_lock s b c drain)
      · rw [← hflags]
        exact hoff.right.right.right.right.right

theorem op_effect_exec (h : CpuInv s) (o : Op) (d : Bool) :
    ((o.effect s).execEntity d).curr = (s.execEntity d).curr ∧
      ((o.effect s).execEntity d).cancel = (s.execEntity d).cancel ∧
      ((o.effect s).execEntity d).waiting = (s.execEntity d).waiting := by
  cases o with
  | reset c toTicks ftn arg cpu flags =>
      simp only [Op.effect]
      rw [calloutCcAdd_execEntity, offWheel_execEntity h.wheel]
      exact ⟨rfl, rfl, rfl⟩
  | stop c drain =>
      simp only [Op.effect]
      rw [offWheel_execEntity (h.wheel.congr (markStopped_sameLinks s c drain)),
        markStopped_execEntity]
      exact ⟨rfl, rfl, rfl⟩

theorem op_effect_wheelInv (h : CpuInv s) (o : Op) : WheelInv (o.effect s) := by
  cases o with
  | reset c toTicks ftn arg cpu flags =>
      have hidle : ((offWheel s c).callouts c).iflags.pending = false := by
        rw [offWheel_pending h.wheel, if_pos rfl]
      exact calloutCcAdd_wheelInv _ c _ ftn arg flags (offWheel_wheelInv h.wheel c) hidle
  | stop c drain =>
      exact offWheel_wheelInv (h.wheel.congr (markStopped_sameLinks s c drain)) c

theorem op_effect_cpuInv (h : CpuInv s) (o : Op) : CpuInv (o.effect s) := by
  constructor
  · exact op_effect_wheelInv h o
  · constructor
    · rw [(op_effect_exec h o false).left]
      exact h.exec.unused
    · intro d
      rw [(op_effect_exec h o d).right.right]
      exact h.exec.waiting d
    · intro c hcurr hlock
      rw [(op_effect_exec h o true).left] at hcurr
      rw [(op_effect_lock h o c).left] at hlock
      rw [(op_effect_exec h o true).right.left]
      exact h.exec.started c hcurr hlock
  · intro c
    rw [runnable_congr (op_effect_lock h o c).left (op_effect_lock h o c).right]
    exact h.runnable c

theorem op_effect_clock (h : CpuInv s) (o : Op) :
    (o.effect s).ticks = s.ticks ∧ (o.effect s).softticks = s.softticks ∧
      (o.effect s).bucket = s.bucket ∧ (o.effect s).callwheelmask = s.callwheelmask := by
  cases o with
  | reset c toTicks ftn arg cpu flags =>
      have hadd := calloutCcAdd_clock (offWheel s c) c (clampTicks toTicks) ftn arg flags
      have hoff := offWheel_clock h.wheel c
      exact ⟨hadd.left.trans hoff.left, hadd.right.left.trans hoff.right.left,
        hadd.right.right.left.trans hoff.right.right.left,
        hadd.right.right.right.trans hoff.right.right.right⟩
  | stop c drain =>
      have hlinks := markStopped_sameLinks s c drain
      have hoff := offWheel_clock (h.wheel.congr hlinks) c
      have hmark := markStopped_clock s c drain
      exact ⟨hoff.left.trans hmark.left, hoff.right.left.trans hmark.right.left,
        hoff.right.right.left.trans hmark.right.right.left,
        hoff.right.right.right.trans hlinks.right.left⟩

/-!
## The scan through the interface

The clock stands one tick after the bucket under scan, so nothing that is armed
meanwhile is due in it.
-/

theorem clampTicks_toNat (toTicks : CInt) :
    ((clampTicks toTicks).toNat : Int) = max toTicks.toInt 1 ∧
      (clampTicks toTicks).toNat < 2 ^ 31 := by
  rw [clampTicks]
  by_cases hle : toTicks.sle 0 = true
  · rw [if_pos hle]
    have hint : toTicks.toInt ≤ 0 := by
      simpa [BitVec.sle] using hle
    constructor
    · rw [max_eq_right (by lia)]
      rfl
    · decide
  · rw [if_neg hle]
    have hint : 0 < toTicks.toInt := by
      simpa [BitVec.sle] using hle
    rw [max_eq_left (by lia)]
    rw [BitVec.toInt_eq_toNat_cond] at hint ⊢
    have hlt := toTicks.isLt
    split at hint
    · rename_i hsmall
      rw [if_pos hsmall]
      exact ⟨rfl, by lia⟩
    · exfalso
      lia

theorem ticks_add_clampTicks_ne (hclock : s.ticks = curticks + 1) (toTicks : CInt) :
    s.ticks + clampTicks toTicks ≠ curticks := by
  have hlt := (clampTicks_toNat toTicks).right
  intro heq
  rw [hclock] at heq
  have hnat := congrArg BitVec.toNat heq
  have hcur := curticks.isLt
  simp only [BitVec.toNat_add] at hnat
  lia

theorem sameLinks_scan {s' : CalloutCpu} (h : SameLinks s s') (curticks : CInt) :
    scanList s' curticks = scanList s curticks ∧ isDue s' curticks = isDue s curticks := by
  constructor
  · rw [scanList, scanList, h.left, calloutGetBucket, h.right.left]
    rfl
  · funext c
    rw [isDue, isDue, (h.right.right c).left]

theorem scanPos_offWheel (h : WheelInv s) (c : CalloutRef) (hpos : ScanPos s curticks s.next) :
    ScanPos (offWheel s c) curticks (offWheel s c).next ∧
      dueCount (offWheel s c) curticks ≤ dueCount s curticks := by
  rw [offWheel]
  split
  · exact ⟨scanPos_unlink h c hpos, dueCount_unlink h c curticks⟩
  · exact ⟨hpos, Nat.le_refl _⟩

theorem op_effect_scan (h : CpuInv s) (o : Op) (hclock : s.ticks = curticks + 1)
    (hbucket : s.bucket = calloutGetBucket s curticks) (hpos : ScanPos s curticks s.next) :
    ScanPos (o.effect s) curticks (o.effect s).next ∧
      dueCount (o.effect s) curticks ≤ dueCount s curticks := by
  cases o with
  | reset c toTicks ftn arg cpu flags =>
      have hoffClock := offWheel_clock h.wheel c
      rcases scanPos_offWheel h.wheel c hpos with ⟨hoffPos, hoffDue⟩
      have hlater : (offWheel s c).ticks + clampTicks toTicks ≠ curticks :=
        ticks_add_clampTicks_ne (hoffClock.left.trans hclock) toTicks
      have hoffBucket :
          (offWheel s c).bucket = calloutGetBucket (offWheel s c) curticks := by
        rw [hoffClock.right.right.left, hbucket, calloutGetBucket, calloutGetBucket,
          hoffClock.right.right.right]
      constructor
      · exact scanPos_calloutCcAdd _ ftn arg flags hlater hoffBucket hoffPos
      · exact Nat.le_trans (dueCount_calloutCcAdd _ ftn arg flags hlater) hoffDue
  | stop c drain =>
      have hlinks := markStopped_sameLinks s c drain
      rcases sameLinks_scan hlinks curticks with ⟨hlist, hdue⟩
      have hmarkPos :
          ScanPos (markStopped s c drain) curticks (markStopped s c drain).next := by
        rw [(markStopped_clock s c drain).right.right.right]
        rcases hpos with ⟨pre, suf, hsplit, hhead, hpre⟩
        exact ⟨pre, suf, by rw [hlist, hsplit], hhead, by rw [hdue]; exact hpre⟩
      have hmarkDue : dueCount (markStopped s c drain) curticks =
          dueCount s curticks := by
        rw [dueCount, dueCount, hlist, hdue]
      rw [← hmarkDue]
      exact scanPos_offWheel (h.wheel.congr hlinks) c hmarkPos

end Timeout
end FStackLite
