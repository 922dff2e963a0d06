import FStackLite.Timeout.Runs

/-!
# The soft clock

`softclock` runs the due callouts of one bucket while their handlers arm and
stop callouts in the same bucket.  Each pass either moves on to a later element
or runs a due callout, and nothing a handler arms is due in the bucket under
scan, so the scan ends; when it ends nothing is overdue.
-/

namespace FStackLite
namespace Timeout

open Foundation

/-!
## Taking a due callout
-/

/-- The wheel after `softclock` has taken a due callout off its bucket. -/
def taken (s : CalloutCpu) (curticks : CInt) (c : CalloutRef) : CalloutCpu :=
  listRemove
    { s with
      next := listNext s c
      bucket := calloutGetBucket s curticks } c

def started (s : CalloutCpu) (curticks : CInt) (c : CalloutRef) : CalloutCpu :=
  let s1 := softclockEnter (taken s curticks c) c true
  if (s.callouts c).lock.isSome then
    s1.setExec true { s1.execEntity true with cancel := true }
  else
    s1

def scanned (s : CalloutCpu) (curticks : CInt) (c : CalloutRef) : CalloutCpu :=
  { s with next := some c, bucket := calloutGetBucket s curticks }

theorem started_callouts_of_ne (s : CalloutCpu) (curticks : CInt) {b c : CalloutRef} (hb : b ≠ c) :
    (started s curticks c).callouts b = s.callouts b := by
  unfold started
  split <;>
    simp [softclockEnter, taken, listRemove, CalloutCpu.setCallout_callouts_of_ne _ _ _ _ hb]

theorem started_execEntity (s : CalloutCpu) (curticks : CInt) (c : CalloutRef) (d : Bool) :
    (started s curticks c).execEntity d =
      if d then
        { s.execEntity true with
          curr := some c
          cancel := (s.callouts c).lock.isSome
          drain := none }
      else
        s.execEntity false := by
  unfold started
  cases hlock : (s.callouts c).lock.isSome <;> cases d <;>
    simp [softclockEnter, taken, listRemove, CalloutCpu.setExec,
      CalloutCpu.setBucket, CalloutCpu.setCallout]

section Started

variable {s : CalloutCpu} (h : WheelInv s) (curticks : CInt) (c : CalloutRef)

include h

theorem scanned_wheelInv : WheelInv (scanned s curticks c) :=
  h.congr ⟨rfl, rfl, fun _ => ⟨rfl, rfl⟩⟩

theorem unlink_scanned : unlink (scanned s curticks c) c = clearPending (taken s curticks c) c := by
  have hprocessed : ((scanned s curticks c).callouts c).iflags.processed = false :=
    (h.plain c).right.right
  unfold unlink dequeue
  rw [hprocessed]
  simp only [Bool.false_eq_true, if_false]
  rw [if_pos (show (scanned s curticks c).next = some c from rfl)]
  rfl

theorem started_callouts_self : (started s curticks c).callouts c = { s.callouts c with
        iflags := { (s.callouts c).iflags with pending := false } } := by
  have hlocal : (s.callouts c).iflags.localAlloc = false := (h.plain c).left
  unfold started
  split <;> simp [softclockEnter, taken, listRemove, hlocal]

theorem started_sameLinks : SameLinks (unlink (scanned s curticks c) c) (started s curticks c) := by
  rw [unlink_scanned h]
  refine ⟨?_, ?_, ?_⟩
  · unfold started
    split <;> rfl
  · unfold started
    split <;> rfl
  · intro b
    by_cases hb : b = c
    · subst hb
      rw [started_callouts_self h]
      simp [clearPending, taken, listRemove]
    · rw [started_callouts_of_ne s curticks hb, clearPending,
        CalloutCpu.setCallout_callouts_of_ne _ _ _ _ hb]
      exact ⟨rfl, rfl⟩

theorem started_clock : (started s curticks c).ticks = s.ticks ∧
      (started s curticks c).softticks = s.softticks ∧ (started s curticks c).bucket =
        calloutGetBucket (started s curticks c) curticks ∧
      (started s curticks c).next = (unlink (scanned s curticks c) c).next := by
  rw [unlink_scanned h]
  unfold started
  split <;> exact ⟨rfl, rfl, rfl, rfl⟩

theorem started_lock (b : CalloutRef) :
    ((started s curticks c).callouts b).lock = (s.callouts b).lock ∧
      ((started s curticks c).callouts b).iflags.returnUnlocked =
        (s.callouts b).iflags.returnUnlocked ∧ ((started s curticks c).callouts b).iflags.direct =
        (s.callouts b).iflags.direct := by
  by_cases hb : b = c
  · subst hb
    rw [started_callouts_self h]
    exact ⟨rfl, rfl, rfl⟩
  · rw [started_callouts_of_ne s curticks hb]
    exact ⟨rfl, rfl, rfl⟩

end Started

theorem started_cpuInv {s : CalloutCpu} (h : CpuInv s) (curticks : CInt)
    (c : CalloutRef) : CpuInv (started s curticks c) := by
  constructor
  · exact (unlink_wheelInv (scanned_wheelInv h.wheel curticks c) c).congr
      (started_sameLinks h.wheel curticks c)
  · constructor
    · rw [started_execEntity]
      exact h.exec.unused
    · intro d
      rw [started_execEntity]
      cases d with
      | false => exact h.exec.waiting false
      | true => exact h.exec.waiting true
    · intro b hcurr hlock
      rw [started_execEntity] at hcurr ⊢
      have hb : c = b := by
        simpa using hcurr
      subst hb
      rw [(started_lock h.wheel curticks c c).left] at hlock
      simpa using hlock
  · intro b
    have hlock := started_lock h.wheel curticks c b
    rw [runnable_congr hlock.left hlock.right.left]
    exact h.runnable b

section Scan

variable {ω : Type}

/-!
## Calling a handler
-/

structure ScanInv (curticks : CInt) (pos : Option CalloutRef) (m : Machine ω)
    (q : CalloutQueue) (p : StopProtocol) : Prop where
  consistent : Consistent m q p
  now : 0 < q.now
  idle : p.executing = none
  ticks : m.cc.ticks = curticks + 1
  softticks : m.cc.softticks = m.cc.ticks
  pos : ScanPos m.cc curticks pos

theorem ScanInv.start {curticks : CInt} {c : CalloutRef} {m : Machine ω}
    {q : CalloutQueue} {p : StopProtocol} (h : ScanInv curticks (some c) m q p)
    (hdue : (m.cc.callouts c).time = curticks) : exists f d k, (m.cc.callouts c).func = some f ∧
      q.deadline c = some (d, (f, (m.cc.callouts c).arg)) ∧ d + 1 = q.now ∧
      k < dueCount m.cc curticks ∧ Handling curticks k (some c) (q.setDeadline c none)
        (({ m with cc := started m.cc curticks c } : Machine ω).record
          (Event.call c f (m.cc.callouts c).arg)) := by
  have hwheel := h.consistent.cpu.wheel
  have hscanned := scanned_wheelInv hwheel curticks c
  have hlinks := started_sameLinks hwheel curticks c
  have hclock := started_clock hwheel curticks c
  have hscan := sameLinks_scan hlinks curticks
  rcases h.consistent.refines.due h.ticks (h.pos.pending hwheel).left hdue h.now with
    ⟨d, ⟨f, a⟩, hd, hnow⟩
  have harmed := h.consistent.refines.armed c d (f, a) hd
  have ha : (m.cc.callouts c).arg = a := harmed.arg
  rw [← ha] at hd
  refine ⟨f, d, dueCount (unlink (scanned m.cc curticks c) c) curticks, harmed.func,
    hd, hnow, dueCount_unlink_lt hscanned h.pos hdue, ?_⟩
  refine ⟨{ p with executing := some c, drain := none }, ⟨?_, ?_, ?_, ?_, ?_⟩, h.now,
    rfl, hclock.left.trans h.ticks, ?_, hclock.right.right.left, ?_, ?_⟩
  · exact started_cpuInv h.consistent.cpu curticks c
  · show TimerQueue.Run bootQueue (timerTrace (m.log ++ [_])) _
    rw [timerTrace_snoc_some (by rfl)]
    exact TimerQueue.run_snoc h.consistent.timers (TimerQueue.Step.fire hd hnow)
  · apply h.consistent.refines.disarm c hclock.left
    · rw [started_callouts_self hwheel]
    · intro b hb
      rw [started_callouts_of_ne m.cc curticks hb]
      exact ⟨rfl, rfl, rfl, rfl⟩
  · apply StopProtocol.run_snoc h.consistent.accepted
    simp [StopProtocol.step, h.idle, h.consistent.matched.due]
  · refine ⟨?_, ?_, ?_, h.consistent.matched.due⟩
    · simp [Machine.record, started_execEntity]
    · simp [Machine.record, started_execEntity]
    · intro b
      rw [h.consistent.matched.direct b]
      exact (started_lock hwheel curticks c b).right.right.symm
  · exact hclock.right.left.trans (h.softticks.trans hclock.left.symm)
  · show ScanPos (started m.cc curticks c) curticks (started m.cc curticks c).next
    rw [hclock.right.right.right]
    rcases scanPos_unlink hscanned c h.pos with ⟨pre, suf, hsplit, hhead, hpre⟩
    exact ⟨pre, suf, hscan.left.trans hsplit, hhead, by rw [hscan.right]; exact hpre⟩
  · show dueCount (started m.cc curticks c) curticks ≤ _
    unfold dueCount
    rw [hscan.left, hscan.right]

/-!
## Returning from a handler
-/

/-- The events after a handler: its return, and the drain function left for it. -/
def leaveEvents (c : CalloutRef) (drain : Option FuncPtr) (arg : ArgPtr) : List Event :=
  Event.ret c :: drain.toList.map fun d => Event.drain d arg

theorem timerTrace_leaveEvents (log : List Event) (c : CalloutRef)
    (drain : Option FuncPtr) (arg : ArgPtr) :
    timerTrace (log ++ leaveEvents c drain arg) = timerTrace log := by
  rw [timerTrace_append]
  cases drain <;> simp [leaveEvents, timerTrace, timerEvent]

theorem run_leaveEvents {p : StopProtocol} {c : CalloutRef}
    (hexec : p.executing = some c) (hdue : p.due = none) (arg : ArgPtr) :
    p.run (leaveEvents c p.drain arg) =
      some { p with executing := none, drain := none, due := none } := by
  unfold leaveEvents
  cases hdrain : p.drain with
  | none => simp [StopProtocol.run, StopProtocol.step, hexec, hdue, hdrain]
  | some d => simp [StopProtocol.run, StopProtocol.step, hexec, hdue, hdrain]

theorem Handling.leave {curticks : CInt} {k : Nat} {c : CalloutRef}
    {q : CalloutQueue} {m : Machine ω} (h : Handling curticks k (some c) q m) (arg : ArgPtr) :
    Handling curticks k none q { m with
        cc := m.cc.setExec true
          { m.cc.execEntity true with curr := none, drain := none }
        log := m.log ++ leaveEvents c (m.cc.execEntity true).drain arg } := by
  rcases h with ⟨p, hinv⟩
  have hcons := hinv.consistent
  have hmatch := hcons.matched
  refine ⟨{ p with executing := none, drain := none, due := none },
    ⟨⟨?_, ?_, hcons.cpu.runnable⟩, ?_, ?_, ?_, ?_⟩, hinv.now, rfl, hinv.ticks,
    hinv.softticks, hinv.bucket, hinv.pos, hinv.due⟩
  · exact hcons.cpu.wheel.congr ⟨rfl, rfl, fun _ => ⟨rfl, rfl⟩⟩
  · constructor
    · rw [CalloutCpu.setExec_execEntity_of_ne _ _ _ (by decide)]
      exact hcons.cpu.exec.unused
    · intro d
      cases d with
      | false =>
          rw [CalloutCpu.setExec_execEntity_of_ne _ _ _ (by decide)]
          exact hcons.cpu.exec.waiting false
      | true =>
          rw [CalloutCpu.setExec_execEntity_self]
          exact hcons.cpu.exec.waiting true
    · intro b hcurr
      rw [CalloutCpu.setExec_execEntity_self] at hcurr
      cases hcurr
  · rw [timerTrace_leaveEvents]
    exact hcons.timers
  · exact hcons.refines.congr rfl fun _ => ⟨rfl, rfl, rfl, rfl⟩
  · rw [StopProtocol.run_append, hcons.accepted, ← hmatch.drain]
    exact run_leaveEvents hinv.executing hmatch.due arg
  · refine ⟨?_, ?_, hmatch.direct, rfl⟩
    · rw [CalloutCpu.setExec_execEntity_self]
    · rw [CalloutCpu.setExec_execEntity_self]

theorem setExec_not_waiting {s : CalloutCpu} (h : ExecInv s) :
    s.setExec true { s.execEntity true with waiting := false } = s := by
  have hwaiting : { s.execEntity true with waiting := false } = s.execEntity true := by
    rw [← h.waiting true]
  unfold CalloutCpu.setExec
  rw [hwaiting, Function.update_eq_self]

theorem Handling.drainLeft {curticks : CInt} {k : Nat} {current : Option CalloutRef}
    {q : CalloutQueue} {m : Machine ω} (h : Handling curticks k current q m)
    {d : FuncPtr} (hd : (m.cc.execEntity true).drain = some d) : DrainLeft d m.log := by
  rcases h with ⟨p, hinv⟩
  rw [← hinv.consistent.matched.drain] at hd
  rcases StopProtocol.run_drainLeft hinv.consistent.accepted hd with hboot | hleft
  · cases hboot
  · exact hleft

/-!
## One due callout
-/

section Client

variable {tickSbt : Int} {env : Env ω} (client : Client tickSbt env)
  {curticks : CInt} {k : Nat} {c : CalloutRef}

theorem softclockInvoke_total {co : Callout} (hco : Runnable co) {f : FuncPtr}
    (hf : co.func = some f) {q : CalloutQueue} {m : Machine ω}
    {post : CalloutQueue -> ω -> List Event -> Prop}
    (hprog : (env f co.arg m.uptime m.world).Meets post q (m.log ++ [Event.call c f co.arg]))
    (hm : Handling curticks k (some c) q (m.record (Event.call c f co.arg))) :
    exists m' q', softclockInvoke env c co m = some (m'.record (Event.ret c)) ∧
      Handling curticks k (some c) q' m' ∧ m'.uptime = m.uptime ∧ post q' m'.world m'.log := by
  rcases hm.run hprog with ⟨m', q', hrun, hm', huptime, hpost⟩
  refine ⟨m', q', ?_, hm', huptime, hpost⟩
  have hinvoke : env.invoke f co.arg (m.record (Event.call c f co.arg)) = some m' := hrun
  unfold softclockInvoke
  simp only [hf, hinvoke, Option.bind_some]
  cases hunlocked : co.iflags.returnUnlocked with
  | true => rfl
  | false =>
      simp only [Bool.false_eq_true, if_false]
      unfold Runnable at hco
      cases hlock : co.lock with
      | none =>
          rw [hlock] at hco
          simp [hunlocked] at hco
      | some l =>
          rw [hlock] at hco
          simp only at hco
          simp [hco]

theorem softclockLeave_total {q : CalloutQueue} {m : Machine ω}
    (hm : Handling curticks k (some c) q m)
    (hinv : client.Holds q (m.record (Event.ret c))) (arg : ArgPtr) :
    exists m' q', softclockLeave env c true arg false (m.record (Event.ret c)) =
        some m' ∧ Handling curticks k none q' m' ∧ client.Holds q' m' := by
  have hleft := hm.leave arg
  have hwake : forall (q' : CalloutQueue) (m' : Machine ω),
      Handling curticks k none q' m' ->
      m'.cc.setExec true { m'.cc.execEntity true with waiting := false } = m'.cc := by
    rintro q' m' ⟨p, hinv'⟩
    exact setExec_not_waiting hinv'.consistent.cpu.exec
  unfold softclockLeave
  simp only [Machine.record, Bool.false_eq_true, if_false]
  cases hdrain : (m.cc.execEntity true).drain with
  | none =>
      rw [hdrain] at hleft
      refine ⟨_, q, rfl, ?_, hinv⟩
      have hsame := hwake q _ hleft
      simp only at hsame
      simp only [hsame]
      exact hleft
  | some d =>
      rcases hm.drainLeft hdrain with ⟨b, pending, r, hmem⟩
      have hprog := client.drain m.uptime q m.world _ d arg hinv
        ⟨b, pending, r, List.mem_append_left _ hmem⟩
      simp only [Machine.record, List.append_assoc] at hprog
      rw [hdrain] at hleft
      rcases hleft.run hprog with ⟨m', q', hrun, hm', huptime, hpost⟩
      have hinvoke : env.invoke d arg
          { m with
            cc := m.cc.setExec true
              { m.cc.execEntity true with curr := none, drain := none }
            log := m.log ++ [Event.ret c] ++ [Event.drain d arg] } = some m' := by
        rw [← hrun, List.append_assoc]
        rfl
      refine ⟨m', q', ?_, hm', ?_⟩
      · simp only [hinvoke, Option.map_some]
        rw [hwake q' m' hm']
      · unfold Client.Holds
        rw [huptime]
        exact hpost

/-- `softclock_call_cc` on a due callout returns, with one due callout less. -/
theorem softclockCallCc_total {m : Machine ω} {q : CalloutQueue}
    {p : StopProtocol} (h : ScanInv curticks (some c) m q p)
    (hinv : client.Holds q m) (hdue : (m.cc.callouts c).time = curticks) : exists m' q' k,
      softclockCallCc env c true { m with cc := taken m.cc curticks c } = some m' ∧
      k < dueCount m.cc curticks ∧ Handling curticks k none q' m' ∧
      client.Holds q' m' := by
  rcases h.start hdue with ⟨f, d, k, hf, hd, hnow, hk, hstart⟩
  have hrunnable := h.consistent.cpu.runnable c
  have hlocal := (h.consistent.cpu.wheel.plain c).left
  have hprog := client.call m.uptime q m.world m.log c d f (m.cc.callouts c).arg hinv hd hnow
  rcases softclockInvoke_total (m := { m with cc := started m.cc curticks c })
    hrunnable hf hprog hstart with
    ⟨m1, q1, hinvoke, hm1, huptime, hpost⟩
  have hinv1 : client.Holds q1 (m1.record (Event.ret c)) := by
    unfold Client.Holds
    rw [show (m1.record (Event.ret c)).uptime = m.uptime from huptime]
    exact hpost
  rcases softclockLeave_total client hm1 hinv1 (m.cc.callouts c).arg with
    ⟨m2, q2, hleave, hm2, hinv2⟩
  refine ⟨m2, q2, k, ?_, hk, hm2, hinv2⟩
  have hco : (taken m.cc curticks c).callouts c = m.cc.callouts c := rfl
  unfold softclockCallCc
  simp only [hco, hlocal]
  unfold started at hinvoke
  unfold Runnable at hrunnable
  cases hlock : (m.cc.callouts c).lock with
  | none =>
      simp only [hlock, Option.isSome_none, Bool.false_eq_true, if_false] at hinvoke
      simp only [hinvoke, Option.bind_some]
      exact hleave
  | some l =>
      have hcancel : ((softclockEnter (taken m.cc curticks c) c true).execEntity
          true).cancel = false := by
        simp [softclockEnter]
      simp only [hlock, Option.isSome_some, if_true] at hinvoke
      rw [hlock] at hrunnable
      simp only at hrunnable
      simp only [hrunnable, if_true, hcancel, Bool.false_eq_true, if_false, hinvoke,
        Option.bind_some]
      exact hleave

end Client

end Scan

end Timeout
end FStackLite
