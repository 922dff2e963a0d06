import FStackLite.Kqueue.PeriodicTimer

/-!
# The timer filter as a client of the wheel

A periodic knote owns a callout.  Nobody else arms or stops that callout, writes
the knote, or passes `filt_timerexpire` the knote.  Under these conditions the log
of every run is periodic for the callout.
-/

namespace FStackLite
namespace Kqueue

open Foundation Timeout

section Client

variable {ω : Type} (t : Int) (expire : FuncPtr) (k : ArgPtr) (c : CalloutRef)
  (uptime0 period : Int) (pre : List Event)

/-!
## The others
-/

def Owned (w : TimerWorld ω) : Prop :=
  forall k', k' ≠ k -> (w.knotes k').hook ≠ c

def OpSpares : Op -> Prop
  | Op.reset b _ f a _ _ => b ≠ c ∧ (f = expire -> a ≠ k)
  | Op.stop b drain => b ≠ c ∧ drain ≠ some expire

def ProgSpares (kn : TimerKnote) : Prog (TimerWorld ω) -> Prop
  | Prog.ret w => w.knotes k = kn ∧ Owned k c w
  | Prog.op o rest => o.Admissible ∧ OpSpares expire k c o ∧
      forall r, ProgSpares kn (rest r)

/-- The functions of the kernel other than `filt_timerexpire` leave it alone. -/
def EnvSpares (others : Env (TimerWorld ω)) : Prop :=
  forall f arg uptime w, f ≠ expire -> Owned k c w ->
    ProgSpares expire k c (w.knotes k) (others f arg uptime w)

def ActionSpares : Action (TimerWorld ω) -> Prop
  | Action.hardclock => True
  | Action.calls p => forall uptime w, Owned k c w ->
      ProgSpares expire k c (w.knotes k) (p uptime w)

/-!
## The invariant
-/

structure QueueOk (q : CalloutQueue) : Prop where
  own : forall d x, q.deadline c = some (d, x) -> x = (expire, k)
  others : forall b d a, b ≠ c -> q.deadline b = some (d, (expire, a)) -> a ≠ k

/-- The knote after `n` expiries. -/
structure KnoteOk (n : Nat) (kn : TimerKnote) : Prop where
  hook : kn.hook = c
  repeats : kn.oneshot = false
  every : kn.period = period
  nexttime : kn.nexttime = uptime0 + (n + 1) * period

structure LogOk (n : Nat) (uptime : Int) (log : List Event) : Prop where
  shape : exists post, log = pre ++ armEvent t uptime0 period c expire k 1 :: post ∧
    PeriodicLog t uptime0 period c expire k n post ∧
    uptime = uptime0 + t * ticksIn post
  noDrain : ¬ DrainLeft expire log

def TimerInv (uptime : Int) (q : CalloutQueue) (w : TimerWorld ω) (log : List Event) : Prop :=
  exists n, LogOk t expire k c uptime0 period pre n uptime log ∧
    QueueOk expire k c q ∧ KnoteOk c uptime0 period n (w.knotes k) ∧ Owned k c w

variable {t expire k c uptime0 period pre} {q : CalloutQueue} {o : Op} {log : List Event} {n : Nat}
    {uptime : Int} {k' : ArgPtr} {w : TimerWorld ω}

/-!
## The queue
-/

theorem QueueOk.disarm (h : QueueOk expire k c q) (b : CalloutRef) :
    QueueOk expire k c (q.setDeadline b none) := by
  constructor
  · intro d x hd
    exact h.own d x (TimerQueue.deadline_of_setDeadline_none hd)
  · intro b' d a hb' hd
    exact h.others b' d a hb' (TimerQueue.deadline_of_setDeadline_none hd)

theorem QueueOk.arm (h : QueueOk expire k c q) {b : CalloutRef} {f : FuncPtr} {a : ArgPtr}
    (hown : b = c -> (f, a) = (expire, k)) (hother : b ≠ c -> f = expire -> a ≠ k) (n : Nat) :
    QueueOk expire k c (q.setDeadline b (some (n, (f, a)))) := by
  constructor
  · intro d x hd
    by_cases hb : c = b
    · subst hb
      rw [TimerQueue.setDeadline_deadline_self] at hd
      injection hd with hpair
      injection hpair with _ hx
      rw [← hx]
      exact hown rfl
    · rw [TimerQueue.setDeadline_deadline_of_ne _ _ hb] at hd
      exact h.own d x hd
  · intro b' d a' hb' hd
    by_cases hb : b' = b
    · subst hb
      rw [TimerQueue.setDeadline_deadline_self] at hd
      injection hd with hpair
      injection hpair with _ hx
      injection hx with hf ha
      rw [← ha]
      exact hother hb' hf
    · rw [TimerQueue.setDeadline_deadline_of_ne _ _ hb] at hd
      exact h.others b' d a' hb' hd

theorem QueueOk.op (h : QueueOk expire k c q) (ho : OpSpares expire k c o) :
    QueueOk expire k c (o.queue q) := by
  cases o with
  | reset b toTicks f a cpu flags =>
      exact h.arm (fun hb => absurd hb ho.left) (fun _ => ho.right) _
  | stop b drain => exact h.disarm b

/-!
## The log
-/

theorem drainLeft_snoc {d : FuncPtr} {e : Event} (h : DrainLeft d (log ++ [e])) :
    DrainLeft d log ∨ DrainLeft d [e] := by
  rcases h with ⟨b, pending, r, hmem⟩
  rcases List.mem_append.mp hmem with hlog | hlast
  · exact Or.inl ⟨b, pending, r, hlog⟩
  · exact Or.inr ⟨b, pending, r, hlast⟩

section Log

variable {n : Nat} {uptime : Int} {log : List Event}
  (h : LogOk t expire k c uptime0 period pre n uptime log)

include h

theorem LogOk.snoc {e : Event} (htouch : touches c e = false) (htick : e ≠ Event.tick)
    (hdrain : ¬ DrainLeft expire [e]) :
    LogOk t expire k c uptime0 period pre n uptime (log ++ [e]) := by
  constructor
  · rcases h.shape with ⟨post, hlog, hperiodic, huptime⟩
    refine ⟨post ++ [e], by rw [hlog]; simp, hperiodic.other e htouch, ?_⟩
    rw [ticksIn_snoc htick]
    exact huptime
  · intro hleft
    rcases drainLeft_snoc hleft with hlog | hlast
    · exact h.noDrain hlog
    · exact hdrain hlast

theorem LogOk.tick :
    LogOk t expire k c uptime0 period pre n (uptime + t) (log ++ [Event.tick]) := by
  constructor
  · rcases h.shape with ⟨post, hlog, hperiodic, huptime⟩
    refine ⟨post ++ [Event.tick], by rw [hlog]; simp, hperiodic.other _ rfl, ?_⟩
    have hone : ticksIn [Event.tick] = 1 := rfl
    rw [ticksIn_append, hone, huptime]
    push_cast
    ring
  · intro hleft
    rcases drainLeft_snoc hleft with hlog | ⟨b, pending, r, hmem⟩
    · exact h.noDrain hlog
    · simp at hmem

theorem LogOk.expires : LogOk t expire k c uptime0 period pre (n + 1) uptime
      (log ++ [Event.call c expire k] ++
        [armEvent t uptime0 period c expire k (n + 2)] ++ [Event.ret c]) := by
  constructor
  · rcases h.shape with ⟨post, hlog, hperiodic, huptime⟩
    refine ⟨_, by rw [hlog]; simp, hperiodic.expire, ?_⟩
    rw [ticksIn_append]
    exact huptime
  · rintro ⟨b, pending, r, hmem⟩
    simp only [List.append_assoc, List.mem_append, List.mem_singleton, armEvent,
      reduceCtorEq, or_false] at hmem
    exact h.noDrain ⟨b, pending, r, hmem⟩

end Log

theorem not_drainLeft_event {e : Event} (h : forall b pending r,
    e ≠ Event.stop b (some expire) pending r) : ¬ DrainLeft expire [e] := by
  rintro ⟨b, pending, r, hmem⟩
  exact h b pending r (List.mem_singleton.mp hmem).symm

theorem OpSpares.event (ho : OpSpares expire k c o) (s : CalloutCpu) (r : Int) :
    touches c (o.event s r) = false ∧ o.event s r ≠ Event.tick ∧
      ¬ DrainLeft expire [o.event s r] := by
  cases o with
  | reset b toTicks f a cpu flags =>
      refine ⟨?_, Event.noConfusion, not_drainLeft_event fun b' pending r' => Event.noConfusion⟩
      simp [touches, Op.event, isCallOf, isResetOf, isStopOf, ho.left]
  | stop b drain =>
      refine ⟨?_, Event.noConfusion, not_drainLeft_event ?_⟩
      · simp [touches, Op.event, isCallOf, isResetOf, isStopOf, ho.left]
      · intro b' pending r' he
        cases he
        exact ho.right rfl

theorem LogOk.op (h : LogOk t expire k c uptime0 period pre n uptime log)
    (ho : OpSpares expire k c o) (s : CalloutCpu) (r : Int) :
    LogOk t expire k c uptime0 period pre n uptime (log ++ [o.event s r]) := by
  rcases ho.event s r with ⟨htouch, htick, hdrain⟩
  exact h.snoc htouch htick hdrain

/-!
## Programs
-/

theorem ProgSpares.meets {kn : TimerKnote} {prog : Prog (TimerWorld ω)}
    (h : ProgSpares expire k c kn prog)
    (hlog : LogOk t expire k c uptime0 period pre n uptime log) (hq : QueueOk expire k c q)
    (hkn : KnoteOk c uptime0 period n kn) :
    prog.Meets (TimerInv t expire k c uptime0 period pre uptime) q log := by
  induction prog generalizing q log with
  | ret w =>
      refine ⟨n, hlog, hq, ?_, h.right⟩
      rw [h.left]
      exact hkn
  | op o rest ih =>
      refine ⟨h.left, ?_⟩
      intro s r
      exact ih r (h.right.right r) (hlog.op h.right.left s r) (hq.op h.right.left)

/-!
## The filter
-/

theorem setKnote_knotes_self (w : TimerWorld ω) (k : ArgPtr) (kn : TimerKnote) :
    (w.setKnote k kn).knotes k = kn := by
  simp [TimerWorld.setKnote]

theorem setKnote_knotes_of_ne (w : TimerWorld ω) {k : ArgPtr} (kn : TimerKnote) (h : k' ≠ k) :
    (w.setKnote k kn).knotes k' = w.knotes k' := by
  simp [TimerWorld.setKnote, h]

theorem Owned.setKnote (h : Owned k c w) {kn : TimerKnote}
    (hhook : k' ≠ k -> kn.hook = (w.knotes k').hook) : Owned k c (w.setKnote k' kn) := by
  intro b hb
  by_cases heq : b = k'
  · subst heq
    rw [setKnote_knotes_self, hhook hb]
    exact h b hb
  · rw [setKnote_knotes_of_ne _ _ heq]
    exact h b hb

theorem filtTimerexpire_periodic {k : ArgPtr} (h : (w.knotes k).oneshot = false) :
    filtTimerexpire t expire k w = Prog.op (calloutResetSbtOn t (w.knotes k).hook
          ((w.knotes k).nexttime + (w.knotes k).period) expire k 0 { absolute := true })
        fun _ => Prog.ret (w.setKnote k
          { w.knotes k with
            data := (w.knotes k).data + 1
            nexttime := (w.knotes k).nexttime + (w.knotes k).period }) := by
  unfold filtTimerexpire
  rw [if_neg (by simp [h])]
  rfl

theorem filtTimerexpire_own (hlog : LogOk t expire k c uptime0 period pre n uptime log)
    (hq : QueueOk expire k c q) (hkn : KnoteOk c uptime0 period n (w.knotes k))
    (howned : Owned k c w) : (filtTimerexpire t expire k w).Meets (fun q' w' log' =>
        TimerInv t expire k c uptime0 period pre uptime q' w' (log' ++ [Event.ret c]))
      (q.setDeadline c none) (log ++ [Event.call c expire k]) := by
  have hnext : (w.knotes k).nexttime + (w.knotes k).period =
      uptime0 + ((n + 2 : Nat) : Int) * period := by
    rw [hkn.nexttime, hkn.every]
    push_cast
    ring
  rw [filtTimerexpire_periodic hkn.repeats, hnext, hkn.hook]
  refine ⟨by show (0 : Int) < 1; decide, ?_⟩
  intro s r
  refine ⟨n + 1, hlog.expires, ?_, ?_, ?_⟩
  · exact (hq.disarm c).arm (fun _ => rfl) (fun hne => absurd rfl hne) _
  · rw [setKnote_knotes_self]
    refine ⟨hkn.hook, hkn.repeats, hkn.every, ?_⟩
    push_cast
    ring
  · apply howned.setKnote
    intro hne
    exact absurd rfl hne

theorem filtTimerexpire_other (howned : Owned k c w) (hk : k' ≠ k) :
    ProgSpares expire k c (w.knotes k) (filtTimerexpire t expire k' w) := by
  unfold filtTimerexpire
  simp only
  split
  · exact ⟨setKnote_knotes_of_ne _ _ (Ne.symm hk), howned.setKnote fun _ => rfl⟩
  · refine ⟨by show (0 : Int) < 1; decide, ⟨howned k' hk, fun _ => hk⟩, ?_⟩
    intro r
    exact ⟨setKnote_knotes_of_ne _ _ (Ne.symm hk), howned.setKnote fun _ => rfl⟩

variable (t expire k c uptime0 period pre) in
/-- The filter keeps its invariant if the other functions leave the knote alone. -/
def timerClient {others : Env (TimerWorld ω)} (hothers : EnvSpares expire k c others) :
    Client t (timerEnv t expire others) where
  inv := TimerInv t expire k c uptime0 period pre
  tick := by
    rintro uptime q w log ⟨n, hlog, hq, hkn, howned⟩ _
    exact ⟨n, hlog.tick, ⟨hq.own, hq.others⟩, hkn, howned⟩
  call := by
    rintro uptime q w log b d f a ⟨n, hlog, hq, hkn, howned⟩ hd _
    have hleave : forall {prog : Prog (TimerWorld ω)}, b ≠ c ->
        ProgSpares expire k c (w.knotes k) prog ->
        prog.Meets (fun q' w' log' =>
          TimerInv t expire k c uptime0 period pre uptime q' w' (log' ++ [Event.ret b]))
          (q.setDeadline b none) (log ++ [Event.call b f a]) := by
      intro prog hb hspares
      have hcall : LogOk t expire k c uptime0 period pre n uptime (log ++ [Event.call b f a]) := by
        apply hlog.snoc
        · simp [touches, isCallOf, isResetOf, isStopOf, hb]
        · intro htick
          cases htick
        · apply not_drainLeft_event
          intro b' pending r he
          cases he
      apply Prog.Meets.mono _ (hspares.meets hcall (hq.disarm b) hkn)
      rintro q' w' log' ⟨n', hlog', hrest⟩
      refine ⟨n', ?_, hrest⟩
      apply hlog'.snoc rfl
      · intro htick
        cases htick
      · apply not_drainLeft_event
        intro b' pending r he
        cases he
    unfold timerEnv
    split
    · rename_i hf
      subst hf
      by_cases hb : b = c
      · subst hb
        have hpayload := hq.own d _ hd
        injection hpayload with _ ha
        subst ha
        exact filtTimerexpire_own hlog hq hkn howned
      · exact hleave hb (filtTimerexpire_other howned (hq.others b d a hb hd))
    · rename_i hf
      apply hleave
      · intro hb
        subst hb
        have hpayload := hq.own d _ hd
        injection hpayload with hf' _
        exact hf hf'
      · exact hothers f a uptime w hf howned
  drain := by
    rintro uptime q w log d a ⟨n, hlog, hq, hkn, howned⟩ hleft
    have hd : d ≠ expire := by
      intro heq
      subst heq
      exact hlog.noDrain hleft
    unfold timerEnv
    rw [if_neg hd]
    apply (hothers d a uptime w hd howned).meets _ hq hkn
    apply hlog.snoc rfl
    · intro htick
      cases htick
    · apply not_drainLeft_event
      intro b' pending r he
      cases he

theorem ActionSpares.keeps {others : Env (TimerWorld ω)}
    (hothers : EnvSpares expire k c others) {a : Action (TimerWorld ω)}
    (h : ActionSpares expire k c a) :
    a.Keeps (timerClient t expire k c uptime0 period pre hothers) := by
  cases a with
  | hardclock => exact True.intro
  | calls p =>
      rintro uptime q w log ⟨n, hlog, hq, hkn, howned⟩
      exact (h uptime w howned).meets hlog hq hkn

end Client

end Kqueue
end FStackLite
