import FStackLite.Timeout.Operations

/-!
# The protocol of stopping

Which callout executes, which drain function waits for it and which callouts
were ever armed with `C_DIRECT_EXEC` can be read off the log.  The protocol is
the automaton over events that keeps these three; it rejects a log in which a
stop returns another result than the one they determine, or in which a drain
function is called at another time than right after the handler it was left
for.  The law of stopping is a statement about the logs it accepts.
-/

namespace FStackLite
namespace Timeout

/--
The executing callout, the drain function left for it, the drain function that
has to be called next, and the callouts that carry `CALLOUT_DIRECT`.
-/
structure StopProtocol where
  executing : Option CalloutRef
  drain : Option FuncPtr
  due : Option FuncPtr
  direct : CalloutRef -> Bool

namespace StopProtocol

def boot : StopProtocol where
  executing := none
  drain := none
  due := none
  direct := fun _ => false

def current (p : StopProtocol) (c : CalloutRef) : Bool :=
  p.direct c && decide (p.executing = some c)

def step (p : StopProtocol) : Event -> Option StopProtocol
  | Event.tick => if p.executing = none ∧ p.due = none then some p else none
  | Event.reset c _ _ _ direct =>
      if p.due = none then
        some { p with direct := Function.update p.direct c (p.direct c || direct) }
      else none
  | Event.stop c drain pending r =>
      if p.due = none ∧ r = stopResult pending (p.current c) then
        some { p with
          drain := if p.current c then drain.or p.drain else p.drain }
      else none
  | Event.call c _ _ =>
      if p.executing = none ∧ p.due = none then
        some { p with executing := some c, drain := none }
      else none
  | Event.ret c =>
      if p.executing = some c ∧ p.due = none then
        some { p with executing := none, drain := none, due := p.drain }
      else none
  | Event.drain d _ =>
      if p.executing = none ∧ p.due = some d then
        some { p with due := none }
      else none

def run : StopProtocol -> List Event -> Option StopProtocol
  | p, [] => some p
  | p, e :: es => (p.step e).bind fun p' => run p' es

theorem run_append (p : StopProtocol) (as bs : List Event) :
    run p (as ++ bs) = (run p as).bind fun p' => run p' bs := by
  induction as generalizing p with
  | nil => rfl
  | cons e es ih =>
      show (p.step e).bind (fun p' => run p' (es ++ bs)) = _
      cases hstep : p.step e with
      | none => simp [run, hstep]
      | some p' => simp [run, hstep, ih p']

theorem run_snoc {p p1 p2 : StopProtocol} {es : List Event} {e : Event}
    (h : run p es = some p1) (hstep : p1.step e = some p2) : run p (es ++ [e]) = some p2 := by
  rw [run_append, h]
  simp [run, hstep]

theorem run_cons_some {p p' : StopProtocol} {e : Event} {es : List Event}
    (h : run p (e :: es) = some p') : exists p1, p.step e = some p1 ∧ run p1 es = some p' := by
  cases hstep : p.step e with
  | none =>
      rw [run, hstep] at h
      cases h
  | some p1 =>
      rw [run, hstep] at h
      exact ⟨p1, rfl, h⟩

end StopProtocol

/-!
## Reading a log
-/

def isRet : Event -> Bool
  | Event.ret _ => true
  | _ => false

def isCall : Event -> Bool
  | Event.call _ _ _ => true
  | _ => false

def drainCalled : Event -> Option FuncPtr
  | Event.drain d _ => some d
  | _ => none

def drainGiven (c : CalloutRef) : Event -> Option FuncPtr
  | Event.stop b drain _ _ => if b = c then drain else none
  | _ => none

def executingAfter (current : Option CalloutRef) : Event -> Option CalloutRef
  | Event.call c _ _ => some c
  | Event.ret _ => none
  | _ => current

def executingIn (log : List Event) : Option CalloutRef :=
  log.foldl executingAfter none

/-- The event arms this callout with `C_DIRECT_EXEC`. -/
def armsDirect (c : CalloutRef) : Event -> Bool
  | Event.reset b _ _ _ direct => direct && decide (b = c)
  | _ => false

/-- The callout was armed with `C_DIRECT_EXEC` before. -/
def directIn (c : CalloutRef) (log : List Event) : Bool :=
  log.any (armsDirect c)

def handlerRest (log : List Event) : List Event :=
  log.takeWhile fun e => !isRet e

def afterHandler (log : List Event) : List Event :=
  (log.dropWhile fun e => !isRet e).tail

/-- The drain functions called between the end of the handler and the next handler. -/
def drainsAfter (log : List Event) : List FuncPtr :=
  ((afterHandler log).takeWhile fun e => !isCall e).filterMap drainCalled

def drainsGiven (c : CalloutRef) (log : List Event) : List FuncPtr :=
  (handlerRest log).filterMap (drainGiven c)

def DrainLeft (d : FuncPtr) (log : List Event) : Prop :=
  exists c pending r, Event.stop c (some d) pending r ∈ log

/-- The handler of `c` returns, and then, and not before, `d` alone is called once. -/
structure DrainedOnce (c : CalloutRef) (d : FuncPtr) (post : List Event) : Prop where
  returns : exists after, post = handlerRest post ++ Event.ret c :: after
  notBefore : (handlerRest post).filterMap drainCalled = []
  once : drainsAfter post = [d]

/--
The law of stopping, for one call of `_callout_stop_safe`: `pre` and `post` are
what happened before and after it.
-/
structure StopLaw (pre : List Event) (c : CalloutRef) (drain : Option FuncPtr)
    (pending : Bool) (r : Int) (post : List Event) : Prop where
  unknown : r = -1 -> pending = false ∧ executingIn pre ≠ some c
  busy : executingIn pre = some c -> pending = false ->
    r = 0 ∧ forall d, drain = some d -> DrainedOnce c d post

/--
When the law holds: a callout that is stopped while it executes and is not
pending was armed with `C_DIRECT_EXEC` before, and a drain function given with
the stop is not replaced by another one before the handler returns.
-/
def StopCond (pre : List Event) (c : CalloutRef) (drain : Option FuncPtr)
    (pending : Bool) (post : List Event) : Prop :=
  executingIn pre = some c -> pending = false ->
    directIn c pre = true ∧
      forall d, drain = some d -> (drainsGiven c post).getLast?.getD d = d

/-!
## The state of the protocol in terms of the log
-/

namespace StopProtocol

variable {e : Event} {p p' pEnd : StopProtocol} {es : List Event} {d : FuncPtr} {c : CalloutRef}

theorem step_executing (h : p.step e = some p') : p'.executing = executingAfter p.executing e := by
  cases e <;> simp only [step] at h <;> split at h <;> cases h <;> rfl

theorem run_executing (h : run p es = some p') :
    p'.executing = es.foldl executingAfter p.executing := by
  induction es generalizing p with
  | nil =>
      cases h
      rfl
  | cons e es ih =>
      rcases run_cons_some h with ⟨p1, hstep, hrest⟩
      rw [List.foldl_cons, ← step_executing hstep]
      exact ih hrest

theorem step_direct (h : p.step e = some p') (c : CalloutRef) :
    p'.direct c = (p.direct c || armsDirect c e) := by
  cases e with
  | reset b toTicks ftn arg direct =>
      simp only [step] at h
      split at h
      · cases h
        by_cases hb : c = b
        · subst hb
          simp [armsDirect]
        · simp [armsDirect, hb, Ne.symm hb]
      · cases h
  | tick => simp only [step] at h; split at h <;> cases h; simp [armsDirect]
  | stop b drain pending r => simp only [step] at h; split at h <;> cases h; simp [armsDirect]
  | call b ftn arg => simp only [step] at h; split at h <;> cases h; simp [armsDirect]
  | ret b => simp only [step] at h; split at h <;> cases h; simp [armsDirect]
  | drain d arg => simp only [step] at h; split at h <;> cases h; simp [armsDirect]

theorem run_direct (h : run p es = some p') (c : CalloutRef) :
    p'.direct c = (p.direct c || directIn c es) := by
  induction es generalizing p with
  | nil =>
      cases h
      simp [directIn]
  | cons e es ih =>
      rcases run_cons_some h with ⟨p1, hstep, hrest⟩
      rw [ih hrest, step_direct hstep c, directIn, directIn, List.any_cons, Bool.or_assoc]

theorem step_drain (h : p.step e = some p') (hd : p'.drain = some d) :
    p.drain = some d ∨ DrainLeft d [e] := by
  cases e with
  | stop c drain pending r =>
      simp only [step] at h
      split at h
      · cases h
        simp only at hd
        split at hd
        · cases drain with
          | none => exact Or.inl hd
          | some d' =>
              have hdd : d' = d := by
                simpa using hd
              exact Or.inr ⟨c, pending, r, by simp [hdd]⟩
        · exact Or.inl hd
      · cases h
  | tick => simp only [step] at h; split at h <;> cases h; exact Or.inl hd
  | reset c toTicks ftn arg direct =>
      simp only [step] at h; split at h <;> cases h; exact Or.inl hd
  | call c ftn arg => simp only [step] at h; split at h <;> cases h; cases hd
  | ret c => simp only [step] at h; split at h <;> cases h; cases hd
  | drain d' arg => simp only [step] at h; split at h <;> cases h; exact Or.inl hd

theorem run_drainLeft (h : run p es = some p') (hd : p'.drain = some d) :
    p.drain = some d ∨ DrainLeft d es := by
  induction es generalizing p with
  | nil =>
      cases h
      exact Or.inl hd
  | cons e es ih =>
      rcases run_cons_some h with ⟨p1, hstep, hrest⟩
      rcases ih hrest with hleft | ⟨c, pending, r, hmem⟩
      · rcases step_drain hstep hleft with hold | ⟨c, pending, r, hmem⟩
        · exact Or.inl hold
        · exact Or.inr ⟨c, pending, r, by
            rw [List.mem_singleton.mp hmem]
            exact List.mem_cons_self ..⟩
      · exact Or.inr ⟨c, pending, r, List.mem_cons_of_mem e hmem⟩

/-!
## The run of one handler
-/

/--
From inside a handler, the log consists of calls of the interface up to the return of
the handler, and the drain function due after it is the last one left.
-/
def HandlerReturns (c : CalloutRef) (pEnd : StopProtocol) (drain : Option FuncPtr)
    (es : List Event) : Prop :=
  exists after p2, es = handlerRest es ++ Event.ret c :: after ∧
    (handlerRest es).filterMap drainCalled = [] ∧
    run p2 after = some pEnd ∧ p2.executing = none ∧
    p2.due = (drainsGiven c es).getLast?.or drain

theorem HandlerReturns.cons {drain drain' : Option FuncPtr} (h : HandlerReturns c pEnd drain' es)
    (hret : isRet e = false) (hcalled : drainCalled e = none)
    (hleft : drain' = (drainGiven c e).or drain) : HandlerReturns c pEnd drain (e :: es) := by
  rcases h with ⟨after, p2, hes, hnone, hafter, hidle, hlast⟩
  have hrest : handlerRest (e :: es) = e :: handlerRest es := by
    rw [handlerRest, List.takeWhile_cons_of_pos (by simp [hret]), handlerRest]
  refine ⟨after, p2, ?_, ?_, hafter, hidle, ?_⟩
  · rw [hrest, List.cons_append, <- hes]
  · rw [hrest, List.filterMap_cons_none hcalled, hnone]
  · rw [hlast, hleft, drainsGiven, drainsGiven, hrest]
    cases hgiven : drainGiven c e with
    | none =>
        rw [List.filterMap_cons_none hgiven]
        rfl
    | some d =>
        rw [List.filterMap_cons_some hgiven, List.getLast?_cons]
        cases ((handlerRest es).filterMap (drainGiven c)).getLast? with
        | none => rfl
        | some d' => rfl

theorem run_handler (h : run p es = some pEnd) (hexec : p.executing = some c)
    (hdue : p.due = none) (hdirect : p.direct c = true) (hend : pEnd.executing = none) :
    HandlerReturns c pEnd p.drain es := by
  induction es generalizing p with
  | nil =>
      cases h
      rw [hexec] at hend
      cases hend
  | cons e es ih =>
      rcases run_cons_some h with ⟨p1, hstep, hrest⟩
      cases e with
      | tick => simp [step, hexec] at hstep
      | call b ftn arg => simp [step, hexec] at hstep
      | drain d arg => simp [step, hexec] at hstep
      | ret b =>
          simp only [step] at hstep
          split at hstep
          · rename_i hret
            cases hstep
            have hb : c = b := by
              simpa [hexec] using hret.left
            subst hb
            exact ⟨es, _, by simp [handlerRest, isRet],
              by simp [handlerRest, isRet], hrest, rfl,
              by simp [drainsGiven, handlerRest, isRet]⟩
          · cases hstep
      | reset b toTicks ftn arg direct =>
          have hdirect1 := step_direct hstep c
          simp only [step] at hstep
          split at hstep
          · cases hstep
            exact (ih hrest hexec hdue (by rw [hdirect1, hdirect]; rfl)).cons rfl rfl rfl
          · contradiction
      | stop b drain pending r =>
          have hdirect1 := step_direct hstep c
          simp only [step] at hstep
          split at hstep
          · cases hstep
            refine (ih hrest hexec hdue (by rw [hdirect1, hdirect]; rfl)).cons rfl rfl ?_
            by_cases hb : b = c
            · subst hb
              have hcurrent : p.current b = true := by
                simp [current, hdirect, hexec]
              cases drain with
              | none => simp [drainGiven, hcurrent]
              | some d => simp [drainGiven, hcurrent]
            · have hcurrent : p.current b = false := by
                simp [current, hexec, Ne.symm hb]
              simp [drainGiven, hcurrent, hb]
          · cases hstep

/-!
## Between two handlers
-/

theorem run_idle_no_drain (h : run p es = some pEnd) (hexec : p.executing = none)
    (hdue : p.due = none) : (es.takeWhile fun e => !isCall e).filterMap drainCalled = [] := by
  induction es generalizing p with
  | nil => rfl
  | cons e es ih =>
      rcases run_cons_some h with ⟨p1, hstep, hrest⟩
      cases e with
      | tick =>
          simp only [step, hexec, hdue, and_self, if_true] at hstep
          cases hstep
          simpa [isCall, drainCalled] using ih hrest hexec hdue
      | call b ftn arg => simp [isCall]
      | drain d arg => simp [step, hdue] at hstep
      | ret b => simp [step, hexec] at hstep
      | reset b toTicks ftn arg direct =>
          simp only [step] at hstep
          split at hstep
          · cases hstep
            simpa [isCall, drainCalled] using ih hrest hexec hdue
          · contradiction
      | stop b drain pending r =>
          simp only [step] at hstep
          split at hstep
          · cases hstep
            simpa [isCall, drainCalled] using ih hrest hexec hdue
          · cases hstep

theorem run_drains (h : run p es = some pEnd) (hexec : p.executing = none)
    (hend : pEnd.due = none) :
    (es.takeWhile fun e => !isCall e).filterMap drainCalled = p.due.toList := by
  cases hdue : p.due with
  | none => exact run_idle_no_drain h hexec hdue
  | some d =>
      cases es with
      | nil =>
          cases h
          rw [hend] at hdue
          cases hdue
      | cons e es =>
          rcases run_cons_some h with ⟨p1, hstep, hrest⟩
          cases e with
          | drain d' arg =>
              simp only [step] at hstep
              split at hstep
              · rename_i hmatch
                cases hstep
                have hd : d = d' := by
                  simpa [hdue] using hmatch.right
                subst hd
                have hnone := run_idle_no_drain hrest hexec rfl
                rw [List.takeWhile_cons_of_pos (by rfl), List.filterMap_cons_some (by rfl), hnone]
                rfl
              · cases hstep
          | tick => simp [step, hdue] at hstep
          | call b ftn arg => simp [step, hdue] at hstep
          | ret b => simp [step, hdue] at hstep
          | reset b toTicks ftn arg direct => simp [step, hdue] at hstep
          | stop b drain pending r => simp [step, hdue] at hstep

/-!
## The law
-/

theorem afterHandler_of_split {after : List Event}
    (h : es = handlerRest es ++ Event.ret c :: after) : afterHandler es = after := by
  have hdrop : es.dropWhile (fun e => !isRet e) = Event.ret c :: after := by
    have hparts := List.takeWhile_append_dropWhile (p := fun e => !isRet e) (l := es)
    have hsame : handlerRest es ++ es.dropWhile (fun e => !isRet e) =
        handlerRest es ++ Event.ret c :: after := by
      rw [← h]
      exact hparts
    exact List.append_cancel_left hsame
  rw [afterHandler, hdrop]
  rfl

/-- The drain function left with the handler is called unless another one replaces it. -/
theorem drainedOnce_iff {post : List Event} (h : run p post = some pEnd)
    (hexec : p.executing = some c) (hdue : p.due = none) (hdirect : p.direct c = true)
    (hdrain : p.drain = some d) (hendExec : pEnd.executing = none) (hendDue : pEnd.due = none) :
    DrainedOnce c d post <-> (drainsGiven c post).getLast?.getD d = d := by
  rcases run_handler h hexec hdue hdirect hendExec
    with ⟨after, p2, hsplit, hnone, hafter, hidle, hlast⟩
  have hcalled : drainsAfter post = [(drainsGiven c post).getLast?.getD d] := by
    rw [drainsAfter, afterHandler_of_split hsplit, run_drains hafter hidle hendDue, hlast, hdrain]
    cases (drainsGiven c post).getLast? with
    | none => rfl
    | some d' => rfl
  constructor
  · intro honce
    rw [honce.once] at hcalled
    injection hcalled with hd
    exact hd.symm
  · intro hkept
    rw [hkept] at hcalled
    exact ⟨⟨after, hsplit⟩, hnone, hcalled⟩

theorem stopLaw_iff {pre post : List Event} {drain : Option FuncPtr} {pending : Bool} {r : Int}
    (h : run boot (pre ++ Event.stop c drain pending r :: post) = some pEnd)
    (hexec : pEnd.executing = none) (hdue : pEnd.due = none) :
    StopLaw pre c drain pending r post <-> StopCond pre c drain pending post := by
  rw [run_append] at h
  cases hpre : run boot pre with
  | none =>
      rw [hpre] at h
      cases h
  | some p =>
      rw [hpre] at h
      rcases run_cons_some h with ⟨p1, hstep, hrest⟩
      have hexecuting : p.executing = executingIn pre := run_executing hpre
      have hdirect : p.direct c = directIn c pre := by
        simpa [boot] using run_direct hpre c
      simp only [step] at hstep
      split at hstep
      · rename_i haccept
        cases hstep
        have hr := haccept.right
        have hcurrent : executingIn pre = some c -> p.current c = p.direct c := by
          intro hbusy
          simp [current, hexecuting, hbusy]
        have honce : executingIn pre = some c -> p.direct c = true -> forall d, drain = some d ->
            (DrainedOnce c d post <-> (drainsGiven c post).getLast?.getD d = d) := by
          intro hbusy hdir d hd
          apply drainedOnce_iff hrest (hexecuting.trans hbusy) haccept.left hdir _ hexec hdue
          simp [hcurrent hbusy, hdir, hd]
        constructor
        · intro hlaw hbusy hidle
          rcases hlaw.busy hbusy hidle with ⟨hzero, hdrained⟩
          have hdir : p.direct c = true := by
            cases hd : p.direct c with
            | true => rfl
            | false =>
                rw [hzero, hidle, hcurrent hbusy, hd] at hr
                simp [stopResult] at hr
          refine ⟨hdirect ▸ hdir, ?_⟩
          intro d hd
          exact (honce hbusy hdir d hd).mp (hdrained d hd)
        · intro hcond
          constructor
          · intro hminus
            rw [hminus] at hr
            have hresult : pending = false ∧ p.current c = false := by
              cases pending <;> cases hnow : p.current c <;>
                simp [stopResult, hnow] at hr ⊢
            refine ⟨hresult.left, ?_⟩
            intro hbusy
            have hdir := (hcond hbusy hresult.left).left
            rw [← hdirect, ← hcurrent hbusy, hresult.right] at hdir
            contradiction
          · intro hbusy hidle
            rcases hcond hbusy hidle with ⟨hdir, hkept⟩
            rw [← hdirect] at hdir
            refine ⟨by rw [hr, hcurrent hbusy, hdir, hidle]; rfl, ?_⟩
            intro d hd
            exact (honce hbusy hdir d hd).mpr (hkept d hd)
      · cases hstep

end StopProtocol

/-!
## The wheel follows the protocol
-/

structure Matches (s : CalloutCpu) (p : StopProtocol) : Prop where
  executing : p.executing = (s.execEntity true).curr
  drain : p.drain = (s.execEntity true).drain
  direct : forall c, p.direct c = (s.callouts c).iflags.direct
  due : p.due = none

theorem matches_init (shift : Nat) {callouts : CalloutRef -> Callout}
    (h : forall c, Initialised (callouts c)) :
    Matches (calloutCallwheelInit shift callouts) StopProtocol.boot :=
  ⟨rfl, rfl, fun c => (h c).idle.right.right.symm, rfl⟩

theorem Matches.isCurrent {s : CalloutCpu} {p : StopProtocol} (h : Matches s p)
    (hexec : ExecInv s) (c : CalloutRef) : isCurrent s c = p.current c := by
  rw [Timeout.isCurrent, StopProtocol.current, h.direct c, h.executing]
  cases (s.callouts c).iflags.direct with
  | false => simp [hexec.unused]
  | true => simp

theorem op_effect_direct {s : CalloutCpu} (h : CpuInv s) (o : Op) (r : Int) (b : CalloutRef) :
    ((o.effect s).callouts b).iflags.direct =
      ((s.callouts b).iflags.direct || armsDirect b (o.event s r)) := by
  cases o with
  | reset c toTicks ftn arg cpu flags =>
      have hoff := (offWheel_callouts h.wheel c b).right.right.right.right.left
      by_cases hb : b = c
      · subst hb
        simp only [Op.effect, calloutCcAdd_callouts_self, armed, hoff]
        simp [Op.event, armsDirect]
      · simp only [Op.effect]
        rw [calloutCcAdd_callouts_of_ne _ _ _ _ _ _ hb, hoff]
        simp [Op.event, armsDirect, Ne.symm hb]
  | stop c drain =>
      have hlinks := markStopped_sameLinks s c drain
      have hoff := (offWheel_callouts (h.wheel.congr hlinks) c b).right.right.right.right.left
      rw [(hlinks.right.right b).right] at hoff
      simpa [Op.event, Op.effect, armsDirect] using hoff

theorem op_matches {s : CalloutCpu} {p : StopProtocol} (h : CpuInv s)
    (hmatch : Matches s p) (o : Op) : exists p', p.step (o.event s (o.result s)) = some p' ∧
      Matches (o.effect s) p' ∧ p'.executing = p.executing := by
  cases o with
  | reset c toTicks ftn arg cpu flags =>
      have hstep : p.step (Event.reset c toTicks ftn arg flags.directExec) =
          some { p with
            direct := Function.update p.direct c (p.direct c || flags.directExec) } := by
        simp [StopProtocol.step, hmatch.due]
      refine ⟨_, hstep, ⟨?_, ?_, ?_, hmatch.due⟩, rfl⟩
      · exact hmatch.executing.trans
          (op_effect_exec h (Op.reset c toTicks ftn arg cpu flags) true).left.symm
      · simp only [Op.effect]
        rw [calloutCcAdd_execEntity, offWheel_execEntity h.wheel]
        exact hmatch.drain
      · intro b
        rw [op_effect_direct h _ 0, ← hmatch.direct b]
        exact StopProtocol.step_direct hstep b
  | stop c drain =>
      have hcurrent := hmatch.isCurrent h.exec c
      have hstep : p.step (Event.stop c drain (s.callouts c).iflags.pending
          (stopResult (s.callouts c).iflags.pending (isCurrent s c))) =
          some { p with
            drain := if p.current c then drain.or p.drain else p.drain } := by
        simp [StopProtocol.step, hmatch.due, hcurrent]
      refine ⟨_, hstep, ⟨?_, ?_, ?_, hmatch.due⟩, rfl⟩
      · exact hmatch.executing.trans (op_effect_exec h (Op.stop c drain) true).left.symm
      · simp only [Op.effect]
        rw [offWheel_execEntity (h.wheel.congr (markStopped_sameLinks s c drain)),
          markStopped_execEntity, hcurrent, hmatch.drain, ← hmatch.direct c]
        cases hcur : p.current c with
        | false => simp
        | true =>
            have hdirect : p.direct c = true := by
              rw [StopProtocol.current] at hcur
              simp only [Bool.and_eq_true] at hcur
              exact hcur.left
            cases drain <;> simp [hdirect]
      · intro b
        rw [op_effect_direct h _ 0, ← hmatch.direct b]
        exact StopProtocol.step_direct hstep b

end Timeout
end FStackLite
