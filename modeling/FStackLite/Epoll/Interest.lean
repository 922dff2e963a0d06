import FStackLite.Epoll.Notes

/-!
# The interest list over the kqueue

An epoll entry is represented by two knotes.  A knote takes the edge-triggered and the
one-shot mode when it is created and keeps them until it is dropped, and delivering a
one-shot event drops it.
-/

namespace FStackLite
namespace Epoll

/-!
## The modes of a knote
-/

def Knote.HasModes (kn : Knote) (ev : EpollEvent) : Prop :=
  kn.clear = ev.has epollEt ∧ kn.oneshot = ev.has epollOneshot

def Knote.SameModes (kn kn' : Knote) : Prop :=
  kn'.clear = kn.clear ∧ kn'.oneshot = kn.oneshot

theorem Knote.SameModes.hasModes_iff {kn kn' : Knote} (h : kn.SameModes kn') (ev : EpollEvent) :
    kn'.HasModes ev <-> kn.HasModes ev := by
  unfold Knote.HasModes
  rw [h.1, h.2]

@[simp] theorem evaluate_disabled (r : Report) (kn : Knote) :
    (kn.evaluate r).disabled = kn.disabled := by
  unfold Knote.evaluate
  cases r.eof <;> rfl

@[simp] theorem lookUp_disabled (r : Report) (kn : Knote) :
    (kn.lookUp r).disabled = kn.disabled := by
  unfold Knote.lookUp
  split
  · rfl
  · split
    · simp
    · simp

theorem enableOrDisable_interest (add : Bool) (fd : Int) (ev : EpollEvent) (filter : Filter)
    (kn : Knote) :
    (kn.enableOrDisable (interestChange add fd ev filter)).disabled = !ev.wants filter := by
  cases hwants : ev.wants filter <;> simp [Knote.enableOrDisable, interestChange, hwants]

theorem settle_note (env : Env) (kev : Kevent) (kn : Knote) (kq : Kqueue) :
    exists kn', (kq.settle env kev kn).note kev.key = some kn' ∧ kn.SameModes kn' ∧
      kn'.disabled = (kn.enableOrDisable kev).disabled := by
  have hlook := lookUp_sameRequest (env.event kev.key) (kn.enableOrDisable kev)
  have henable := enableOrDisable_sameRequest kev kn
  refine ⟨_, enqueueIfDue_note_self kq kev.key _, ?_, ?_⟩
  · exact ⟨hlook.clear.trans henable.clear, hlook.oneshot.trans henable.oneshot⟩
  · exact lookUp_disabled _ _

/-!
## Steps that create no knote
-/

def KeepsModes (note note' : Key -> Option Knote) : Prop :=
  forall key kn', note' key = some kn' -> exists kn, note key = some kn ∧ kn.SameModes kn'

theorem KeepsModes.refl (note : Key -> Option Knote) : KeepsModes note note :=
  fun _ kn h => ⟨kn, h, rfl, rfl⟩

theorem keepsModes_ofRequest (note : Key -> Option Knote) :
    OfRequest fun key kn' => exists kn, note key = some kn ∧ kn.SameModes kn' := by
  rintro key kn kn' hsame ⟨old, hold, hmodes⟩
  exact ⟨old, hold, hsame.clear.trans hmodes.1, hsame.oneshot.trans hmodes.2⟩

variable {kq : Kqueue} {env : Env} {fd : Int}

theorem kqueueRegister_keepsModes {note : Key -> Option Knote} (h : KeepsModes note kq.note)
    (env : Env) {kev : Kevent} (hadd : kev.add = false) :
    KeepsModes note (kqueueRegister env kev kq).1.note := by
  apply kqueueRegister_allNotes (keepsModes_ofRequest note) h env
  · intro htrue
    rw [hadd] at htrue
    contradiction
  · intro _ kn hkn
    exact h kev.key kn hkn

theorem ffKevent_pair_keepsModes (env : Env) {first second : Kevent} (hfirst : first.add = false)
    (hsecond : second.add = false) (kq : Kqueue) :
    KeepsModes kq.note (ffKevent env 0 [first, second] kq).1.note := by
  have hone := kqueueRegister_keepsModes (KeepsModes.refl kq.note) env hfirst
  rw [ffKevent_fst, kqueueKevent_pair]
  split
  · exact kqueueRegister_keepsModes hone env hsecond
  · exact hone

theorem notify_keepsModes (env : Env) (key : Key) (kq : Kqueue) :
    KeepsModes kq.note (kq.notify env key).note :=
  notify_allNotes (keepsModes_ofRequest kq.note) (KeepsModes.refl kq.note) env key

theorem ffEpollWait_keepsModes (env : Env) (events : Bool) (maxevents : Int) (kq : Kqueue) :
    KeepsModes kq.note (ffEpollWait env 0 events maxevents kq).1.note :=
  (ffEpollWait_all (keepsModes_ofRequest kq.note) (KeepsModes.refl kq.note) env 0 events
    maxevents).1

/-!
## Adding and modifying
-/

structure OpenSocket (env : Env) (fd : Int) : Prop where
  found : env.fget fd = 0
  attaches : forall filter, env.attach ⟨fd, filter⟩ = 0

def Armed (kq : Kqueue) (key : Key) : Prop :=
  exists kn, kq.note key = some kn ∧ kn.disabled = false

/-- The knote that a change for a filter leaves has the modes of the one that was there. -/
structure Changed (kq kq' : Kqueue) (fd : Int) (ev : EpollEvent) (filter : Filter) (kn' : Knote) :
    Prop where
  note : kq'.note ⟨fd, filter⟩ = some kn'
  disabled : kn'.disabled = !ev.wants filter
  modes_new : kq.note ⟨fd, filter⟩ = none -> kn'.HasModes ev
  modes_old : forall kn, kq.note ⟨fd, filter⟩ = some kn -> kn.SameModes kn'

theorem kqueueRegister_changed (hsocket : OpenSocket env fd) (add : Bool) (ev : EpollEvent)
    (filter : Filter) (hthere : add = true ∨ kq.note ⟨fd, filter⟩ ≠ none) :
    (kqueueRegister env (interestChange add fd ev filter) kq).2 = 0 ∧
      exists kn', Changed kq (kqueueRegister env (interestChange add fd ev filter) kq).1 fd ev
        filter kn' := by
  cases hnote : kq.note ⟨fd, filter⟩ with
  | none =>
      have hadd : add = true := hthere.resolve_right fun h => h hnote
      subst hadd
      rw [kqueueRegister_interest_none hsocket.found true ev filter hnote, if_neg (by simp),
        if_neg (not_not.mpr (hsocket.attaches filter))]
      rcases settle_note env (interestChange true fd ev filter)
        (interestChange true fd ev filter).newKnote kq with ⟨kn', hkn', hmodes, hdisabled⟩
      refine ⟨rfl, kn', hkn', ?_, fun _ => hmodes, ?_⟩
      · rw [hdisabled, enableOrDisable_interest]
      · intro kn hkn
        rw [hnote] at hkn
        contradiction
  | some kn =>
      rw [kqueueRegister_interest_some hsocket.found add ev filter hnote]
      rcases settle_note env (interestChange add fd ev filter)
        (kn.update (interestChange add fd ev filter)) kq with ⟨kn', hkn', hmodes, hdisabled⟩
      refine ⟨rfl, kn', hkn', ?_, ?_, ?_⟩
      · rw [hdisabled, enableOrDisable_interest]
      · intro hnone
        rw [hnote] at hnone
        contradiction
      · intro kn'' hkn''
        rw [hnote] at hkn''
        injection hkn'' with hkn''
        exact hkn'' ▸ hmodes

theorem ffKevent_changed (hsocket : OpenSocket env fd) (add : Bool) (ev : EpollEvent)
    (hthere : forall filter, add = true ∨ kq.note ⟨fd, filter⟩ ≠ none) :
    (ffKevent env 0 [interestChange add fd ev .read, interestChange add fd ev .write] kq).2.ret = 0 ∧
      forall filter, exists kn', Changed kq
        (ffKevent env 0 [interestChange add fd ev .read, interestChange add fd ev .write] kq).1
        fd ev filter kn' := by
  have hframe : (kqueueRegister env (interestChange add fd ev .read) kq).1.note ⟨fd, .write⟩ =
      kq.note ⟨fd, .write⟩ :=
    kqueueRegister_note_of_ne env (interestChange add fd ev .read) kq (read_ne_write fd)
  have hthere' : add = true ∨
      (kqueueRegister env (interestChange add fd ev .read) kq).1.note ⟨fd, .write⟩ ≠ none := by
    rw [hframe]
    exact hthere .write
  rcases kqueueRegister_changed hsocket add ev .read (hthere .read) with ⟨hfirst, read, hread⟩
  rcases kqueueRegister_changed hsocket add ev .write hthere' with ⟨hsecond, write, hwrite⟩
  rw [ffKevent_both hfirst hsecond]
  refine ⟨rfl, forall_filter.mpr ⟨⟨read, ?_⟩, ⟨write, ?_⟩⟩⟩
  · refine ⟨?_, hread.disabled, hread.modes_new, hread.modes_old⟩
    exact (kqueueRegister_note_of_ne env (interestChange add fd ev .write) _
      (read_ne_write fd).symm).trans hread.note
  · refine ⟨hwrite.note, hwrite.disabled, ?_, ?_⟩
    · rw [<- hframe]
      exact hwrite.modes_new
    · rw [<- hframe]
      exact hwrite.modes_old

theorem ffKevent_note_of_ne (env : Env) {fd' : Int} (hne : fd' ≠ fd) {first second : Kevent}
    (hfirst : first.key.fd = fd) (hsecond : second.key.fd = fd) (filter : Filter) (kq : Kqueue) :
    (ffKevent env 0 [first, second] kq).1.note ⟨fd', filter⟩ = kq.note ⟨fd', filter⟩ := by
  have hkey : forall kev : Kevent, kev.key.fd = fd -> (⟨fd', filter⟩ : Key) ≠ kev.key := by
    intro kev hkev heq
    exact hne ((congrArg Key.fd heq).trans hkev)
  have hone := kqueueRegister_note_of_ne env first kq (hkey first hfirst)
  have htwo := kqueueRegister_note_of_ne env second (kqueueRegister env first kq).1
    (hkey second hsecond)
  have hpair : (kqueueKevent env [first, second] kq).1.note ⟨fd', filter⟩ =
      kq.note ⟨fd', filter⟩ := by
    rw [kqueueKevent_pair]
    split
    · exact htwo.trans hone
    · exact hone
  rw [ffKevent_fst]
  exact hpair

/-!
## Runs

The state is the kqueue together with the interest list that the calls describe: the
event of the last `EPOLL_CTL_ADD` or `EPOLL_CTL_MOD` of each descriptor that was added
and not deleted since.  A call that fails adds, modifies and deletes nothing.
-/

inductive Action where
  | ctl (op : Op) (fd : Int) (event : Option EpollEvent)
  | wait (events : Bool) (maxevents : Int)
  /-- The state of a socket changes. -/
  | notify (key : Key)

structure World where
  kq : Kqueue
  interest : Int -> Option EpollEvent

def World.start : World := ⟨Kqueue.empty, fun _ => none⟩

/-- The interest list after a call that returns `ret`. -/
def listed (interest : Int -> Option EpollEvent) (ret : Int) : Action -> Int -> Option EpollEvent
  | .ctl .add fd (some ev) => if ret = 0 then Function.update interest fd (some ev) else interest
  | .ctl .mod fd (some ev) =>
      if ret = 0 ∧ interest fd ≠ none then Function.update interest fd (some ev) else interest
  | .ctl .del fd _ => if ret = 0 then Function.update interest fd none else interest
  | _ => interest

def Action.exec (env : Env) (kq : Kqueue) : Action -> Kqueue × Int
  | .ctl op fd event =>
      match ffEpollCtl env 0 op fd event kq with
      | (kq', answer) => (kq', answer.ret)
  | .wait events maxevents =>
      match ffEpollWait env 0 events maxevents kq with
      | (kq', answer, _) => (kq', answer.ret)
  | .notify key => (kq.notify env key, 0)

def Action.next (env : Env) (a : Action) (w : World) : World :=
  ⟨(a.exec env w.kq).1, listed w.interest (a.exec env w.kq).2 a⟩

def Action.OnSockets (env : Env) : Action -> Prop
  | .ctl _ fd _ => OpenSocket env fd
  | _ => True

/-- Every knote of a listed descriptor has the modes of the last request for it. -/
def ModesInForce (w : World) : Prop :=
  forall fd ev, w.interest fd = some ev -> forall filter kn,
    w.kq.note ⟨fd, filter⟩ = some kn -> kn.HasModes ev

def Action.Requests (w : World) (fd : Int) (ev : EpollEvent) (a : Action) : Prop :=
  a = .ctl .add fd (some ev) ∨ (a = .ctl .mod fd (some ev) ∧ w.interest fd ≠ none)

structure Faithful (env : Env) (w : World) (a : Action) : Prop where
  mod_succeeds : forall fd ev, a = .ctl .mod fd (some ev) -> w.interest fd ≠ none ->
    (a.exec env w.kq).2 = 0
  armed : forall fd ev, a.Requests w fd ev -> forall filter,
    Armed (a.next env w).kq ⟨fd, filter⟩ <-> ev.wants filter = true
  modes : ModesInForce (a.next env w)

/--
Adding meets only knotes that have the modes asked for, and modifying a listed
descriptor meets two such knotes.
-/
def Compatible (w : World) : Action -> Prop
  | .ctl .add fd (some ev) =>
      forall filter kn, w.kq.note ⟨fd, filter⟩ = some kn -> kn.HasModes ev
  | .ctl .mod fd (some ev) =>
      w.interest fd ≠ none ->
        forall filter, exists kn, w.kq.note ⟨fd, filter⟩ = some kn ∧ kn.HasModes ev
  | _ => True

theorem armed_of_changed {kq' : Kqueue} {ev : EpollEvent} {filter : Filter} {kn' : Knote}
    (h : Changed kq kq' fd ev filter kn') : Armed kq' ⟨fd, filter⟩ <-> ev.wants filter = true := by
  unfold Armed
  rw [h.note]
  simp [h.disabled]

variable {w : World}

/-- A step that creates no knote and lists no descriptor anew keeps the modes in force. -/
theorem modesInForce_of_keeps {w' : World} (hmodes : ModesInForce w)
    (hkeeps : KeepsModes w.kq.note w'.kq.note)
    (hlisted : forall fd ev, w'.interest fd = some ev -> w.interest fd = some ev) :
    ModesInForce w' := by
  intro fd ev hev filter kn' hkn'
  rcases hkeeps _ kn' hkn' with ⟨kn, hkn, hsame⟩
  exact (hsame.hasModes_iff ev).mpr (hmodes fd ev (hlisted fd ev hev) filter kn hkn)

theorem faithful_of_keeps {a : Action} (hmodes : ModesInForce w)
    (hkeeps : KeepsModes w.kq.note (a.next env w).kq.note)
    (hlisted : forall fd ev, (a.next env w).interest fd = some ev -> w.interest fd = some ev)
    (hno : forall fd ev, ¬ a.Requests w fd ev) : Faithful env w a := by
  constructor
  · intro fd ev ha hlist
    exact absurd (Or.inr ⟨ha, hlist⟩) (hno fd ev)
  · intro fd ev hreq
    exact absurd hreq (hno fd ev)
  · exact modesInForce_of_keeps hmodes hkeeps hlisted

theorem request_modesInForce_iff {w' : World} {ev : EpollEvent} (hmodes : ModesInForce w)
    (hchanged : forall filter, exists kn', Changed w.kq w'.kq fd ev filter kn')
    (hframe : forall fd' filter, fd' ≠ fd -> w'.kq.note ⟨fd', filter⟩ = w.kq.note ⟨fd', filter⟩)
    (hinterest : w'.interest = Function.update w.interest fd (some ev)) : ModesInForce w' <->
      forall filter kn, w.kq.note ⟨fd, filter⟩ = some kn -> kn.HasModes ev := by
  constructor
  · intro h filter kn hkn
    rcases hchanged filter with ⟨kn', hkn'⟩
    have hnew := h fd ev (by rw [hinterest, Function.update_self]) filter kn' hkn'.note
    exact ((hkn'.modes_old kn hkn).hasModes_iff ev).mp hnew
  · intro h fd' ev' hev' filter kn'' hkn''
    rw [hinterest] at hev'
    by_cases heq : fd' = fd
    · subst heq
      rw [Function.update_self] at hev'
      injection hev' with hev'
      subst hev'
      rcases hchanged filter with ⟨kn', hkn'⟩
      rw [hkn'.note] at hkn''
      injection hkn'' with hkn''
      subst hkn''
      cases hold : w.kq.note ⟨fd', filter⟩ with
      | none => exact hkn'.modes_new hold
      | some kn =>
          exact ((hkn'.modes_old kn hold).hasModes_iff ev).mpr (h filter kn hold)
    · rw [Function.update_of_ne heq] at hev'
      rw [hframe fd' filter heq] at hkn''
      exact hmodes fd' ev' hev' filter kn'' hkn''

theorem mod_knotes_of_success (hfound : env.fget fd = 0) (ev : EpollEvent)
    (h : (ffKevent env 0 [interestChange false fd ev .read, interestChange false fd ev .write]
      kq).2.ret = 0) : forall filter, kq.note ⟨fd, filter⟩ ≠ none := by
  have herror := interest_error_iff hfound false ev
  have hframe : (kqueueRegister env (interestChange false fd ev .read) kq).1.note ⟨fd, .write⟩ =
      kq.note ⟨fd, .write⟩ :=
    kqueueRegister_note_of_ne env (interestChange false fd ev .read) kq (read_ne_write fd)
  rw [forall_filter]
  constructor
  · intro hread
    have hfirst := (herror .read kq).mpr ⟨hread, by simp⟩
    rw [ffKevent_first_fails hfirst] at h
    contradiction
  · intro hwrite
    rw [<- hframe] at hwrite
    have hsecond := (herror .write _).mpr ⟨hwrite, by simp⟩
    by_cases hfirst : (kqueueRegister env (interestChange false fd ev .read) kq).2 = 0
    · rw [ffKevent_second_fails hfirst hsecond] at h
      contradiction
    · rw [ffKevent_first_fails hfirst] at h
      contradiction

theorem add_faithful_iff (ev : EpollEvent) (hsocket : OpenSocket env fd) (hmodes : ModesInForce w) :
    Faithful env w (.ctl .add fd (some ev)) <-> Compatible w (.ctl .add fd (some ev)) := by
  rcases ffKevent_changed hsocket true ev (fun filter => Or.inl rfl) with ⟨hret, hchanged⟩
  have hforce : ModesInForce (Action.next env (.ctl .add fd (some ev)) w) <->
      Compatible w (.ctl .add fd (some ev)) :=
    request_modesInForce_iff hmodes hchanged
      (fun fd' filter hne => ffKevent_note_of_ne env hne rfl rfl filter w.kq) (if_pos hret)
  constructor
  · intro h
    exact hforce.mp h.modes
  · intro h
    constructor
    · intro fd' ev' ha _
      simp at ha
    · intro fd' ev' hreq filter
      rcases hreq with ha | ⟨ha, _⟩
      · simp at ha
        rcases ha with ⟨rfl, rfl⟩
        rcases hchanged filter with ⟨kn', hkn'⟩
        exact armed_of_changed hkn'
      · simp at ha
    · exact hforce.mpr h

theorem mod_faithful_iff (ev : EpollEvent) (hsocket : OpenSocket env fd) (hmodes : ModesInForce w)
    (hlisted : w.interest fd ≠ none) :
    Faithful env w (.ctl .mod fd (some ev)) <-> Compatible w (.ctl .mod fd (some ev)) := by
  have hforce : (forall filter, w.kq.note ⟨fd, filter⟩ ≠ none) ->
      (ModesInForce (Action.next env (.ctl .mod fd (some ev)) w) <->
        forall filter kn, w.kq.note ⟨fd, filter⟩ = some kn -> kn.HasModes ev) := by
    intro hthere
    rcases ffKevent_changed hsocket false ev (fun filter => Or.inr (hthere filter)) with
      ⟨hret, hchanged⟩
    exact request_modesInForce_iff hmodes hchanged
      (fun fd' filter hne => ffKevent_note_of_ne env hne rfl rfl filter w.kq)
      (if_pos ⟨hret, hlisted⟩)
  constructor
  · intro h _ filter
    have hthere := mod_knotes_of_success hsocket.found ev (h.mod_succeeds fd ev rfl hlisted)
    rcases Option.ne_none_iff_exists'.mp (hthere filter) with ⟨kn, hkn⟩
    exact ⟨kn, hkn, (hforce hthere).mp h.modes filter kn hkn⟩
  · intro h
    have hthere : forall filter, w.kq.note ⟨fd, filter⟩ ≠ none := by
      intro filter hnone
      rcases h hlisted filter with ⟨kn, hkn, _⟩
      rw [hnone] at hkn
      contradiction
    rcases ffKevent_changed hsocket false ev (fun filter => Or.inr (hthere filter)) with
      ⟨hret, hchanged⟩
    constructor
    · intro _ _ _ _
      exact hret
    · intro fd' ev' hreq filter
      rcases hreq with ha | ⟨ha, _⟩
      · simp at ha
      · simp at ha
        rcases ha with ⟨rfl, rfl⟩
        rcases hchanged filter with ⟨kn', hkn'⟩
        exact armed_of_changed hkn'
    · apply (hforce hthere).mpr
      intro filter kn hkn
      rcases h hlisted filter with ⟨kn', hkn', hhas⟩
      rw [hkn] at hkn'
      injection hkn' with hkn'
      exact hkn' ▸ hhas

theorem faithful_of_idle {a : Action} (hmodes : ModesInForce w) (hkq : (a.next env w).kq = w.kq)
    (hinterest : (a.next env w).interest = w.interest) (hno : forall fd ev, ¬ a.Requests w fd ev) :
    Faithful env w a := by
  apply faithful_of_keeps hmodes
  · rw [hkq]
    exact KeepsModes.refl _
  · intro fd ev hev
    rw [hinterest] at hev
    exact hev
  · exact hno

theorem del_faithful (fd : Int) (event : Option EpollEvent) (hmodes : ModesInForce w) :
    Faithful env w (.ctl .del fd event) := by
  apply faithful_of_keeps hmodes
  · have hkeeps : KeepsModes w.kq.note (ffKevent env 0
        [deleteChange fd .read, deleteChange fd .write] w.kq).1.note :=
      ffKevent_pair_keepsModes env rfl rfl w.kq
    cases event with
    | none => exact hkeeps
    | some ev => exact hkeeps
  · intro fd' ev hev
    change (if _ = 0 then Function.update w.interest fd none else w.interest) fd' = some ev at hev
    split at hev
    · by_cases heq : fd' = fd
      · rw [heq, Function.update_self] at hev
        contradiction
      · rwa [Function.update_of_ne heq] at hev
    · exact hev
  · simp [Action.Requests]

theorem mod_unlisted_faithful (ev : EpollEvent) (hmodes : ModesInForce w)
    (hunlisted : w.interest fd = none) : Faithful env w (.ctl .mod fd (some ev)) := by
  have hinterest : (Action.next env (.ctl .mod fd (some ev)) w).interest = w.interest :=
    if_neg fun hadded => hadded.2 hunlisted
  apply faithful_of_keeps hmodes
  · exact ffKevent_pair_keepsModes env rfl rfl w.kq
  · intro fd' ev' hev'
    rwa [hinterest] at hev'
  · rintro fd' ev' (ha | ⟨ha, hlisted⟩)
    · simp at ha
    · simp at ha
      exact hlisted (ha.1 ▸ hunlisted)

theorem faithful_iff (a : Action) (hsocket : a.OnSockets env) (hmodes : ModesInForce w) :
    Faithful env w a <-> Compatible w a := by
  cases a with
  | wait events maxevents =>
      refine iff_of_true (faithful_of_keeps hmodes ?_ (fun fd ev h => h) ?_) trivial
      · exact ffEpollWait_keepsModes env events maxevents w.kq
      · intro fd ev hreq
        simp [Action.Requests] at hreq
  | notify key =>
      refine iff_of_true (faithful_of_keeps hmodes ?_ (fun fd ev h => h) ?_) trivial
      · exact notify_keepsModes env key w.kq
      · intro fd ev hreq
        simp [Action.Requests] at hreq
  | ctl op fd event =>
      cases op with
      | other =>
          cases event with
          | none =>
              exact iff_of_true (faithful_of_idle hmodes rfl rfl (by simp [Action.Requests])) trivial
          | some ev =>
              exact iff_of_true (faithful_of_idle hmodes rfl rfl (by simp [Action.Requests])) trivial
      | del => exact iff_of_true (del_faithful fd event hmodes) trivial
      | add =>
          cases event with
          | none =>
              exact iff_of_true (faithful_of_idle hmodes rfl rfl (by simp [Action.Requests])) trivial
          | some ev => exact add_faithful_iff ev hsocket hmodes
      | mod =>
          cases event with
          | none =>
              exact iff_of_true (faithful_of_idle hmodes rfl rfl (by simp [Action.Requests])) trivial
          | some ev =>
              by_cases hunlisted : w.interest fd = none
              · exact iff_of_true (mod_unlisted_faithful ev hmodes hunlisted)
                  fun hlisted => absurd hunlisted hlisted
              · exact mod_faithful_iff ev hsocket hmodes hunlisted

/-!
## Whole runs
-/

def FaithfulRun : List (Env × Action) -> World -> Prop
  | [], _ => True
  | (env, a) :: rest, w => Faithful env w a ∧ FaithfulRun rest (a.next env w)

def CompatibleRun : List (Env × Action) -> World -> Prop
  | [], _ => True
  | (env, a) :: rest, w => Compatible w a ∧ CompatibleRun rest (a.next env w)

theorem faithfulRun_iff (run : List (Env × Action)) (w : World) (hmodes : ModesInForce w)
    (hsockets : forall step, step ∈ run -> step.2.OnSockets step.1) :
    FaithfulRun run w <-> CompatibleRun run w := by
  induction run generalizing w with
  | nil => exact Iff.rfl
  | cons step rest ih =>
      rcases List.forall_mem_cons.mp hsockets with ⟨hsocket, hrest⟩
      have hstep := faithful_iff step.2 hsocket hmodes
      constructor
      · rintro ⟨hfaithful, hlater⟩
        exact ⟨hstep.mp hfaithful, (ih _ hfaithful.modes hrest).mp hlater⟩
      · rintro ⟨hcompatible, hlater⟩
        have hfaithful := hstep.mpr hcompatible
        exact ⟨hfaithful, (ih _ hfaithful.modes hrest).mpr hlater⟩

/--
In a run of calls on open sockets, interleaved with deliveries, every call is faithful
to the interest list if and only if every addition meets only knotes with the modes it
asks for and every modification of a listed descriptor meets two such knotes.
-/
theorem epoll_interest (run : List (Env × Action))
    (hsockets : forall step, step ∈ run -> step.2.OnSockets step.1) :
    FaithfulRun run World.start <-> CompatibleRun run World.start := by
  apply faithfulRun_iff run World.start _ hsockets
  intro fd ev hev
  contradiction

/-- Descriptor 3 is added for reading, its event is delivered, and it is turned to writing. -/
def turnedRun : List (Env × Action) :=
  [(readableEnv, .ctl .add 3 (some ⟨epollIn, 0⟩)), (readableEnv, .wait true 1),
    (readableEnv, .ctl .mod 3 (some ⟨epollOut, 0⟩))]

theorem epoll_interest_turned : turnedRun.length = 3 ∧ FaithfulRun turnedRun World.start := by
  refine ⟨rfl, (epoll_interest turnedRun ?_).mpr ⟨?_, trivial, ?_, trivial⟩⟩
  · intro step hstep
    simp only [turnedRun, List.mem_cons, List.not_mem_nil, or_false] at hstep
    rcases hstep with rfl | rfl | rfl
    · exact ⟨rfl, fun _ => rfl⟩
    · trivial
    · exact ⟨rfl, fun _ => rfl⟩
  · intro filter kn hkn
    contradiction
  · intro _
    rw [forall_filter]
    exact ⟨⟨_, rfl, rfl, rfl⟩, ⟨_, rfl, rfl, rfl⟩⟩

/-- After the delivery of a one-shot event the descriptor cannot be modified. -/
theorem epoll_interest_lost_oneshot : ¬ FaithfulRun
      [(readableEnv, .ctl .add 3 (some ⟨epollIn ||| epollOut ||| epollOneshot, 0⟩)),
        (readableEnv, .wait true 1),
        (readableEnv, .ctl .mod 3 (some ⟨epollIn ||| epollOut ||| epollOneshot, 0⟩))]
      World.start := by
  rintro ⟨_, _, hmod, _⟩
  have hret := hmod.mod_succeeds 3 _ rfl (by decide)
  revert hret
  decide

-- the deletion fails, so the descriptor is still listed when it is modified
example : ¬ CompatibleRun
    [(readableEnv, .ctl .add 3 (some ⟨epollIn ||| epollOut ||| epollOneshot, 0⟩)),
      (readableEnv, .wait true 1), (readableEnv, .ctl .del 3 none),
      (readableEnv, .ctl .mod 3 (some ⟨epollIn, 0⟩))] World.start := by
  rintro ⟨_, _, _, hmod, _⟩
  rcases hmod (by decide) .read with ⟨kn, hkn, _⟩
  contradiction

end Epoll
end FStackLite
