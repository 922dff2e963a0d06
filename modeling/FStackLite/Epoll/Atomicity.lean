import FStackLite.Epoll.Control

/-!
# Operations that fail half-way

An operation is all or nothing unless its first change succeeds and its second one
fails.  Deleting needs both knotes, modifying needs both knotes, and adding needs both
filters to attach.
-/

namespace FStackLite
namespace Epoll

/-!
## What a change does to its knote
-/

variable {env : Env} {kev : Kevent} {kq : Kqueue} {fd : Int} {kn : Knote}

theorem kqueueRegister_closed (hflags : (kev.enable && kev.disable) = false)
    (hfd : env.fget kev.key.fd ≠ 0) : kqueueRegister env kev kq = (kq, env.fget kev.key.fd) := by
  simp [kqueueRegister, hflags, hfd]

theorem kqueueRegister_delete (hfd : env.fget fd = 0) (filter : Filter) (kq : Kqueue) :
    kqueueRegister env (deleteChange fd filter) kq =
      if kq.note ⟨fd, filter⟩ = none then (kq, enoent) else (kq.drop ⟨fd, filter⟩, 0) := by
  cases hnote : kq.note ⟨fd, filter⟩ with
  | none => simp [kqueueRegister, deleteChange, hfd, hnote]
  | some kn => simp [kqueueRegister, deleteChange, hfd, hnote]

theorem interestChange_flags (add : Bool) (fd : Int) (ev : EpollEvent) (filter : Filter) :
    ((interestChange add fd ev filter).enable && (interestChange add fd ev filter).disable) =
      false := by
  simp [interestChange]

theorem kqueueRegister_interest_some (hfd : env.fget fd = 0) (add : Bool) (ev : EpollEvent)
    (filter : Filter) (hnote : kq.note ⟨fd, filter⟩ = some kn) :
    kqueueRegister env (interestChange add fd ev filter) kq =
      (kq.settle env (interestChange add fd ev filter)
        (kn.update (interestChange add fd ev filter)), 0) := by
  have hflags := interestChange_flags add fd ev filter
  have hkey : (interestChange add fd ev filter).key = ⟨fd, filter⟩ := rfl
  simp only [kqueueRegister, hflags, hkey, hfd, hnote]
  simp [interestChange]

theorem kqueueRegister_interest_none (hfd : env.fget fd = 0) (add : Bool) (ev : EpollEvent)
    (filter : Filter) (hnote : kq.note ⟨fd, filter⟩ = none) :
    kqueueRegister env (interestChange add fd ev filter) kq =
      if add = false then
        (kq, enoent)
      else if env.attach ⟨fd, filter⟩ ≠ 0 then
        (kq, env.attach ⟨fd, filter⟩)
      else
        (kq.settle env (interestChange add fd ev filter)
          (interestChange add fd ev filter).newKnote, 0) := by
  have hflags := interestChange_flags add fd ev filter
  have hkey : (interestChange add fd ev filter).key = ⟨fd, filter⟩ := rfl
  have hadd : (interestChange add fd ev filter).add = add := rfl
  simp only [kqueueRegister, hflags, hkey, hfd, hnote, hadd]
  simp

/-- A knote that already is as a change and the report of its filter would leave it. -/
structure Knote.Settled (kn : Knote) (kev : Kevent) (r : Report) : Prop where
  udata : kn.udata = kev.udata
  sfflags : kn.sfflags = kev.fflags
  sdata : kn.sdata = kev.data
  disabled : kn.disabled = kev.disable
  reported : kev.enable = true -> kn.evaluate r = kn
  active : kev.enable = true -> r.fires = true -> kn.active = true
  queued : kev.enable = true -> kn.active = true -> kn.queued = true

theorem lookUp_of_disable (kn : Knote) (r : Report) (henable : kev.enable = false)
    (hdisable : kev.disable = true) :
    ((kn.update kev).enableOrDisable kev).lookUp r = { kn.update kev with disabled := true } := by
  simp [Knote.lookUp, Knote.enableOrDisable, henable, hdisable]

theorem lookUp_of_enable (kn : Knote) (r : Report) (henable : kev.enable = true) :
    ((kn.update kev).enableOrDisable kev).lookUp r =
      { ({ kn.update kev with disabled := false } : Knote).evaluate r with
        active := kn.active || r.fires } := by
  rcases r with ⟨fires, data, eof⟩
  cases fires <;> cases eof <;>
    simp [Knote.lookUp, Knote.enableOrDisable, Knote.evaluate, Knote.update, henable]

theorem settled_of_lookUp {r : Report} (hflags : kev.disable = !kev.enable)
    (hsame : ((kn.update kev).enableOrDisable kev).lookUp r = kn) (hdue : kn.due = false) :
    kn.Settled kev r := by
  cases henable : kev.enable with
  | false =>
      rw [henable] at hflags
      rw [lookUp_of_disable kn r henable hflags] at hsame
      constructor
      · exact (congrArg Knote.udata hsame).symm
      · exact (congrArg Knote.sfflags hsame).symm
      · exact (congrArg Knote.sdata hsame).symm
      · exact (congrArg Knote.disabled hsame).symm.trans hflags.symm
      all_goals simp [henable]
  | true =>
      rw [henable] at hflags
      rw [lookUp_of_enable kn r henable] at hsame
      rcases kn with ⟨oneshot, clear, dispatch, eof, sfflags, sdata, fflags, data, udata, active,
        queued, disabled⟩
      rcases r with ⟨fires, rdata, reof⟩
      cases reof <;> simp [Knote.update, Knote.evaluate] at hsame <;>
        constructor <;> simp_all [Knote.due, Knote.evaluate]

theorem lookUp_of_settled {r : Report} (hflags : kev.disable = !kev.enable) (h : kn.Settled kev r) :
    ((kn.update kev).enableOrDisable kev).lookUp r = kn ∧ kn.due = false := by
  rcases h with ⟨hudata, hsfflags, hsdata, hdisabled, hreported, hactive, hqueued⟩
  have hupdate : kn.update kev = kn := by
    rw [Knote.update, <- hudata, <- hsfflags, <- hsdata]
  cases henable : kev.enable with
  | false =>
      rw [henable] at hflags
      have hoff : kn.disabled = true := hdisabled.trans hflags
      rw [lookUp_of_disable kn r henable hflags, hupdate, <- hoff]
      exact ⟨rfl, by simp [Knote.due, hoff]⟩
  | true =>
      rw [henable] at hflags
      have hon : kn.disabled = false := hdisabled.trans hflags
      have hactive' : (kn.active || r.fires) = kn.active := by
        cases hfires : r.fires with
        | false => exact Bool.or_false kn.active
        | true =>
            rw [hactive henable hfires]
            rfl
      constructor
      · rw [lookUp_of_enable kn r henable, hupdate, <- hon, hreported henable, hactive']
      · cases hact : kn.active with
        | false => simp [Knote.due, hact]
        | true => simp [Knote.due, hqueued henable hact]

theorem settle_eq_self_iff (env : Env) (kev : Kevent) (hnote : kq.note kev.key = some kn)
    (hflags : kev.disable = !kev.enable) :
    kq.settle env kev (kn.update kev) = kq <-> kn.Settled kev (env.event kev.key) := by
  unfold Kqueue.settle
  rw [enqueueIfDue_eq_self_iff hnote]
  constructor
  · rintro ⟨hsame, hdue⟩
    rw [hsame] at hdue
    exact settled_of_lookUp hflags hsame hdue
  · intro h
    rcases lookUp_of_settled hflags h with ⟨hsame, hdue⟩
    rw [hsame]
    exact ⟨rfl, hdue⟩

/-!
## Operations
-/

/--
What an operation owes: if it fails, the queue is as before, and a descriptor that
was added has no knote left when it is deleted.  `epfd` is the error of finding the
kqueue, `added` says whether the descriptor had been added.
-/
structure Atomic (op : Op) (epfd fd : Int) (added : Bool) (before after : Kqueue) (ret : Int) :
    Prop where
  failed : ret = -1 -> after = before
  deleted : op = .del -> epfd = 0 -> added = true -> forall filter, after.note ⟨fd, filter⟩ = none

theorem ffKevent_pair_failed_iff (env : Env) (first second : Kevent) (kq : Kqueue) :
    ((ffKevent env 0 [first, second] kq).2.ret = -1 ->
        (ffKevent env 0 [first, second] kq).1 = kq) <-> ((kqueueRegister env first kq).2 = 0 ->
        (kqueueRegister env second (kqueueRegister env first kq).1).2 ≠ 0 ->
          (kqueueRegister env first kq).1 = kq) := by
  by_cases hfirst : (kqueueRegister env first kq).2 = 0
  · cases Decidable.em
        ((kqueueRegister env second (kqueueRegister env first kq).1).2 = 0) with
    | inl hsecond =>
        rw [ffKevent_both hfirst hsecond]
        simp [hsecond]
    | inr hsecond =>
        rw [ffKevent_second_fails hfirst hsecond]
        simp [hfirst, hsecond]
  · rw [ffKevent_first_fails hfirst]
    simp [hfirst]

/--
The inputs on which an operation is all or nothing.  Deleting: the descriptor has both
knotes or none, or only the write knote and it was not added.  Adding: the write filter
does not fail to attach, or the read filter does, or the read knote is there and already
as the operation would leave it.  Modifying: both knotes are there, or the read knote is
not, or it is already as the operation would leave it.
-/
def ControlSafe (env : Env) (epfd : Int) (op : Op) (fd : Int) (event : Option EpollEvent)
    (kq : Kqueue) (added : Bool) : Prop :=
  epfd = 0 ->
    match op, event with
    | .del, _ =>
        if env.fget fd = 0 then
          (kq.note ⟨fd, .read⟩ = none <-> kq.note ⟨fd, .write⟩ = none) ∨
            (kq.note ⟨fd, .read⟩ = none ∧ added = false)
        else
          added = true -> forall filter, kq.note ⟨fd, filter⟩ = none
    | .add, some ev =>
        env.fget fd = 0 -> kq.note ⟨fd, .write⟩ = none -> env.attach ⟨fd, .write⟩ ≠ 0 ->
          match kq.note ⟨fd, .read⟩ with
          | none => env.attach ⟨fd, .read⟩ ≠ 0
          | some kn => kn.Settled (interestChange true fd ev .read) (env.event ⟨fd, .read⟩)
    | .mod, some ev =>
        env.fget fd = 0 -> kq.note ⟨fd, .write⟩ = none -> forall kn,
          kq.note ⟨fd, .read⟩ = some kn ->
            kn.Settled (interestChange false fd ev .read) (env.event ⟨fd, .read⟩)
    | _, _ => True

theorem read_ne_write (fd : Int) : (⟨fd, .write⟩ : Key) ≠ ⟨fd, .read⟩ := by
  simp

theorem drop_note_self (kq : Kqueue) (key : Key) : (kq.drop key).note key = none := by
  simp [Kqueue.drop, Kqueue.set]

theorem drop_note_of_ne (kq : Kqueue) {key key' : Key} (h : key' ≠ key) :
    (kq.drop key).note key' = kq.note key' :=
  set_note_of_ne kq none h

theorem drop_ne_self {key : Key} (h : kq.note key = some kn) : kq.drop key ≠ kq := by
  intro heq
  have hself := drop_note_self kq key
  rw [heq, h] at hself
  contradiction

theorem forall_filter {p : Filter -> Prop} : (forall filter, p filter) <-> p .read ∧ p .write := by
  constructor
  · intro h
    exact ⟨h .read, h .write⟩
  · rintro ⟨hread, hwrite⟩ filter
    cases filter with
    | read => exact hread
    | write => exact hwrite

/-!
## Deletions

`EPOLL_CTL_DEL` deletes the read knote and then the write knote, and stops at the first
that is not there.
-/

section

variable {env : Env} {fd : Int} {kq : Kqueue}

theorem ffKevent_delete_closed (hclosed : env.fget fd ≠ 0) :
    ffKevent env 0 [deleteChange fd .read, deleteChange fd .write] kq =
      (kq, ⟨-1, some (env.fget fd)⟩) := by
  have hfirst : kqueueRegister env (deleteChange fd .read) kq = (kq, env.fget fd) :=
    kqueueRegister_closed rfl hclosed
  simp [ffKevent, kqueueKevent_pair, hfirst, hclosed]

theorem ffKevent_delete_no_read (hopen : env.fget fd = 0) (hread : kq.note ⟨fd, .read⟩ = none) :
    ffKevent env 0 [deleteChange fd .read, deleteChange fd .write] kq = (kq, ⟨-1, some enoent⟩) := by
  have hfirst := kqueueRegister_delete hopen .read kq
  rw [if_pos hread] at hfirst
  simp [ffKevent, kqueueKevent_pair, hfirst, enoent]

theorem ffKevent_delete_read (hopen : env.fget fd = 0) (hread : kq.note ⟨fd, .read⟩ ≠ none) :
    ffKevent env 0 [deleteChange fd .read, deleteChange fd .write] kq =
      if kq.note ⟨fd, .write⟩ = none then (kq.drop ⟨fd, .read⟩, ⟨-1, some enoent⟩)
      else ((kq.drop ⟨fd, .read⟩).drop ⟨fd, .write⟩, ⟨0, none⟩) := by
  have hfirst := kqueueRegister_delete hopen .read kq
  have hsecond := kqueueRegister_delete hopen .write (kq.drop ⟨fd, .read⟩)
  rw [if_neg hread] at hfirst
  rw [drop_note_of_ne kq (read_ne_write fd)] at hsecond
  split
  · next hwrite =>
      rw [if_pos hwrite] at hsecond
      simp [ffKevent, kqueueKevent_pair, hfirst, hsecond, enoent]
  · next hwrite =>
      rw [if_neg hwrite] at hsecond
      simp [ffKevent, kqueueKevent_pair, hfirst, hsecond]

theorem drop_both_note (filter : Filter) :
    ((kq.drop ⟨fd, .read⟩).drop ⟨fd, .write⟩).note ⟨fd, filter⟩ = none := by
  revert filter
  rw [forall_filter, drop_note_of_ne _ (read_ne_write fd).symm]
  exact ⟨drop_note_self kq _, drop_note_self _ _⟩

end

theorem atomic_delete_same_iff (fd : Int) (added : Bool) (kq : Kqueue) (ret : Int) :
    Atomic .del 0 fd added kq kq ret <->
      (added = true -> forall filter, kq.note ⟨fd, filter⟩ = none) :=
  ⟨fun h => h.deleted rfl rfl, fun h => ⟨fun _ => rfl, fun _ _ => h⟩⟩

theorem delete_atomic_iff (env : Env) (fd : Int) (event : Option EpollEvent) (kq : Kqueue)
    (added : Bool) : Atomic .del 0 fd added kq (ffEpollCtl env 0 .del fd event kq).1
        (ffEpollCtl env 0 .del fd event kq).2.ret <-> ControlSafe env 0 .del fd event kq added := by
  have hdel : ffEpollCtl env 0 .del fd event kq =
      ffKevent env 0 [deleteChange fd .read, deleteChange fd .write] kq := rfl
  rw [hdel]
  simp only [ControlSafe, true_implies]
  by_cases hopen : env.fget fd = 0
  · rw [if_pos hopen]
    cases hread : kq.note ⟨fd, .read⟩ with
    | none =>
        rw [ffKevent_delete_no_read hopen hread, atomic_delete_same_iff, forall_filter, hread]
        cases added with
        | false => simp
        | true => simp
    | some kn =>
        rw [ffKevent_delete_read hopen (by simp [hread])]
        cases hwrite : kq.note ⟨fd, .write⟩ with
        | none =>
            rw [if_pos rfl]
            constructor
            · intro h
              exact absurd (h.failed rfl) (drop_ne_self hread)
            · intro h
              simp at h
        | some kn' =>
            rw [if_neg (by simp)]
            constructor
            · intro _
              exact Or.inl (by simp)
            · intro _
              exact ⟨fun h => by contradiction, fun _ _ _ => drop_both_note⟩
  · rw [ffKevent_delete_closed hopen, if_neg hopen]
    exact atomic_delete_same_iff fd added kq (-1)

/-!
## Additions and modifications
-/

theorem interest_error_iff (hfd : env.fget fd = 0) (add : Bool) (ev : EpollEvent)
    (filter : Filter) (kq : Kqueue) :
    (kqueueRegister env (interestChange add fd ev filter) kq).2 ≠ 0 <->
      kq.note ⟨fd, filter⟩ = none ∧ (add = true -> env.attach ⟨fd, filter⟩ ≠ 0) := by
  cases hnote : kq.note ⟨fd, filter⟩ with
  | some kn => simp [kqueueRegister_interest_some hfd add ev filter hnote]
  | none =>
      rw [kqueueRegister_interest_none hfd add ev filter hnote]
      cases add with
      | false => simp [enoent]
      | true =>
          by_cases hattach : env.attach ⟨fd, filter⟩ = 0
          · simp [hattach]
          · simp [hattach]

theorem interest_same_iff (hfd : env.fget fd = 0) (add : Bool) (ev : EpollEvent) (filter : Filter)
    (kq : Kqueue) : ((kqueueRegister env (interestChange add fd ev filter) kq).2 = 0 ->
        (kqueueRegister env (interestChange add fd ev filter) kq).1 = kq) <->
      match kq.note ⟨fd, filter⟩ with
      | none => add = true -> env.attach ⟨fd, filter⟩ ≠ 0
      | some kn => kn.Settled (interestChange add fd ev filter) (env.event ⟨fd, filter⟩) := by
  cases hnote : kq.note ⟨fd, filter⟩ with
  | some kn =>
      have hkey : (interestChange add fd ev filter).key = ⟨fd, filter⟩ := rfl
      rw [kqueueRegister_interest_some hfd add ev filter hnote]
      have hsame := settle_eq_self_iff env (interestChange add fd ev filter) hnote rfl
      simpa [hkey] using hsame
  | none =>
      rw [kqueueRegister_interest_none hfd add ev filter hnote]
      cases add with
      | false => simp [enoent]
      | true =>
          by_cases hattach : env.attach ⟨fd, filter⟩ = 0
          · rw [if_neg (by simp), if_neg (not_not.mpr hattach)]
            simp only [true_implies, hattach, ne_eq, not_true_eq_false, iff_false]
            intro heq
            have hself := enqueueIfDue_note_self kq ⟨fd, filter⟩
              (((interestChange true fd ev filter).newKnote.enableOrDisable
                (interestChange true fd ev filter)).lookUp (env.event ⟨fd, filter⟩))
            have hnew := congrArg (fun kq => kq.note ⟨fd, filter⟩) heq
            rw [hnote] at hnew
            exact Option.some_ne_none _ (hself.symm.trans hnew)
          · simp [hattach]

theorem interest_atomic_iff (env : Env) (fd : Int) {op : Op} (hop : op ≠ .del) (add : Bool)
    (ev : EpollEvent) (kq : Kqueue) (added : Bool) : Atomic op 0 fd added kq
        (ffKevent env 0 [interestChange add fd ev .read, interestChange add fd ev .write] kq).1
        (ffKevent env 0 [interestChange add fd ev .read, interestChange add fd ev .write] kq).2.ret <->
      (env.fget fd = 0 -> kq.note ⟨fd, .write⟩ = none -> (add = true -> env.attach ⟨fd, .write⟩ ≠ 0) ->
        match kq.note ⟨fd, .read⟩ with
        | none => add = true -> env.attach ⟨fd, .read⟩ ≠ 0
        | some kn => kn.Settled (interestChange add fd ev .read) (env.event ⟨fd, .read⟩)) := by
  have hfailed := ffKevent_pair_failed_iff env (interestChange add fd ev .read)
    (interestChange add fd ev .write) kq
  have hatomic : forall after ret, Atomic op 0 fd added kq after ret <-> (ret = -1 -> after = kq) :=
    fun after ret => ⟨fun h => h.failed, fun h => ⟨h, fun hdel => absurd hdel hop⟩⟩
  rw [hatomic, hfailed]
  by_cases hopen : env.fget fd = 0
  · have hframe : (kqueueRegister env (interestChange add fd ev .read) kq).1.note ⟨fd, .write⟩ =
        kq.note ⟨fd, .write⟩ :=
      kqueueRegister_note_of_ne env (interestChange add fd ev .read) kq (read_ne_write fd)
    rw [interest_error_iff hopen add ev .write, hframe, <- interest_same_iff hopen add ev .read kq]
    constructor
    · intro h _ hwrite hattach hfirst
      exact h hfirst ⟨hwrite, hattach⟩
    · intro h hfirst hsecond
      exact h hopen hsecond.1 hsecond.2 hfirst
  · have hfirst : kqueueRegister env (interestChange add fd ev .read) kq = (kq, env.fget fd) :=
      kqueueRegister_closed (interestChange_flags add fd ev .read) hopen
    simp [hfirst, hopen]

theorem ffEpollCtl_no_kqueue {epfd : Int} (h : epfd ≠ 0) (env : Env) (op : Op) (fd : Int)
    (event : Option EpollEvent) (kq : Kqueue) : (ffEpollCtl env epfd op fd event kq).1 = kq := by
  cases op <;> cases event <;> simp [ffEpollCtl, ffKevent, h]

/--
A failed operation leaves the knotes of the epoll descriptor as they were, and a
deletion leaves no knote of a descriptor that was added, if and only if the operation
cannot fail half-way and a deletion does not meet the write knote alone.
-/
theorem epoll_control_atomicity (env : Env) (epfd : Int) (op : Op) (fd : Int)
    (event : Option EpollEvent) (kq : Kqueue) (added : Bool) :
    Atomic op epfd fd added kq (ffEpollCtl env epfd op fd event kq).1
        (ffEpollCtl env epfd op fd event kq).2.ret <->
      ControlSafe env epfd op fd event kq added := by
  by_cases hbad : epfd = 0
  · subst hbad
    have hinvalid : forall op', op' ≠ Op.del -> Atomic op' 0 fd added kq kq (-1) :=
      fun op' hop => ⟨fun _ => rfl, fun hdel => absurd hdel hop⟩
    cases op with
    | del => exact delete_atomic_iff env fd event kq added
    | other => exact iff_of_true (hinvalid .other (by simp)) (fun _ => trivial)
    | add =>
        cases event with
        | none => exact iff_of_true (hinvalid .add (by simp)) (fun _ => trivial)
        | some ev =>
            have h := interest_atomic_iff env fd (show Op.add ≠ .del by simp) true ev kq added
            simpa [ffEpollCtl, ControlSafe] using h
    | mod =>
        cases event with
        | none => exact iff_of_true (hinvalid .mod (by simp)) (fun _ => trivial)
        | some ev =>
            have h := interest_atomic_iff env fd (show Op.mod ≠ .del by simp) false ev kq added
            simp only [ffEpollCtl, ControlSafe, true_implies]
            rw [h]
            cases hread : kq.note ⟨fd, .read⟩ with
            | none => simp
            | some kn => simp
  · rw [ffEpollCtl_no_kqueue hbad]
    constructor
    · intro _ hgood
      contradiction
    · intro _
      exact ⟨fun _ => rfl, fun _ hgood => absurd hgood hbad⟩

def readableEnv : Env :=
  ⟨fun _ => 0, fun _ => 0, fun key => ⟨decide (key.filter = .read), 0, none⟩⟩

/-- Descriptor 3 is added for one event of either kind, and its read event is delivered. -/
def afterOneshot : Kqueue :=
  (ffEpollWait readableEnv 0 true 1
    (ffEpollCtl readableEnv 0 .add 3 (some ⟨epollIn ||| epollOut ||| epollOneshot, 0⟩)
      .empty).1).1

/-- Deleting the descriptor now fails and leaves its write knote. -/
theorem epoll_control_leaves_write :
    ¬ Atomic .del 0 3 true afterOneshot (ffEpollCtl readableEnv 0 .del 3 none afterOneshot).1
      (ffEpollCtl readableEnv 0 .del 3 none afterOneshot).2.ret := by
  intro h
  have hwrite := h.deleted rfl rfl rfl .write
  revert hwrite
  decide

end Epoll
end FStackLite
