import FStackLite.Epoll.Kqueue

/-!
# Epoll calls on a kqueue

`ff_epoll_ctl` turns every operation into two changes of the kqueue, one for each
filter, which are applied one after the other until one fails.
-/

namespace FStackLite
namespace Epoll

def epollIn : UInt32 := 0x1

def epollOut : UInt32 := 0x4

def epollOneshot : UInt32 := 0x40000000

def epollEt : UInt32 := 0x80000000

/-- `struct epoll_event`; `data` is the 64-bit user data. -/
structure EpollEvent where
  events : UInt32
  data : Nat
deriving DecidableEq, Repr

def EpollEvent.has (ev : EpollEvent) (mask : UInt32) : Bool :=
  ev.events &&& mask != 0

def EpollEvent.wants (ev : EpollEvent) : Filter -> Bool
  | .read => ev.has epollIn
  | .write => ev.has epollOut

inductive Op where
  | add
  | mod
  | del
  /-- Any other value of the argument. -/
  | other
deriving DecidableEq, Repr

def deleteChange (fd : Int) (filter : Filter) : Kevent :=
  { key := ⟨fd, filter⟩
    add := false
    delete := true
    enable := false
    disable := false
    oneshot := false
    clear := false
    dispatch := false
    fflags := 0
    data := 0
    udata := 0 }

def interestChange (add : Bool) (fd : Int) (ev : EpollEvent) (filter : Filter) : Kevent :=
  { key := ⟨fd, filter⟩
    add := add
    delete := false
    enable := ev.wants filter
    disable := !ev.wants filter
    oneshot := ev.has epollOneshot
    clear := ev.has epollEt
    dispatch := false
    fflags := 0
    data := 0
    udata := ev.data }

/-- The value that a call returns, and `errno` if it is set. -/
structure Answer where
  ret : Int
  errno : Option Int
deriving DecidableEq, Repr

/-- `ff_kevent` without room for events; `epfd` is the error of finding the kqueue. -/
def ffKevent (env : Env) (epfd : Int) (changes : List Kevent) (kq : Kqueue) : Kqueue × Answer :=
  if epfd ≠ 0 then
    (kq, ⟨-1, some epfd⟩)
  else
    match kqueueKevent env changes kq with
    | (kq', error) => if error = 0 then (kq', ⟨0, none⟩) else (kq', ⟨-1, some error⟩)

def ffEpollCtl (env : Env) (epfd : Int) (op : Op) (fd : Int) (event : Option EpollEvent)
    (kq : Kqueue) : Kqueue × Answer :=
  match op, event with
  | .del, _ => ffKevent env epfd [deleteChange fd .read, deleteChange fd .write] kq
  | .add, some ev =>
      ffKevent env epfd [interestChange true fd ev .read, interestChange true fd ev .write] kq
  | .mod, some ev =>
      ffKevent env epfd [interestChange false fd ev .read, interestChange false fd ev .write] kq
  | _, _ => (kq, ⟨-1, some einval⟩)

/-- `events` says that the array for the events is not `NULL`. -/
def ffEpollWait (env : Env) (epfd : Int) (events : Bool) (maxevents : Int) (kq : Kqueue) :
    Kqueue × Answer × List (Key × Knote) :=
  if !events || maxevents < 1 then
    (kq, ⟨-1, some einval⟩, [])
  else if epfd ≠ 0 then
    (kq, ⟨-1, some epfd⟩, [])
  else
    match kqueueScan env maxevents.toNat kq with
    | (kq', delivered) => (kq', ⟨delivered.length, none⟩, delivered)

/-!
## One change
-/

@[simp] theorem set_note_self (kq : Kqueue) (key : Key) (kn : Option Knote) :
    (kq.set key kn).note key = kn := by
  simp [Kqueue.set]

variable {key : Key}

theorem set_note_of_ne (kq : Kqueue) {key' : Key} (kn : Option Knote) (h : key' ≠ key) :
    (kq.set key kn).note key' = kq.note key' := by
  simp [Kqueue.set, h]

theorem enqueueIfDue_note_self (kq : Kqueue) (key : Key) (kn : Knote) :
    (kq.enqueueIfDue key kn).note key = some { kn with queued := kn.queued || kn.due } := by
  unfold Kqueue.enqueueIfDue
  cases hdue : kn.due with
  | false => simp
  | true => simp [Kqueue.set]

theorem enqueueIfDue_note_of_ne (kq : Kqueue) {key' : Key} (kn : Knote) (h : key' ≠ key) :
    (kq.enqueueIfDue key kn).note key' = kq.note key' := by
  unfold Kqueue.enqueueIfDue
  split
  · exact set_note_of_ne kq _ h
  · exact set_note_of_ne kq _ h

theorem enqueueIfDue_eq_self_iff {kq : Kqueue} {kn kn' : Knote} (hnote : kq.note key = some kn) :
    kq.enqueueIfDue key kn' = kq <-> kn' = kn ∧ kn'.due = false := by
  unfold Kqueue.enqueueIfDue
  cases hdue : kn'.due with
  | false =>
      simp only [Bool.false_eq_true, if_false, and_true]
      constructor
      · intro h
        have hself := congrArg (fun kq => kq.note key) h
        simpa [hnote] using hself
      · rintro rfl
        rw [Kqueue.set, <- hnote, Function.update_eq_self]
  | true =>
      simp only [if_true, Bool.true_eq_false, and_false, iff_false]
      intro h
      have hlength := congrArg (fun kq => kq.queue.length) h
      simp at hlength

theorem kqueueRegister_of_error {env : Env} {kev : Kevent} {kq : Kqueue}
    (h : (kqueueRegister env kev kq).2 ≠ 0) : (kqueueRegister env kev kq).1 = kq := by
  unfold kqueueRegister at h ⊢
  split
  · rfl
  · split
    · rfl
    · split
      · split
        · rfl
        · split
          · rfl
          · simp_all
      · split
        · simp_all
        · simp_all

theorem kqueueRegister_note_of_ne (env : Env) (kev : Kevent) (kq : Kqueue) (h : key ≠ kev.key) :
    (kqueueRegister env kev kq).1.note key = kq.note key := by
  unfold kqueueRegister
  split
  · rfl
  · split
    · rfl
    · split
      · split
        · rfl
        · split
          · rfl
          · exact enqueueIfDue_note_of_ne kq _ h
      · split
        · exact set_note_of_ne kq none h
        · exact enqueueIfDue_note_of_ne kq _ h

theorem kqueueKevent_pair (env : Env) (first second : Kevent) (kq : Kqueue) :
    kqueueKevent env [first, second] kq =
      if (kqueueRegister env first kq).2 = 0 then
        kqueueRegister env second (kqueueRegister env first kq).1
      else
        kqueueRegister env first kq := by
  simp only [kqueueKevent]
  split
  · split
    · rename_i hsecond
      rw [<- hsecond]
    · rfl
  · rfl

section

variable {env : Env} {first second : Kevent} {kq : Kqueue}

theorem ffKevent_first_fails (h : (kqueueRegister env first kq).2 ≠ 0) :
    ffKevent env 0 [first, second] kq = (kq, ⟨-1, some (kqueueRegister env first kq).2⟩) := by
  simp [ffKevent, kqueueKevent_pair, h, kqueueRegister_of_error h]

theorem ffKevent_second_fails (hfirst : (kqueueRegister env first kq).2 = 0)
    (h : (kqueueRegister env second (kqueueRegister env first kq).1).2 ≠ 0) :
    ffKevent env 0 [first, second] kq = ((kqueueRegister env first kq).1,
      ⟨-1, some (kqueueRegister env second (kqueueRegister env first kq).1).2⟩) := by
  simp [ffKevent, kqueueKevent_pair, hfirst, h, kqueueRegister_of_error h]

theorem ffKevent_both (hfirst : (kqueueRegister env first kq).2 = 0)
    (h : (kqueueRegister env second (kqueueRegister env first kq).1).2 = 0) :
    ffKevent env 0 [first, second] kq =
      ((kqueueRegister env second (kqueueRegister env first kq).1).1, ⟨0, none⟩) := by
  simp [ffKevent, kqueueKevent_pair, hfirst, h]

end

end Epoll
end FStackLite
