import FStackLite.Epoll.Interest
import Mathlib.Tactic.Ring

/-!
# User data

`ff_epoll_ctl` stores the 64 bits of user data in both knotes of a descriptor, and
`ff_event_to_epoll` writes them back into the caller's array.  A null pointer is taken
for no user data: then the descriptor is written into the first 32 bits of the field.
-/

namespace FStackLite
namespace Epoll

def epollErr : UInt32 := 0x8

def epollHup : UInt32 := 0x10

/-- An event as `kqueue_scan` passes it on. -/
structure Occurrence where
  ident : Int
  filter : Filter
  eof : Bool
  error : Bool
  fflags : Nat
  data : Int
  udata : Nat
deriving DecidableEq, Repr

/-- `EV_ERROR` is no flag of a knote: `kqueue_kevent` masks the flags of the system. -/
def Knote.occurrence (key : Key) (kn : Knote) : Occurrence :=
  { ident := key.fd
    filter := key.filter
    eof := kn.eof
    error := false
    fflags := kn.fflags
    data := kn.data
    udata := kn.udata }

def flag (b : Bool) (mask : UInt32) : UInt32 :=
  if b then mask else 0

/-- `event_one` at the end of `ff_event_to_epoll`. -/
def Occurrence.events (kev : Occurrence) : UInt32 :=
  let ready :=
    match kev.filter with
    | .read => flag (kev.data ≠ 0 || !kev.eof) epollIn
    | .write => epollOut
  let closed :=
    match kev.filter with
    | .read => epollIn
    | .write => epollErr
  ready ||| flag kev.error epollErr |||
    flag kev.eof (epollHup ||| flag (kev.fflags ≠ 0) epollErr ||| closed)

/-- The descriptor in the first half of the union, whose second half stays. -/
def dataFd (data : Nat) (fd : Int) : Nat :=
  data / 2 ^ 32 * 2 ^ 32 + (fd % 2 ^ 32).toNat

/-- The element that `ff_event_to_epoll` leaves, of the one that was there. -/
def Occurrence.onto (kev : Occurrence) (ev : EpollEvent) : EpollEvent :=
  ⟨kev.events, if kev.udata ≠ 0 then kev.udata else dataFd ev.data kev.ident⟩

structure EventList where
  events : Nat -> EpollEvent
  next : Nat

def ffEventToEpoll (l : EventList) (kev : Occurrence) : EventList :=
  ⟨Function.update l.events l.next (kev.onto (l.events l.next)), l.next + 1⟩

/-- `kevent_copyout` with a callback for each event. -/
def keventCopyout (kevs : List Occurrence) (l : EventList) : EventList :=
  kevs.foldl ffEventToEpoll l

/-- The array after a call of `ff_epoll_wait`. -/
def waitArray (env : Env) (epfd : Int) (events : Nat -> EpollEvent) (maxevents : Int) (kq : Kqueue) :
    Nat -> EpollEvent :=
  (keventCopyout ((ffEpollWait env epfd true maxevents kq).2.2.map fun d => d.2.occurrence d.1)
    ⟨events, 0⟩).events

/-!
## The array
-/

theorem keventCopyout_before (kevs : List Occurrence) (l : EventList) {i : Nat} (h : i < l.next) :
    (keventCopyout kevs l).events i = l.events i := by
  induction kevs generalizing l with
  | nil => rfl
  | cons kev kevs ih =>
      have hrest := ih (ffEventToEpoll l kev) (Nat.lt_succ_of_lt h)
      rw [keventCopyout, List.foldl_cons]
      exact hrest.trans (Function.update_of_ne (Nat.ne_of_lt h) _ _)

theorem keventCopyout_events (kevs : List Occurrence) (l : EventList) {i : Nat} {kev : Occurrence}
    (h : kevs[i]? = some kev) :
    (keventCopyout kevs l).events (l.next + i) = kev.onto (l.events (l.next + i)) := by
  induction kevs generalizing l i with
  | nil => contradiction
  | cons first kevs ih =>
      rw [keventCopyout, List.foldl_cons]
      cases i with
      | zero =>
          injection h with h
          have hkeep := keventCopyout_before kevs (ffEventToEpoll l first) (Nat.lt_succ_self l.next)
          rw [Nat.add_zero, <- h]
          exact hkeep.trans (Function.update_self _ _ _)
      | succ i =>
          have hrest := ih (ffEventToEpoll l first) h
          have hplace : (ffEventToEpoll l first).next + i = l.next + (i + 1) := by
            rw [ffEventToEpoll, Nat.add_assoc, Nat.add_comm 1 i]
          have hold : (ffEventToEpoll l first).events (l.next + (i + 1)) =
              l.events (l.next + (i + 1)) :=
            Function.update_of_ne (by omega) _ _
          rw [hplace, hold] at hrest
          exact hrest

theorem onto_data_iff (kev : Occurrence) :
    (forall ev, (kev.onto ev).data = kev.udata) <-> kev.udata ≠ 0 := by
  constructor
  · intro h hzero
    have hprior := h ⟨0, 2 ^ 32⟩
    simp only [Occurrence.onto, hzero, ne_eq, not_true_eq_false, if_false, dataFd] at hprior
    omega
  · intro h ev
    rw [Occurrence.onto, if_pos h]

/-!
## Runs

The state is the kqueue together with the user data that the last successful request
for each descriptor registered.
-/

structure Registry where
  kq : Kqueue
  registered : Int -> Option Nat

def Registry.start : Registry := ⟨Kqueue.empty, fun _ => none⟩

inductive DataAction where
  | act (a : Action)
  /-- The descriptor is closed, and may be opened anew afterwards. -/
  | close (fd : Int)

/-- `knote_fdclose` -/
def Kqueue.fdclose (fd : Int) (kq : Kqueue) : Kqueue :=
  ⟨fun key => if key.fd = fd then none else kq.note key, kq.queue.filter fun key => key.fd ≠ fd⟩

def Action.registers (ret : Int) (registered : Int -> Option Nat) : Action -> Int -> Option Nat
  | .ctl .add fd (some ev) | .ctl .mod fd (some ev) =>
      if ret = 0 then Function.update registered fd (some ev.data) else registered
  | _ => registered

def DataAction.next (env : Env) (s : Registry) : DataAction -> Registry
  | .act a =>
      match a.exec env s.kq with
      | (kq', ret) => ⟨kq', a.registers ret s.registered⟩
  | .close fd => ⟨s.kq.fdclose fd, Function.update s.registered fd none⟩

/-- Every event that a call of `ff_epoll_wait` reports carries the data of its descriptor. -/
def Registry.ReportsData (s : Registry) : Prop :=
  forall env events maxevents i key kn data,
    (ffEpollWait env 0 true maxevents s.kq).2.2[i]? = some (key, kn) ->
      s.registered key.fd = some data -> (waitArray env 0 events maxevents s.kq i).data = data

/-- The read knote is changed, and then the change of the write knote fails. -/
def HalfWay (env : Env) (add : Bool) (fd : Int) (kq : Kqueue) : Prop :=
  env.fget fd = 0 ∧ (kq.note ⟨fd, .read⟩ = none -> add = true ∧ env.attach ⟨fd, .read⟩ = 0) ∧
    kq.note ⟨fd, .write⟩ = none ∧ (add = true -> env.attach ⟨fd, .write⟩ ≠ 0)

/--
A request has user data other than zero, and one that fails half-way repeats the data of
the last one that succeeded.
-/
def Registry.Safe (env : Env) (s : Registry) : DataAction -> Prop
  | .act (.ctl .add fd (some ev)) =>
      ev.data ≠ 0 ∧
        (HalfWay env true fd s.kq -> forall data, s.registered fd = some data -> data = ev.data)
  | .act (.ctl .mod fd (some ev)) =>
      ev.data ≠ 0 ∧
        (HalfWay env false fd s.kq -> forall data, s.registered fd = some data -> data = ev.data)
  | _ => True

/-!
## The data of the knotes
-/

def Carries (registered : Int -> Option Nat) (key : Key) (kn : Knote) : Prop :=
  forall data, registered key.fd = some data -> kn.udata = data

theorem carries_ofRequest (registered : Int -> Option Nat) : OfRequest (Carries registered) := by
  intro key kn kn' hsame hkn data hdata
  exact hsame.udata.trans (hkn data hdata)

theorem settle_udata {env : Env} {kev : Kevent} {kn kn' : Knote} {kq : Kqueue}
    (h : (kq.settle env kev kn).note kev.key = some kn') : kn'.udata = kn.udata := by
  have hlook := lookUp_sameRequest (env.event kev.key) (kn.enableOrDisable kev)
  have henable := enableOrDisable_sameRequest kev kn
  rw [Kqueue.settle, enqueueIfDue_note_self] at h
  injection h with h
  rw [<- h]
  exact hlook.udata.trans henable.udata

section

variable {env : Env} {fd : Int} {add : Bool} {ev : EpollEvent} {kq : Kqueue} {filter : Filter}

theorem interest_found (h : (kqueueRegister env (interestChange add fd ev filter) kq).2 = 0) :
    env.fget fd = 0 := by
  apply Decidable.not_not.mp
  intro hclosed
  rw [kqueueRegister_closed (interestChange_flags add fd ev filter) hclosed] at h
  contradiction

theorem interest_created (h : (kqueueRegister env (interestChange add fd ev filter) kq).2 = 0)
    (hnote : kq.note ⟨fd, filter⟩ = none) : add = true ∧ env.attach ⟨fd, filter⟩ = 0 := by
  have herror := interest_error_iff (interest_found h) add ev filter kq
  simp only [h, hnote, ne_eq, not_true_eq_false, true_and, false_iff] at herror
  cases add with
  | false => exact absurd (fun htrue => by contradiction) herror
  | true =>
      exact ⟨rfl, Decidable.not_not.mp fun hattach => herror fun _ => hattach⟩

theorem interest_udata {kn : Knote}
    (h : (kqueueRegister env (interestChange add fd ev filter) kq).2 = 0)
    (hkn : (kqueueRegister env (interestChange add fd ev filter) kq).1.note ⟨fd, filter⟩ = some kn) :
    kn.udata = ev.data := by
  have hfound := interest_found h
  cases hnote : kq.note ⟨fd, filter⟩ with
  | some old =>
      rw [kqueueRegister_interest_some hfound add ev filter hnote] at hkn
      exact settle_udata hkn
  | none =>
      rcases interest_created h hnote with ⟨hadd, hattach⟩
      rw [kqueueRegister_interest_none hfound add ev filter hnote, if_neg (by simp [hadd]),
        if_neg (not_not.mpr hattach)] at hkn
      exact settle_udata hkn

/-- A request whose first change succeeds: both knotes of its descriptor, and the others. -/
theorem request_allNotes {registered registered' : Int -> Option Nat} {kq' : Kqueue}
    (h : AllNotes (Carries registered) kq.note)
    (hother : forall fd', fd' ≠ fd -> registered' fd' = registered fd')
    (hframe : forall fd' filter, fd' ≠ fd -> kq'.note ⟨fd', filter⟩ = kq.note ⟨fd', filter⟩)
    (hfd : forall filter kn, kq'.note ⟨fd, filter⟩ = some kn -> Carries registered' ⟨fd, filter⟩ kn) :
    AllNotes (Carries registered') kq'.note := by
  rintro ⟨fd', filter⟩ kn hkn
  by_cases heq : fd' = fd
  · subst heq
    exact hfd filter kn hkn
  · rw [hframe fd' filter heq] at hkn
    intro data hdata
    rw [hother fd' heq] at hdata
    exact h ⟨fd', filter⟩ kn hkn data hdata

theorem request_carries {registered : Int -> Option Nat} (h : AllNotes (Carries registered) kq.note)
    (hhalf : HalfWay env add fd kq -> forall data, registered fd = some data -> data = ev.data) :
    AllNotes (Carries
        (if (ffKevent env 0 [interestChange add fd ev .read, interestChange add fd ev .write]
            kq).2.ret = 0 then
          Function.update registered fd (some ev.data)
        else
          registered))
      (ffKevent env 0 [interestChange add fd ev .read, interestChange add fd ev .write]
        kq).1.note := by
  have hframe : forall fd' filter, fd' ≠ fd ->
      (ffKevent env 0 [interestChange add fd ev .read, interestChange add fd ev .write]
        kq).1.note ⟨fd', filter⟩ = kq.note ⟨fd', filter⟩ :=
    fun fd' filter hne => ffKevent_note_of_ne env hne rfl rfl filter kq
  have hread := kqueueRegister_note_of_ne env (interestChange add fd ev .write)
    (kqueueRegister env (interestChange add fd ev .read) kq).1 (read_ne_write fd).symm
  have hwrite := kqueueRegister_note_of_ne env (interestChange add fd ev .read) kq (read_ne_write fd)
  by_cases hfirst : (kqueueRegister env (interestChange add fd ev .read) kq).2 = 0
  · cases Decidable.em ((kqueueRegister env (interestChange add fd ev .write)
        (kqueueRegister env (interestChange add fd ev .read) kq).1).2 = 0) with
    | inl hsecond =>
        rw [ffKevent_both hfirst hsecond] at hframe ⊢
        rw [if_pos rfl]
        have hstored : forall data, Function.update registered fd (some ev.data) fd = some data ->
            ev.data = data := by
          intro data hdata
          rw [Function.update_self] at hdata
          injection hdata
        apply request_allNotes h (fun fd' hne => Function.update_of_ne hne _ _) hframe
        rw [forall_filter]
        constructor
        · intro kn hkn data hdata
          exact (interest_udata hfirst (hread.symm.trans hkn)).trans (hstored data hdata)
        · intro kn hkn data hdata
          exact (interest_udata hsecond hkn).trans (hstored data hdata)
    | inr hsecond =>
        have hfound := interest_found hfirst
        have hnone := (interest_error_iff hfound add ev .write _).mp hsecond
        rw [hwrite] at hnone
        rw [ffKevent_second_fails hfirst hsecond] at hframe ⊢
        rw [if_neg (by simp)]
        apply request_allNotes h (fun fd' hne => rfl) hframe
        rw [forall_filter]
        constructor
        · intro kn hkn data hdata
          rw [hhalf ⟨hfound, interest_created hfirst, hnone⟩ data hdata]
          exact interest_udata hfirst hkn
        · intro kn hkn
          rw [hwrite, hnone.1] at hkn
          contradiction
  · rw [ffKevent_first_fails hfirst, if_neg (by simp)]
    exact h

end

structure Registry.Sound (s : Registry) : Prop where
  carries : AllNotes (Carries s.registered) s.kq.note
  nonzero : forall fd data, s.registered fd = some data -> data ≠ 0

theorem Registry.Sound.reportsData {s : Registry} (h : s.Sound) : s.ReportsData := by
  intro env events maxevents i key kn data hreported hdata
  have hdelivered := (ffEpollWait_all (carries_ofRequest s.registered) h.carries env 0 true
    maxevents).2 (key, kn) (List.mem_of_getElem? hreported)
  have hudata : kn.udata = data := hdelivered data hdata
  have hevent : ((ffEpollWait env 0 true maxevents s.kq).2.2.map
      fun d => d.2.occurrence d.1)[i]? = some (kn.occurrence key) := by
    rw [List.getElem?_map, hreported]
    rfl
  have hwritten := keventCopyout_events _ ⟨events, 0⟩ hevent
  rw [Nat.zero_add] at hwritten
  have hne : (kn.occurrence key).udata ≠ 0 := by
    show kn.udata ≠ 0
    rw [hudata]
    exact h.nonzero key.fd data hdata
  rw [waitArray, hwritten, (onto_data_iff _).mpr hne]
  exact hudata

section

variable {env : Env} {s : Registry}

theorem registers_nonzero {data : Nat} {fd : Int} {ret : Int} (h : s.Sound) (hdata : data ≠ 0) :
    forall fd' data', (if ret = 0 then Function.update s.registered fd (some data)
      else s.registered) fd' = some data' -> data' ≠ 0 := by
  intro fd' data' heq
  split at heq
  · by_cases hsame : fd' = fd
    · rw [hsame, Function.update_self] at heq
      injection heq with heq
      rwa [<- heq]
    · rw [Function.update_of_ne hsame] at heq
      exact h.nonzero fd' data' heq
  · exact h.nonzero fd' data' heq

theorem close_sound (h : s.Sound) (fd : Int) : (DataAction.next env s (.close fd)).Sound := by
  constructor
  · intro key kn hkn data hdata
    have hnote : (if key.fd = fd then none else s.kq.note key) = some kn := hkn
    have hregistered : Function.update s.registered fd none key.fd = some data := hdata
    split at hnote
    · contradiction
    · next hne =>
        rw [Function.update_of_ne hne] at hregistered
        exact h.carries key kn hnote data hregistered
  · intro fd' data hdata
    have hregistered : Function.update s.registered fd none fd' = some data := hdata
    by_cases hsame : fd' = fd
    · rw [hsame, Function.update_self] at hregistered
      contradiction
    · rw [Function.update_of_ne hsame] at hregistered
      exact h.nonzero fd' data hregistered

theorem next_sound (h : s.Sound) {a : DataAction} (hsafe : s.Safe env a) :
    (a.next env s).Sound := by
  have hrequests := carries_ofRequest s.registered
  cases a with
  | close fd => exact close_sound h fd
  | act a =>
      cases a with
      | notify key => exact ⟨notify_allNotes hrequests h.carries env key, h.nonzero⟩
      | wait events maxevents =>
          exact ⟨(ffEpollWait_all hrequests h.carries env 0 events maxevents).1, h.nonzero⟩
      | ctl op fd event =>
          cases op with
          | other =>
              cases event with
              | none => exact h
              | some ev => exact h
          | del =>
              have hkept := ffKevent_delete_allNotes hrequests h.carries env fd
              cases event with
              | none => exact ⟨hkept, h.nonzero⟩
              | some ev => exact ⟨hkept, h.nonzero⟩
          | add =>
              cases event with
              | none => exact h
              | some ev =>
                  exact ⟨request_carries h.carries hsafe.2, registers_nonzero h hsafe.1⟩
          | mod =>
              cases event with
              | none => exact h
              | some ev =>
                  exact ⟨request_carries h.carries hsafe.2, registers_nonzero h hsafe.1⟩

end

def ReportsRun : List (Env × DataAction) -> Registry -> Prop
  | [], s => s.ReportsData
  | (env, a) :: rest, s => s.ReportsData ∧ ReportsRun rest (a.next env s)

def SafeRun : List (Env × DataAction) -> Registry -> Prop
  | [], _ => True
  | (env, a) :: rest, s => s.Safe env a ∧ SafeRun rest (a.next env s)

theorem reportsRun_of_sound (run : List (Env × DataAction)) {s : Registry} (h : s.Sound)
    (hsafe : SafeRun run s) : ReportsRun run s := by
  induction run generalizing s with
  | nil => exact h.reportsData
  | cons step rest ih => exact ⟨h.reportsData, ih (next_sound h hsafe.1) hsafe.2⟩

/--
In a run whose requests have user data other than zero, and in which a request that fails
half-way repeats the data of its descriptor, every event that is reported carries the
data of its descriptor.
-/
theorem epoll_user_data (run : List (Env × DataAction)) (hsafe : SafeRun run Registry.start) :
    ReportsRun run Registry.start := by
  apply reportsRun_of_sound run _ hsafe
  constructor
  · intro key kn hkn
    contradiction
  · intro fd data hdata
    contradiction

/-- Descriptor 3 is added, its event is delivered, and it gets other user data. -/
def relabelRun : List (Env × DataAction) :=
  [(readableEnv, .act (.ctl .add 3 (some ⟨epollIn, 2 ^ 64 - 1⟩))), (readableEnv, .act (.wait true 1)),
    (readableEnv, .act (.ctl .mod 3 (some ⟨epollIn, 5⟩)))]

theorem epoll_user_data_relabel : relabelRun.length = 3 ∧ ReportsRun relabelRun Registry.start := by
  refine ⟨rfl, epoll_user_data relabelRun ⟨⟨by decide, ?_⟩, trivial, ⟨by decide, ?_⟩, trivial⟩⟩
  · rintro ⟨_, _, _, hattach⟩
    exact absurd rfl (hattach rfl)
  · rintro ⟨_, _, hwrite, _⟩
    contradiction

/-- The user data 0 of descriptor 3 arrive as 3, below what the array held. -/
theorem epoll_user_data_zero :
    ¬ ReportsRun [(readableEnv, .act (.ctl .add 3 (some ⟨epollIn, 0⟩)))] Registry.start := by
  rintro ⟨_, hreports⟩
  have hdata := hreports readableEnv (fun _ => ⟨0, 2 ^ 32⟩) 1 0 _ _ 0 rfl rfl
  revert hdata
  decide

end Epoll
end FStackLite
