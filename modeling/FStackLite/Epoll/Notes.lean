import FStackLite.Epoll.Atomicity

/-!
# What knotes keep

A knote is created by a request and may be changed by another one.  Notifications and
deliveries change only what the filter found and the place of the knote in the queue, so
whatever follows from the request holds of a knote until the next one.
-/

namespace FStackLite
namespace Epoll

theorem ffKevent_fst (env : Env) (changes : List Kevent) (kq : Kqueue) :
    (ffKevent env 0 changes kq).1 = (kqueueKevent env changes kq).1 := by
  simp only [ffKevent, ne_eq, not_true_eq_false, if_false]
  split
  · rfl
  · rfl

/-!
## The request behind a knote
-/

structure Knote.SameRequest (kn kn' : Knote) : Prop where
  oneshot : kn'.oneshot = kn.oneshot
  clear : kn'.clear = kn.clear
  dispatch : kn'.dispatch = kn.dispatch
  sfflags : kn'.sfflags = kn.sfflags
  sdata : kn'.sdata = kn.sdata
  udata : kn'.udata = kn.udata

theorem Knote.SameRequest.refl (kn : Knote) : kn.SameRequest kn :=
  ⟨rfl, rfl, rfl, rfl, rfl, rfl⟩

theorem evaluate_sameRequest (r : Report) (kn : Knote) : kn.SameRequest (kn.evaluate r) := by
  unfold Knote.evaluate
  cases r.eof with
  | none => exact ⟨rfl, rfl, rfl, rfl, rfl, rfl⟩
  | some error => exact ⟨rfl, rfl, rfl, rfl, rfl, rfl⟩

theorem enableOrDisable_sameRequest (kev : Kevent) (kn : Knote) :
    kn.SameRequest (kn.enableOrDisable kev) := by
  unfold Knote.enableOrDisable
  split
  · exact ⟨rfl, rfl, rfl, rfl, rfl, rfl⟩
  · split
    · exact ⟨rfl, rfl, rfl, rfl, rfl, rfl⟩
    · exact .refl kn

theorem lookUp_sameRequest (r : Report) (kn : Knote) : kn.SameRequest (kn.lookUp r) := by
  have hevaluated := evaluate_sameRequest r kn
  unfold Knote.lookUp
  split
  · exact .refl kn
  · split
    · exact { hevaluated with }
    · exact hevaluated

def OfRequest (P : Key -> Knote -> Prop) : Prop :=
  forall key kn kn', kn.SameRequest kn' -> P key kn -> P key kn'

def AllNotes (P : Key -> Knote -> Prop) (note : Key -> Option Knote) : Prop :=
  forall key kn, note key = some kn -> P key kn

theorem AllNotes.update {P : Key -> Knote -> Prop} {note : Key -> Option Knote}
    (h : AllNotes P note) {key : Key} {new : Option Knote}
    (hnew : forall kn, new = some kn -> P key kn) : AllNotes P (Function.update note key new) := by
  intro key' kn hkn
  by_cases heq : key' = key
  · rw [heq, Function.update_self] at hkn
    rw [heq]
    exact hnew kn hkn
  · rw [Function.update_of_ne heq] at hkn
    exact h key' kn hkn

theorem AllNotes.drop {P : Key -> Knote -> Prop} {note : Key -> Option Knote}
    (h : AllNotes P note) (key : Key) : AllNotes P (Function.update note key none) := by
  apply h.update
  intro kn hkn
  contradiction

/-!
## Requests
-/

section

variable {P : Key -> Knote -> Prop} (hP : OfRequest P) {kn : Knote} {kq : Kqueue}

include hP

theorem AllNotes.replace {note : Key -> Option Knote} (h : AllNotes P note) {key : Key}
    {kn' : Knote} (hkn : P key kn) (hsame : kn.SameRequest kn') :
    AllNotes P (Function.update note key (some kn')) := by
  apply h.update
  intro kn'' hkn''
  injection hkn'' with hkn''
  rw [<- hkn'']
  exact hP key kn kn' hsame hkn

theorem enqueueIfDue_allNotes (h : AllNotes P kq.note) {key : Key} {kn' : Knote} (hkn : P key kn)
    (hsame : kn.SameRequest kn') : AllNotes P (kq.enqueueIfDue key kn').note := by
  unfold Kqueue.enqueueIfDue
  split
  · exact h.replace hP hkn { hsame with }
  · exact h.replace hP hkn hsame

theorem settle_allNotes (h : AllNotes P kq.note) (env : Env) {kev : Kevent} (hkn : P kev.key kn) :
    AllNotes P (kq.settle env kev kn).note := by
  have henabled := hP kev.key _ _ (enableOrDisable_sameRequest kev kn) hkn
  exact enqueueIfDue_allNotes hP h henabled (lookUp_sameRequest _ _)

theorem kqueueRegister_allNotes (h : AllNotes P kq.note) (env : Env) {kev : Kevent}
    (hnew : kev.add = true -> P kev.key kev.newKnote)
    (hold : kev.delete = false -> forall kn, kq.note kev.key = some kn -> P kev.key (kn.update kev)) :
    AllNotes P (kqueueRegister env kev kq).1.note := by
  unfold kqueueRegister
  split
  · exact h
  · split
    · exact h
    · split
      · split
        · exact h
        · next hadd =>
            split
            · exact h
            · exact settle_allNotes hP h env (hnew (by simpa using hadd))
      · next kn hnote =>
          split
          · exact h.drop kev.key
          · next hdelete =>
              exact settle_allNotes hP h env (hold (by simpa using hdelete) kn hnote)

theorem ffKevent_delete_allNotes (h : AllNotes P kq.note) (env : Env) (fd : Int) :
    AllNotes P (ffKevent env 0 [deleteChange fd .read, deleteChange fd .write] kq).1.note := by
  have hdelete : forall filter {kq : Kqueue}, AllNotes P kq.note ->
      AllNotes P (kqueueRegister env (deleteChange fd filter) kq).1.note := by
    intro filter kq h
    apply kqueueRegister_allNotes hP h env
    · intro hadd
      contradiction
    · intro hdelete
      contradiction
  rw [ffKevent_fst, kqueueKevent_pair]
  split
  · exact hdelete .write (hdelete .read h)
  · exact hdelete .read h

/-!
## Notifications and deliveries
-/

theorem notify_allNotes (h : AllNotes P kq.note) (env : Env) (key : Key) :
    AllNotes P (kq.notify env key).note := by
  unfold Kqueue.notify
  split
  · exact h
  · next kn hnote =>
      have hevaluated := evaluate_sameRequest (env.event key) kn
      split
      · exact enqueueIfDue_allNotes hP h (h key kn hnote) { hevaluated with }
      · exact h.replace hP (h key kn hnote) hevaluated

end

structure Scan.All (P : Key -> Knote -> Prop) (s : Scan) : Prop where
  note : AllNotes P s.note
  delivered : forall d, d ∈ s.delivered -> P d.1 d.2

section

variable {P : Key -> Knote -> Prop} (hP : OfRequest P)

include hP

theorem take_all (env : Env) {key : Key} {kn : Knote} {s : Scan} (h : s.All P)
    (hnote : s.note key = some kn) : (s.take env key kn).1.All P := by
  have hkn := h.note key kn hnote
  have hevaluated := evaluate_sameRequest (env.event key) kn
  have hdelivered : forall kn', kn.SameRequest kn' ->
      forall d, d ∈ s.delivered ++ [(key, kn')] -> P d.1 d.2 := by
    intro kn' hsame d hd
    rcases List.mem_append.mp hd with hd | hd
    · exact h.delivered d hd
    · rw [List.mem_singleton.mp hd]
      exact hP key kn kn' hsame hkn
  unfold Scan.take
  split
  · exact ⟨h.note.replace hP hkn ⟨rfl, rfl, rfl, rfl, rfl, rfl⟩, h.delivered⟩
  · split
    · exact ⟨h.note.drop key, hdelivered kn (.refl kn)⟩
    · dsimp only
      split
      · split
        · refine ⟨h.note.replace hP hkn ?_, hdelivered _ hevaluated⟩
          cases kn.clear with
          | false => exact { hevaluated with }
          | true => exact { hevaluated with }
        · exact ⟨h.note.replace hP hkn hevaluated, hdelivered _ hevaluated⟩
      · exact ⟨h.note.replace hP hkn { hevaluated with }, h.delivered⟩

theorem scanLoop_all (env : Env) (ahead : List Key) (count : Nat) {s : Scan} (h : s.All P) :
    (scanLoop env ahead count s).2.All P := by
  induction ahead generalizing count s with
  | nil =>
      cases count with
      | zero => exact h
      | succ count => exact h
  | cons key ahead ih =>
      cases count with
      | zero => exact h
      | succ count =>
          unfold scanLoop
          split
          · exact ih (count + 1) h
          · next kn hnote =>
              have htake := take_all hP env h hnote
              split
              · next s' heq =>
                  rw [heq] at htake
                  exact ih count htake
              · next s' heq =>
                  rw [heq] at htake
                  exact ih (count + 1) htake

/-- The knotes that a call of `ff_epoll_wait` leaves, and those it reports. -/
theorem ffEpollWait_all {kq : Kqueue} (h : AllNotes P kq.note) (env : Env) (epfd : Int)
    (events : Bool) (maxevents : Int) :
    AllNotes P (ffEpollWait env epfd events maxevents kq).1.note ∧
      forall d, d ∈ (ffEpollWait env epfd events maxevents kq).2.2 -> P d.1 d.2 := by
  have hnone : forall d, d ∈ ([] : List (Key × Knote)) -> P d.1 d.2 := by
    intro d hd
    contradiction
  unfold ffEpollWait
  split
  · exact ⟨h, hnone⟩
  · split
    · exact ⟨h, hnone⟩
    · have hscan := scanLoop_all hP env kq.queue maxevents.toNat (s := ⟨kq.note, [], []⟩) ⟨h, hnone⟩
      exact ⟨hscan.note, hscan.delivered⟩

end

end Epoll
end FStackLite
