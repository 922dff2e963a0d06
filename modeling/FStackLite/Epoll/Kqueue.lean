import FStackLite.Constants
import Mathlib.Logic.Function.Basic

/-!
# Knotes for descriptors

The part of `freebsd/kern/kern_event.c` that registers, activates and delivers knotes
of the filters `EVFILT_READ` and `EVFILT_WRITE`.  One thread uses the queue, so the
flags that mark a knote as being worked on are left out.

What the socket layer answers is given by an environment: whether `fget` finds the
descriptor, whether the filter attaches, and what the filter's `f_event` finds.
-/

namespace FStackLite
namespace Epoll

inductive Filter where
  | read
  | write
deriving DecidableEq, Repr

structure Key where
  fd : Int
  filter : Filter
deriving DecidableEq, Repr

/-- `kn_flags`, `kn_sfflags`, `kn_sdata`, `kn_fflags`, `kn_data`, `kn_udata` and `kn_status`. -/
structure Knote where
  oneshot : Bool
  clear : Bool
  dispatch : Bool
  eof : Bool
  sfflags : Nat
  sdata : Int
  fflags : Nat
  data : Int
  udata : Nat
  active : Bool
  queued : Bool
  disabled : Bool
deriving DecidableEq, Repr

structure Kevent where
  key : Key
  add : Bool
  delete : Bool
  enable : Bool
  disable : Bool
  oneshot : Bool
  clear : Bool
  dispatch : Bool
  fflags : Nat
  data : Int
  udata : Nat
deriving DecidableEq, Repr

/-- What `f_event` finds: `eof` holds the error of a socket that is shut down. -/
structure Report where
  fires : Bool
  data : Int
  eof : Option Nat
deriving DecidableEq, Repr

structure Env where
  /-- The error of `fget`, or of an attempt to watch the queue itself. -/
  fget : Int -> Int
  /-- The error of `f_attach`. -/
  attach : Key -> Int
  event : Key -> Report

structure Kqueue where
  note : Key -> Option Knote
  queue : List Key

def Kqueue.empty : Kqueue := ⟨fun _ => none, []⟩

def enoent : Int := 2

/-!
## Registering
-/

/-- `f_event` stores what it finds in the knote. -/
def Knote.evaluate (r : Report) (kn : Knote) : Knote :=
  match r.eof with
  | none => { kn with data := r.data }
  | some error => { kn with data := r.data, eof := true, fflags := error }

def Knote.enableOrDisable (kev : Kevent) (kn : Knote) : Knote :=
  if kev.enable then
    { kn with disabled := false }
  else if kev.disable then
    { kn with disabled := true }
  else
    kn

def Knote.lookUp (r : Report) (kn : Knote) : Knote :=
  if kn.disabled then
    kn
  else if r.fires then
    { kn.evaluate r with active := true }
  else
    kn.evaluate r

/-- `(kn_status & (KN_ACTIVE | KN_DISABLED | KN_QUEUED)) == KN_ACTIVE` -/
def Knote.due (kn : Knote) : Bool :=
  kn.active && !kn.disabled && !kn.queued

def Kqueue.set (kq : Kqueue) (key : Key) (kn : Option Knote) : Kqueue :=
  { kq with note := Function.update kq.note key kn }

def Kqueue.enqueueIfDue (kq : Kqueue) (key : Key) (kn : Knote) : Kqueue :=
  if kn.due then
    { kq.set key (some { kn with queued := true }) with queue := kq.queue ++ [key] }
  else
    kq.set key (some kn)

/-- The code behind the label `done_ev_add`. -/
def Kqueue.settle (env : Env) (kev : Kevent) (kn : Knote) (kq : Kqueue) : Kqueue :=
  kq.enqueueIfDue kev.key ((kn.enableOrDisable kev).lookUp (env.event kev.key))

def Kqueue.drop (kq : Kqueue) (key : Key) : Kqueue :=
  { kq.set key none with queue := kq.queue.filter fun k => k ≠ key }

/-- A knote as `EV_ADD` creates it. -/
def Kevent.newKnote (kev : Kevent) : Knote :=
  { oneshot := kev.oneshot
    clear := kev.clear
    dispatch := kev.dispatch
    eof := false
    sfflags := kev.fflags
    sdata := kev.data
    fflags := 0
    data := 0
    udata := kev.udata
    active := false
    queued := false
    disabled := false }

def Knote.update (kev : Kevent) (kn : Knote) : Knote :=
  { kn with udata := kev.udata, sfflags := kev.fflags, sdata := kev.data }

def kqueueRegister (env : Env) (kev : Kevent) (kq : Kqueue) : Kqueue × Int :=
  if kev.enable && kev.disable then
    (kq, einval)
  else if env.fget kev.key.fd ≠ 0 then
    (kq, env.fget kev.key.fd)
  else
    match kq.note kev.key with
    | none =>
        if !kev.add then
          (kq, enoent)
        else if env.attach kev.key ≠ 0 then
          (kq, env.attach kev.key)
        else
          (kq.settle env kev kev.newKnote, 0)
    | some kn =>
        if kev.delete then
          (kq.drop kev.key, 0)
        else
          (kq.settle env kev (kn.update kev), 0)

/-- `kqueue_kevent` with changes and no room for events: it stops at the first error. -/
def kqueueKevent (env : Env) : List Kevent -> Kqueue -> Kqueue × Int
  | [], kq => (kq, 0)
  | kev :: rest, kq =>
      match kqueueRegister env kev kq with
      | (kq', error) => if error = 0 then kqueueKevent env rest kq' else (kq', error)

/-!
## Notification

A socket whose state changes asks the filters of its knotes.
-/

def Kqueue.notify (env : Env) (key : Key) (kq : Kqueue) : Kqueue :=
  match kq.note key with
  | none => kq
  | some kn =>
      if (env.event key).fires then
        kq.enqueueIfDue key { kn.evaluate (env.event key) with active := true }
      else
        kq.set key (some (kn.evaluate (env.event key)))

/-!
## Delivery

`kqueue_scan` puts a marker behind the queue and takes knotes from the head until it
meets the marker or has delivered enough.  What it puts back goes behind the marker, so
`ahead` is what is left before the marker and `behind` is what is behind it.
-/

structure Scan where
  note : Key -> Option Knote
  behind : List Key
  delivered : List (Key × Knote)

/-- One knote from the head of the queue; the result says whether it was delivered. -/
def Scan.take (env : Env) (key : Key) (kn : Knote) (s : Scan) : Scan × Bool :=
  if kn.disabled then
    ({ s with note := Function.update s.note key (some { kn with queued := false }) }, false)
  else if kn.oneshot then
    ({ s with
        note := Function.update s.note key none
        delivered := s.delivered ++ [(key, kn)] }, true)
  else
    let kn' := kn.evaluate (env.event key)
    if (env.event key).fires then
      let delivered := s.delivered ++ [(key, kn')]
      if kn.clear || kn.dispatch then
        let cleared := if kn.clear then { kn' with data := 0, fflags := 0 } else kn'
        let kn'' := { cleared with
          disabled := kn.disabled || kn.dispatch, queued := false, active := false }
        ({ s with note := Function.update s.note key (some kn''), delivered := delivered }, true)
      else
        ({ note := Function.update s.note key (some kn'), behind := s.behind ++ [key],
           delivered := delivered }, true)
    else
      let quiet := { kn' with queued := false, active := false }
      ({ s with note := Function.update s.note key (some quiet) }, false)

/-- The loop of `kqueue_scan`: what is left before the marker, and the state. -/
def scanLoop (env : Env) : List Key -> Nat -> Scan -> List Key × Scan
  | ahead, 0, s => (ahead, s)
  | [], _, s => ([], s)
  | key :: ahead, count + 1, s =>
      match s.note key with
      | none => scanLoop env ahead (count + 1) s
      | some kn =>
          match s.take env key kn with
          | (s', true) => scanLoop env ahead count s'
          | (s', false) => scanLoop env ahead (count + 1) s'

def kqueueScan (env : Env) (maxevents : Nat) (kq : Kqueue) : Kqueue × List (Key × Knote) :=
  let (ahead, s) := scanLoop env kq.queue maxevents ⟨kq.note, [], []⟩
  (⟨s.note, ahead ++ s.behind⟩, s.delivered)

end Epoll
end FStackLite
