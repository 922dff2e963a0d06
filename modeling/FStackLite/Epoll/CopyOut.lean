import FStackLite.Epoll.UserData
import FStackLite.Foundation.Cursor

/-!
# Events copied out

`kqueue_scan` passes the events that it finds to `kevent_copyout` in batches.  That writes them to
the caller's array, as they are or through a callback, and keeps in its argument where the next
one goes.
-/

namespace FStackLite
namespace Epoll
namespace CopyOut

open Foundation

/-- `struct kevent` -/
structure RawKevent where
  ident : UInt64
  filter : UInt16
  flags : UInt16
  fflags : UInt32
  data : UInt64
  udata : UInt64

def sizeofKevent : Nat := 32

def RawKevent.bytes (kev : RawKevent) : Bytes :=
  (((((Bytes.putNum (fun _ => 0) 0 8 kev.ident.toNat).putNum 8 2 kev.filter.toNat).putNum
    10 2 kev.flags.toNat).putNum 12 4 kev.fflags.toNat).putNum 16 8 kev.data.toNat).putNum
    24 8 kev.udata.toNat

def arrayBytes (kevp : List RawKevent) : Bytes :=
  fun k => ((kevp[k / sizeofKevent]?).map fun kev => kev.bytes (k % sizeofKevent)).getD 0

/-- `do_each`, which finds the pointer to the next element in the argument. -/
abbrev DoEach := Cursor -> RawKevent -> Cursor

def keventCopyout (doEach : Option DoEach) (uap : Cursor) (kevp : List RawKevent) : Cursor :=
  match doEach with
  | none =>
      ⟨uap.mem.store uap.next (kevp.length * sizeofKevent) (arrayBytes kevp),
        uap.next + sizeofKevent * kevp.length⟩
  | some each => kevp.foldl each uap

/-!
## The translation for `epoll`
-/

def evfiltRead : UInt16 := 0xffff

def evfiltWrite : UInt16 := 0xfffe

def evEof : UInt16 := 0x8000

def evError : UInt16 := 0x4000

/-- `event_one` at the end. -/
def eventOne (kev : RawKevent) : UInt32 :=
  let ready :=
    if kev.filter = evfiltRead then
      if kev.data ≠ 0 ∨ kev.flags &&& evEof = 0 then epollIn else 0
    else if kev.filter = evfiltWrite then
      epollOut
    else
      0
  let failed := if kev.flags &&& evError ≠ 0 then ready ||| epollErr else ready
  if kev.flags &&& evEof ≠ 0 then
    let hungUp := failed ||| epollHup
    let reset := if kev.fflags ≠ 0 then hungUp ||| epollErr else hungUp
    if kev.filter = evfiltRead then
      reset ||| epollIn
    else if kev.filter = evfiltWrite then
      reset ||| epollErr
    else
      reset
  else
    failed

/-- `struct epoll_event` is packed. -/
def sizeofEpollEvent : Nat := 12

def ffEventToEpoll (ev : Cursor) (kev : RawKevent) : Cursor :=
  let mem := ev.mem.putNum ev.next 4 (eventOne kev).toNat
  if kev.udata ≠ 0 then
    ⟨mem.putNum (ev.next + 4) 8 kev.udata.toNat, ev.next + sizeofEpollEvent⟩
  else
    ⟨mem.putNum (ev.next + 4) 4 (kev.ident.toNat % 2 ^ 32), ev.next + sizeofEpollEvent⟩

/-- The element for an event; without user data the last four bytes are what they were. -/
def epollElement (kev : RawKevent) (old : Bytes) : Bytes :=
  let element := old.putNum 0 4 (eventOne kev).toNat
  if kev.udata ≠ 0 then
    element.putNum 4 8 kev.udata.toNat
  else
    element.putNum 4 4 (kev.ident.toNat % 2 ^ 32)

/-!
## Batches
-/

def kqNevents : Nat := 8

/-- `keva`, and the batches that were passed on before. -/
structure Batches where
  keva : List RawKevent
  passed : List (List RawKevent)

/-- One event of `kqueue_scan`. -/
def Batches.push (b : Batches) (kev : RawKevent) : Batches :=
  if b.keva.length + 1 = kqNevents then
    ⟨[], b.passed ++ [b.keva ++ [kev]]⟩
  else
    ⟨b.keva ++ [kev], b.passed⟩

def Batches.finish (b : Batches) : List (List RawKevent) :=
  if b.keva.length ≠ 0 then b.passed ++ [b.keva] else b.passed

def scanBatches (kevs : List RawKevent) : List (List RawKevent) :=
  (kevs.foldl Batches.push ⟨[], []⟩).finish

/-- `kn_kevent` -/
def Knote.raw (key : Key) (kn : Knote) : RawKevent where
  ident := UInt64.ofInt key.fd
  filter :=
    match key.filter with
    | .read => evfiltRead
    | .write => evfiltWrite
  flags :=
    (if kn.oneshot then 0x0010 else 0) ||| (if kn.clear then 0x0020 else 0) |||
      (if kn.dispatch then 0x0080 else 0) ||| (if kn.eof then evEof else 0)
  fflags := UInt32.ofNat kn.fflags
  data := UInt64.ofInt kn.data
  udata := UInt64.ofNat kn.udata

def scanned (env : Env) (maxevents : Nat) (kq : Kqueue) : List RawKevent :=
  (kqueueScan env maxevents kq).2.map fun d => Knote.raw d.1 d.2

/-- `ff_kevent_do_each` without changes, as far as the array is concerned. -/
def ffKeventDoEach (env : Env) (kq : Kqueue) (eventlist : Cursor) (nevents : Nat)
    (doEach : Option DoEach) : Cursor :=
  (scanBatches (scanned env nevents kq)).foldl (keventCopyout doEach) eventlist

/-!
## What is written
-/

/-- A callback that writes its translation of the event and moves the pointer behind it. -/
def Translates (each : DoEach) (size : Nat) (element : RawKevent -> Bytes -> Bytes) : Prop :=
  forall ev kev, each ev kev = Cursor.put size element ev kev

theorem ffEventToEpoll_translates : Translates ffEventToEpoll sizeofEpollEvent epollElement := by
  intro ev kev
  rw [ffEventToEpoll, Cursor.put, epollElement]
  split
  · rw [Cursor.store_putNum _ _ _ (by decide), Cursor.store_putNum _ _ _ (by decide),
      Cursor.store_drop_self]
    rfl
  · rw [Cursor.store_putNum _ _ _ (by decide), Cursor.store_putNum _ _ _ (by decide),
      Cursor.store_drop_self]
    rfl

theorem arrayBytes_first (kev : RawKevent) (kevp : List RawKevent) {k : Nat}
    (h : k < sizeofKevent) : arrayBytes (kev :: kevp) k = kev.bytes k := by
  rw [arrayBytes, Nat.div_eq_of_lt h, Nat.mod_eq_of_lt h]
  rfl

theorem arrayBytes_drop (kev : RawKevent) (kevp : List RawKevent) :
    (arrayBytes (kev :: kevp)).drop sizeofKevent = arrayBytes kevp := by
  funext k
  rw [Bytes.drop, arrayBytes, Nat.add_comm, Nat.add_div_right _ (by decide), Nat.add_mod_right,
    List.getElem?_cons_succ]
  rfl

theorem keventCopyout_none (uap : Cursor) (kevp : List RawKevent) : keventCopyout none uap kevp =
      kevp.foldl (Cursor.put sizeofKevent fun kev _ => kev.bytes) uap := by
  induction kevp generalizing uap with
  | nil =>
      rw [keventCopyout, List.length_nil, Nat.zero_mul, Nat.mul_zero, Nat.add_zero,
        Cursor.store_zero]
      rfl
  | cons kev kevp ih =>
      rw [List.foldl_cons, <- ih]
      simp only [keventCopyout, Cursor.put]
      have hlength : (kev :: kevp).length * sizeofKevent =
          sizeofKevent + kevp.length * sizeofKevent := by
        rw [List.length_cons, Nat.succ_mul, Nat.add_comm]
      have hnext : uap.next + sizeofKevent * (kev :: kevp).length =
          uap.next + sizeofKevent + sizeofKevent * kevp.length := by
        rw [List.length_cons, Nat.mul_succ]
        omega
      rw [hlength, hnext, Cursor.store_add, arrayBytes_drop,
        Cursor.store_congr fun k hk => arrayBytes_first kev kevp hk]

theorem filled_of_batches {each : DoEach} {size : Nat} {element : RawKevent -> Bytes -> Bytes}
    (h : Translates each size element) (uap : Cursor) (batches : List (List RawKevent)) :
    Cursor.Filled size element uap.mem uap.next batches.flatten
      (batches.foldl (keventCopyout (some each)) uap) := by
  have heach : each = Cursor.put size element := funext fun ev => funext fun kev => h ev kev
  have hflat : batches.foldl (keventCopyout (some each)) uap =
      batches.flatten.foldl (Cursor.put size element) uap := by
    rw [List.foldl_flatten, heach]
    rfl
  rw [hflat]
  exact Cursor.filled_foldl size element _ uap

theorem filled_without_callback (uap : Cursor) (batches : List (List RawKevent)) :
    Cursor.Filled sizeofKevent (fun kev _ => kev.bytes) uap.mem uap.next batches.flatten
      (batches.foldl (keventCopyout none) uap) := by
  have hnone : keventCopyout none =
      fun uap kevp => kevp.foldl (Cursor.put sizeofKevent fun kev _ => kev.bytes) uap :=
    funext fun uap => funext fun kevp => keventCopyout_none uap kevp
  rw [hnone, <- List.foldl_flatten]
  exact Cursor.filled_foldl _ _ _ uap

/-!
## The batches of a scan
-/

theorem push_spec (b : Batches) (kev : RawKevent) (hkeva : b.keva.length < kqNevents)
    (hpassed : forall batch, batch ∈ b.passed -> batch.length ≤ kqNevents) :
    (b.push kev).passed.flatten ++ (b.push kev).keva = b.passed.flatten ++ b.keva ++ [kev] ∧
      (b.push kev).keva.length < kqNevents ∧
      forall batch, batch ∈ (b.push kev).passed -> batch.length ≤ kqNevents := by
  rw [Batches.push]
  split
  · next hfull =>
      refine ⟨by simp, (by decide : 0 < kqNevents), ?_⟩
      intro batch hbatch
      rcases List.mem_append.mp hbatch with hbatch | hbatch
      · exact hpassed batch hbatch
      · rw [List.mem_singleton.mp hbatch, List.length_append]
        exact Nat.le_of_eq hfull
  · next hroom =>
      refine ⟨by simp, ?_, hpassed⟩
      rw [List.length_append, List.length_singleton]
      omega

theorem foldl_push_spec (kevs : List RawKevent) (b : Batches) (hkeva : b.keva.length < kqNevents)
    (hpassed : forall batch, batch ∈ b.passed -> batch.length ≤ kqNevents) :
    (kevs.foldl Batches.push b).passed.flatten ++ (kevs.foldl Batches.push b).keva =
        b.passed.flatten ++ b.keva ++ kevs ∧ (kevs.foldl Batches.push b).keva.length < kqNevents ∧
      forall batch, batch ∈ (kevs.foldl Batches.push b).passed -> batch.length ≤ kqNevents := by
  induction kevs generalizing b with
  | nil => exact ⟨(List.append_nil _).symm, hkeva, hpassed⟩
  | cons kev kevs ih =>
      rcases push_spec b kev hkeva hpassed with ⟨hflat, hkeva', hpassed'⟩
      rcases ih (b.push kev) hkeva' hpassed' with ⟨hrest, hrestKeva, hrestPassed⟩
      rw [List.foldl_cons]
      refine ⟨?_, hrestKeva, hrestPassed⟩
      rw [hrest, hflat, List.append_assoc _ [kev]]
      rfl

theorem scanBatches_spec (kevs : List RawKevent) : (scanBatches kevs).flatten = kevs ∧
      forall batch, batch ∈ scanBatches kevs -> batch.length ≤ kqNevents := by
  rcases foldl_push_spec kevs ⟨[], []⟩ (by decide) (by simp) with ⟨hflat, hkeva, hpassed⟩
  rw [scanBatches, Batches.finish]
  split
  · constructor
    · rw [List.flatten_append, List.flatten_singleton]
      exact hflat
    · intro batch hbatch
      rcases List.mem_append.mp hbatch with hbatch | hbatch
      · exact hpassed batch hbatch
      · rw [List.mem_singleton.mp hbatch]
        exact Nat.le_of_lt hkeva
  · next hempty =>
      rw [List.eq_nil_of_length_eq_zero (Decidable.not_not.mp hempty), List.append_nil] at hflat
      exact ⟨hflat, hpassed⟩

theorem take_delivered (env : Env) (key : Key) (kn : Knote) (s : Scan) :
    (s.take env key kn).1.delivered.length =
      s.delivered.length + if (s.take env key kn).2 then 1 else 0 := by
  simp only [Scan.take]
  split
  · rfl
  · split
    · rw [List.length_append]
      rfl
    · split
      · split
        · rw [List.length_append]
          rfl
        · rw [List.length_append]
          rfl
      · rfl

theorem scanLoop_delivered (env : Env) (ahead : List Key) (count : Nat) (s : Scan) :
    (scanLoop env ahead count s).2.delivered.length ≤ s.delivered.length + count := by
  induction ahead generalizing count s with
  | nil =>
      cases count with
      | zero => exact Nat.le_refl _
      | succ count => exact Nat.le_add_right _ _
  | cons key ahead ih =>
      cases count with
      | zero => exact Nat.le_refl _
      | succ count =>
          rw [scanLoop]
          split
          · exact ih (count + 1) s
          · next kn hnote =>
              have htake := take_delivered env key kn s
              split
              · next s' hs' =>
                  have hrest := ih count s'
                  rw [hs'] at htake
                  simp only [if_true] at htake
                  omega
              · next s' hs' =>
                  have hrest := ih (count + 1) s'
                  rw [hs'] at htake
                  simp only [Bool.false_eq_true, if_false] at htake
                  omega

theorem scanned_length_le (env : Env) (maxevents : Nat) (kq : Kqueue) :
    (scanned env maxevents kq).length ≤ maxevents := by
  have hloop := scanLoop_delivered env kq.queue maxevents ⟨kq.note, [], []⟩
  rw [List.length_nil, Nat.zero_add] at hloop
  rw [scanned, List.length_map]
  exact hloop

/--
However the events are divided into batches, the array holds them one after the other from its
start: their translations, if there is a callback that translates, and otherwise themselves.  A
scan writes no more of them than the array has room for.
-/
theorem batched_delivery :
    (forall (each : DoEach) (size : Nat) (element : RawKevent -> Bytes -> Bytes),
      Translates each size element -> (forall (uap : Cursor) (batches : List (List RawKevent)),
          Cursor.Filled size element uap.mem uap.next batches.flatten
            (batches.foldl (keventCopyout (some each)) uap)) ∧ forall env kq uap nevents,
          Cursor.Filled size element uap.mem uap.next (scanned env nevents kq)
            (ffKeventDoEach env kq uap nevents (some each))) ∧
    Translates ffEventToEpoll sizeofEpollEvent epollElement ∧
    (forall (uap : Cursor) (batches : List (List RawKevent)),
      Cursor.Filled sizeofKevent (fun kev _ => kev.bytes) uap.mem uap.next batches.flatten
        (batches.foldl (keventCopyout none) uap)) ∧ (forall env kq uap nevents,
      Cursor.Filled sizeofKevent (fun kev _ => kev.bytes) uap.mem uap.next (scanned env nevents kq)
        (ffKeventDoEach env kq uap nevents none)) ∧
    forall env nevents kq, (scanned env nevents kq).length ≤ nevents ∧
      forall batch, batch ∈ scanBatches (scanned env nevents kq) -> batch.length ≤ kqNevents := by
  refine ⟨?_, ffEventToEpoll_translates, filled_without_callback, ?_, ?_⟩
  · intro each size element h
    refine ⟨filled_of_batches h, ?_⟩
    intro env kq uap nevents
    have hfilled := filled_of_batches h uap (scanBatches (scanned env nevents kq))
    rw [(scanBatches_spec _).1] at hfilled
    exact hfilled
  · intro env kq uap nevents
    have hfilled := filled_without_callback uap (scanBatches (scanned env nevents kq))
    rw [(scanBatches_spec _).1] at hfilled
    exact hfilled
  · intro env nevents kq
    exact ⟨scanned_length_le env nevents kq, (scanBatches_spec _).2⟩

/-!
## The elements of the array

The bytes that are written for the knotes of a scan are the elements that the model of
`ff_epoll_wait` writes for them.
-/

def elementAt (mem : Bytes) (off : Nat) : EpollEvent :=
  ⟨UInt32.ofNat (mem.num off 4), mem.num (off + 4) 8⟩

structure InRange (kn : Knote) : Prop where
  fflags : kn.fflags < 2 ^ 32
  data : -2 ^ 63 ≤ kn.data ∧ kn.data < 2 ^ 63
  udata : kn.udata < 2 ^ 64

structure Shows (start : Nat) (c : Cursor) (l : EventList) : Prop where
  next : c.next = start + sizeofEpollEvent * l.next
  elements : forall i, elementAt c.mem (start + sizeofEpollEvent * i) = l.events i

section Elements

variable {kn : Knote}

theorem flags_spec : forall oneshot clear dispatch eof : Bool,
    let flags : UInt16 := (if oneshot then 0x0010 else 0) ||| (if clear then 0x0020 else 0) |||
      (if dispatch then 0x0080 else 0) ||| (if eof then evEof else 0)
    (flags &&& evEof = 0 <-> eof = false) ∧ flags &&& evError = 0 := by
  decide

theorem raw_eof (key : Key) (kn : Knote) :
    (Knote.raw key kn).flags &&& evEof = 0 <-> kn.eof = false :=
  (flags_spec kn.oneshot kn.clear kn.dispatch kn.eof).1

theorem raw_error (key : Key) (kn : Knote) : (Knote.raw key kn).flags &&& evError = 0 :=
  (flags_spec kn.oneshot kn.clear kn.dispatch kn.eof).2

theorem InRange.fflags_eq_zero (h : InRange kn) (key : Key) :
    (Knote.raw key kn).fflags = 0 <-> kn.fflags = 0 := by
  have hfflags := h.fflags
  rw [<- UInt32.toNat_inj, Knote.raw, UInt32.toNat_ofNat', Nat.mod_eq_of_lt hfflags]
  rfl

theorem InRange.udata_toNat (h : InRange kn) (key : Key) :
    (Knote.raw key kn).udata.toNat = kn.udata := by
  rw [Knote.raw, UInt64.toNat_ofNat', Nat.mod_eq_of_lt h.udata]

theorem InRange.data_eq_zero (h : InRange kn) (key : Key) :
    (Knote.raw key kn).data = 0 <-> kn.data = 0 := by
  have hdata := h.data
  have hraw : (Knote.raw key kn).data.toNat = (kn.data % 2 ^ 64).toNat % 2 ^ 64 :=
    UInt64.toNat_ofNat'
  have hzero : (Knote.raw key kn).data = 0 <-> (Knote.raw key kn).data.toNat = 0 :=
    UInt64.toNat_inj.symm
  rw [hzero, hraw]
  omega

theorem raw_ident (key : Key) (kn : Knote) :
    (Knote.raw key kn).ident.toNat % 2 ^ 32 = (key.fd % 2 ^ 32).toNat := by
  have hraw : (Knote.raw key kn).ident.toNat = (key.fd % 2 ^ 64).toNat % 2 ^ 64 :=
    UInt64.toNat_ofNat'
  rw [hraw]
  omega

theorem raw_filter (key : Key) (kn : Knote) :
    ((Knote.raw key kn).filter = evfiltRead <-> key.filter = .read) ∧
      ((Knote.raw key kn).filter = evfiltWrite <-> key.filter = .write) := by
  simp only [Knote.raw]
  cases key.filter with
  | read => exact ⟨by decide, by decide⟩
  | write => exact ⟨by decide, by decide⟩

theorem eventOne_raw (h : InRange kn) (key : Key) :
    eventOne (Knote.raw key kn) = (kn.occurrence key).events := by
  simp only [eventOne, Occurrence.events, Knote.occurrence, raw_error, raw_eof, h.data_eq_zero,
    h.fflags_eq_zero, raw_filter, ne_eq, not_true_eq_false, if_false]
  cases kn.eof with
  | false =>
      cases key.filter with
      | read => simp [flag]
      | write => simp [flag]
  | true =>
      by_cases hfflags : kn.fflags = 0
      · cases key.filter with
        | read =>
            by_cases hdata : kn.data = 0
            · simp [flag, hfflags, hdata]
            · simp [flag, hfflags, hdata, UInt32.or_assoc]
        | write => simp [flag, hfflags, UInt32.or_assoc]
      · cases key.filter with
        | read =>
            by_cases hdata : kn.data = 0
            · simp [flag, hfflags, hdata]
            · simp [flag, hfflags, hdata, UInt32.or_assoc]
        | write => simp [flag, hfflags, UInt32.or_assoc]

theorem elementAt_drop (mem : Bytes) (off : Nat) :
    elementAt (mem.drop off) 0 = elementAt mem off := by
  simp only [elementAt, Bytes.num_drop, Nat.add_zero, Nat.zero_add]

theorem elementAt_store (mem element : Bytes) (off : Nat) :
    elementAt (mem.store off sizeofEpollEvent element) off = elementAt element 0 := by
  have hevents : (mem.store off sizeofEpollEvent element).num (off + 0) 4 = element.num 0 4 :=
    Bytes.num_store_inside (by decide)
  have hdata : (mem.store off sizeofEpollEvent element).num (off + 4) 8 = element.num 4 8 :=
    Bytes.num_store_inside (by decide)
  rw [Nat.add_zero] at hevents
  rw [elementAt, hevents, hdata]
  rfl

theorem elementAt_store_of_ne (mem element : Bytes) (start : Nat) {i j : Nat} (h : i ≠ j) :
    elementAt (mem.store (start + sizeofEpollEvent * j) sizeofEpollEvent element)
        (start + sizeofEpollEvent * i) = elementAt mem (start + sizeofEpollEvent * i) := by
  unfold sizeofEpollEvent
  rw [elementAt, Bytes.num_store_outside (by omega), Bytes.num_store_outside (by omega)]
  rfl

theorem num_putNum_half (mem : Bytes) (v : Nat) :
    (mem.putNum 4 4 v).num 4 8 = v % 2 ^ 32 + mem.num 4 8 / 2 ^ 32 * 2 ^ 32 := by
  have hhigh : (mem.putNum 4 4 v).num (4 + 4) 4 = mem.num (4 + 4) 4 :=
    Bytes.num_putNum_outside (Or.inr (Nat.le_refl 8))
  have hput := Bytes.num_add (mem.putNum 4 4 v) 4 4 4
  have hold := Bytes.num_add mem 4 4 4
  have hlow := mem.num_lt 4 4
  rw [Bytes.num_putNum, hhigh] at hput
  rw [hput, hold]
  omega

theorem num_putNum_fd (mem : Bytes) (fd : Int) :
    (mem.putNum 4 4 (fd % 2 ^ 32).toNat).num 4 8 = dataFd (mem.num 4 8) fd := by
  have hfd : (fd % 2 ^ 32).toNat % 2 ^ 32 = (fd % 2 ^ 32).toNat := by omega
  rw [num_putNum_half, hfd, dataFd, Nat.add_comm]

theorem elementAt_epollElement (h : InRange kn) (key : Key) (old : Bytes) :
    elementAt (epollElement (Knote.raw key kn) old) 0 =
      (kn.occurrence key).onto (elementAt old 0) := by
  have hevents : UInt32.ofNat ((old.putNum 0 4 (eventOne (Knote.raw key kn)).toNat).num 0 4) =
      (kn.occurrence key).events := by
    have hlt : (eventOne (Knote.raw key kn)).toNat < 256 ^ 4 := UInt32.toNat_lt _
    rw [Bytes.num_putNum, Nat.mod_eq_of_lt hlt, UInt32.ofNat_toNat, eventOne_raw h key]
  have hold : (old.putNum 0 4 (eventOne (Knote.raw key kn)).toNat).num 4 8 = old.num 4 8 :=
    Bytes.num_putNum_outside (Or.inr (Nat.le_refl 4))
  have hudata : (Knote.raw key kn).udata = 0 <-> kn.udata = 0 := by
    rw [<- UInt64.toNat_inj, h.udata_toNat key]
    rfl
  have honto : (kn.occurrence key).onto (elementAt old 0) = ⟨(kn.occurrence key).events,
      if kn.udata ≠ 0 then kn.udata else dataFd (old.num 4 8) key.fd⟩ := rfl
  rw [epollElement, honto, elementAt]
  by_cases hzero : kn.udata = 0
  · rw [if_neg (not_not.mpr (hudata.mpr hzero)), if_neg (not_not.mpr hzero), raw_ident,
      num_putNum_fd, Bytes.num_putNum_outside (by omega), hevents, hold]
  · rw [if_pos (hudata.not.mpr hzero), if_pos hzero, Bytes.num_putNum,
      Bytes.num_putNum_outside (by omega), hevents, h.udata_toNat]
    exact congrArg _ (Nat.mod_eq_of_lt h.udata)

end Elements

theorem Shows.step {start : Nat} {c : Cursor} {l : EventList} (h : Shows start c l) {kn : Knote}
    (hkn : InRange kn) (key : Key) : Shows start (ffEventToEpoll c (Knote.raw key kn))
      (Epoll.ffEventToEpoll l (kn.occurrence key)) := by
  rw [ffEventToEpoll_translates]
  constructor
  · show c.next + sizeofEpollEvent = start + sizeofEpollEvent * (l.next + 1)
    rw [h.next, Nat.mul_succ, Nat.add_assoc]
  · intro i
    rw [Cursor.put, h.next]
    by_cases heq : i = l.next
    · rw [heq, elementAt_store, elementAt_epollElement hkn, elementAt_drop, h.elements]
      exact (Function.update_self l.next _ l.events).symm
    · rw [elementAt_store_of_ne _ _ _ heq, h.elements]
      exact (Function.update_of_ne heq _ l.events).symm

theorem ffKeventDoEach_shows {start : Nat} {uap : Cursor} {l : EventList} (h : Shows start uap l)
    (env : Env) (kq : Kqueue) (nevents : Nat)
    (hrange : forall d, d ∈ (kqueueScan env nevents kq).2 -> InRange d.2) :
    Shows start (ffKeventDoEach env kq uap nevents (some ffEventToEpoll))
      (Epoll.keventCopyout ((kqueueScan env nevents kq).2.map fun d => d.2.occurrence d.1) l) := by
  have hflat : ffKeventDoEach env kq uap nevents (some ffEventToEpoll) =
      (scanBatches (scanned env nevents kq)).flatten.foldl ffEventToEpoll uap := by
    rw [List.foldl_flatten]
    rfl
  rw [hflat, (scanBatches_spec _).1, scanned, Epoll.keventCopyout, List.foldl_map, List.foldl_map]
  clear hflat
  generalize (kqueueScan env nevents kq).2 = ds at hrange ⊢
  induction ds generalizing uap l with
  | nil => exact h
  | cons d ds ih =>
      apply ih (h.step (hrange d List.mem_cons_self) d.1)
      intro d' hd'
      exact hrange d' (List.mem_cons_of_mem d hd')

end CopyOut
end Epoll
end FStackLite
