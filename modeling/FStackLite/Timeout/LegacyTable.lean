import FStackLite.Timeout.Legacy

/-!
# Where the callouts of `timeout` are

Every callout is free, pending or executing.  Each operation moves one callout: `timeout` from
`cc_callfree` to the wheel, `untimeout` back, and `softclock` from the wheel to its handler and
from there to `cc_callfree`.
-/

namespace FStackLite
namespace Timeout
namespace Legacy

open Foundation

/-!
## The invariant

`place` says on which list a callout is.
-/

def onWheel : Option ListHead -> Bool
  | some (.callwheel _) => true
  | _ => false

structure Kept (s : Cpu) (c : CalloutRef) (place : Option ListHead) : Prop where
  lock : (s.callouts c).lock = some .giant
  iflags : (s.callouts c).iflags = { localAlloc := true, pending := onWheel place }
  bucket : forall b, place = some (.callwheel b) -> b = calloutGetBucket s (s.callouts c).time

structure CpuInv (n : Nat) (s : Cpu) (executing : List CalloutRef)
    (place : CalloutRef -> Option ListHead) : Prop where
  placed : s.links.Placed ListHead.isList place
  inside : forall c h, place c = some h -> c < n
  executes : forall c, c ∈ executing <-> c < n ∧ place c = none
  once : executing.Nodup
  kept : forall c, c < n -> Kept s c (place c)
  next : forall c, s.next = some c -> onWheel (place c) = true
  idle : (s.execEntity false).curr = none

variable {n : Nat} {s s' : Cpu} {executing executing' : List CalloutRef}
    {place : CalloutRef -> Option ListHead} {c : CalloutRef} {head : ListHead} {b : CInt}

theorem Kept.congr {p : Option ListHead} (h : Kept s c p)
    (hcallout : s'.callouts c = s.callouts c) (hmask : s'.callwheelmask = s.callwheelmask) :
    Kept s' c p := by
  refine ⟨hcallout ▸ h.lock, hcallout ▸ h.iflags, ?_⟩
  rw [calloutGetBucket, hcallout, hmask]
  exact h.bucket

theorem onWheel_iff {p : Option ListHead} :
    onWheel p = true <-> exists b, p = some (.callwheel b) := by
  constructor
  · intro h
    cases p with
    | none => contradiction
    | some head =>
        cases head with
        | callfree => contradiction
        | callwheel b => exact ⟨b, rfl⟩
  · rintro ⟨b, rfl⟩
    rfl

/-- What is the same in two states as far as the callouts other than `c` see it. -/
structure SameBut (c : CalloutRef) (s s' : Cpu) : Prop where
  others : forall x, x ≠ c -> s'.callouts x = s.callouts x
  mask : s'.callwheelmask = s.callwheelmask
  idle : (s'.execEntity false).curr = (s.execEntity false).curr

theorem CpuInv.move (h : CpuInv n s executing place) {p : Option ListHead} (hc : c < n)
    (hsame : SameBut c s s') (hplaced : s'.links.Placed ListHead.isList (Function.update place c p))
    (hkept : Kept s' c p)
    (hexec : forall x, x ∈ executing' <-> (x = c ∧ p = none) ∨ (x ≠ c ∧ x ∈ executing))
    (honce : executing'.Nodup)
    (hnext : forall x, s'.next = some x -> onWheel (Function.update place c p x) = true) :
    CpuInv n s' executing' (Function.update place c p) where
  placed := hplaced
  inside x head hplace := by
    by_cases heq : x = c
    · rw [heq]
      exact hc
    · rw [Function.update_of_ne heq] at hplace
      exact h.inside x head hplace
  executes x := by
    rw [hexec]
    by_cases heq : x = c
    · rw [heq, Function.update_self]
      simp [hc]
    · rw [Function.update_of_ne heq, h.executes]
      simp [heq]
  once := honce
  kept x hx := by
    by_cases heq : x = c
    · rw [heq, Function.update_self]
      exact hkept
    · rw [Function.update_of_ne heq]
      exact (h.kept x hx).congr (hsame.others x heq) hsame.mask
  next := hnext
  idle := hsame.idle.trans h.idle

/-!
## Arming
-/

theorem CpuInv.not_executing (h : CpuInv n s executing place) (hplace : place c = some head) :
    c ∉ executing := by
  intro hmem
  rw [h.executes, hplace] at hmem
  exact absurd hmem.2 (Option.some_ne_none _)

/-- A callout that moves from one list to another is not executing before or after. -/
theorem CpuInv.executing_of_list (h : CpuInv n s executing place) {head' : ListHead}
    (hplace : place c = some head) (x : CalloutRef) :
    x ∈ executing <-> (x = c ∧ some head' = none) ∨ (x ≠ c ∧ x ∈ executing) := by
  have hc := h.not_executing hplace
  constructor
  · intro hx
    exact Or.inr ⟨ne_of_mem_of_not_mem hx hc, hx⟩
  · intro hx
    rcases hx with ⟨_, hnone⟩ | ⟨_, hx⟩
    · contradiction
    · exact hx

theorem calloutReset_of_free (hkept : Kept s c (some .callfree))
    (hidle : (s.execEntity false).curr = none) (toTicks : CInt) (ftn : Option FuncPtr)
    (arg : ArgPtr) : calloutReset s c toTicks ftn arg =
      .ok (calloutCcAdd s c (clampTicks toTicks) ftn arg { hardclock := true }) := by
  simp only [calloutReset, hidle, reduceCtorEq, false_and, if_false, hkept.iflags]
  rfl

theorem CpuInv.timeout (h : CpuInv n s executing place) (ftn : Option FuncPtr) (arg : ArgPtr)
    (toTicks : CInt) (hfirst : s.links.first .callfree = some c) :
    exists s' b, timeout s ftn arg toTicks = .ok (c, s') ∧
      CpuInv n s' executing (Function.update place c (some (.callwheel b))) := by
  have hplace := h.placed.of_first hfirst
  have hc := h.inside c _ hplace
  have hkept := h.kept c hc
  rw [hplace] at hkept
  have htaken : Kept { s with links := s.links.slistRemoveHead .callfree } c (some .callfree) :=
    hkept.congr rfl rfl
  have heq : Legacy.timeout s ftn arg toTicks =
      .ok (c, calloutCcAdd { s with links := s.links.slistRemoveHead .callfree } c
        (clampTicks toTicks) ftn arg { hardclock := true }) := by
    rw [Legacy.timeout, hfirst]
    simp only [calloutReset_of_free htaken h.idle, Except.map]
  refine ⟨_, calloutGetBucket s (s.ticks + clampTicks toTicks), heq, ?_⟩
  apply h.move hc
  · exact ⟨fun x hx => Function.update_of_ne hx .., rfl, rfl⟩
  · have hremoved := h.placed.slistRemoveHead rfl hfirst
    have hinserted := hremoved.listInsertHead
      (.callwheel (calloutGetBucket s (s.ticks + clampTicks toTicks)))
      (Function.update_self (f := place) c none)
    rw [Function.update_idem] at hinserted
    exact hinserted
  · constructor
    · simp [calloutCcAdd, Cpu.setCallout, hkept.lock]
    · simp [calloutCcAdd, Cpu.setCallout, hkept.iflags, onWheel]
    · intro b hb
      injection hb with hb
      injection hb with hb
      simp [calloutCcAdd, Cpu.setCallout, calloutGetBucket, <- hb]
  · exact h.executing_of_list hplace
  · exact h.once
  · intro x hx
    by_cases heq : x = c
    · rw [heq, Function.update_self]
      rfl
    · rw [Function.update_of_ne heq]
      apply h.next x
      simp only [calloutCcAdd] at hx
      split at hx
      · injection hx with hx
        exact absurd hx.symm heq
      · exact hx

/-!
## Stopping
-/

theorem listRemove_placed (hplaced : s.links.Placed ListHead.isList place)
    (hplace : place c = some (.callwheel b)) :
    exists links, listRemove s c = .ok { s with links := links } ∧
      links.Placed ListHead.isList (Function.update place c none) := by
  rcases hplaced.listRemove rfl hplace with ⟨links, hremove, hremoved⟩
  refine ⟨links, ?_, hremoved⟩
  rw [listRemove, hremove]

theorem next_onWheel (hplaced : s.links.Placed ListHead.isList place)
    (hplace : place c = some (.callwheel b)) {x : CalloutRef} (hnext : s.links.next c = some x)
    (p : Option ListHead) : onWheel (Function.update place c p x) = true := by
  have hx := hplaced.of_next hplace hnext
  rw [Function.update_of_ne hx.2, hx.1]
  rfl

theorem calloutStop_eq {p : Option ListHead} (hkept : Kept s c p)
    (hidle : (s.execEntity false).curr = none) : calloutStop s c = stopPending s c false := by
  have hlock : stopUseLock (some .giant) {} = some true := rfl
  simp only [calloutStop, hkept.lock, hlock, hkept.iflags, Bool.false_and, Bool.false_eq_true,
    if_false, hidle, reduceCtorEq]

theorem stopPending_of_not_onWheel {p : Option ListHead} (hkept : Kept s c p)
    (hp : onWheel p = false) : stopPending s c false = .ok s := by
  simp only [stopPending, hkept.iflags, hp, Bool.false_eq_true, if_false]

theorem dequeue_eq (hprocessed : (s.callouts c).iflags.processed = false) : dequeue s c =
      listRemove { s with next := if s.next = some c then s.links.next c else s.next } c := by
  rw [dequeue, hprocessed, if_neg Bool.false_ne_true]
  split <;> rfl

/-- `callout_cc_del` of a callout that is on no list. -/
theorem CpuInv.calloutCcDel (h : CpuInv n s executing place) (hc : c < n) (hsame : SameBut c s s')
    (hplaced : s'.links.Placed ListHead.isList (Function.update place c none))
    (hlock : (s'.callouts c).lock = some .giant)
    (hiflags : (s'.callouts c).iflags = { localAlloc := true })
    (hexec : forall x, x ∈ executing' <-> x ≠ c ∧ x ∈ executing) (honce : executing'.Nodup)
    (hnext : forall x, s'.next = some x ->
      onWheel (Function.update place c (some .callfree) x) = true) :
    CpuInv n (calloutCcDel s' c) executing' (Function.update place c (some .callfree)) := by
  have hlocal : (s'.callouts c).iflags.localAlloc = true := by rw [hiflags]
  rw [Legacy.calloutCcDel, if_pos hlocal]
  apply h.move hc
  · refine ⟨fun x hx => ?_, hsame.mask, hsame.idle⟩
    rw [<- hsame.others x hx]
    exact Function.update_of_ne hx ..
  · have hinserted := hplaced.slistInsertHead (h := .callfree) rfl
      (Function.update_self (f := place) c none)
    rw [Function.update_idem] at hinserted
    exact hinserted
  · constructor
    · simp [Cpu.setCallout, hlock]
    · simp [Cpu.setCallout, hiflags, onWheel]
    · intro b hb
      injection hb with hb
      contradiction
  · intro x
    rw [hexec]
    simp
  · exact honce
  · exact hnext

theorem CpuInv.stopPending (h : CpuInv n s executing place) {b : CInt}
    (hplace : place c = some (.callwheel b)) : exists s', stopPending s c false = .ok s' ∧
      CpuInv n s' executing (Function.update place c (some .callfree)) := by
  have hc := h.inside c _ hplace
  have hkept := h.kept c hc
  rw [hplace] at hkept
  have hpending : (s.callouts c).iflags.pending = true := by
    rw [hkept.iflags]
    rfl
  have hprocessed : ((clearPending s c).callouts c).iflags.processed = false := by
    simp [clearPending, Cpu.setCallout, hkept.iflags]
  rcases listRemove_placed (s := { clearPending s c with
      next := if s.next = some c then s.links.next c else s.next }) h.placed hplace with
    ⟨links, hremove, hremoved⟩
  have heq : Legacy.stopPending s c false = .ok (Legacy.calloutCcDel { clearPending s c with
      next := if s.next = some c then s.links.next c else s.next, links := links } c) := by
    rw [Legacy.stopPending, if_pos hpending]
    simp only [Bool.false_eq_true, if_false]
    rw [dequeue_eq hprocessed]
    exact congrArg (Except.map fun s2 => Legacy.calloutCcDel s2 c) hremove
  refine ⟨_, heq, h.calloutCcDel hc ?_ hremoved ?_ ?_ ?_ h.once ?_⟩
  · exact ⟨fun x hx => Function.update_of_ne hx .., rfl, rfl⟩
  · simp [clearPending, Cpu.setCallout, hkept.lock]
  · simp [clearPending, Cpu.setCallout, hkept.iflags]
  · intro x
    exact (and_iff_right_of_imp fun hx => ne_of_mem_of_not_mem hx (h.not_executing hplace)).symm
  · intro x hx
    simp only at hx
    split at hx
    · exact next_onWheel h.placed hplace hx _
    · next hne =>
        have hxc : x ≠ c := fun heq => hne (heq ▸ hx)
        rw [Function.update_of_ne hxc]
        exact h.next x hx

/-- A callout that is not pending stays where it is, and one that is becomes free. -/
theorem CpuInv.untimeout (h : CpuInv n s executing place) (ftn : Option FuncPtr) (arg : ArgPtr)
    {handle : Option CalloutRef} (hhandle : forall c, handle = some c -> c < n) :
    exists s' place', untimeout s ftn arg handle = .ok s' ∧ CpuInv n s' executing place' := by
  cases handle with
  | none => exact ⟨s, place, rfl, h⟩
  | some c =>
      have hkept := h.kept c (hhandle c rfl)
      rw [Legacy.untimeout]
      split
      · rw [calloutStop_eq hkept h.idle]
        cases hp : onWheel (place c) with
        | false => exact ⟨s, place, stopPending_of_not_onWheel hkept hp, h⟩
        | true =>
            rcases onWheel_iff.mp hp with ⟨b, hplace⟩
            rcases h.stopPending hplace with ⟨s', heq, hs'⟩
            exact ⟨s', _, heq, hs'⟩
      · exact ⟨s, place, rfl, h⟩

/-!
## Running
-/

theorem setExec_false (s : Cpu) (e : Exec) :
    (s.setExec true e).execEntity false = s.execEntity false :=
  Function.update_of_ne Bool.false_ne_true e s.execEntity

theorem softclockEnter_of_kept {p : Option ListHead} (hkept : Kept s c p) : softclockEnter s c =
      if (s.callouts c).func = none then
        .error .undefined
      else
        .ok ((s.setCallout c { s.callouts c with iflags := { localAlloc := true } }).setExec true
          ⟨some c, true⟩) := by
  have hlockable : lockable (some .giant) = true := rfl
  simp only [softclockEnter, hkept.lock, hkept.iflags, reduceCtorEq, if_false, hlockable, if_true]

theorem CpuInv.enter (h : CpuInv n s executing place) (hplace : place c = some (.callwheel b))
    (bucket : CInt) :
    exists links s', listRemove { s with next := s.links.next c, bucket := bucket } c =
        .ok { s with next := s.links.next c, bucket := bucket, links := links } ∧
      softclockEnter { s with next := s.links.next c, bucket := bucket, links := links } c =
        (if (s.callouts c).func = none then .error .undefined else .ok s') ∧
      CpuInv n s' (c :: executing) (Function.update place c none) := by
  have hc := h.inside c _ hplace
  have hkept := h.kept c hc
  rcases listRemove_placed (s := { s with next := s.links.next c, bucket := bucket }) h.placed
    hplace with ⟨links, hremove, hremoved⟩
  have hkept' : Kept { s with next := s.links.next c, bucket := bucket, links := links } c
      (place c) := hkept.congr rfl rfl
  refine ⟨links, _, hremove, softclockEnter_of_kept hkept', ?_⟩
  apply h.move hc
  · refine ⟨fun x hx => Function.update_of_ne hx .., rfl, ?_⟩
    exact congrArg Exec.curr (setExec_false _ _)
  · exact hremoved
  · constructor
    · simp [Cpu.setExec, Cpu.setCallout, hkept.lock]
    · simp [Cpu.setExec, Cpu.setCallout, onWheel]
    · intro b hb
      contradiction
  · intro x
    have hout := h.not_executing hplace
    rw [List.mem_cons]
    constructor
    · intro hx
      rcases hx with heq | hx
      · exact Or.inl ⟨heq, rfl⟩
      · exact Or.inr ⟨ne_of_mem_of_not_mem hx hout, hx⟩
    · intro hx
      rcases hx with ⟨heq, _⟩ | ⟨_, hx⟩
      · exact Or.inl heq
      · exact Or.inr hx
  · exact List.nodup_cons.mpr ⟨h.not_executing hplace, h.once⟩
  · intro x hx
    exact next_onWheel h.placed hplace hx _

theorem CpuInv.leave (h : CpuInv n s (c :: executing) place) {iflags : IFlags}
    (hlocal : iflags.localAlloc = true) :
    exists s', softclockLeave s c (some .giant) iflags = .ok s' ∧
      CpuInv n s' executing (Function.update place c (some .callfree)) := by
  rcases (h.executes c).mp List.mem_cons_self with ⟨hc, hplace⟩
  have hkept := h.kept c hc
  rw [hplace] at hkept
  have hout := List.nodup_cons.mp h.once
  have hlockable : lockable (some .giant) = true := rfl
  have heq : softclockLeave s c (some .giant) iflags =
      .ok (Legacy.calloutCcDel (s.setExec true { s.execEntity true with curr := none }) c) := by
    simp only [softclockLeave, hlockable, or_true, if_true, hlocal]
  refine ⟨_, heq, h.calloutCcDel hc ?_ ?_ hkept.lock hkept.iflags ?_ hout.2 ?_⟩
  · refine ⟨fun _ _ => rfl, rfl, ?_⟩
    exact congrArg Exec.curr (setExec_false _ _)
  · rw [<- hplace, Function.update_eq_self]
    exact h.placed
  · intro x
    rw [List.mem_cons]
    constructor
    · intro hx
      exact ⟨ne_of_mem_of_not_mem hx hout.1, Or.inr hx⟩
    · rintro ⟨hne, heq | hx⟩
      · exact absurd heq hne
      · exact hx
  · intro x hx
    have honWheel := h.next x hx
    have hne : x ≠ c := by
      rintro rfl
      rw [hplace] at honWheel
      contradiction
    rw [Function.update_of_ne hne]
    exact honWheel

/-- A state whose links and callouts are the same, with a saved element that is on the wheel. -/
theorem CpuInv.congr (h : CpuInv n s executing place) (hcallouts : s'.callouts = s.callouts)
    (hlinks : s'.links = s.links) (hexec : s'.execEntity = s.execEntity)
    (hmask : s'.callwheelmask = s.callwheelmask)
    (hnext : forall c, s'.next = some c -> onWheel (place c) = true) :
    CpuInv n s' executing place where
  placed := hlinks ▸ h.placed
  inside := h.inside
  executes := h.executes
  once := h.once
  kept c hc := (h.kept c hc).congr (congrFun hcallouts c) hmask
  next := hnext
  idle := hexec ▸ h.idle

/-!
## The set-up
-/

/-- The first `n` callouts are free. -/
def allFree (n : Nat) (c : CalloutRef) : Option ListHead :=
  if c < n then some .callfree else none

theorem allFree_succ (n : Nat) :
    Function.update (allFree n) n (some .callfree) = allFree (n + 1) := by
  funext x
  by_cases heq : x = n
  · rw [heq, Function.update_self, allFree, if_pos (Nat.lt_succ_self n)]
  · have hiff : x < n + 1 <-> x < n := Nat.lt_succ_iff_lt_or_eq.trans (or_iff_left heq)
    rw [Function.update_of_ne heq, allFree, allFree]
    simp only [hiff]

theorem allFree_eq_some : allFree n c = some head -> c < n := by
  intro h
  by_contra hc
  rw [allFree, if_neg hc] at h
  contradiction

theorem CpuInv.initCallout (h : CpuInv n s [] (allFree n)) :
    CpuInv (n + 1) (initCallout s n) [] (allFree (n + 1)) where
  placed := by
    have hfree : allFree n n = none := if_neg (Nat.lt_irrefl n)
    have hinserted := h.placed.slistInsertHead (h := .callfree) rfl hfree
    rw [allFree_succ] at hinserted
    exact hinserted
  inside _ _ hplace := allFree_eq_some hplace
  executes c := by
    constructor
    · exact fun hmem => absurd hmem List.not_mem_nil
    · rintro ⟨hc, hnone⟩
      rw [allFree, if_pos hc] at hnone
      contradiction
  once := List.nodup_nil
  kept c hc := by
    rw [<- allFree_succ]
    by_cases heq : c = n
    · rw [heq, Function.update_self]
      constructor
      · simp [Legacy.initCallout, Cpu.setCallout, calloutInit]
      · simp [Legacy.initCallout, Cpu.setCallout, onWheel]
      · intro b hb
        injection hb with hb
        contradiction
    · have hkept := h.kept c (Nat.lt_of_le_of_ne (Nat.le_of_lt_succ hc) heq)
      rw [Function.update_of_ne heq]
      exact hkept.congr (Function.update_of_ne heq ..) rfl
  next c hnext := by
    have hold := h.next c hnext
    rw [onWheel_iff] at hold
    rcases hold with ⟨b, hplace⟩
    rw [allFree, if_pos (allFree_eq_some hplace)] at hplace
    injection hplace with hplace
    contradiction
  idle := h.idle

theorem CpuInv.foldl_initCallout (hlinks : s.links = .empty) (hnext : s.next = none)
    (hidle : (s.execEntity false).curr = none) (n : Nat) :
    CpuInv n ((List.range n).foldl Legacy.initCallout s) [] (allFree n) := by
  induction n with
  | zero =>
      constructor
      · rw [List.range_zero, List.foldl_nil, hlinks]
        refine ⟨fun _ => [], Links.empty_holds _, fun a h => ?_⟩
        constructor
        · exact fun hmem => absurd hmem List.not_mem_nil
        · exact fun hplace => absurd (allFree_eq_some hplace) (Nat.not_lt_zero a)
      · exact fun c _ hplace => absurd (allFree_eq_some hplace) (Nat.not_lt_zero c)
      · intro c
        simp
      · exact List.nodup_nil
      · exact fun c hc => absurd hc (Nat.not_lt_zero c)
      · intro c hc
        rw [List.range_zero, List.foldl_nil, hnext] at hc
        contradiction
      · exact hidle
  | succ n ih =>
      rw [List.range_succ, List.foldl_append]
      exact ih.initCallout

theorem CpuInv.calloutCpuInit (memory : CalloutRef -> Callout) (n : Nat) :
    CpuInv n (calloutCpuInit memory n) [] (allFree n) :=
  CpuInv.foldl_initCallout rfl rfl rfl n

/-!
## The activations

Only the innermost activation can be outside a handler, and where it scans a bucket it is at a
callout of the wheel.
-/

/-- The phase is in a handler, with what `softclock_call_cc` saved before the call. -/
def InHandler : Phase -> Prop
  | .running _ _ lock iflags => lock = some .giant ∧ iflags.localAlloc = true
  | _ => False

def TopKept (place : CalloutRef -> Option ListHead) (p : Phase) : Prop :=
  match p with
  | .scan _ c => forall x, c = some x -> onWheel (place x) = true
  | .running .. => InHandler p
  | _ => True

structure MachineInv (n : Nat) (m : Machine) (place : CalloutRef -> Option ListHead) : Prop where
  cpu : CpuInv n m.cc m.executing place
  top : forall p, p ∈ m.frames.head? -> TopKept place p
  below : forall p, p ∈ m.frames.tail -> InHandler p

inductive Outcome (n : Nat) (s : Cpu) (place : CalloutRef -> Option ListHead) :
    Except Trap Machine -> Prop where
  | ok {m : Machine} {place' : CalloutRef -> Option ListHead} (h : MachineInv n m place') :
      Outcome n s place (.ok m)
  | panic (h : forall c, place c ≠ some .callfree) : Outcome n s place (.error .panic)
  | undefined {c : CalloutRef} {b : CInt} (hplace : place c = some (.callwheel b))
      (hfunc : (s.callouts c).func = none) : Outcome n s place (.error .undefined)

variable {m : Machine} {p : Phase} {rest : List Phase}

theorem InHandler.topKept (h : InHandler p) : TopKept place p := by
  cases p with
  | running curticks c lock iflags => exact h
  | tick => contradiction
  | outer => contradiction
  | scan curticks c => contradiction

theorem TopKept.inHandler (h : TopKept place p) (hrunning : p.isRunning = true) : InHandler p := by
  cases p with
  | running curticks c lock iflags => exact h
  | tick => contradiction
  | outer => contradiction
  | scan curticks c => contradiction

theorem MachineInv.inHandler (h : MachineInv n m place) (houtside : m.outside = true) :
    forall p, p ∈ m.frames -> InHandler p := by
  intro p hp
  cases hframes : m.frames with
  | nil =>
      rw [hframes] at hp
      contradiction
  | cons q rest =>
      rw [Machine.outside, hframes] at houtside
      rw [hframes, List.mem_cons] at hp
      rcases hp with rfl | hp
      · refine (h.top p ?_).inHandler houtside
        rw [hframes]
        rfl
      · refine h.below p ?_
        rw [hframes]
        exact hp

theorem MachineInv.of_inHandler (hcpu : CpuInv n m.cc m.executing place)
    (hframes : forall p, p ∈ m.frames -> InHandler p) : MachineInv n m place where
  cpu := hcpu
  top p hp := (hframes p (List.mem_of_mem_head? hp)).topKept
  below p hp := hframes p (List.mem_of_mem_tail hp)

theorem MachineInv.cons (hcpu : CpuInv n s ((p :: rest).filterMap Phase.executing) place)
    (htop : TopKept place p) (hbelow : forall q, q ∈ rest -> InHandler q) :
    MachineInv n ⟨s, p :: rest⟩ place where
  cpu := hcpu
  top q hq := by
    injection hq with hq
    exact hq ▸ htop
  below := hbelow

/-!
## Steps and runs
-/

/-- `callout_tick` and the outer loop of `softclock` do not move a callout. -/
theorem CpuInv.softticks (h : CpuInv n s executing place) (t : CInt) :
    CpuInv n { s with softticks := t } executing place :=
  h.congr rfl rfl rfl rfl h.next

theorem advance_tick (hcpu : CpuInv n s ((Phase.tick :: rest).filterMap Phase.executing) place)
    (hbelow : forall q, q ∈ rest -> InHandler q) : Outcome n s place (advance s rest .tick) := by
  rw [advance]
  split
  · split
    · exact .ok (.cons hcpu trivial hbelow)
    · exact .ok (.cons (hcpu.softticks _) trivial hbelow)
  · exact .ok (.of_inHandler hcpu hbelow)

theorem advance_outer (hcpu : CpuInv n s ((Phase.outer :: rest).filterMap Phase.executing) place)
    (hbelow : forall q, q ∈ rest -> InHandler q) : Outcome n s place (advance s rest .outer) := by
  rw [advance]
  split
  · exact .ok (.of_inHandler hcpu hbelow)
  · refine .ok (.cons (hcpu.softticks _) ?_ hbelow)
    intro x hx
    rw [hcpu.placed.of_first hx]
    rfl

theorem advance_scan {curticks : CInt} {c : Option CalloutRef}
    (hcpu : CpuInv n s ((Phase.scan curticks c :: rest).filterMap Phase.executing) place)
    (htop : TopKept place (.scan curticks c)) (hbelow : forall q, q ∈ rest -> InHandler q) :
    Outcome n s place (advance s rest (.scan curticks c)) := by
  cases c with
  | none => exact .ok (.cons hcpu trivial hbelow)
  | some c =>
      rcases onWheel_iff.mp (htop c rfl) with ⟨b, hplace⟩
      rw [advance]
      split
      · rcases hcpu.enter hplace (calloutGetBucket s curticks) with
          ⟨links, s', hremove, henter, hs'⟩
        have hkept := hcpu.kept c (hcpu.inside c _ hplace)
        rw [hremove, Except.bind, henter]
        split
        · next hfunc =>
            exact .undefined hplace hfunc
        · refine .ok (.cons hs' ?_ hbelow)
          exact ⟨hkept.lock, congrArg IFlags.localAlloc hkept.iflags⟩
      · refine .ok (.cons hcpu ?_ hbelow)
        intro x hx
        rw [(hcpu.placed.of_next hplace hx).1]
        rfl

theorem advance_running {curticks : CInt} {c : CalloutRef} {lock : Option LockObject}
    {iflags : IFlags} (hcpu : CpuInv n s
      ((Phase.running curticks c lock iflags :: rest).filterMap Phase.executing) place)
    (htop : TopKept place (.running curticks c lock iflags))
    (hbelow : forall q, q ∈ rest -> InHandler q) :
    Outcome n s place (advance s rest (.running curticks c lock iflags)) := by
  rcases htop with ⟨rfl, hlocal⟩
  rcases CpuInv.leave hcpu hlocal with ⟨s', hleave, hs'⟩
  rw [advance, hleave]
  refine .ok (.cons (hs'.congr rfl rfl rfl rfl ?_) hs'.next hbelow)
  intro x hx
  contradiction

theorem MachineInv.advance (h : MachineInv n m place) (hframes : m.frames = p :: rest) :
    Outcome n m.cc place (advance m.cc rest p) := by
  rcases m with ⟨s, frames⟩
  subst hframes
  have htop := h.top p rfl
  cases p with
  | tick => exact advance_tick h.cpu h.below
  | outer => exact advance_outer h.cpu h.below
  | scan curticks c => exact advance_scan h.cpu htop h.below
  | running curticks c lock iflags => exact advance_running h.cpu htop h.below

theorem MachineInv.step (h : MachineInv n m place) {r : Except Trap Machine}
    (hstep : Step n m r) : Outcome n m.cc place r := by
  cases hstep with
  | timeout houtside ftn arg toTicks =>
      cases hfirst : m.cc.links.first .callfree with
      | none =>
          rw [timeout, hfirst]
          exact .panic (h.cpu.placed.of_first_none hfirst)
      | some c =>
          rcases h.cpu.timeout ftn arg toTicks hfirst with ⟨s', b, heq, hs'⟩
          rw [heq]
          exact .ok (.of_inHandler hs' (h.inHandler houtside))
  | untimeout houtside ftn arg handle hhandle =>
      rcases h.cpu.untimeout ftn arg hhandle with ⟨s', place', heq, hs'⟩
      rw [heq]
      exact .ok (.of_inHandler hs' (h.inHandler houtside))
  | hardclock houtside =>
      exact .ok (.cons (h.cpu.congr rfl rfl rfl rfl h.cpu.next) trivial (h.inHandler houtside))
  | advance hframes => exact h.advance hframes

theorem Reachable.inv {memory : CalloutRef -> Callout} (h : Reachable memory n m) :
    exists place, MachineInv n m place := by
  induction h with
  | start =>
      refine ⟨allFree n, .of_inHandler (CpuInv.calloutCpuInit memory n) ?_⟩
      intro p hp
      contradiction
  | step _ hstep ih =>
      rcases ih with ⟨place, hinv⟩
      cases hinv.step hstep with
      | ok h => exact ⟨_, h⟩

/-!
## The states of the callouts
-/

inductive EntryState where
  | free
  | pending (bucket : CInt)
  | executing

/-- The callout is in the state, with `lists` the lists of the wheel and of `cc_callfree`. -/
def InState (lists : ListHead -> List CalloutRef) (executing : List CalloutRef)
    (c : CalloutRef) : EntryState -> Prop
  | .free =>
      (lists .callfree).count c = 1 ∧ (forall b, c ∉ lists (.callwheel b)) ∧ c ∉ executing
  | .pending b =>
      (lists (.callwheel b)).count c = 1 ∧
        (forall head, head ≠ .callwheel b -> c ∉ lists head) ∧ c ∉ executing
  | .executing => executing.count c = 1 ∧ forall head, c ∉ lists head

def stateOf : Option ListHead -> EntryState
  | some .callfree => .free
  | some (.callwheel b) => .pending b
  | none => .executing

theorem inState_iff {lists : ListHead -> List CalloutRef} (h : CpuInv n s executing place)
    (hholds : s.links.Holds ListHead.isList lists)
    (hlists : forall a head, a ∈ lists head <-> place a = some head) (hc : c < n)
    (st : EntryState) : InState lists executing c st <-> st = stateOf (place c) := by
  have hcount : forall head, (lists head).count c = 1 <-> place c = some head := by
    intro head
    simp [(hholds.nodup head).count, hlists]
  have hexecuting : c ∈ executing <-> place c = none := by
    rw [h.executes, and_iff_right hc]
  have hexecCount : executing.count c = 1 <-> place c = none := by
    simp [h.once.count, hexecuting]
  cases st with
  | free =>
      simp only [InState, hcount, hlists, hexecuting]
      cases place c with
      | none => simp [stateOf]
      | some head => cases head <;> simp [stateOf]
  | pending b =>
      simp only [InState, hcount, hlists, hexecuting]
      cases place c with
      | none => simp [stateOf]
      | some head =>
          cases head with
          | callfree => simp [stateOf]
          | callwheel b' =>
              simp only [stateOf, Option.some.injEq, EntryState.pending.injEq]
              constructor
              · rintro ⟨heq, _, _⟩
                injection heq with heq
                exact heq.symm
              · rintro rfl
                exact ⟨rfl, fun head hne heq => hne heq.symm, Option.some_ne_none _⟩
  | executing =>
      simp only [InState, hexecCount, hlists]
      cases place c with
      | none => simp [stateOf]
      | some head => cases head <;> simp [stateOf]

/--
In every state of every run each of the callouts is free, pending or executing, and in only one of
these states.  `timeout` panics only when none is free, and a run goes wrong in no other way than
by calling a handler that is a null pointer.
-/
theorem timeout_table (memory : CalloutRef -> Callout) (ncallout : Nat) {m : Machine}
    (h : Reachable memory ncallout m) : exists lists, m.cc.links.Holds ListHead.isList lists ∧
      (forall c, c < ncallout -> ExistsUnique (InState lists m.executing c)) ∧
      (forall head c, c ∈ lists head -> c < ncallout) ∧ (Step ncallout m (.error .panic) ->
        forall c, c < ncallout -> ¬ InState lists m.executing c .free) ∧
      (Step ncallout m (.error .undefined) -> exists c b, InState lists m.executing c (.pending b) ∧
          (m.cc.callouts c).func = none) := by
  rcases h.inv with ⟨place, hinv⟩
  rcases hinv.cpu.placed with ⟨lists, hholds, hlists⟩
  have hstate := fun c hc => inState_iff (c := c) hinv.cpu hholds hlists hc
  refine ⟨lists, hholds, ?_, ?_, ?_, ?_⟩
  · intro c hc
    refine ⟨stateOf (place c), (hstate c hc _).mpr rfl, ?_⟩
    intro st hst
    exact (hstate c hc st).mp hst
  · intro head c hmem
    exact hinv.cpu.inside c head ((hlists c head).mp hmem)
  · intro hstep c hc hfree
    cases hinv.step hstep with
    | panic hnone =>
        exact hnone c ((hlists c _).mp (List.count_pos_iff.mp (hfree.1 ▸ Nat.one_pos)))
  · intro hstep
    cases hinv.step hstep with
    | @undefined c b hplace hfunc =>
        refine ⟨c, b, (hstate c (hinv.cpu.inside c _ hplace) _).mpr ?_, hfunc⟩
        rw [hplace]
        rfl

/-- One of two callouts expires, and its handler is called. -/
theorem timeout_table_in_handler :
    exists m, Reachable (fun _ => calloutInit true) 2 m ∧ m.executing = [1] ∧
      exists lists, m.cc.links.Holds ListHead.isList lists ∧
        forall c, c < 2 -> ExistsUnique (InState lists m.executing c) := by
  have h0 : Reachable (fun _ => calloutInit true) 2 _ := .start
  have h1 := h0.step (.timeout rfl (some 5) 7 1)
  have h2 := h1.step (.hardclock rfl)
  have h3 := h2.step (@Step.advance _ _ .tick [] rfl)
  have h4 := h3.step (@Step.advance _ _ .tick [] rfl)
  have h5 := h4.step (.hardclock rfl)
  have h6 := h5.step (@Step.advance _ _ .tick [] rfl)
  have h7 := h6.step (@Step.advance _ _ .outer [] rfl)
  have h8 := h7.step (@Step.advance _ _ (.scan 1 (some 1)) [] rfl)
  rcases timeout_table _ _ h8 with ⟨lists, hholds, hstate, _⟩
  exact ⟨_, h8, rfl, lists, hholds, hstate⟩

end Legacy
end Timeout
end FStackLite
