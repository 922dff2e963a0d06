import FStackLite.Timeout.Wheel

/-!
# The wheel invariant

A pending callout stands exactly once on the wheel, on the bucket of its
`c_time`, and nothing else does.  Taking a callout off its list and arming it
keep this; every other effect of the interface leaves the lists alone.

While `softclock` walks a bucket, the saved next element is a position in that
bucket with no due callout before it.  The two list operations keep that as
well, whichever callout they are applied to: a removed position moves to its
successor, and an insertion into the bucket under scan moves the position back
to the head of the list.
-/

namespace FStackLite
namespace Timeout

/-!
## Successors in a list
-/

variable {c : CalloutRef} {pre suf : List CalloutRef} {s : CalloutCpu} {curticks : CInt}

theorem nextIn_append (hpre : c ∉ pre) : nextIn c (pre ++ c :: suf) = suf.head? := by
  induction pre with
  | nil => simp [nextIn]
  | cons x xs ih =>
      have hx : x ≠ c := by
        intro hxc
        exact hpre (by simp [hxc])
      have hxs : c ∉ xs := by
        intro hmem
        exact hpre (List.mem_cons_of_mem x hmem)
      simpa [nextIn, hx] using ih hxs

theorem not_mem_of_nodup_append_cons (h : (pre ++ c :: suf).Nodup) : c ∉ pre ∧ c ∉ suf := by
  rw [List.nodup_append] at h
  rcases h with ⟨_, hsuf, hdisj⟩
  constructor
  · intro hmem
    exact hdisj c hmem c (List.mem_cons_self ..) rfl
  · exact (List.nodup_cons.mp hsuf).left

theorem erase_append_cons (hpre : c ∉ pre) : (pre ++ c :: suf).erase c = pre ++ suf := by
  rw [List.erase_append_right _ hpre]
  simp

/-!
## The invariant
-/

/-- The callout is neither preallocated, nor migrating, nor on the expiry queue. -/
def Plain (co : Callout) : Prop :=
  co.iflags.localAlloc = false ∧ co.iflags.dfrMigration = false ∧
    co.iflags.processed = false

structure WheelInv (s : CalloutCpu) : Prop where
  nodup : forall b, (s.callwheel b).Nodup
  mem_iff : forall b c, c ∈ s.callwheel b <->
    (s.callouts c).iflags.pending = true ∧ s.bucketOf c = b
  plain : forall c, Plain (s.callouts c)

theorem WheelInv.not_mem (h : WheelInv s) (hidle : (s.callouts c).iflags.pending = false)
    (b : CInt) : c ∉ s.callwheel b := by
  intro hmem
  have hpending := ((h.mem_iff b c).mp hmem).left
  rw [hidle] at hpending
  cases hpending

theorem Initialised.idle {co : Callout} (h : Initialised co) :
    Plain co ∧ co.iflags.pending = false ∧ co.iflags.direct = false := by
  cases h with
  | init mpsafe => cases mpsafe <;> exact ⟨⟨rfl, rfl, rfl⟩, rfl, rfl⟩
  | lock l returnUnlocked _ => exact ⟨⟨rfl, rfl, rfl⟩, rfl, rfl⟩

theorem wheelInv_init (shift : Nat) {callouts : CalloutRef -> Callout}
    (h : forall c, Initialised (callouts c)) : WheelInv (calloutCallwheelInit shift callouts) := by
  constructor
  · intro b
    exact List.nodup_nil
  · intro b c
    simp [calloutCallwheelInit, (h c).idle.right.left]
  · intro c
    exact (h c).idle.left

def SameLinks (s s' : CalloutCpu) : Prop :=
  s'.callwheel = s.callwheel ∧ s'.callwheelmask = s.callwheelmask ∧
    forall c, (s'.callouts c).time = (s.callouts c).time ∧
      (s'.callouts c).iflags = (s.callouts c).iflags

theorem SameLinks.bucketOf {s' : CalloutCpu} (h : SameLinks s s') (c : CalloutRef) :
    s'.bucketOf c = s.bucketOf c := by
  simp [CalloutCpu.bucketOf, calloutGetBucket, h.right.left, (h.right.right c).left]

theorem WheelInv.congr {s' : CalloutCpu} (h : WheelInv s) (hsame : SameLinks s s') :
    WheelInv s' := by
  constructor
  · intro b
    rw [hsame.left]
    exact h.nodup b
  · intro b c
    rw [hsame.left, hsame.bucketOf, (hsame.right.right c).right]
    exact h.mem_iff b c
  · intro c
    rw [Plain, (hsame.right.right c).right]
    exact h.plain c

/-!
## Taking a callout off the wheel
-/

def unlink (s : CalloutCpu) (c : CalloutRef) : CalloutCpu :=
  clearPending (dequeue s c) c

theorem dequeue_eq (h : WheelInv s) (c : CalloutRef) : dequeue s c = { s with
        next := if s.next = some c then listNext s c else s.next
        callwheel := fun b => (s.callwheel b).erase c } := by
  have hwheel : Function.update s.callwheel (s.bucketOf c)
      ((s.callwheel (s.bucketOf c)).erase c) =
        fun b => (s.callwheel b).erase c := by
    funext b
    by_cases hb : b = s.bucketOf c
    · subst hb
      simp
    · rw [Function.update_of_ne hb, List.erase_of_not_mem]
      intro hmem
      exact hb ((h.mem_iff b c).mp hmem).right.symm
  have hprocessed := (h.plain c).right.right
  by_cases hnext : s.next = some c
  · simp only [dequeue, hprocessed, hnext, if_true, Bool.false_eq_true, if_false]
    show CalloutCpu.setBucket { s with next := listNext s c } (s.bucketOf c)
      ((s.callwheel (s.bucketOf c)).erase c) = _
    rw [CalloutCpu.setBucket, hwheel]
  · simp only [dequeue, hprocessed, hnext, Bool.false_eq_true, if_false]
    rw [listRemove, CalloutCpu.setBucket, hwheel]

theorem dequeue_clearPending (s : CalloutCpu) (c : CalloutRef) :
    dequeue (clearPending s c) c = clearPending (dequeue s c) c := by
  have hbucket : (clearPending s c).bucketOf c = s.bucketOf c := by
    simp [CalloutCpu.bucketOf, calloutGetBucket, clearPending]
  by_cases hprocessed : (s.callouts c).iflags.processed = true
  · simp [dequeue, clearPending, CalloutCpu.setCallout, hprocessed]
  · by_cases hnext : s.next = some c
    · simp [dequeue, listRemove, listNext, CalloutCpu.setBucket, hprocessed, hnext,
        CalloutCpu.bucketOf, calloutGetBucket, clearPending, CalloutCpu.setCallout]
    · simp [dequeue, listRemove, CalloutCpu.setBucket, hprocessed, hnext,
        CalloutCpu.bucketOf, calloutGetBucket, clearPending, CalloutCpu.setCallout]

section Unlink

variable {s : CalloutCpu} (h : WheelInv s) (c : CalloutRef)

include h

theorem unlink_callwheel (b : CInt) : (unlink s c).callwheel b = (s.callwheel b).erase c := by
  rw [unlink, dequeue_eq h]
  rfl

theorem unlink_next : (unlink s c).next = if s.next = some c then listNext s c else s.next := by
  rw [unlink, dequeue_eq h]
  rfl

theorem unlink_callouts_self : (unlink s c).callouts c = { s.callouts c with
        active := false
        iflags := { (s.callouts c).iflags with pending := false } } := by
  rw [unlink, dequeue_eq h, clearPending, CalloutCpu.setCallout_callouts_self]

theorem unlink_callouts_of_ne {b : CalloutRef} (hb : b ≠ c) :
    (unlink s c).callouts b = s.callouts b := by
  rw [unlink, dequeue_eq h, clearPending, CalloutCpu.setCallout_callouts_of_ne _ _ _ _ hb]

theorem unlink_time (b : CalloutRef) : ((unlink s c).callouts b).time = (s.callouts b).time := by
  by_cases hb : b = c
  · subst hb
    rw [unlink_callouts_self h]
  · rw [unlink_callouts_of_ne h c hb]

theorem unlink_execEntity : (unlink s c).execEntity = s.execEntity := by
  rw [unlink, dequeue_eq h]
  rfl

theorem unlink_clock : (unlink s c).ticks = s.ticks ∧ (unlink s c).softticks = s.softticks ∧
      (unlink s c).bucket = s.bucket ∧ (unlink s c).callwheelmask = s.callwheelmask := by
  rw [unlink, dequeue_eq h]
  exact ⟨rfl, rfl, rfl, rfl⟩

theorem unlink_bucketOf (b : CalloutRef) : (unlink s c).bucketOf b = s.bucketOf b := by
  rw [CalloutCpu.bucketOf, calloutGetBucket, unlink_time h, (unlink_clock h c).right.right.right]
  rfl

theorem unlink_pending (b : CalloutRef) : ((unlink s c).callouts b).iflags.pending =
      if b = c then false else (s.callouts b).iflags.pending := by
  by_cases hb : b = c
  · subst hb
    rw [unlink_callouts_self h, if_pos rfl]
  · rw [unlink_callouts_of_ne h c hb, if_neg hb]

theorem unlink_wheelInv : WheelInv (unlink s c) := by
  constructor
  · intro b
    rw [unlink_callwheel h]
    exact (h.nodup b).erase c
  · intro b c'
    rw [unlink_callwheel h, unlink_bucketOf h, unlink_pending h,
      (h.nodup b).mem_erase_iff, h.mem_iff]
    by_cases hc : c' = c
    · simp [hc]
    · simp [hc]
  · intro c'
    by_cases hc : c' = c
    · subst hc
      rw [unlink_callouts_self h]
      exact h.plain c'
    · rw [unlink_callouts_of_ne h c hc]
      exact h.plain c'

end Unlink

/-!
## Arming a callout that is not on the wheel
-/

section Add

variable (s : CalloutCpu) (c : CalloutRef) (toTicks : CInt) (func : FuncPtr)
  (arg : ArgPtr) (flags : CalloutFlags)

theorem calloutCcAdd_eq : calloutCcAdd s c toTicks func arg flags = { s with
        callouts := Function.update s.callouts c (armed s c toTicks func arg flags)
        next :=
          if s.bucket = calloutGetBucket s (s.ticks + toTicks) then some c
          else s.next
        callwheel :=
          Function.update s.callwheel (calloutGetBucket s (s.ticks + toTicks))
            (c :: s.callwheel (calloutGetBucket s (s.ticks + toTicks))) } := by
  by_cases hbucket : s.bucket = calloutGetBucket s (s.ticks + toTicks)
  · simp [calloutCcAdd, listInsertHead, calloutGetBucket,
      CalloutCpu.setBucket, CalloutCpu.setCallout] at hbucket ⊢
    simp [armed, hbucket]
  · simp [calloutCcAdd, listInsertHead, calloutGetBucket,
      CalloutCpu.setBucket, CalloutCpu.setCallout] at hbucket ⊢
    simp [armed, hbucket]

theorem calloutCcAdd_callouts_self : (calloutCcAdd s c toTicks func arg flags).callouts c =
      armed s c toTicks func arg flags := by
  rw [calloutCcAdd_eq]
  simp

theorem calloutCcAdd_callouts_of_ne {b : CalloutRef} (hb : b ≠ c) :
    (calloutCcAdd s c toTicks func arg flags).callouts b = s.callouts b := by
  rw [calloutCcAdd_eq]
  simp [hb]

theorem calloutCcAdd_execEntity :
    (calloutCcAdd s c toTicks func arg flags).execEntity = s.execEntity := by
  rw [calloutCcAdd_eq]

theorem calloutCcAdd_clock : (calloutCcAdd s c toTicks func arg flags).ticks = s.ticks ∧
      (calloutCcAdd s c toTicks func arg flags).softticks = s.softticks ∧
      (calloutCcAdd s c toTicks func arg flags).bucket = s.bucket ∧
      (calloutCcAdd s c toTicks func arg flags).callwheelmask = s.callwheelmask := by
  rw [calloutCcAdd_eq]
  exact ⟨rfl, rfl, rfl, rfl⟩

theorem calloutCcAdd_bucketOf (b : CalloutRef) :
    (calloutCcAdd s c toTicks func arg flags).bucketOf b =
      if b = c then calloutGetBucket s (s.ticks + toTicks) else s.bucketOf b := by
  rw [CalloutCpu.bucketOf, calloutGetBucket,
    (calloutCcAdd_clock s c toTicks func arg flags).right.right.right]
  by_cases hb : b = c
  · subst hb
    rw [calloutCcAdd_callouts_self, if_pos rfl]
    rfl
  · rw [calloutCcAdd_callouts_of_ne s c toTicks func arg flags hb, if_neg hb]
    rfl

theorem calloutCcAdd_wheelInv (h : WheelInv s) (hidle : (s.callouts c).iflags.pending = false) :
    WheelInv (calloutCcAdd s c toTicks func arg flags) := by
  have hwheel : (calloutCcAdd s c toTicks func arg flags).callwheel =
      Function.update s.callwheel (calloutGetBucket s (s.ticks + toTicks))
        (c :: s.callwheel (calloutGetBucket s (s.ticks + toTicks))) := by
    rw [calloutCcAdd_eq]
  constructor
  · intro b
    rw [hwheel]
    by_cases hb : b = calloutGetBucket s (s.ticks + toTicks)
    · subst hb
      rw [Function.update_self]
      exact List.nodup_cons.mpr ⟨h.not_mem hidle _, h.nodup _⟩
    · rw [Function.update_of_ne hb]
      exact h.nodup b
  · intro b c'
    rw [hwheel, calloutCcAdd_bucketOf]
    by_cases hc : c' = c
    · subst hc
      rw [calloutCcAdd_callouts_self]
      by_cases hb : b = calloutGetBucket s (s.ticks + toTicks)
      · subst hb
        simp [armed]
      · rw [Function.update_of_ne hb]
        simp [armed, h.not_mem hidle b, Ne.symm hb]
    · rw [calloutCcAdd_callouts_of_ne s c toTicks func arg flags hc, if_neg hc, ← h.mem_iff]
      by_cases hb : b = calloutGetBucket s (s.ticks + toTicks)
      · subst hb
        simp [hc]
      · rw [Function.update_of_ne hb]
  · intro c'
    by_cases hc : c' = c
    · subst hc
      rw [calloutCcAdd_callouts_self]
      exact ⟨(h.plain c').left, (h.plain c').right.left, rfl⟩
    · rw [calloutCcAdd_callouts_of_ne s c toTicks func arg flags hc]
      exact h.plain c'

end Add

/-!
## The position of a scan
-/

/-- The list that the scan for `curticks` walks. -/
def scanList (s : CalloutCpu) (curticks : CInt) : List CalloutRef :=
  s.callwheel (calloutGetBucket s curticks)

/-- The callout is due in the scan for `curticks`. -/
def isDue (s : CalloutCpu) (curticks : CInt) (c : CalloutRef) : Bool :=
  decide ((s.callouts c).time = curticks)

/-- How many callouts the scan for `curticks` still has to run. -/
def dueCount (s : CalloutCpu) (curticks : CInt) : Nat :=
  (scanList s curticks).countP (isDue s curticks)

def ScanPos (s : CalloutCpu) (curticks : CInt) (pos : Option CalloutRef) : Prop :=
  exists pre suf, scanList s curticks = pre ++ suf ∧ suf.head? = pos ∧
    forall c, c ∈ pre -> isDue s curticks c = false

theorem scanPos_head (s : CalloutCpu) (curticks : CInt) :
    ScanPos s curticks (scanList s curticks).head? :=
  ⟨[], scanList s curticks, rfl, rfl, fun _ hc => absurd hc List.not_mem_nil⟩

theorem ScanPos.dueCount_of_none (h : ScanPos s curticks none) : dueCount s curticks = 0 := by
  rcases h with ⟨pre, suf, hlist, hhead, hpre⟩
  have hsuf : suf = [] := by
    cases suf with
    | nil => rfl
    | cons x xs => cases hhead
  rw [dueCount, hlist, hsuf, List.append_nil]
  apply List.countP_eq_zero.mpr
  intro c hc
  simp [hpre c hc]

theorem ScanPos.split (h : ScanPos s curticks (some c)) :
    exists pre suf, scanList s curticks = pre ++ c :: suf ∧
      forall b, b ∈ pre -> isDue s curticks b = false := by
  rcases h with ⟨pre, suf, hlist, hhead, hpre⟩
  cases suf with
  | nil => cases hhead
  | cons x xs =>
      have hx : x = c := by
        simpa using hhead
      subst hx
      exact ⟨pre, xs, hlist, hpre⟩

theorem scanList_unlink (h : WheelInv s) (c : CalloutRef) (curticks : CInt) :
    scanList (unlink s c) curticks = (scanList s curticks).erase c := by
  rw [scanList, unlink_callwheel h, calloutGetBucket, (unlink_clock h c).right.right.right]
  rfl

theorem isDue_unlink (h : WheelInv s) (c : CalloutRef) (curticks : CInt) :
    isDue (unlink s c) curticks = isDue s curticks := by
  funext b
  rw [isDue, isDue, unlink_time h]

theorem scanPos_unlink_next (h : WheelInv s) (hnext : s.next = some c)
    (hpos : ScanPos s curticks (some c)) : ScanPos (unlink s c) curticks (unlink s c).next := by
  rcases hpos.split with ⟨pre, rest, hsplit, hpre⟩
  have hnodup : (pre ++ c :: rest).Nodup := by
    rw [← hsplit]
    exact h.nodup _
  have hcpre := (not_mem_of_nodup_append_cons hnodup).left
  have hbucket : s.bucketOf c = calloutGetBucket s curticks := by
    have hmem : c ∈ s.callwheel (calloutGetBucket s curticks) := by
      show c ∈ scanList s curticks
      rw [hsplit]
      simp
    exact ((h.mem_iff _ c).mp hmem).right
  refine ⟨pre, rest, ?_, ?_, ?_⟩
  · rw [scanList_unlink h, hsplit, erase_append_cons hcpre]
  · rw [unlink_next h, if_pos hnext, listNext, hbucket]
    show rest.head? = nextIn c (scanList s curticks)
    rw [hsplit, nextIn_append hcpre]
  · intro b hb
    rw [isDue_unlink h]
    exact hpre b hb

theorem scanPos_unlink_other (h : WheelInv s) (hnext : s.next ≠ some c)
    (hpos : ScanPos s curticks s.next) : ScanPos (unlink s c) curticks (unlink s c).next := by
  rcases hpos with ⟨pre, suf, hsplit, hhead, hpre⟩
  rw [unlink_next h, if_neg hnext, ← hhead]
  by_cases hcpre : c ∈ pre
  · refine ⟨pre.erase c, suf, ?_, rfl, ?_⟩
    · rw [scanList_unlink h, hsplit, List.erase_append_left _ hcpre]
    · intro b hb
      rw [isDue_unlink h]
      exact hpre b (List.mem_of_mem_erase hb)
  · refine ⟨pre, suf.erase c, ?_, ?_, ?_⟩
    · rw [scanList_unlink h, hsplit, List.erase_append_right _ hcpre]
    · cases suf with
      | nil => rfl
      | cons x xs =>
          have hx : x ≠ c := by
            intro hxc
            apply hnext
            rw [← hhead, hxc]
            rfl
          rw [List.erase_cons_tail (by simpa using hx)]
          rfl
    · intro b hb
      rw [isDue_unlink h]
      exact hpre b hb

theorem scanPos_unlink (h : WheelInv s) (c : CalloutRef) (hpos : ScanPos s curticks s.next) :
    ScanPos (unlink s c) curticks (unlink s c).next := by
  by_cases hnext : s.next = some c
  · rw [hnext] at hpos
    exact scanPos_unlink_next h hnext hpos
  · exact scanPos_unlink_other h hnext hpos

theorem dueCount_unlink (h : WheelInv s) (c : CalloutRef) (curticks : CInt) :
    dueCount (unlink s c) curticks ≤ dueCount s curticks := by
  rw [dueCount, dueCount, isDue_unlink h, scanList_unlink h]
  exact List.Sublist.countP_le List.erase_sublist

section ScanAdd

variable {s : CalloutCpu} {c : CalloutRef} {curticks : CInt}
  (toTicks : CInt) (func : FuncPtr) (arg : ArgPtr) (flags : CalloutFlags)

theorem scanList_calloutCcAdd : scanList (calloutCcAdd s c toTicks func arg flags) curticks =
      if calloutGetBucket s curticks = calloutGetBucket s (s.ticks + toTicks) then
        c :: scanList s curticks
      else scanList s curticks := by
  have hbucket : calloutGetBucket (calloutCcAdd s c toTicks func arg flags) curticks =
      calloutGetBucket s curticks := by
    rw [calloutGetBucket, (calloutCcAdd_clock s c toTicks func arg flags).right.right.right]
    rfl
  rw [scanList, hbucket, calloutCcAdd_eq]
  by_cases hb : calloutGetBucket s curticks = calloutGetBucket s (s.ticks + toTicks)
  · simp [hb, scanList]
  · simp [hb, scanList]

variable (hlater : s.ticks + toTicks ≠ curticks)

include hlater

theorem isDue_calloutCcAdd (b : CalloutRef) :
    isDue (calloutCcAdd s c toTicks func arg flags) curticks b =
      (isDue s curticks b && decide (b ≠ c)) := by
  by_cases hc : b = c
  · subst hc
    rw [isDue, calloutCcAdd_callouts_self]
    simp [armed, hlater]
  · rw [isDue, calloutCcAdd_callouts_of_ne s c toTicks func arg flags hc]
    simp [isDue, hc]

theorem scanPos_calloutCcAdd (hbucket : s.bucket = calloutGetBucket s curticks)
    (hpos : ScanPos s curticks s.next) : ScanPos (calloutCcAdd s c toTicks func arg flags) curticks
      (calloutCcAdd s c toTicks func arg flags).next := by
  have hlist : scanList (calloutCcAdd s c toTicks func arg flags) curticks = _ :=
    scanList_calloutCcAdd toTicks func arg flags
  have hnext : (calloutCcAdd s c toTicks func arg flags).next =
      if s.bucket = calloutGetBucket s (s.ticks + toTicks) then some c
      else s.next := by
    rw [calloutCcAdd_eq]
  rw [hbucket] at hnext
  by_cases hb : calloutGetBucket s curticks = calloutGetBucket s (s.ticks + toTicks)
  · rw [if_pos hb] at hlist hnext
    have hhead := scanPos_head (calloutCcAdd s c toTicks func arg flags) curticks
    rw [hlist] at hhead
    rw [hnext]
    exact hhead
  · rw [if_neg hb] at hlist hnext
    rcases hpos with ⟨pre, suf, hsplit, hhead, hpre⟩
    refine ⟨pre, suf, by rw [hlist, hsplit], by rw [hnext, hhead], ?_⟩
    intro b hbmem
    rw [isDue_calloutCcAdd toTicks func arg flags hlater, hpre b hbmem]
    rfl

theorem dueCount_calloutCcAdd : dueCount (calloutCcAdd s c toTicks func arg flags) curticks ≤
      dueCount s curticks := by
  have hdue := isDue_calloutCcAdd (c := c) toTicks func arg flags hlater
  have hold : forall b, b ∈ scanList s curticks ->
      isDue (calloutCcAdd s c toTicks func arg flags) curticks b = true ->
      isDue s curticks b = true := by
    intro b _ hb
    rw [hdue, Bool.and_eq_true] at hb
    exact hb.left
  have hself : isDue (calloutCcAdd s c toTicks func arg flags) curticks c = false := by
    rw [hdue]
    simp
  rw [dueCount, dueCount, scanList_calloutCcAdd]
  split
  · rw [List.countP_cons, hself]
    exact List.countP_mono_left hold
  · exact List.countP_mono_left hold

end ScanAdd

/-!
## Progress of a scan

A pass over a callout that is not due moves the position one element on; a pass
over a due callout leaves fewer of them.
-/

def scanRest (s : CalloutCpu) (curticks : CInt) : Option CalloutRef -> Nat
  | none => 0
  | some c => (scanList s curticks).length - (scanList s curticks).idxOf c

theorem scanRest_of_split (hsplit : scanList s curticks = pre ++ c :: suf) (hpre : c ∉ pre) :
    scanRest s curticks (some c) = suf.length + 1 := by
  rw [scanRest, hsplit, List.idxOf_append, if_neg hpre]
  simp

section ScanStep

variable {s : CalloutCpu} (h : WheelInv s) {curticks : CInt} {c : CalloutRef}
  (hpos : ScanPos s curticks (some c))

include h hpos

theorem ScanPos.pending :
    (s.callouts c).iflags.pending = true ∧ s.bucketOf c = calloutGetBucket s curticks := by
  rcases hpos.split with ⟨pre, suf, hsplit, _⟩
  apply (h.mem_iff _ c).mp
  show c ∈ scanList s curticks
  rw [hsplit]
  simp

theorem scanPos_listNext (hnot : (s.callouts c).time ≠ curticks) :
    ScanPos s curticks (listNext s c) ∧
      scanRest s curticks (listNext s c) < scanRest s curticks (some c) := by
  rcases hpos.split with ⟨pre, suf, hsplit, hpre⟩
  have hnodup : (pre ++ c :: suf).Nodup := by
    rw [← hsplit]
    exact h.nodup _
  have hc := not_mem_of_nodup_append_cons hnodup
  have hnext : listNext s c = suf.head? := by
    rw [listNext, (hpos.pending h).right]
    show nextIn c (scanList s curticks) = suf.head?
    rw [hsplit, nextIn_append hc.left]
  have hsplit' : scanList s curticks = (pre ++ [c]) ++ suf := by
    simpa using hsplit
  constructor
  · refine ⟨pre ++ [c], suf, hsplit', hnext.symm, ?_⟩
    intro b hb
    rcases List.mem_append.mp hb with hb | hb
    · exact hpre b hb
    · rw [List.mem_singleton.mp hb]
      simpa [isDue] using hnot
  · rw [hnext, scanRest_of_split hsplit hc.left]
    cases suf with
    | nil => exact Nat.succ_pos _
    | cons x xs =>
        have hx : x ∉ pre ++ [c] := by
          rw [hsplit'] at hsplit
          have hnodup' : ((pre ++ [c]) ++ x :: xs).Nodup := by
            rw [hsplit]
            exact hnodup
          exact (not_mem_of_nodup_append_cons hnodup').left
        rw [List.head?_cons, scanRest_of_split hsplit' hx]
        simp

theorem dueCount_unlink_lt (hdue : (s.callouts c).time = curticks) :
    dueCount (unlink s c) curticks < dueCount s curticks := by
  have hsame : isDue (unlink s c) curticks = isDue s curticks := by
    funext b
    rw [isDue, isDue, unlink_time h]
  rcases hpos.split with ⟨pre, suf, hsplit, _⟩
  have hnodup : (pre ++ c :: suf).Nodup := by
    rw [← hsplit]
    exact h.nodup _
  have hlist : scanList (unlink s c) curticks = pre ++ suf := by
    rw [scanList, unlink_callwheel h, calloutGetBucket, (unlink_clock h c).right.right.right]
    show (scanList s curticks).erase c = pre ++ suf
    rw [hsplit, erase_append_cons (not_mem_of_nodup_append_cons hnodup).left]
  rw [dueCount, dueCount, hsame, hlist, hsplit]
  simp [isDue, hdue]

end ScanStep

theorem dueCount_eq_zero (h : WheelInv s) (hzero : dueCount s curticks = 0)
    (hpending : (s.callouts c).iflags.pending = true) : (s.callouts c).time ≠ curticks := by
  intro htime
  have hmem : c ∈ scanList s curticks := by
    apply (h.mem_iff _ c).mpr
    exact ⟨hpending, by rw [CalloutCpu.bucketOf, htime]⟩
  have hnot := List.countP_eq_zero.mp hzero c hmem
  simp [isDue, htime] at hnot

end Timeout
end FStackLite
