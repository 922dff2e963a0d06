import FStackLite.Constants
import FStackLite.Filter.PortList
import FStackLite.Foundation.Loop
import Mathlib.Algebra.Order.BigOperators.Group.List

/-!
# The loops over a list of ports

`kni_set_bitmap` as its two loops run: the inner one counts in an `int` up to the end of
a range, and the number it has reached is cut to 16 bits when its bit is set.  What
`atoi` makes of a text may be any `int`.
-/

namespace FStackLite
namespace Filter

open Foundation (Bytes Converges LoopStep loop loopN)
open Config (Text)

/-- The bitmap, and the numbers that `set_bitmap` was called with. -/
structure PortRun where
  bitmap : Bytes
  calls : List Int

def PortRun.set (run : PortRun) (i : Int) : PortRun :=
  ⟨setBitmap (UInt16.ofInt i) run.bitmap, run.calls ++ [i]⟩

/-- `for (; i <= last; ++i)` -/
def rangeBody (last : Int) (_fuel : Nat) (s : Int × PortRun) :
    Option (LoopStep (Int × PortRun) PortRun) :=
  if s.1 ≤ last then
    some (.next ((s.1 + 1).bmod (2 ^ 32), s.2.set s.1))
  else
    some (.done s.2)

section

variable (atoi : Text -> Int32)

/-- The item that `head` starts with. -/
def itemPass (fuel : Nat) (head : Text) (run : PortRun) : Option PortRun :=
  match rangeDash head with
  | some tailNum => loop (rangeBody (rangeLast atoi head tailNum)) fuel (rangeFirst atoi head, run)
  | none => some (run.set (rangeFirst atoi head))

def listBody (fuel : Nat) (s : Text × PortRun) : Option (LoopStep (Text × PortRun) PortRun) :=
  (itemPass atoi fuel s.1 s.2).map fun run =>
    match strchr ',' s.1 with
    | none => .done run
    | some tail => .next (s.1.drop (tail + 1), run)

/-- `kni_set_bitmap`, with so many passes of each loop. -/
def kniSetBitmapRun (p : Text) (portBitmap : Bytes) (fuel : Nat) : Option PortRun :=
  loop (listBody atoi) fuel (p, ⟨portBitmap, []⟩)

def EndlessItem (head : Text) : Prop :=
  exists tailNum, rangeDash head = some tailNum ∧ rangeLast atoi head tailNum = intMax

end

def PortRun.setAll (run : PortRun) (numbers : List Int) : PortRun :=
  numbers.foldl PortRun.set run

theorem setAll_eq (run : PortRun) (numbers : List Int) : run.setAll numbers =
      ⟨numbers.foldl (fun bitmap i => setBitmap (UInt16.ofInt i) bitmap) run.bitmap,
        run.calls ++ numbers⟩ := by
  induction numbers generalizing run with
  | nil => simp [PortRun.setAll]
  | cons i numbers ih =>
      have hrest := ih (run.set i)
      simpa [PortRun.setAll, PortRun.set] using hrest

theorem setAll_calls (run : PortRun) (numbers : List Int) :
    (run.setAll numbers).calls = run.calls ++ numbers := by
  rw [setAll_eq]

theorem setAll_append (run : PortRun) (numbers numbers' : List Int) :
    run.setAll (numbers ++ numbers') = (run.setAll numbers).setAll numbers' :=
  List.foldl_append

theorem portHeads_length (head : Text) : (portHeads head).length = head.count ',' + 1 := by
  induction head using portHeads.induct with
  | case1 head h =>
      rw [portHeads_none h, List.length_singleton]
      have hcount : head.count ',' = 0 := by
        rw [List.count_eq_zero]
        intro hmem
        have hne := List.findIdx?_eq_none_iff.mp h ',' hmem
        contradiction
      rw [hcount]
  | case2 head tail h ih =>
      rcases List.findIdx?_eq_some_iff_getElem.mp h with ⟨hlt, hcomma, hbefore⟩
      have hfirst : (head.take tail).count ',' = 0 := by
        rw [List.count_eq_zero, List.mem_take_iff_getElem]
        rintro ⟨i, hi, heq⟩
        have hne := hbefore i (by omega)
        rw [heq] at hne
        contradiction
      have hsplit : head.take tail ++ ',' :: head.drop (tail + 1) = head := by
        rw [<- beq_iff_eq.mp hcomma, List.getElem_cons_drop, List.take_append_drop]
      have hcount : head.count ',' = (head.drop (tail + 1)).count ',' + 1 := by
        rw [<- hsplit, List.count_append, hfirst, List.count_cons_self, hsplit, Nat.zero_add]
      rw [portHeads_some h, List.length_cons, ih, hcount]

/-!
## A range
-/

variable {last : Int}

theorem loopTo_step {i : Int} (h : i ≤ last) : loopTo i last = i :: loopTo (i + 1) last := by
  have hlength : (last + 1 - i).toNat = (last + 1 - (i + 1)).toNat + 1 := by omega
  rw [loopTo, loopTo, hlength, List.range_succ_eq_map, List.map_cons, List.map_map]
  congr 1
  · exact Int.add_zero i
  · apply List.map_congr_left
    intro k _
    simp only [Function.comp_apply, Nat.succ_eq_add_one, Nat.cast_add, Nat.cast_one]
    ring

theorem loopTo_end {i : Int} (h : ¬ i ≤ last) : loopTo i last = [] := by
  have hlength : (last + 1 - i).toNat = 0 := by omega
  rw [loopTo, hlength]
  rfl

/-- The run ends with `target` when the rest of the range is set. -/
def RangeLeft (last : Int) (target : PortRun) (s : Int × PortRun) : Prop :=
  -2 ^ 31 ≤ s.1 ∧ s.2.setAll (loopTo s.1 last) = target

/-- One pass, below the largest `int`. -/
theorem rangeBody_left (hlast : last < intMax) {target : PortRun} (s : Int × PortRun)
    (h : RangeLeft last target s) :
    (exists r, Converges (fun n => rangeBody last n s) (.done r) ∧ r = target) ∨
      (exists s', Converges (fun n => rangeBody last n s) (.next s') ∧ RangeLeft last target s' ∧
        (last + 1 - s'.1).toNat < (last + 1 - s.1).toNat) := by
  rcases s with ⟨i, run⟩
  rcases h with ⟨hi, hrun⟩
  dsimp only at hi hrun
  by_cases hle : i ≤ last
  · have hnext : (i + 1).bmod (2 ^ 32) = i + 1 := by
      unfold intMax at hlast
      exact Int.bmod_eq_of_le (by omega) (by omega)
    refine Or.inr ⟨(i + 1, run.set i), ?_, ⟨by omega, ?_⟩, by omega⟩
    · apply Converges.of_eq
      intro n
      rw [rangeBody, if_pos hle, hnext]
    · rw [<- hrun, loopTo_step hle]
      rfl
  · refine Or.inl ⟨run, ?_, ?_⟩
    · apply Converges.of_eq
      intro n
      rw [rangeBody, if_neg hle]
    · rw [<- hrun, loopTo_end hle]
      rfl

/-- The counter passes the end of a range that is not the largest `int`. -/
theorem rangeLoop_converges {first : Int} (hfirst : -2 ^ 31 ≤ first) (hlast : last < intMax)
    (run : PortRun) :
    Converges (fun n => loop (rangeBody last) n (first, run)) (run.setAll (loopTo first last)) := by
  have hstart : RangeLeft last (run.setAll (loopTo first last)) (first, run) := ⟨hfirst, rfl⟩
  rcases Foundation.loop_converges_of_measure (fun s => (last + 1 - s.1).toNat)
    (rangeBody_left hlast) hstart with ⟨r, hr, heq⟩
  rwa [<- heq]

/-- No `int` is above the largest one. -/
theorem rangeLoop_endless {first : Int} (hfirst : first ≤ intMax) (run : PortRun) (fuel : Nat) :
    loop (rangeBody intMax) fuel (first, run) = none := by
  have hnext : forall s s' : Int × PortRun, s.1 ≤ intMax ->
      rangeBody intMax fuel s = some (.next s') -> s'.1 ≤ intMax := by
    intro s s' hs hbody
    rw [rangeBody, if_pos hs] at hbody
    injection hbody with hbody
    injection hbody with hbody
    rw [<- hbody]
    have hlt := Int.bmod_lt (x := s.1 + 1) (m := 2 ^ 32) (by decide)
    unfold intMax
    omega
  have hdone : forall (s : Int × PortRun) r, s.1 ≤ intMax ->
      rangeBody intMax fuel s = some (.done r) -> False := by
    intro s r hs hbody
    rw [rangeBody, if_pos hs] at hbody
    injection hbody with hbody
    contradiction
  apply Option.eq_none_iff_forall_ne_some.mpr
  intro r hr
  exact Foundation.loop_post hnext hdone hfirst hr

/-!
## A list
-/

section

variable (atoi : Text -> Int32) {head : Text} {fuel : Nat}

theorem rangeLast_le (head : Text) (tailNum : Nat) : rangeLast atoi head tailNum ≤ intMax :=
  Int32.toInt_le _

theorem itemPass_converges (h : ¬ EndlessItem atoi head) (run : PortRun) :
    Converges (fun n => itemPass atoi n head run) (run.setAll (itemNumbers atoi head)) := by
  unfold itemPass itemNumbers
  cases hdash : rangeDash head with
  | none => exact Converges.of_some
  | some tailNum =>
      have hne : rangeLast atoi head tailNum ≠ intMax := by
        intro hmax
        exact h ⟨tailNum, hdash, hmax⟩
      have hlast := lt_of_le_of_ne (rangeLast_le atoi head tailNum) hne
      exact rangeLoop_converges (Int32.le_toInt _) hlast run

theorem itemPass_endless (h : EndlessItem atoi head) (run : PortRun) (fuel : Nat) :
    itemPass atoi fuel head run = none := by
  rcases h with ⟨tailNum, hdash, hmax⟩
  simp only [itemPass, hdash, hmax]
  exact rangeLoop_endless (Int32.toInt_le _) run fuel

/-- The run ends with `target` when the rest of the list is set. -/
def ListLeft (target : PortRun) (s : Text × PortRun) : Prop :=
  (forall head, head ∈ portHeads s.1 -> ¬ EndlessItem atoi head) ∧
    s.2.setAll (listNumbers atoi s.1) = target

theorem listBody_left {target : PortRun} (s : Text × PortRun) (h : ListLeft atoi target s) :
    (exists r, Converges (fun n => listBody atoi n s) (.done r) ∧ r = target) ∨
      (exists s', Converges (fun n => listBody atoi n s) (.next s') ∧ ListLeft atoi target s' ∧
        s'.1.length < s.1.length) := by
  rcases s with ⟨head, run⟩
  rcases h with ⟨hends, hrun⟩
  dsimp only at hends hrun
  cases hcomma : strchr ',' head with
  | none =>
      rw [portHeads_none hcomma] at hends
      have hitem := itemPass_converges atoi (hends head List.mem_cons_self) run
      refine Or.inl ⟨run.setAll (itemNumbers atoi head), ?_, ?_⟩
      · simp only [listBody, hcomma]
        exact hitem.map _
      · rw [<- hrun, listNumbers_none atoi hcomma]
  | some tail =>
      rw [portHeads_some hcomma] at hends
      have hitem := itemPass_converges atoi (hends head List.mem_cons_self) run
      have hlt := strchr_lt hcomma
      refine Or.inr ⟨(head.drop (tail + 1), run.setAll (itemNumbers atoi head)), ?_, ⟨?_, ?_⟩, ?_⟩
      · simp only [listBody, hcomma]
        exact hitem.map _
      · intro head' hmem
        exact hends head' (List.mem_cons_of_mem _ hmem)
      · rw [<- hrun, listNumbers_some atoi hcomma, setAll_append]
      · show (head.drop (tail + 1)).length < head.length
        rw [List.length_drop]
        omega

theorem kniSetBitmapRun_converges {p : Text}
    (h : forall head, head ∈ portHeads p -> ¬ EndlessItem atoi head) (portBitmap : Bytes) :
    Converges (kniSetBitmapRun atoi p portBitmap)
      (PortRun.setAll ⟨portBitmap, []⟩ (listNumbers atoi p)) := by
  have hstart : ListLeft atoi (PortRun.setAll ⟨portBitmap, []⟩ (listNumbers atoi p))
      (p, ⟨portBitmap, []⟩) := ⟨h, rfl⟩
  rcases Foundation.loop_converges_of_measure (fun s => s.1.length) (listBody_left atoi) hstart with
    ⟨r, hr, heq⟩
  rwa [<- heq]

theorem listBody_eq_some {s : Text × PortRun} {step : LoopStep (Text × PortRun) PortRun}
    (h : listBody atoi fuel s = some step) : ¬ EndlessItem atoi s.1 ∧
      ((strchr ',' s.1 = none ∧ exists run, step = .done run) ∨
        exists tail run, strchr ',' s.1 = some tail ∧ step = .next (s.1.drop (tail + 1), run)) := by
  constructor
  · intro hs
    rw [listBody, itemPass_endless atoi hs] at h
    contradiction
  · rcases Option.map_eq_some_iff.mp h with ⟨run, _, hstep⟩
    cases hcomma : strchr ',' s.1 with
    | none =>
        rw [hcomma] at hstep
        exact Or.inl ⟨rfl, run, hstep.symm⟩
    | some tail =>
        rw [hcomma] at hstep
        exact Or.inr ⟨tail, run, rfl, hstep.symm⟩

def EndlessLeft (s : Text × PortRun) : Prop :=
  exists head, head ∈ portHeads s.1 ∧ EndlessItem atoi head

theorem listBody_next_endless (s s' : Text × PortRun) (h : EndlessLeft atoi s)
    (hstep : listBody atoi fuel s = some (.next s')) : EndlessLeft atoi s' := by
  rcases h with ⟨head, hmem, hend⟩
  rcases listBody_eq_some atoi hstep with ⟨hitem, ⟨_, run, hdone⟩ | ⟨tail, run, hcomma, hnext⟩⟩
  · contradiction
  · injection hnext with hnext
    rw [portHeads_some hcomma] at hmem
    rw [hnext]
    rcases List.mem_cons.mp hmem with heq | hmem
    · rw [heq] at hend
      contradiction
    · exact ⟨head, hmem, hend⟩

theorem listBody_done_endless (s : Text × PortRun) (run : PortRun) (h : EndlessLeft atoi s)
    (hstep : listBody atoi fuel s = some (.done run)) : False := by
  rcases h with ⟨head, hmem, hend⟩
  rcases listBody_eq_some atoi hstep with ⟨hitem, ⟨hcomma, _⟩ | ⟨tail, run, _, hnext⟩⟩
  · rw [portHeads_none hcomma, List.mem_singleton] at hmem
    rw [hmem] at hend
    contradiction
  · contradiction

theorem kniSetBitmapRun_endless {p : Text} (hmem : head ∈ portHeads p)
    (hend : EndlessItem atoi head) (portBitmap : Bytes) (fuel : Nat) :
    kniSetBitmapRun atoi p portBitmap fuel = none := by
  have hstart : EndlessLeft atoi (p, ⟨portBitmap, []⟩) := ⟨head, hmem, hend⟩
  apply Option.eq_none_iff_forall_ne_some.mpr
  intro r hr
  exact Foundation.loop_post (listBody_next_endless atoi) (listBody_done_endless atoi) hstart hr

end

/-!
## Numbers that are no ports
-/

/-- A call of `set_bitmap` with this number sets the bit of the port. -/
def SetsBit (i : Int) (port : UInt16) : Prop :=
  forall bitmap, getBitmap (htons port) (setBitmap (UInt16.ofInt i) bitmap) = true

theorem setsBit_ofInt (i : Int) : SetsBit i (UInt16.ofInt i) := by
  intro bitmap
  rw [getBitmap_setBitmap]
  exact Or.inl rfl

section

variable (atoi : Text -> Int32)

def SmallItem (head : Text) : Prop :=
  match rangeDash head with
  | some tailNum =>
      rangeFirst atoi head ≤ rangeLast atoi head tailNum ->
        0 ≤ rangeFirst atoi head ∧ rangeLast atoi head tailNum ≤ 65535
  | none => 0 ≤ rangeFirst atoi head ∧ rangeFirst atoi head ≤ 65535

theorem smallItem_iff (head : Text) :
    SmallItem atoi head <-> forall i, i ∈ itemNumbers atoi head -> 0 ≤ i ∧ i ≤ 65535 := by
  unfold SmallItem itemNumbers
  cases rangeDash head with
  | none => simp only [List.mem_singleton, forall_eq]
  | some tailNum =>
      simp only [mem_loopTo]
      constructor
      · rintro hsmall i ⟨hfirst, hlast⟩
        have hports := hsmall (hfirst.trans hlast)
        exact ⟨hports.1.trans hfirst, hlast.trans hports.2⟩
      · intro hports hle
        exact ⟨(hports _ ⟨le_refl _, hle⟩).1, (hports _ ⟨hle, le_refl _⟩).2⟩

/-- A range of ports ends below the largest `int`. -/
theorem SmallItem.not_endless {head : Text} (h : SmallItem atoi head) :
    ¬ EndlessItem atoi head := by
  rintro ⟨tailNum, hdash, hmax⟩
  simp only [SmallItem, hdash, hmax] at h
  have hports := h (Int32.toInt_le _)
  exact absurd hports.2 (by decide)

theorem SmallItem.length_le {head : Text} (h : SmallItem atoi head) :
    (itemNumbers atoi head).length ≤ 65536 := by
  unfold SmallItem at h
  unfold itemNumbers
  cases hdash : rangeDash head with
  | none => exact Nat.le_add_left 1 65535
  | some tailNum =>
      simp only [hdash] at h
      simp only [loopTo, List.length_map, List.length_range]
      by_cases hle : rangeFirst atoi head ≤ rangeLast atoi head tailNum
      · have hports := h hle
        omega
      · omega

theorem listNumbers_length_le {p : Text}
    (h : forall head, head ∈ portHeads p -> SmallItem atoi head) :
    (listNumbers atoi p).length ≤ 65536 * (p.count ',' + 1) := by
  have hlengths : forall length,
      length ∈ (portHeads p).map (fun head => (itemNumbers atoi head).length) ->
        length ≤ 65536 := by
    intro length hlength
    rcases List.mem_map.mp hlength with ⟨head, hmem, rfl⟩
    exact (h head hmem).length_le
  have hsum := List.sum_le_card_nsmul _ _ hlengths
  rw [List.length_map, portHeads_length, nsmul_eq_mul, Nat.cast_id] at hsum
  rw [listNumbers, List.length_flatMap, Nat.mul_comm]
  exact hsum

/--
The loops end after at most 65536 calls an item, and the numbers that are not ports set
no bits, exactly if the list has no such numbers.
-/
theorem kni_port_list_robust (p : Text) (portBitmap : Bytes) :
    (exists run, Converges (kniSetBitmapRun atoi p portBitmap) run ∧
      run.calls.length ≤ 65536 * (p.count ',' + 1) ∧
      forall i, i ∈ run.calls -> ¬ (0 ≤ i ∧ i ≤ 65535) -> forall port, ¬ SetsBit i port) <->
    forall head, head ∈ portHeads p -> SmallItem atoi head := by
  constructor
  · rintro ⟨run, hrun, _, hbits⟩ head hmem
    have hends : forall head, head ∈ portHeads p -> ¬ EndlessItem atoi head := by
      intro head hmem hend
      rcases hrun with ⟨n, hn⟩
      have hsome := hn n (Nat.le_refl n)
      rw [kniSetBitmapRun_endless atoi hmem hend] at hsome
      contradiction
    have hcalls := hrun.unique (kniSetBitmapRun_converges atoi hends portBitmap)
    rw [hcalls, setAll_calls, List.nil_append] at hbits
    rw [smallItem_iff]
    intro i hi
    apply Decidable.not_not.mp
    intro hport
    have hlist : i ∈ listNumbers atoi p := List.mem_flatMap.mpr ⟨head, hmem, hi⟩
    exact hbits i hlist hport _ (setsBit_ofInt i)
  · intro hsmall
    have hends : forall head, head ∈ portHeads p -> ¬ EndlessItem atoi head :=
      fun head hmem => (hsmall head hmem).not_endless
    refine ⟨_, kniSetBitmapRun_converges atoi hends portBitmap, ?_, ?_⟩
    · rw [setAll_calls, List.nil_append]
      exact listNumbers_length_le atoi hsmall
    · rw [setAll_calls, List.nil_append]
      intro i hi hport
      rcases List.mem_flatMap.mp hi with ⟨head, hmem, hitem⟩
      exact absurd ((smallItem_iff atoi head).mp (hsmall head hmem) i hitem) hport

end

/-- For the list `1-2147483647` no number of passes is enough. -/
theorem kni_port_list_endless :
    ¬ exists run, Converges (kniSetBitmapRun libcAtoi "1-2147483647".toList fun _ => 0) run := by
  have hcomma : strchr ',' "1-2147483647".toList = none := by decide
  have hdash : rangeDash "1-2147483647".toList = some 1 := by decide
  have hlast : rangeLast libcAtoi "1-2147483647".toList 1 = intMax := by
    rw [rangeLast, libcAtoi_toInt]
    decide
  have hmem : "1-2147483647".toList ∈ portHeads "1-2147483647".toList := by
    rw [portHeads_none hcomma]
    exact List.mem_singleton_self _
  rintro ⟨run, n, hn⟩
  have hsome := hn n (Nat.le_refl n)
  rw [kniSetBitmapRun_endless libcAtoi hmem ⟨1, hdash, hlast⟩] at hsome
  contradiction

end Filter
end FStackLite
