import FStackLite.Config.Lists
import Mathlib.Data.Nat.Bitwise
import Mathlib.Data.List.Range

/-!
# What a core mask means

A core mask is a hexadecimal number whose one bits are the cores of the processes.
`parse_lcore_mask` reads it from its last digit on, four bits at a time.
-/

namespace FStackLite
namespace Config

/-- The text without blanks around it and without `0x`. -/
def maskDigits (coremask : Text) : Text :=
  (skipHexMark (coremask.dropWhile isblank)).rdropWhile isblank

def hexValue (digits : Text) : Nat :=
  digits.foldl (fun n c => 16 * n + xdigit2val c) 0

def setBits (v : Nat) : List Nat :=
  (List.range rteMaxLcore).filter fun k => v.testBit k

structure Acceptable (procId : Nat) (coremask : Text) : Prop where
  nonempty : maskDigits coremask ≠ []
  digits : (maskDigits coremask).all isxdigit = true
  bound : hexValue (maskDigits coremask) < 2 ^ rteMaxLcore
  core : procId < (setBits (hexValue (maskDigits coremask))).length

/-!
## Digits
-/

def lowValue : Text -> Nat
  | [] => 0
  | c :: cs => 16 * lowValue cs + xdigit2val c

theorem hexValue_eq (digits : Text) : hexValue digits = lowValue digits.reverse := by
  rw [hexValue, <- List.foldr_reverse]
  induction digits.reverse with
  | nil => rfl
  | cons c cs ih => rw [List.foldr_cons, ih, lowValue]

theorem lowValue_append (front rest : Text) :
    lowValue (front ++ rest) = 16 ^ front.length * lowValue rest + lowValue front := by
  induction front with
  | nil => simp [lowValue]
  | cons c front ih =>
      rw [List.cons_append, lowValue, lowValue, ih, List.length_cons, Nat.pow_succ, Nat.mul_add]
      ring

variable {c : Char} {cs : Text} {procId v : Nat}

theorem isdigit_iff : isdigit c = true <-> 48 ≤ c.toNat ∧ c.toNat ≤ 57 := by
  simp only [isdigit, Bool.and_eq_true, decide_eq_true_eq]
  exact Iff.rfl

theorem isupper_iff : isupper c = true <-> 65 ≤ c.toNat ∧ c.toNat ≤ 90 := by
  simp only [isupper, Bool.and_eq_true, decide_eq_true_eq]
  exact Iff.rfl

theorem isxdigit_cases (h : isxdigit c = true) :
    (48 ≤ c.toNat ∧ c.toNat ≤ 57) ∨ (65 ≤ c.toNat ∧ c.toNat ≤ 70) ∨
      (97 ≤ c.toNat ∧ c.toNat ≤ 102) := by
  simp only [isxdigit, isdigit, Bool.or_eq_true, Bool.and_eq_true, decide_eq_true_eq] at h
  rcases h with (h | h) | h
  · exact Or.inl h
  · exact Or.inr (Or.inl h)
  · exact Or.inr (Or.inr h)

/-- The value of a digit, which is below 16, and 0 for no digit but `0`. -/
theorem xdigit2val_spec (h : isxdigit c = true) :
    xdigit2val c < 16 ∧ (xdigit2val c = 0 -> c.toNat = 48) := by
  have hcases := isxdigit_cases h
  unfold xdigit2val
  split
  · next hdigit =>
      have hbounds := isdigit_iff.mp hdigit
      show c.toNat - 48 < 16 ∧ (c.toNat - 48 = 0 -> c.toNat = 48)
      omega
  · next hdigit =>
      have hdigit := fun hbounds => hdigit (isdigit_iff.mpr hbounds)
      split
      · next hupper =>
          have hbounds := isupper_iff.mp hupper
          show c.toNat - 65 + 10 < 16 ∧ (c.toNat - 65 + 10 = 0 -> c.toNat = 48)
          omega
      · next hupper =>
          have hupper := fun hbounds => hupper (isupper_iff.mpr hbounds)
          show c.toNat - 97 + 10 < 16 ∧ (c.toNat - 97 + 10 = 0 -> c.toNat = 48)
          omega

theorem eq_zero_of_xdigit2val (h : isxdigit c = true) (hzero : xdigit2val c = 0) : c = '0' :=
  Char.toNat_inj.mp ((xdigit2val_spec h).2 hzero)

theorem lowValue_eq_zero (h : cs.all isxdigit = true) :
    lowValue cs = 0 <-> cs.any (· ≠ '0') = false := by
  induction cs with
  | nil => simp [lowValue]
  | cons c cs ih =>
      rw [List.all_cons, Bool.and_eq_true] at h
      rw [lowValue, List.any_cons, Bool.or_eq_false_iff, <- ih h.2]
      constructor
      · intro hzero
        have hc := eq_zero_of_xdigit2val h.1 (by omega)
        exact ⟨by simp [hc], by omega⟩
      · intro hzero
        have hc : c = '0' := by simpa using hzero.1
        rw [hc, hzero.2]
        rfl

theorem lowValue_lt (h : cs.all isxdigit = true) : lowValue cs < 16 ^ cs.length := by
  induction cs with
  | nil => exact Nat.one_pos
  | cons c cs ih =>
      rw [List.all_cons, Bool.and_eq_true] at h
      have hdigit := (xdigit2val_spec h.1).1
      have hrest := ih h.2
      rw [lowValue, List.length_cons, Nat.pow_succ]
      omega

/-!
## The loop
-/

/-- The one bits of a number below `n`, as cores from `idx` on. -/
def bitsAbove (idx n v : Nat) : List Nat :=
  ((List.range n).filter fun j => v.testBit j).map (idx + ·)

theorem bitsAbove_digit {d : Nat} (hd : d < 16) (idx n v : Nat) (hn : idx + (n + 4) ≤ rteMaxLcore) :
    bitsAbove idx (n + 4) (16 * v + d) = maskBits idx d ++ bitsAbove (idx + 4) n v := by
  have htest : forall j, (16 * v + d).testBit j =
      if j < 4 then d.testBit j else v.testBit (j - 4) := by
    intro j
    have hd : d < 2 ^ 4 := hd
    exact Nat.testBit_two_pow_mul_add v hd j
  have hlow : ((List.range 4).filter fun j => (16 * v + d).testBit j) =
      (List.range 4).filter fun j => d.testBit j && idx + j < rteMaxLcore := by
    apply List.filter_congr
    intro j hj
    have hj : j < 4 := List.mem_range.mp hj
    rw [htest, if_pos hj, decide_eq_true (by omega), Bool.and_true]
  have hhigh : ((List.range n).filter ((fun j => (16 * v + d).testBit j) ∘ (4 + ·))) =
      (List.range n).filter fun j => v.testBit j := by
    apply List.filter_congr
    intro j _
    show (16 * v + d).testBit (4 + j) = v.testBit j
    rw [htest, if_neg (by omega), Nat.add_sub_cancel_left]
  rw [bitsAbove, Nat.add_comm n 4, List.range_add, List.filter_append, List.filter_map, hlow, hhigh,
    List.map_append, List.map_map, maskBits, bitsAbove]
  congr 2
  funext j
  show idx + (4 + j) = idx + 4 + j
  omega

theorem maskLoop_eq (k idx : Nat) (hidx : idx + 4 * k = rteMaxLcore) : maskLoop idx cs =
      if (cs.take k).all isxdigit then
        some (bitsAbove idx (4 * k) (lowValue cs), cs.drop k)
      else
        none := by
  induction cs generalizing k idx with
  | nil => simp [maskLoop, bitsAbove, lowValue]
  | cons c cs ih =>
      cases k with
      | zero =>
          have hfull : rteMaxLcore ≤ idx := by omega
          simp [maskLoop, hfull, bitsAbove]
      | succ k =>
          have hroom : ¬ rteMaxLcore ≤ idx := by omega
          have hrest := ih k (idx + 4) (by omega)
          rw [maskLoop, if_neg hroom, List.take_succ_cons, List.all_cons, List.drop_succ_cons]
          cases hdigit : isxdigit c with
          | false => rfl
          | true =>
              rw [if_pos rfl, hrest, Bool.true_and, lowValue, Nat.mul_succ,
                bitsAbove_digit (xdigit2val_spec hdigit).1 idx (4 * k) _ (by omega)]
              cases (cs.take k).all isxdigit with
              | false => rfl
              | true => rfl

/-!
## The parser
-/

/-- The digits are read and the others are zeros exactly when the number is below 2^128. -/
theorem digits_bound_iff (cs : Text) :
    ((cs.take 32).all isxdigit = true ∧ (cs.drop 32).any (· ≠ '0') = false) <->
      (cs.all isxdigit = true ∧ lowValue cs < 2 ^ rteMaxLcore) := by
  have hsplit : cs.all isxdigit = ((cs.take 32).all isxdigit && (cs.drop 32).all isxdigit) := by
    rw [<- List.all_append, List.take_append_drop]
  have hvalue := lowValue_append (cs.take 32) (cs.drop 32)
  rw [List.take_append_drop] at hvalue
  have hzeros : (cs.drop 32).any (· ≠ '0') = false -> (cs.drop 32).all isxdigit = true := by
    intro h
    apply List.all_eq_true.mpr
    intro c hc
    have hne := List.any_eq_false.mp h c hc
    have hc : c = '0' := by simpa using hne
    rw [hc]
    rfl
  constructor
  · intro h
    have hrest := hzeros h.2
    have hlow := lowValue_lt h.1
    have hlength : (cs.take 32).length ≤ 32 := by
      rw [List.length_take]
      exact Nat.min_le_left _ _
    have hpow : 16 ^ (cs.take 32).length ≤ 16 ^ 32 := Nat.pow_le_pow_right (by decide) hlength
    refine ⟨by rw [hsplit, h.1, hrest]; rfl, ?_⟩
    rw [hvalue, (lowValue_eq_zero hrest).mpr h.2, Nat.mul_zero, Nat.zero_add]
    exact Nat.lt_of_lt_of_le hlow hpow
  · intro h
    rw [hsplit, Bool.and_eq_true] at h
    refine ⟨h.1.1, (lowValue_eq_zero h.1.2).mp ?_⟩
    cases Nat.lt_or_ge 32 cs.length with
    | inr hshort =>
        rw [List.drop_eq_nil_of_le hshort]
        rfl
    | inl hlong =>
        have hlength : (cs.take 32).length = 32 := by
          rw [List.length_take]
          omega
        have hbound := h.2
        rw [hvalue, hlength] at hbound
        apply Classical.byContradiction
        intro hne
        have hpos : 1 ≤ lowValue (cs.drop 32) := Nat.pos_of_ne_zero hne
        have hlarge : 16 ^ 32 * 1 ≤ 16 ^ 32 * lowValue (cs.drop 32) := Nat.mul_le_mul_left _ hpos
        have hmax : (2 : Nat) ^ rteMaxLcore = 16 ^ 32 := by decide +kernel
        omega

instance (procId : Nat) (coremask : Text) : Decidable (Acceptable procId coremask) :=
  decidable_of_iff
    (maskDigits coremask ≠ [] ∧ (maskDigits coremask).all isxdigit = true ∧
      hexValue (maskDigits coremask) < 2 ^ rteMaxLcore ∧
      procId < (setBits (hexValue (maskDigits coremask))).length)
    ⟨fun h => ⟨h.1, h.2.1, h.2.2.1, h.2.2.2⟩,
      fun h => ⟨h.nonempty, h.digits, h.bound, h.core⟩⟩

theorem bitsAbove_zero (v : Nat) : bitsAbove 0 rteMaxLcore v = setBits v := by
  rw [bitsAbove, setBits]
  simp

theorem maskLoop_digits (digits : Text) :
    (exists rest, maskLoop 0 digits.reverse = some (setBits (hexValue digits), rest) ∧
      rest.any (· ≠ '0') = false) ∧ digits.all isxdigit = true ∧ hexValue digits < 2 ^ rteMaxLcore ∨
    (forall positions rest, maskLoop 0 digits.reverse = some (positions, rest) ->
      rest.any (· ≠ '0') = true) ∧
      ¬ (digits.all isxdigit = true ∧ hexValue digits < 2 ^ rteMaxLcore) := by
  have hloop := @maskLoop_eq digits.reverse 32 0 rfl
  have hiff := digits_bound_iff digits.reverse
  rw [List.all_reverse, <- hexValue_eq] at hiff
  rw [show 4 * 32 = rteMaxLcore from rfl, bitsAbove_zero, <- hexValue_eq] at hloop
  cases hall : (digits.reverse.take 32).all isxdigit with
  | false =>
      rw [hall] at hloop hiff
      apply Or.inr
      constructor
      · intro positions rest h
        rw [hloop] at h
        contradiction
      · intro h
        exact absurd (hiff.mpr h).1 Bool.false_ne_true
  | true =>
      rw [hall, if_pos rfl] at hloop
      rw [hall] at hiff
      cases hrest : (digits.reverse.drop 32).any (· ≠ '0') with
      | false => exact Or.inl ⟨⟨_, hloop, hrest⟩, hiff.mp ⟨rfl, hrest⟩⟩
      | true =>
          apply Or.inr
          constructor
          · intro positions rest h
            rw [hloop] at h
            injection h with h
            injection h with _ h
            rw [<- h]
            exact hrest
          · intro h
            rw [(hiff.mpr h).2] at hrest
            contradiction

theorem procId_mod (h : procId < 2 ^ 31) : ((procId : Int) % 2 ^ 32).toNat = procId := by
  omega

theorem parseLcoreMask_of_acceptable {coremask : Text} (hid : procId < 2 ^ 31)
    (h : Acceptable procId coremask) :
    exists core, (setBits (hexValue (maskDigits coremask)))[procId]? = some core ∧
      parseLcoreMask procId coremask =
        some ((setBits (hexValue (maskDigits coremask))).map UInt16.ofNat, coreMask core) := by
  have hsome : exists core, (setBits (hexValue (maskDigits coremask)))[procId]? = some core :=
    ⟨_, List.getElem?_eq_getElem h.core⟩
  rcases hsome with ⟨core, hcore⟩
  refine ⟨core, hcore, ?_⟩
  rcases maskLoop_digits (maskDigits coremask) with ⟨⟨rest, hloop, hrest⟩, _⟩ | ⟨_, hbad⟩
  · unfold parseLcoreMask
    split
    · next hempty =>
        exact absurd hempty h.nonempty
    · simp only [maskDigits] at hloop hcore ⊢
      rw [hloop]
      simp only [hrest, procId_mod hid, hcore]
      rfl
  · exact absurd ⟨h.digits, h.bound⟩ hbad

theorem acceptable_of_parseLcoreMask {coremask : Text} (hid : procId < 2 ^ 31)
    (h : (parseLcoreMask procId coremask).isSome = true) : Acceptable procId coremask := by
  unfold parseLcoreMask at h
  split at h
  · contradiction
  · next hne =>
      split at h
      · contradiction
      · next positions rest hloop =>
          split at h
          · contradiction
          · next hrest =>
              split at h
              · contradiction
              · next core hcore =>
                  rcases maskLoop_digits (maskDigits coremask) with
                    ⟨⟨rest', hloop', _⟩, hdigits, hbound⟩ | ⟨hnone, _⟩
                  · have hsame := hloop'.symm.trans hloop
                    injection hsame with hsame
                    injection hsame with hsame _
                    rw [procId_mod hid, <- hsame] at hcore
                    exact ⟨hne, hdigits, hbound, (List.getElem?_eq_some_iff.mp hcore).1⟩
                  · exact absurd (hnone positions rest hloop) hrest

/-!
## The mask of the process
-/

theorem setBits_split (v : Nat) :
    setBits v = setBits (v % 2 ^ 64) ++ bitsAbove 64 64 (v / 2 ^ 64) := by
  have hlow : ((List.range 64).filter fun k => v.testBit k) =
      (List.range 64).filter fun k => (v % 2 ^ 64).testBit k := by
    apply List.filter_congr
    intro k hk
    rw [Nat.testBit_mod_two_pow, decide_eq_true (List.mem_range.mp hk), Bool.true_and]
  have hhigh : ((List.range 64).filter ((fun k => v.testBit k) ∘ (64 + ·))) =
      (List.range 64).filter fun k => (v / 2 ^ 64).testBit k := by
    apply List.filter_congr
    intro k _
    show v.testBit (64 + k) = (v / 2 ^ 64).testBit k
    rw [Nat.testBit_div_two_pow, Nat.add_comm]
  have hnone : ((List.range 64).filter ((fun k => (v % 2 ^ 64).testBit k) ∘ (64 + ·))) = [] := by
    apply List.filter_eq_nil_iff.mpr
    intro k _
    show ¬ (v % 2 ^ 64).testBit (64 + k) = true
    rw [Nat.testBit_mod_two_pow, decide_eq_false (by omega), Bool.false_and]
    exact Bool.false_ne_true
  have hrange : List.range (64 + 64) = List.range 64 ++ (List.range 64).map (64 + ·) :=
    List.range_add
  rw [setBits, setBits, show rteMaxLcore = 64 + 64 from rfl, hrange, List.filter_append,
    List.filter_append, List.filter_map,
    List.filter_map, hlow, hhigh, hnone, List.map_nil, List.append_nil]
  rfl

theorem setBits_low {k : Nat} (h : k ∈ setBits (v % 2 ^ 64)) : k < 64 := by
  have hbit := (List.mem_filter.mp h).2
  rw [Nat.testBit_mod_two_pow, Bool.and_eq_true, decide_eq_true_iff] at hbit
  exact hbit.1

theorem bitsAbove_ge {idx n k : Nat} (h : k ∈ bitsAbove idx n v) : idx ≤ k := by
  rcases List.mem_map.mp h with ⟨j, _, rfl⟩
  exact Nat.le_add_right idx j

theorem core_lt_iff {core : Nat} (h : (setBits v)[procId]? = some core) :
    core < 64 <-> procId < (setBits (v % 2 ^ 64)).length := by
  rw [setBits_split] at h
  cases Nat.lt_or_ge procId (setBits (v % 2 ^ 64)).length with
  | inl hlow =>
      rw [List.getElem?_append_left hlow] at h
      exact iff_of_true (setBits_low (List.mem_of_getElem? h)) hlow
  | inr hhigh =>
      rw [List.getElem?_append_right hhigh] at h
      exact iff_of_false (Nat.not_lt.mpr (bitsAbove_ge (List.mem_of_getElem? h)))
        (Nat.not_lt.mpr hhigh)

theorem coreMask_iff {core : Nat} (h : core < rteMaxLcore) :
    coreMask core = Nat.toDigits 16 (2 ^ core) <-> core < 64 := by
  revert core
  decide +kernel

structure MaskParsed (procId : Nat) (coremask : Text) : Prop where
  accepts : (parseLcoreMask procId coremask).isSome = true <-> Acceptable procId coremask
  stores : forall lcores mask, parseLcoreMask procId coremask = some (lcores, mask) ->
    lcores.map UInt16.toNat = setBits (hexValue (maskDigits coremask)) ∧
    exists core, (setBits (hexValue (maskDigits coremask)))[procId]? = some core ∧
      mask = Nat.toDigits 16 (2 ^ core)

theorem setBits_toNat (v : Nat) : ((setBits v).map UInt16.ofNat).map UInt16.toNat = setBits v := by
  have hsame : forall k, k ∈ setBits v -> (UInt16.toNat ∘ UInt16.ofNat) k = id k := by
    intro k hk
    have hmax : k < 128 := List.mem_range.mp (List.mem_filter.mp hk).1
    show (UInt16.ofNat k).toNat = k
    rw [UInt16.toNat_ofNat']
    omega
  rw [List.map_map, List.map_congr_left hsame, List.map_id]

/-- The parser is right unless it accepts a mask that gives the process a core above 63. -/
theorem lcore_mask_iff (procId : Nat) (coremask : Text) (hid : procId < 2 ^ 31) :
    MaskParsed procId coremask <-> (Acceptable procId coremask ->
        procId < (setBits (hexValue (maskDigits coremask) % 2 ^ 64)).length) := by
  constructor
  · intro h hacc
    rcases parseLcoreMask_of_acceptable hid hacc with ⟨core, hcore, hparse⟩
    rcases (h.stores _ _ hparse).2 with ⟨core', hcore', hmask⟩
    rw [hcore] at hcore'
    injection hcore' with hsame
    rw [<- hsame] at hmask
    have hmax : core < rteMaxLcore :=
      List.mem_range.mp (List.mem_filter.mp (List.mem_of_getElem? hcore)).1
    exact (core_lt_iff hcore).mp ((coreMask_iff hmax).mp hmask)
  · intro hcond
    refine ⟨⟨acceptable_of_parseLcoreMask hid, ?_⟩, ?_⟩
    · intro hacc
      rcases parseLcoreMask_of_acceptable hid hacc with ⟨core, _, hparse⟩
      rw [hparse]
      rfl
    · intro lcores mask h
      have hacc : Acceptable procId coremask := acceptable_of_parseLcoreMask hid (by rw [h]; rfl)
      rcases parseLcoreMask_of_acceptable hid hacc with ⟨core, hcore, hparse⟩
      rw [h] at hparse
      injection hparse with hparse
      injection hparse with hlcores hmask
      have hmax : core < rteMaxLcore :=
        List.mem_range.mp (List.mem_filter.mp (List.mem_of_getElem? hcore)).1
      refine ⟨by rw [hlcores, setBits_toNat], core, hcore, ?_⟩
      rw [hmask]
      exact (coreMask_iff hmax).mpr ((core_lt_iff hcore).mpr (hcond hacc))

theorem lcore_mask_of_0xc : MaskParsed 1 " 0xC".toList :=
  (lcore_mask_iff 1 " 0xC".toList (by decide)).mpr fun _ => by decide +kernel

/-- The core 64 is given the mask of the core 0. -/
theorem lcore_mask_core_64 : Acceptable 0 "10000000000000000".toList ∧
      parseLcoreMask 0 "10000000000000000".toList = some ([64], "1".toList) ∧
      ¬ MaskParsed 0 "10000000000000000".toList := by
  have hparse : parseLcoreMask 0 "10000000000000000".toList = some ([64], "1".toList) := by
    decide +kernel
  refine ⟨by decide +kernel, hparse, ?_⟩
  intro h
  rcases (h.stores _ _ hparse).2 with ⟨core, hcore, hmask⟩
  have hfirst : (setBits (hexValue (maskDigits "10000000000000000".toList)))[0]? = some 64 := by
    decide +kernel
  rw [hfirst] at hcore
  injection hcore with hcore
  rw [<- hcore] at hmask
  exact absurd hmask (by decide +kernel)

end Config
end FStackLite
