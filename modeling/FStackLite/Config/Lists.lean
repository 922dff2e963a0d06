import FStackLite.Config.Ini
import Mathlib.Data.List.Sort

/-!
# Core masks and number lists

`parse_lcore_mask` reads the mask of the cores the processes run on, and
`__parse_config_list` a list of numbers and ranges such as `0,2-4`.
-/

namespace FStackLite
namespace Config

def rteMaxLcore : Nat := 128

/-- The bits of one digit, which is the digit of the cores from `idx` on. -/
def maskBits (idx val : Nat) : List Nat :=
  ((List.range 4).filter fun j => val.testBit j && idx + j < rteMaxLcore).map (idx + ·)

/--
The loop over the digits, from the last one on: the positions of the bits, and the
digits that are left when the cores are used up.
-/
def maskLoop : Nat -> Text -> Option (List Nat × Text)
  | _, [] => some ([], [])
  | idx, c :: cs =>
      if rteMaxLcore ≤ idx then
        some ([], c :: cs)
      else if isxdigit c then
        match maskLoop (idx + 4) cs with
        | some (positions, rest) => some (maskBits idx (xdigit2val c) ++ positions, rest)
        | none => none
      else
        none

def skipHexMark : Text -> Text
  | '0' :: 'x' :: s => s
  | '0' :: 'X' :: s => s
  | s => s

def coreMask (idx : Nat) : Text :=
  Nat.toDigits 16 (2 ^ (idx % 64))

/-- `proc_lcore` with `nb_procs` elements, and `proc_mask`. -/
def parseLcoreMask (procId : Int) (coremask : Text) : Option (List UInt16 × Text) :=
  match (skipHexMark (coremask.dropWhile isblank)).rdropWhile isblank with
  | [] => none
  | digits =>
      match maskLoop 0 digits.reverse with
      | none => none
      | some (positions, rest) =>
          if rest.any (· ≠ '0') then
            none
          else
            -- the comparison with the number of cores is one of unsigned numbers
            match positions[(procId % 2 ^ 32).toNat]? with
            | none => none
            | some idx => some (positions.map UInt16.ofNat, coreMask idx)

theorem mem_maskBits {idx val k : Nat} (h : k ∈ maskBits idx val) :
    idx ≤ k ∧ k < idx + 4 ∧ k < rteMaxLcore := by
  simp only [maskBits, List.mem_map, List.mem_filter, List.mem_range, Bool.and_eq_true,
    decide_eq_true_eq] at h
  rcases h with ⟨j, ⟨hj, _, hmax⟩, rfl⟩
  omega

theorem maskBits_pairwise (idx val : Nat) : (maskBits idx val).Pairwise (· < ·) := by
  apply List.Pairwise.map
  · intro j k hjk
    exact Nat.add_lt_add_left hjk idx
  · exact List.pairwise_lt_range.filter _

theorem maskLoop_sorted {idx : Nat} {cs rest : Text} {positions : List Nat}
    (h : maskLoop idx cs = some (positions, rest)) :
    positions.Pairwise (· < ·) ∧ forall k, k ∈ positions -> idx ≤ k ∧ k < rteMaxLcore := by
  induction cs generalizing idx positions rest with
  | nil =>
      simp [maskLoop] at h
      simp [h.1]
  | cons c cs ih =>
      unfold maskLoop at h
      split at h
      · simp at h
        simp [h.1]
      · split at h
        · split at h
          · next later rest' hloop =>
              simp only [Option.some.injEq, Prod.mk.injEq] at h
              rcases ih hloop with ⟨hsorted, hrange⟩
              rw [<- h.1]
              constructor
              · apply List.pairwise_append.mpr ⟨maskBits_pairwise _ _, hsorted, _⟩
                intro j hj k hk
                have hbits := mem_maskBits hj
                have hlater := hrange k hk
                omega
              · intro k hk
                rcases List.mem_append.mp hk with hbits | hlater
                · have hbounds := mem_maskBits hbits
                  exact ⟨hbounds.1, hbounds.2.2⟩
                · have hbounds := hrange k hlater
                  omega
          · contradiction
        · contradiction

theorem parseLcoreMask_pairwise {procId : Int} {coremask mask : Text} {lcores : List UInt16}
    (h : parseLcoreMask procId coremask = some (lcores, mask)) : lcores.Pairwise (· < ·) := by
  unfold parseLcoreMask at h
  split at h
  · contradiction
  · split at h
    · contradiction
    · next positions rest hloop =>
        split at h
        · contradiction
        · split at h
          · contradiction
          · simp only [Option.some.injEq, Prod.mk.injEq] at h
            rcases maskLoop_sorted hloop with ⟨hsorted, hrange⟩
            rw [<- h.1]
            apply List.pairwise_map.mpr
            apply hsorted.imp_of_mem
            intro j k hj hk hjk
            have hkmax : k < 128 := (hrange k hk).2
            rw [UInt16.lt_iff_toNat_lt, UInt16.toNat_ofNat', UInt16.toNat_ofNat']
            omega

/-!
## Lists
-/

theorem ofInt_natCast (n : Nat) : UInt16.ofInt (n : Int) = UInt16.ofNat n := by
  apply UInt16.toNat_inj.mp
  rw [UInt16.ofInt, UInt16.toNat_ofNat', UInt16.toNat_ofNat']
  omega

inductive ListFault where
  /-- It returns 0. -/
  | refused
  | undefined
deriving DecidableEq, Repr

/-- One element; `nr_ele` is the length of what is stored. -/
def storeOne (maxEle : Nat) (v : Int) (arr : List UInt16) :
    Except (ListFault × List UInt16) (List UInt16) :=
  if maxEle < arr.length then
    .error (.refused, arr)
  else
    .ok (arr ++ [UInt16.ofInt v])

/--
The elements from `j` to `rv`.  The bound on the elements ends the loop, so that it is
run with one more than the room there is.
-/
def storeRange (maxEle : Nat) (rv : Int) : Nat -> Int -> List UInt16 ->
    Except (ListFault × List UInt16) (List UInt16)
  | 0, _, arr => .error (.refused, arr)
  | room + 1, j, arr =>
      if rv < j then
        .ok arr
      else
        match storeOne maxEle j arr with
        | .error e => .error e
        | .ok arr' =>
            -- `++j` of the largest `int`
            if j = 2 ^ 31 - 1 then
              .error (.undefined, arr')
            else
              storeRange maxEle rv room (j + 1) arr'

def parseToken (maxEle : Nat) (tok : Text) (arr : List UInt16) :
    Except (ListFault × List UInt16) (List UInt16) :=
  match tok.dropWhile (· ≠ '-') with
  | [] =>
      match strtol (strstrip tok) with
      | (v, []) => storeOne maxEle v arr
      | _ => .error (.refused, arr)
  | _ :: right =>
      match strtol (strstrip (tok.takeWhile (· ≠ '-'))), strtol (strstrip right) with
      | (lv, []), (rv, []) => storeRange maxEle rv (maxEle + 2 - arr.length) (toInt lv) arr
      | _, _ => .error (.refused, arr)

def parseTokens (maxEle : Nat) : List Text -> List UInt16 ->
    Except (ListFault × List UInt16) (List UInt16)
  | [], arr => .ok arr
  | tok :: toks, arr =>
      match parseToken maxEle tok arr with
      | .ok arr' => parseTokens maxEle toks arr'
      | .error e => .error e

/--
`__parse_config_list`: the elements that are stored at the start of the array, and the
size, or why it stops and what is stored until then.  An empty list leaves the array and
the size as they are.  A text that fills the buffer is not ended by a null.
-/
def parseConfigList (split : Splitter) (maxEle : Nat) (value : Text) :
    Except (ListFault × List UInt16) (List UInt16 × Nat) :=
  if 4096 ≤ value.length then
    .error (.undefined, [])
  else
    match parseTokens maxEle (split ',' 128 value) [] with
    | .error e => .error e
    | .ok [] => .ok ([], maxEle)
    | .ok arr => .ok (arr.insertionSort (· ≤ ·), arr.length)

example : (parseConfigList splitFirst 128 "5, 1-3".toList).toOption = some ([1, 2, 3, 5], 4) := by
  decide +kernel

def parseInto (split : Splitter) (capacity : Nat) (value : Text) :
    Except Fault (List UInt16 × Nat) :=
  match parseConfigList split capacity value with
  | .ok (arr, sz) => if capacity < arr.length then .error .undefined else .ok (arr, sz)
  | .error (.refused, arr) =>
      if capacity < arr.length then .error .undefined else .error .refused
  | .error (.undefined, _) => .error .undefined

def overlay (arr : List UInt16) (old : Nat -> UInt16) : Nat -> UInt16 :=
  fun k => arr.getD k (old k)

/-!
## Search
-/

def middle (l r : Int) : Int :=
  l + (r - l) / 2

variable {l r : Int}

theorem middle_mem (h : l ≤ r) : l ≤ middle l r ∧ middle l r ≤ r := by
  unfold middle
  omega

def searchWithin (arr : Nat -> UInt16) (x : UInt16) : Nat -> Int -> Int -> Int
  | 0, _, _ => -1
  | depth + 1, l, r =>
      if l ≤ r then
        if arr (middle l r).toNat = x then
          middle l r
        else if x < arr (middle l r).toNat then
          searchWithin arr x depth l (middle l r - 1)
        else
          searchWithin arr x depth (middle l r + 1) r
      else
        -1

def uint16BinarySearch (arr : Nat -> UInt16) (l r : Int) (x : UInt16) : Int :=
  searchWithin arr x (r - l + 1).toNat l r

theorem searchWithin_of_le (arr : Nat -> UInt16) (x : UInt16) (depth : Nat)
    (h : (r - l + 1).toNat ≤ depth) :
    searchWithin arr x depth l r = uint16BinarySearch arr l r x := by
  have key : forall depth' : Nat, (r - l + 1).toNat ≤ depth' ->
      searchWithin arr x depth l r = searchWithin arr x depth' l r := by
    induction depth generalizing l r with
    | zero =>
        intro depth' _
        have hempty : ¬ l ≤ r := by omega
        cases depth' with
        | zero => rfl
        | succ depth' => simp [searchWithin, hempty]
    | succ depth ih =>
        intro depth' h'
        cases depth' with
        | zero =>
            have hempty : ¬ l ≤ r := by omega
            simp [searchWithin, hempty]
        | succ depth' =>
            unfold searchWithin
            split
            · next hrange =>
                have hmid := middle_mem hrange
                rw [ih (by omega) depth' (by omega), ih (by omega) depth' (by omega)]
            · rfl
  exact key _ (Nat.le_refl _)

theorem uint16BinarySearch_eq (arr : Nat -> UInt16) (l r : Int) (x : UInt16) :
    uint16BinarySearch arr l r x =
      if l ≤ r then
        if arr (middle l r).toNat = x then
          middle l r
        else if x < arr (middle l r).toNat then
          uint16BinarySearch arr l (middle l r - 1) x
        else
          uint16BinarySearch arr (middle l r + 1) r x
      else
        -1 := by
  rw [<- searchWithin_of_le arr x ((r - l + 1).toNat + 1) (Nat.le_succ _), searchWithin]
  split
  · next hrange =>
      have hmid := middle_mem hrange
      rw [searchWithin_of_le arr x _ (by omega), searchWithin_of_le arr x _ (by omega)]
  · rfl

theorem searchWithin_sound (arr : Nat -> UInt16) (x : UInt16) (depth : Nat) (hl : 0 ≤ l)
    (h : 0 ≤ searchWithin arr x depth l r) :
    exists k : Nat, (k : Int) = searchWithin arr x depth l r ∧ (k : Int) ≤ r ∧ arr k = x := by
  induction depth generalizing l r with
  | zero => simp [searchWithin] at h
  | succ depth ih =>
      by_cases hrange : l ≤ r
      · have hmid := middle_mem hrange
        simp only [searchWithin, hrange, if_true] at h ⊢
        split at h
        · next heq =>
            rw [if_pos heq]
            exact ⟨(middle l r).toNat, Int.toNat_of_nonneg (by omega), by omega, heq⟩
        · next hne =>
            rw [if_neg hne]
            split at h
            · next hlt =>
                rw [if_pos hlt]
                rcases ih hl h with ⟨k, hk, hle, hx⟩
                exact ⟨k, hk, by omega, hx⟩
            · next hge =>
                rw [if_neg hge]
                exact ih (by omega) h
      · simp [searchWithin, hrange] at h

theorem uint16BinarySearch_sound {arr : Nat -> UInt16} {n : Nat} {x : UInt16}
    (h : 0 ≤ uint16BinarySearch arr 0 (n - 1) x) : exists k, k < n ∧ arr k = x := by
  rcases searchWithin_sound arr x _ (Int.le_refl 0) h with ⟨k, _, hle, hx⟩
  exact ⟨k, by omega, hx⟩

end Config
end FStackLite
