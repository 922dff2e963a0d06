import FStackLite.Config.CoreMask
import FStackLite.Config.ListStore

/-!
# What a number list means

A number list has numbers of 16 bits and ranges of them, with commas between.  What
`__parse_config_list` makes of a text is compared with the numbers of such a list.
-/

namespace FStackLite
namespace Config

/-!
## Lists of numbers
-/

def numberOf (tok : Text) : Option Nat :=
  if strstrip tok ≠ [] ∧ (strstrip tok).all isdigit = true ∧ decimal (strstrip tok) < 2 ^ 16 then
    some (decimal (strstrip tok))
  else
    none

/-- The first and the last number of a token, which is a number or a range of two. -/
def rangeOf (tok : Text) : Option (Nat × Nat) :=
  match tok.dropWhile (· ≠ '-') with
  | [] => (numberOf tok).map fun v => (v, v)
  | _ :: right =>
      (numberOf (tok.takeWhile (· ≠ '-'))).bind fun l => (numberOf right).map fun r => (l, r)

def WellFormed (value : Text) : Prop :=
  forall tok, tok ∈ fields ',' value -> (rangeOf tok).isSome = true

def numbersOf (tok : Text) : List Nat :=
  match rangeOf tok with
  | none => []
  | some (l, r) => (List.range (r + 1 - l)).map (l + ·)

def expansion (value : Text) : List Nat :=
  (fields ',' value).flatMap numbersOf

example : expansion "5, 1-3".toList = [5, 1, 2, 3] := by decide +kernel

/-!
## What `strtol` takes
-/

variable {c : Char} {s tok value : Text} {split : Splitter} {maxEle : Nat} {arr : List UInt16}

theorem mem_sign (h : c ∈ s) : c = '-' ∨ c = '+' ∨ c ∈ (sign s).2 := by
  unfold sign
  split
  · rcases List.mem_cons.mp h with rfl | h
    · exact Or.inl rfl
    · exact Or.inr (Or.inr h)
  · rcases List.mem_cons.mp h with rfl | h
    · exact Or.inr (Or.inl rfl)
    · exact Or.inr (Or.inr h)
  · exact Or.inr (Or.inr h)

theorem number_rest {rest : Text} {v : Int} (h : number s = some (v, rest)) :
    rest = (sign (s.dropWhile isspace)).2.dropWhile isdigit := by
  unfold number at h
  split at h
  · next unit t hsign =>
      split at h
      · contradiction
      · injection h with h
        injection h with _ h
        rw [hsign, <- h]

theorem mem_dropWhile {p : Char -> Bool} (h : c ∈ s) (hc : p c = false) : c ∈ s.dropWhile p := by
  rw [<- List.takeWhile_append_dropWhile (p := p) (l := s)] at h
  rcases List.mem_append.mp h with hfront | hrest
  · rw [List.mem_takeWhile_imp hfront] at hc
    contradiction
  · exact hrest

theorem mem_strstrip (h : c ∈ s) (hc : (c == ' ') = false) : c ∈ strstrip s := by
  have hfront : c ∈ (s.dropWhile (· == ' ')).reverse := List.mem_reverse.mpr (mem_dropWhile h hc)
  exact List.mem_reverse.mpr (mem_dropWhile hfront hc)

/-- A text that `strtol` reads to its end has no comma. -/
theorem strtol_no_comma {v : Int} (h : strtol s = (v, [])) : ',' ∉ s := by
  intro hcomma
  unfold strtol at h
  cases hnumber : number s with
  | none =>
      rw [hnumber] at h
      injection h with _ h
      rw [h] at hcomma
      contradiction
  | some result =>
      rw [hnumber] at h
      have hresult : result = (v, []) := h
      rw [hresult] at hnumber
      have hdigits := List.dropWhile_eq_nil_iff.mp (number_rest hnumber).symm
      rcases mem_sign (mem_dropWhile (p := isspace) hcomma (by decide)) with hminus | hplus | hrest
      · exact absurd hminus (by decide)
      · exact absurd hplus (by decide)
      · exact absurd (hdigits _ hrest) (by decide)

theorem dropWhile_head {p : Char -> Bool} {rest : Text} (h : s.dropWhile p = c :: rest) :
    p c = false := by
  have hhead := List.head?_dropWhile_not p s
  rw [h] at hhead
  exact hhead

theorem asked_no_comma (h : (asked tok).isSome = true) : ',' ∉ tok := by
  intro hcomma
  unfold asked at h
  split at h
  · split at h
    · next v hv =>
        exact strtol_no_comma hv (mem_strstrip hcomma (by decide))
    · contradiction
  · next dash right hdash =>
      split at h
      · next lv rv hl hr =>
          rw [<- List.takeWhile_append_dropWhile (p := (· ≠ '-')) (l := tok), hdash] at hcomma
          rcases List.mem_append.mp hcomma with hleft | hright
          · exact strtol_no_comma hl (mem_strstrip hleft (by decide))
          · rcases List.mem_cons.mp hright with heq | hright
            · have hfirst := dropWhile_head hdash
              rw [<- heq] at hfirst
              contradiction
            · exact strtol_no_comma hr (mem_strstrip hright (by decide))
      · contradiction

theorem strtol_digits {digits : Text} (hne : digits ≠ []) (hall : digits.all isdigit = true)
    (hbound : decimal digits < 2 ^ 16) : strtol digits = ((decimal digits : Int), []) := by
  cases digits with
  | nil => contradiction
  | cons d ds =>
      have hd : isdigit d = true := (Bool.and_eq_true _ _ ▸ hall).1
      have hcode := isdigit_iff.mp hd
      have hspace : isspace d = false := by
        cases hs : isspace d with
        | false => rfl
        | true =>
            simp only [isspace, Bool.or_eq_true, beq_iff_eq] at hs
            rcases hs with ((((rfl | rfl) | rfl) | rfl) | rfl) | rfl
            all_goals exact absurd hcode (by decide)
      have hskip : (d :: ds).dropWhile isspace = d :: ds :=
        List.dropWhile_cons_of_neg (by rw [hspace]; exact Bool.false_ne_true)
      have hsign : sign (d :: ds) = (1, d :: ds) := by
        unfold sign
        split
        · next heq =>
            injection heq with heq _
            rw [heq] at hcode
            exact absurd hcode (by decide)
        · next heq =>
            injection heq with heq _
            rw [heq] at hcode
            exact absurd hcode (by decide)
        · rfl
      have hall : forall c, c ∈ d :: ds -> isdigit c = true := List.all_eq_true.mp hall
      have htake : (d :: ds).takeWhile isdigit = d :: ds := List.takeWhile_eq_self_iff.mpr hall
      have hrest : (d :: ds).dropWhile isdigit = [] := List.dropWhile_eq_nil_iff.mpr hall
      have hclamp : max (-2 ^ 63) (min (2 ^ 63 - 1) (1 * (decimal (d :: ds) : Int))) =
          (decimal (d :: ds) : Int) := by
        omega
      rw [strtol, number, hskip, hsign]
      simp only [htake, hrest, hclamp]
      rfl

theorem numberOf_strtol {v : Nat} (h : numberOf tok = some v) :
    strtol (strstrip tok) = ((v : Int), []) ∧ v < 2 ^ 16 := by
  unfold numberOf at h
  split at h
  · next hnumber =>
      injection h with h
      rw [<- h]
      exact ⟨strtol_digits hnumber.1 hnumber.2.1 hnumber.2.2, hnumber.2.2⟩
  · contradiction

theorem toInt_small {v : Nat} (h : v < 2 ^ 16) : toInt v = v :=
  Int.bmod_eq_of_le (by omega) (by omega)

theorem asked_of_rangeOf {l r : Nat} (h : rangeOf tok = some (l, r)) :
    exists a, asked tok = some a ∧ ¬ a.Endless ∧ a.elements = (numbersOf tok).map UInt16.ofNat := by
  have hnumbers : numbersOf tok = (List.range (r + 1 - l)).map (l + ·) := by
    rw [numbersOf, h]
  rw [hnumbers]
  unfold rangeOf at h
  split at h
  · next hdash =>
      rcases Option.map_eq_some_iff.mp h with ⟨v, hv, hpair⟩
      injection hpair with hl hr
      refine ⟨.one v, ?_, id, ?_⟩
      · simp only [asked, hdash, (numberOf_strtol hv).1]
      · rw [<- hl, <- hr, Nat.add_sub_cancel_left]
        simp [Asked.elements, ofInt_natCast]
  · next dash right hdash =>
      rcases Option.bind_eq_some_iff.mp h with ⟨l', hl', hright⟩
      rcases Option.map_eq_some_iff.mp hright with ⟨r', hr', hpair⟩
      injection hpair with hl hr
      rw [hl] at hl'
      rw [hr] at hr'
      refine ⟨.range l r, ?_, ?_, ?_⟩
      · simp only [asked, hdash, (numberOf_strtol hl').1, (numberOf_strtol hr').1,
          toInt_small (numberOf_strtol hl').2]
      · have hr := (numberOf_strtol hr').2
        show ¬ 2 ^ 31 - 1 ≤ (r : Int)
        omega
      · have hcount : ((r : Int) - l + 1).toNat = r + 1 - l := by omega
        rw [Asked.elements, hcount, List.map_map]
        apply List.map_congr_left
        intro k _
        rw [<- Int.natCast_add, ofInt_natCast]
        rfl

/-!
## Lists
-/

theorem numbersOf_lt {x : Nat} (h : x ∈ numbersOf tok) : x < 2 ^ 16 := by
  unfold numbersOf at h
  split at h
  · contradiction
  · next l r hrange =>
      rcases List.mem_map.mp h with ⟨k, hk, rfl⟩
      have hk := List.mem_range.mp hk
      have hr : r < 2 ^ 16 := by
        unfold rangeOf at hrange
        split at hrange
        · rcases Option.map_eq_some_iff.mp hrange with ⟨v, hv, hpair⟩
          injection hpair with _ hr
          rw [<- hr]
          exact (numberOf_strtol hv).2
        · rcases Option.bind_eq_some_iff.mp hrange with ⟨_, _, hright⟩
          rcases Option.map_eq_some_iff.mp hright with ⟨r', hr', hpair⟩
          injection hpair with _ hr
          rw [<- hr]
          exact (numberOf_strtol hr').2
      omega

theorem expansion_toNat (value : Text) :
    ((expansion value).map UInt16.ofNat).map UInt16.toNat = expansion value := by
  have hsame : forall x, x ∈ expansion value -> (UInt16.toNat ∘ UInt16.ofNat) x = id x := by
    intro x hx
    rcases List.mem_flatMap.mp hx with ⟨tok, _, hmem⟩
    show (UInt16.ofNat x).toNat = x
    rw [UInt16.toNat_ofNat']
    exact Nat.mod_eq_of_lt (numbersOf_lt hmem)
  rw [List.map_map, List.map_congr_left hsame, List.map_id]

theorem asked_wellFormed {toks : List Text}
    (h : forall tok, tok ∈ toks -> (rangeOf tok).isSome = true) :
    (forall a, a ∈ askedFront toks -> ¬ a.Endless) ∧
      expanded (askedFront toks) = (toks.flatMap numbersOf).map UInt16.ofNat := by
  induction toks with
  | nil => exact ⟨fun a ha => absurd ha List.not_mem_nil, rfl⟩
  | cons tok toks ih =>
      rcases Option.isSome_iff_exists.mp (h tok List.mem_cons_self) with ⟨⟨l, r⟩, hrange⟩
      rcases asked_of_rangeOf hrange with ⟨a, ha, hends, helements⟩
      rcases ih fun t ht => h t (List.mem_cons_of_mem tok ht) with ⟨hrestends, hrest⟩
      rw [askedFront_cons ha]
      constructor
      · intro b hb
        rcases List.mem_cons.mp hb with rfl | hb
        · exact hends
        · exact hrestends b hb
      · rw [expanded, List.flatMap_cons, helements, List.flatMap_cons, List.map_append, <- hrest]
        rfl

theorem rangeOf_ne_nil (h : (rangeOf tok).isSome = true) : tok ≠ [] := by
  intro hempty
  rw [hempty] at h
  exact absurd h (by decide)

-- a token that is taken has no comma, so that all commas of the text were cut at
theorem StrsplitDocumented.eq_fields (hdoc : StrsplitDocumented split) (hwf : WellFormed value)
    (hall : AllAsked (split ',' 128 value)) : split ',' 128 value = fields ',' value := by
  have hne : [] ∉ fields ',' value := fun hmem => rangeOf_ne_nil (hwf [] hmem) rfl
  rcases Nat.lt_or_ge 128 (fields ',' value).length with hmany | hroom
  · rcases hdoc.not_all_cut ',' 128 value hne (by decide) hmany with ⟨tok, htok, hcomma⟩
    exact absurd hcomma (asked_no_comma (hall tok htok))
  · exact hdoc.all_cut ',' 128 value hne hroom

def writtenOf : Except (ListFault × List UInt16) (List UInt16 × Nat) -> List UInt16
  | .ok (arr, _) => arr
  | .error (_, arr) => arr

structure ListParsed (split : Splitter) (maxEle : Nat) (value : Text) : Prop where
  bounded : (writtenOf (parseConfigList split maxEle value)).length ≤ maxEle
  defined : forall arr, parseConfigList split maxEle value ≠ .error (.undefined, arr)
  accepted : forall arr sz, parseConfigList split maxEle value = .ok (arr, sz) ->
    WellFormed value ∧ 1 ≤ (expansion value).length ∧ (expansion value).length ≤ maxEle ∧
      sz = (expansion value).length ∧ arr.Pairwise (· ≤ ·) ∧
      (arr.map UInt16.toNat).Perm (expansion value)

theorem parseConfigList_error {e : ListFault × List UInt16} (hlength : value.length < 4096)
    (h : parseTokens maxEle (split ',' 128 value) [] = .error e) :
    parseConfigList split maxEle value = .error e := by
  rw [parseConfigList, if_neg (Nat.not_le.mpr hlength), h]

theorem parseConfigList_ok (hlength : value.length < 4096)
    (h : parseTokens maxEle (split ',' 128 value) [] = .ok arr) :
    exists sz, parseConfigList split maxEle value = .ok (arr.insertionSort (· ≤ ·), sz) ∧
      (arr ≠ [] -> sz = arr.length) := by
  rw [parseConfigList, if_neg (Nat.not_le.mpr hlength), h]
  cases arr with
  | nil => exact ⟨maxEle, rfl, fun hne => absurd rfl hne⟩
  | cons x arr => exact ⟨(x :: arr).length, rfl, fun _ => rfl⟩

theorem ListParsed.fits (hlength : value.length < 4096) (h : ListParsed split maxEle value) :
    ListFits maxEle (split ',' 128 value) := by
  apply Classical.byContradiction
  intro hnot
  have hover : Overrun maxEle (parseTokens maxEle (split ',' 128 value) []) := by
    apply parseTokens_overruns
    intro _
    apply Classical.byContradiction
    intro hneither
    apply hnot
    constructor
    · intro a ha hend
      exact hneither (Or.inl ⟨a, ha, hend⟩)
    · apply Nat.not_lt.mp
      intro hlt
      exact hneither (Or.inr (by rwa [List.length_nil, Nat.zero_add]))
  cases hresult : parseTokens maxEle (split ',' 128 value) [] with
  | error e =>
      rw [hresult] at hover
      have hparse := parseConfigList_error hlength hresult
      rcases hover with hlong | ⟨arr, hundef⟩
      · have hbounded := h.bounded
        rw [hparse] at hbounded
        exact Nat.not_le.mpr hlong hbounded
      · injection hundef with hundef
        exact h.defined arr (by rw [hparse, hundef])
  | ok arr =>
      rw [hresult] at hover
      rcases parseConfigList_ok hlength hresult with ⟨sz, hparse, _⟩
      rcases hover with hlong | ⟨_, hundef⟩
      · have hbounded := h.bounded
        rw [hparse] at hbounded
        have hsorted : (arr.insertionSort (· ≤ ·)).length ≤ maxEle := hbounded
        rw [List.length_insertionSort] at hsorted
        exact Nat.not_le.mpr hlong hsorted
      · contradiction

theorem ListParsed.of_refused (hparse : parseConfigList split maxEle value = .error (.refused, arr))
    (hroom : arr.length ≤ maxEle) : ListParsed split maxEle value := by
  refine ⟨?_, ?_, ?_⟩
  · rw [hparse]
    exact hroom
  · intro arr' hundef
    rw [hparse] at hundef
    injection hundef with hundef
    injection hundef with hundef _
    contradiction
  · intro arr' sz hok
    rw [hparse] at hok
    contradiction

theorem ListParsed.of_expansion (hwf : WellFormed value) (hne : expansion value ≠ [])
    (hroom : (expansion value).length ≤ maxEle) (hparse : parseConfigList split maxEle value = .ok
      (((expansion value).map UInt16.ofNat).insertionSort (· ≤ ·), (expansion value).length)) :
    ListParsed split maxEle value := by
  refine ⟨?_, ?_, ?_⟩
  · rw [hparse]
    show (List.insertionSort _ _).length ≤ maxEle
    rw [List.length_insertionSort, List.length_map]
    exact hroom
  · intro arr hundef
    rw [hparse] at hundef
    contradiction
  · intro arr sz hok
    rw [hparse] at hok
    injection hok with hok
    injection hok with harr hsz
    refine ⟨hwf, List.length_pos_iff.mpr hne, hroom, hsz.symm, ?_, ?_⟩
    · rw [<- harr]
      exact List.pairwise_insertionSort (· ≤ ·) _
    · rw [<- harr]
      have hperm := (List.perm_insertionSort (· ≤ ·) ((expansion value).map UInt16.ofNat)).map
        UInt16.toNat
      rwa [expansion_toNat] at hperm

theorem ListParsed.of_fits (hdoc : StrsplitDocumented split) (hlength : value.length < 4096)
    (hfits : ListFits maxEle (split ',' 128 value))
    (hgood : AllAsked (split ',' 128 value) -> WellFormed value ∧ expansion value ≠ []) :
    ListParsed split maxEle value := by
  have hroom : (expanded (askedFront (split ',' 128 value))).length ≤ maxEle := by
    rw [length_expanded]
    exact hfits.room
  by_cases hall : AllAsked (split ',' 128 value)
  · rcases hgood hall with ⟨hwf, hne⟩
    rcases parseConfigList_ok hlength (hfits.parseTokens_eq.1 hall) with ⟨sz, hparse, hsz⟩
    have hnumbers : expanded (askedFront (split ',' 128 value)) =
        (expansion value).map UInt16.ofNat := by
      rw [hdoc.eq_fields hwf hall]
      exact (asked_wellFormed hwf).2
    rw [hnumbers] at hroom hparse hsz
    rw [List.length_map] at hroom hsz
    rw [hsz fun hempty => hne (List.map_eq_nil_iff.mp hempty)] at hparse
    exact ListParsed.of_expansion hwf hne hroom hparse
  · exact ListParsed.of_refused
      (parseConfigList_error hlength (hfits.parseTokens_eq.2 hall)) hroom

theorem parseConfigList_wellFormed (hdoc : StrsplitDocumented split) {sz : Nat}
    (hlength : value.length < 4096) (hwf : WellFormed value) (hne : expansion value ≠ [])
    (hroom : (expansion value).length ≤ maxEle)
    (h : parseConfigList split maxEle value = .ok (arr, sz)) :
    sz = (expansion value).length ∧ (arr.map UInt16.toNat).Perm (expansion value) := by
  cases htokens : parseTokens maxEle (split ',' 128 value) [] with
  | error e =>
      rw [parseConfigList_error hlength htokens] at h
      contradiction
  | ok stored =>
      have hcommas := hdoc.eq_fields hwf (parseTokens_allAsked htokens)
      have hnumbers := asked_wellFormed hwf
      have hfits : ListFits maxEle (split ',' 128 value) := by
        rw [hcommas]
        refine ⟨hnumbers.1, ?_⟩
        rw [<- length_expanded, hnumbers.2, List.length_map]
        exact hroom
      rcases (ListParsed.of_fits hdoc hlength hfits fun _ => ⟨hwf, hne⟩).accepted arr sz h with
        ⟨_, _, _, hsz, _, hperm⟩
      exact ⟨hsz, hperm⟩

/-!
Whatever splits the text as documented: the text is read correctly exactly when the elements
before the first token that `strtol` does not take have room in the array, and when, if all
tokens are taken, it is a list of numbers and ranges that is not empty.
-/
theorem number_list_iff (split : Splitter) (hdoc : StrsplitDocumented split) (maxEle : Nat)
    (value : Text) (hlength : value.length < 4096) : ListParsed split maxEle value <->
      ListFits maxEle (split ',' 128 value) ∧
      (AllAsked (split ',' 128 value) -> WellFormed value ∧ expansion value ≠ []) := by
  constructor
  · intro h
    have hfits := h.fits hlength
    refine ⟨hfits, ?_⟩
    intro hall
    rcases parseConfigList_ok hlength (hfits.parseTokens_eq.1 hall) with ⟨sz, hparse, _⟩
    rcases h.accepted _ _ hparse with ⟨hwf, hpos, _⟩
    exact ⟨hwf, fun hempty => by rw [hempty] at hpos; contradiction⟩
  · intro h
    exact ListParsed.of_fits hdoc hlength h.1 h.2

theorem number_list_of_four : ListParsed splitFirst 8 "5, 1-3".toList := by
  have hfront : askedFront (splitFirst ',' 128 "5, 1-3".toList) = [.one 5, .range 1 3] := by
    decide +kernel
  apply (number_list_iff splitFirst splitFirst_documented 8 "5, 1-3".toList (by decide)).mpr
  refine ⟨⟨?_, ?_⟩, ?_⟩
  · rw [hfront]
    simp [Asked.Endless]
  · rw [hfront]
    decide
  · intro _
    constructor
    · unfold WellFormed
      decide +kernel
    · decide +kernel

/-- However it is split, the third number of a list is written behind an array of two. -/
theorem number_list_overrun : (forall split, StrsplitDocumented split ->
      parseConfigList split 2 "1,2,3".toList = .ok ([1, 2, 3], 3) ∧
        ¬ ListParsed split 2 "1,2,3".toList) ∧ StrsplitDocumented splitFirst := by
  refine ⟨?_, splitFirst_documented⟩
  intro split hdoc
  have htokens : split ',' 128 "1,2,3".toList = fields ',' "1,2,3".toList :=
    hdoc.all_cut ',' 128 _ (by decide +kernel) (by decide +kernel)
  have hparse : parseConfigList split 2 "1,2,3".toList = .ok ([1, 2, 3], 3) := by
    rw [parseConfigList, if_neg (by decide +kernel), htokens]
    decide +kernel
  refine ⟨hparse, ?_⟩
  intro h
  have hbounded := h.bounded
  rw [hparse] at hbounded
  exact absurd hbounded (by decide)

-- a number of more than 16 bits is accepted
example : parseConfigList splitFirst 4 "70000".toList = .ok ([4464], 1) := by decide +kernel

end Config
end FStackLite
