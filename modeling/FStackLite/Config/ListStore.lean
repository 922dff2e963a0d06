import FStackLite.Config.Lists
import Mathlib.Algebra.BigOperators.Group.List.Basic

/-!
# What the parser of number lists stores

`__parse_config_list` expands each token, a number or a range, into an array.  This module
says what a token has to be for `strtol` to take it, how many elements are stored then, and
when there are more of them than the array has.
-/

namespace FStackLite
namespace Config

/-!
## What the tokens ask for
-/

/-- What a token is taken for; a range runs over `int`s. -/
inductive Asked where
  | one (v : Int)
  | range (lv rv : Int)
deriving DecidableEq

/-- What `strtol` takes a token for, if it reads all of it. -/
def asked (tok : Text) : Option Asked :=
  match tok.dropWhile (· ≠ '-') with
  | [] =>
      match strtol (strstrip tok) with
      | (v, []) => some (.one v)
      | _ => none
  | _ :: right =>
      match strtol (strstrip (tok.takeWhile (· ≠ '-'))), strtol (strstrip right) with
      | (lv, []), (rv, []) => some (.range (toInt lv) rv)
      | _, _ => none

namespace Asked

def count : Asked -> Nat
  | one _ => 1
  | range lv rv => (rv - lv + 1).toNat

def elements : Asked -> List UInt16
  | one v => [UInt16.ofInt v]
  | range lv rv => (List.range (rv - lv + 1).toNat).map fun k : Nat => UInt16.ofInt (lv + k)

def Endless : Asked -> Prop
  | one _ => False
  | range _ rv => 2 ^ 31 - 1 ≤ rv

/-- The counter is an `int`. -/
def Starts : Asked -> Prop
  | one _ => True
  | range lv _ => lv < 2 ^ 31

def store (maxEle : Nat) (arr : List UInt16) : Asked ->
    Except (ListFault × List UInt16) (List UInt16)
  | one v => storeOne maxEle v arr
  | range lv rv => storeRange maxEle rv (maxEle + 2 - arr.length) lv arr

theorem length_elements (a : Asked) : a.elements.length = a.count := by
  cases a with
  | one v => rfl
  | range lv rv =>
      rw [elements, List.length_map, List.length_range]
      rfl

end Asked

theorem toInt_lt (v : Int) : toInt v < 2 ^ 31 := by
  have h := Int.bmod_lt (x := v) (m := 2 ^ 32) (by decide)
  exact h

variable {tok : Text} {a : Asked} {arr : List UInt16} {maxEle : Nat} {toks : List Text}

theorem asked_starts (h : asked tok = some a) : a.Starts := by
  unfold asked at h
  split at h
  · split at h
    · injection h with h
      rw [<- h]
      trivial
    · contradiction
  · split at h
    · injection h with h
      rw [<- h]
      exact toInt_lt _
    · contradiction

theorem parseToken_eq (maxEle : Nat) (tok : Text) (arr : List UInt16) : parseToken maxEle tok arr =
      (asked tok).elim (.error (.refused, arr)) (Asked.store maxEle arr) := by
  unfold parseToken asked
  cases tok.dropWhile (· ≠ '-') with
  | nil =>
      rcases strtol (strstrip tok) with ⟨v, rest⟩
      cases rest with
      | nil => rfl
      | cons c rest => rfl
  | cons dash right =>
      dsimp only
      rcases strtol (strstrip (tok.takeWhile (· ≠ '-'))) with ⟨lv, lrest⟩
      rcases strtol (strstrip right) with ⟨rv, rrest⟩
      cases lrest with
      | cons c lrest => rfl
      | nil =>
          cases rrest with
          | nil => rfl
          | cons c rrest => rfl

/-!
## What is stored
-/

def storedOf : Except (ListFault × List UInt16) (List UInt16) -> List UInt16
  | .ok arr => arr
  | .error (_, arr) => arr

def Overrun (maxEle : Nat) (r : Except (ListFault × List UInt16) (List UInt16)) : Prop :=
  maxEle < (storedOf r).length ∨ exists arr, r = .error (.undefined, arr)

theorem storeRange_grows (maxEle : Nat) (rv : Int) (room : Nat) (j : Int) (arr : List UInt16) :
    arr.length ≤ (storedOf (storeRange maxEle rv room j arr)).length := by
  induction room generalizing j arr with
  | zero => exact Nat.le_refl _
  | succ room ih =>
      unfold storeRange storeOne
      split
      · exact Nat.le_refl _
      · split
        · next e he =>
            split at he
            · injection he with he
              rw [<- he]
              exact Nat.le_refl _
            · contradiction
        · next arr' harr' =>
            split at harr'
            · contradiction
            · injection harr' with harr'
              have hlength : arr'.length = arr.length + 1 := by
                rw [<- harr', List.length_append, List.length_singleton]
              split
              · show arr.length ≤ arr'.length
                omega
              · have hlater := ih (j + 1) arr'
                omega

theorem storeOne_room (h : arr.length ≤ maxEle) (v : Int) :
    storeOne maxEle v arr = .ok (arr ++ [UInt16.ofInt v]) :=
  if_neg (Nat.not_lt.mpr h)

theorem storeRange_fits {maxEle n room : Nat} {rv j : Int} {arr : List UInt16}
    (hn : (rv - j + 1).toNat = n) (hend : rv < 2 ^ 31 - 1) (hfit : arr.length + n ≤ maxEle)
    (hroom : n < room) : storeRange maxEle rv room j arr =
      .ok (arr ++ (List.range n).map fun k : Nat => UInt16.ofInt (j + k)) := by
  induction n generalizing room j arr with
  | zero =>
      cases room with
      | zero => contradiction
      | succ room =>
          have hpast : rv < j := by omega
          simp [storeRange, hpast]
  | succ n ih =>
      cases room with
      | zero => contradiction
      | succ room =>
          have hmore : ¬ rv < j := by omega
          have hj : j ≠ 2 ^ 31 - 1 := by omega
          have hlength : (arr ++ [UInt16.ofInt j]).length = arr.length + 1 := by
            rw [List.length_append, List.length_singleton]
          have hrest := @ih room (j + 1) (arr ++ [UInt16.ofInt j]) (by omega) (by omega) (by omega)
          have hshift : forall k : Nat,
              UInt16.ofInt (j + 1 + k) = UInt16.ofInt (j + (k + 1 : Nat)) := by
            intro k
            congr 1
            push_cast
            omega
          rw [storeRange, if_neg hmore, storeOne_room (by omega)]
          simp only [hj, if_false]
          rw [hrest, List.range_succ_eq_map, List.map_cons, List.map_map, List.append_assoc,
            List.singleton_append]
          simp only [hshift]
          simp [Function.comp_def]

theorem storeRange_overruns {room : Nat} {rv j : Int} (hj : j < 2 ^ 31)
    (hroom : maxEle + 2 ≤ arr.length + room)
    (h : 2 ^ 31 - 1 ≤ rv ∨ maxEle < arr.length + (rv - j + 1).toNat) :
    Overrun maxEle (storeRange maxEle rv room j arr) := by
  induction room generalizing j arr with
  | zero =>
      apply Or.inl
      show maxEle < arr.length
      omega
  | succ room ih =>
      cases Nat.lt_or_ge maxEle arr.length with
      | inl hfull => exact Or.inl (Nat.lt_of_lt_of_le hfull (storeRange_grows _ _ _ _ _))
      | inr hfits =>
          have hmore : ¬ rv < j := by omega
          have hlength : (arr ++ [UInt16.ofInt j]).length = arr.length + 1 := by
            rw [List.length_append, List.length_singleton]
          rw [storeRange, if_neg hmore, storeOne_room hfits]
          by_cases hlast : j = 2 ^ 31 - 1
          · simp only [hlast, if_true]
            exact Or.inr ⟨_, rfl⟩
          · simp only [hlast, if_false]
            exact ih (by omega) (by omega) (by omega)

theorem Asked.store_fits (hend : ¬ a.Endless) (hfit : arr.length + a.count ≤ maxEle) :
    a.store maxEle arr = .ok (arr ++ a.elements) := by
  cases a with
  | one v => exact storeOne_room (Nat.le_of_succ_le hfit) v
  | range lv rv =>
      have hend : ¬ 2 ^ 31 - 1 ≤ rv := hend
      have hfit : arr.length + (rv - lv + 1).toNat ≤ maxEle := hfit
      exact storeRange_fits rfl (by omega) hfit (by omega)

theorem Asked.store_overruns (hstart : a.Starts) (h : a.Endless ∨ maxEle < arr.length + a.count) :
    Overrun maxEle (a.store maxEle arr) := by
  cases a with
  | one v =>
      rcases h with hend | hfull
      · exact hend.elim
      · have hfull : maxEle < arr.length + 1 := hfull
        apply Or.inl
        show maxEle < (storedOf (storeOne maxEle v arr)).length
        unfold storeOne
        split
        · next hmore =>
            exact hmore
        · rw [storedOf, List.length_append]
          exact hfull
  | range lv rv => exact storeRange_overruns hstart (by omega) h

/-!
## Tokens one after the other
-/

def askedFront : List Text -> List Asked
  | [] => []
  | tok :: toks => (asked tok).elim [] fun a => a :: askedFront toks

def totalCount (as : List Asked) : Nat :=
  (as.map Asked.count).sum

def expanded (as : List Asked) : List UInt16 :=
  as.flatMap Asked.elements

structure ListFits (maxEle : Nat) (toks : List Text) : Prop where
  ends : forall a, a ∈ askedFront toks -> ¬ a.Endless
  room : totalCount (askedFront toks) ≤ maxEle

def AllAsked (toks : List Text) : Prop :=
  forall tok, tok ∈ toks -> (asked tok).isSome = true

theorem askedFront_cons (h : asked tok = some a) (toks : List Text) :
    askedFront (tok :: toks) = a :: askedFront toks := by
  rw [askedFront, h]
  rfl

theorem askedFront_stop (h : asked tok = none) (toks : List Text) :
    askedFront (tok :: toks) = [] := by
  rw [askedFront, h]
  rfl

theorem totalCount_cons (a : Asked) (as : List Asked) :
    totalCount (a :: as) = a.count + totalCount as := by
  rw [totalCount, List.map_cons, List.sum_cons]
  rfl

theorem length_expanded (as : List Asked) : (expanded as).length = totalCount as := by
  induction as with
  | nil => rfl
  | cons a as ih =>
      rw [expanded, List.flatMap_cons, List.length_append, Asked.length_elements, totalCount_cons,
        <- ih]
      rfl

theorem parseTokens_cons (h : asked tok = some a) {arr' : List UInt16}
    (hstore : a.store maxEle arr = .ok arr') (toks : List Text) :
    parseTokens maxEle (tok :: toks) arr = parseTokens maxEle toks arr' := by
  have htok : parseToken maxEle tok arr = .ok arr' := by
    rw [parseToken_eq, h]
    exact hstore
  rw [parseTokens, htok]

theorem parseTokens_error (h : asked tok = some a) {e : ListFault × List UInt16}
    (hstore : a.store maxEle arr = .error e) (toks : List Text) :
    parseTokens maxEle (tok :: toks) arr = .error e := by
  have htok : parseToken maxEle tok arr = .error e := by
    rw [parseToken_eq, h]
    exact hstore
  rw [parseTokens, htok]

theorem parseTokens_stop (h : asked tok = none) (maxEle : Nat) (arr : List UInt16)
    (toks : List Text) : parseTokens maxEle (tok :: toks) arr = .error (.refused, arr) := by
  have htok : parseToken maxEle tok arr = .error (.refused, arr) := by
    rw [parseToken_eq, h]
    rfl
  rw [parseTokens, htok]

theorem parseTokens_allAsked {arr' : List UInt16} (h : parseTokens maxEle toks arr = .ok arr') :
    AllAsked toks := by
  induction toks generalizing arr with
  | nil =>
      intro tok htok
      contradiction
  | cons tok toks ih =>
      cases htok : asked tok with
      | none =>
          rw [parseTokens_stop htok] at h
          contradiction
      | some a =>
          cases hstore : a.store maxEle arr with
          | error e =>
              rw [parseTokens_error htok hstore] at h
              contradiction
          | ok next =>
              rw [parseTokens_cons htok hstore] at h
              intro t ht
              rcases List.mem_cons.mp ht with rfl | ht
              · rw [htok]
                rfl
              · exact ih h t ht

theorem parseTokens_fits (hends : forall a, a ∈ askedFront toks -> ¬ a.Endless)
    (hroom : arr.length + totalCount (askedFront toks) ≤ maxEle) : (AllAsked toks ->
      parseTokens maxEle toks arr = .ok (arr ++ expanded (askedFront toks))) ∧ (¬ AllAsked toks ->
      parseTokens maxEle toks arr = .error (.refused, arr ++ expanded (askedFront toks))) := by
  induction toks generalizing arr with
  | nil =>
      constructor
      · intro _
        rw [askedFront, expanded, List.flatMap_nil, List.append_nil]
        rfl
      · intro hnot
        exact absurd (fun tok htok => absurd htok List.not_mem_nil) hnot
  | cons tok toks ih =>
      cases htok : asked tok with
      | none =>
          constructor
          · intro hall
            have hsome := hall tok List.mem_cons_self
            rw [htok] at hsome
            contradiction
          · intro _
            rw [askedFront_stop htok, parseTokens_stop htok, expanded, List.flatMap_nil,
              List.append_nil]
      | some a =>
          rw [askedFront_cons htok] at hends hroom ⊢
          rw [totalCount_cons] at hroom
          have hfirst : arr.length + a.count ≤ maxEle := by omega
          have hstore := Asked.store_fits (hends a List.mem_cons_self) hfirst
          have hlength : (arr ++ a.elements).length = arr.length + a.count := by
            rw [List.length_append, Asked.length_elements]
          have hrest := @ih (arr ++ a.elements)
            (fun b hb => hends b (List.mem_cons_of_mem a hb)) (by omega)
          have hall : AllAsked (tok :: toks) <-> AllAsked toks := by
            constructor
            · intro hall t ht
              exact hall t (List.mem_cons_of_mem tok ht)
            · intro hall t ht
              rcases List.mem_cons.mp ht with rfl | ht
              · rw [htok]
                rfl
              · exact hall t ht
          rw [hall, parseTokens_cons htok hstore, expanded, List.flatMap_cons, <- List.append_assoc]
          exact hrest

theorem ListFits.parseTokens_eq (h : ListFits maxEle toks) :
    (AllAsked toks -> parseTokens maxEle toks [] = .ok (expanded (askedFront toks))) ∧
    (¬ AllAsked toks ->
      parseTokens maxEle toks [] = .error (.refused, expanded (askedFront toks))) := by
  have hroom : ([] : List UInt16).length + totalCount (askedFront toks) ≤ maxEle := by
    rw [List.length_nil, Nat.zero_add]
    exact h.room
  exact parseTokens_fits h.ends hroom

theorem lt_of_nothing_asked {n : Nat}
    (h : n ≤ maxEle -> (exists a, a ∈ ([] : List Asked) ∧ a.Endless) ∨
      maxEle < n + totalCount []) : maxEle < n := by
  apply Nat.lt_of_not_le
  intro hle
  rcases h hle with ⟨a, ha, _⟩ | hlt
  · contradiction
  · exact Nat.not_le.mpr hlt hle

theorem Overrun.parseTokens {maxEle : Nat} {tok : Text} {toks : List Text} {arr : List UInt16}
    {a : Asked} (htok : asked tok = some a) (h : Overrun maxEle (a.store maxEle arr))
    (hrest : forall arr', maxEle < arr'.length -> Overrun maxEle (parseTokens maxEle toks arr')) :
    Overrun maxEle (parseTokens maxEle (tok :: toks) arr) := by
  cases hresult : a.store maxEle arr with
  | error e =>
      rw [hresult] at h
      rw [parseTokens_error htok hresult]
      rcases h with hlong | ⟨arr', hundef⟩
      · exact Or.inl hlong
      · injection hundef with hundef
        exact Or.inr ⟨arr', by rw [hundef]⟩
  | ok arr' =>
      rw [hresult] at h
      rw [parseTokens_cons htok hresult]
      rcases h with hlong | ⟨_, hundef⟩
      · exact hrest arr' hlong
      · contradiction

theorem parseTokens_overruns
    (h : arr.length ≤ maxEle -> (exists a, a ∈ askedFront toks ∧ a.Endless) ∨
      maxEle < arr.length + totalCount (askedFront toks)) :
    Overrun maxEle (parseTokens maxEle toks arr) := by
  induction toks generalizing arr with
  | nil => exact Or.inl (lt_of_nothing_asked h)
  | cons tok toks ih =>
      cases htok : asked tok with
      | none =>
          rw [askedFront_stop htok] at h
          rw [parseTokens_stop htok]
          exact Or.inl (lt_of_nothing_asked h)
      | some a =>
          rw [askedFront_cons htok, totalCount_cons] at h
          by_cases hover : a.Endless ∨ maxEle < arr.length + a.count
          · have hstore := Asked.store_overruns (asked_starts htok) hover
            exact hstore.parseTokens htok fun arr' hlong =>
              ih fun hle => absurd hle (Nat.not_le.mpr hlong)
          · have hends : ¬ a.Endless := fun hend => hover (Or.inl hend)
            have hroom : arr.length + a.count ≤ maxEle :=
              Nat.not_lt.mp fun hlt => hover (Or.inr hlt)
            have hlength : (arr ++ a.elements).length = arr.length + a.count := by
              rw [List.length_append, Asked.length_elements]
            rw [parseTokens_cons htok (Asked.store_fits hends hroom)]
            apply ih
            intro hle
            rcases h (by omega) with ⟨b, hb, hend⟩ | hlt
            · rcases List.mem_cons.mp hb with rfl | hb
              · exact absurd hend hends
              · exact Or.inl ⟨b, hb, hend⟩
            · apply Or.inr
              omega

end Config
end FStackLite
