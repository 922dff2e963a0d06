import Mathlib.Data.List.DropRight
import Mathlib.Tactic.Ring

/-!
# Text

The functions of the C library that the configuration is read with, the small text helpers of
`ff_ini_parser.c` and `ff_config.c`, and what is known of DPDK's `rte_strsplit`.
-/

namespace FStackLite
namespace Config

abbrev Text := List Char

def isspace (c : Char) : Bool :=
  c == ' ' || c == '\t' || c == '\n' || c == '\x0b' || c == '\x0c' || c == '\r'

def isblank (c : Char) : Bool :=
  c == ' ' || c == '\t'

def isdigit (c : Char) : Bool :=
  '0' ≤ c && c ≤ '9'

def isupper (c : Char) : Bool :=
  'A' ≤ c && c ≤ 'Z'

def isxdigit (c : Char) : Bool :=
  isdigit c || ('A' ≤ c && c ≤ 'F') || ('a' ≤ c && c ≤ 'f')

def xdigit2val (c : Char) : Nat :=
  if isdigit c then
    c.toNat - '0'.toNat
  else if isupper c then
    c.toNat - 'A'.toNat + 10
  else
    c.toNat - 'a'.toNat + 10

def rstrip (s : Text) : Text :=
  s.rdropWhile isspace

def lskip (s : Text) : Text :=
  s.dropWhile isspace

/-- `__strstrip`: blanks that are not spaces stay. -/
def strstrip (s : Text) : Text :=
  (s.dropWhile (· == ' ')).rdropWhile (· == ' ')

def strcasecmp (s t : Text) : Bool :=
  s.map Char.toLower == t.map Char.toLower

def decimal (digits : Text) : Nat :=
  digits.foldl (fun n c => 10 * n + xdigit2val c) 0

def sign : Text -> Int × Text
  | '-' :: s => (-1, s)
  | '+' :: s => (1, s)
  | s => (1, s)

/-- The number a text starts with, limited to 64 bits, and what stands after it. -/
def number (s : Text) : Option (Int × Text) :=
  match sign (s.dropWhile isspace) with
  | (unit, t) =>
      match t.takeWhile isdigit with
      | [] => none
      | digits =>
          some (max (-2 ^ 63) (min (2 ^ 63 - 1) (unit * decimal digits)), t.dropWhile isdigit)

/--
`strtol` in base 10.  A text that does not start with a number has the value 0 and is
left whole.
-/
def strtol (s : Text) : Int × Text :=
  (number s).getD (0, s)

/-- A `long` as an `int`. -/
def toInt (v : Int) : Int :=
  v.bmod (2 ^ 32)

def atol (s : Text) : Int :=
  (strtol s).1

def atoi (s : Text) : Int :=
  toInt (strtol s).1

/-- `sscanf` with a word and then `%d`. -/
def scanNumbered (word s : Text) : Option Int :=
  if word.isPrefixOf s then
    (number (s.drop word.length)).map fun v => toInt v.1
  else
    none

/-!
## Splitting
-/

/-- The parts of a text between its delimiters. -/
def fields (delim : Char) : Text -> List Text
  | [] => [[]]
  | c :: s =>
      if c = delim then
        [] :: fields delim s
      else
        match fields delim s with
        | [] => [[c]]
        | field :: rest => (c :: field) :: rest

/-- The tokens of a text, for a delimiter and with room for so many. -/
abbrev Splitter := Char -> Nat -> Text -> List Text

/--
The documented behaviour of `rte_strsplit`, which cuts a text at the delimiter up to
`maxtokens - 1` times.  Of a text without empty fields it gives the fields, if there is room for
all of them, and otherwise leaves a delimiter in a token.  What becomes of an empty field is
left open.
-/
structure StrsplitDocumented (split : Splitter) : Prop where
  all_cut : forall delim maxtokens s, [] ∉ fields delim s ->
    (fields delim s).length ≤ maxtokens -> split delim maxtokens s = fields delim s
  not_all_cut : forall delim maxtokens s, [] ∉ fields delim s -> 0 < maxtokens ->
    maxtokens < (fields delim s).length ->
    exists tok, tok ∈ split delim maxtokens s ∧ delim ∈ tok

variable {delim : Char} {s : Text}

theorem fields_last (h : s.dropWhile (· ≠ delim) = []) : fields delim s = [s] := by
  induction s with
  | nil => rfl
  | cons c s ih =>
      by_cases hdelim : c = delim
      · simp [hdelim] at h
      · rw [List.dropWhile_cons_of_pos (by simpa using hdelim)] at h
        simp only [fields, hdelim, if_false, ih h]

theorem fields_cons {rest : Text} {c : Char} (h : s.dropWhile (· ≠ delim) = c :: rest) :
    fields delim s = s.takeWhile (· ≠ delim) :: fields delim rest := by
  induction s with
  | nil => contradiction
  | cons first s ih =>
      by_cases hdelim : first = delim
      · rw [List.dropWhile_cons_of_neg (by simpa using hdelim)] at h
        injection h with _ h
        rw [List.takeWhile_cons_of_neg (by simpa using hdelim), <- h]
        simp only [fields, hdelim, if_true]
      · rw [List.dropWhile_cons_of_pos (by simpa using hdelim)] at h
        rw [List.takeWhile_cons_of_pos (by simpa using hdelim)]
        simp only [fields, hdelim, if_false, ih h]

/-- A splitter for runs on fixed texts, which keeps empty fields as tokens. -/
def splitFirst (delim : Char) : Nat -> Text -> List Text
  | 0, _ => []
  | 1, s => [s]
  | n + 2, s =>
      match s.dropWhile (· ≠ delim) with
      | [] => [s]
      | _ :: rest => s.takeWhile (· ≠ delim) :: splitFirst delim (n + 1) rest

theorem splitFirst_eq_fields {n : Nat} (h : (fields delim s).length ≤ n + 1) :
    splitFirst delim (n + 1) s = fields delim s := by
  induction n generalizing s with
  | zero =>
      cases hdrop : s.dropWhile (· ≠ delim) with
      | nil =>
          rw [fields_last hdrop]
          rfl
      | cons c rest =>
          have hpos : 0 < (fields delim rest).length := by
            cases hrest : rest.dropWhile (· ≠ delim) with
            | nil =>
                rw [fields_last hrest]
                exact Nat.one_pos
            | cons c' rest' =>
                rw [fields_cons hrest]
                exact Nat.succ_pos _
          rw [fields_cons hdrop, List.length_cons] at h
          omega
  | succ n ih =>
      cases hdrop : s.dropWhile (· ≠ delim) with
      | nil => simp only [splitFirst, hdrop, fields_last hdrop]
      | cons c rest =>
          rw [fields_cons hdrop, List.length_cons] at h
          simp only [splitFirst, hdrop, fields_cons hdrop, ih (Nat.le_of_succ_le_succ h)]

theorem exists_mem_splitFirst {n : Nat} (h : n + 1 < (fields delim s).length) :
    exists tok, tok ∈ splitFirst delim (n + 1) s ∧ delim ∈ tok := by
  induction n generalizing s with
  | zero =>
      refine ⟨s, List.mem_singleton.mpr rfl, ?_⟩
      apply Classical.byContradiction
      intro hnone
      have hdrop : s.dropWhile (· ≠ delim) = [] := by
        apply List.dropWhile_eq_nil_iff.mpr
        intro c hc
        exact decide_eq_true fun heq => hnone (heq ▸ hc)
      rw [fields_last hdrop] at h
      exact Nat.lt_irrefl _ h
  | succ n ih =>
      cases hdrop : s.dropWhile (· ≠ delim) with
      | nil =>
          rw [fields_last hdrop, List.length_singleton] at h
          omega
      | cons c rest =>
          rw [fields_cons hdrop, List.length_cons] at h
          rcases ih (Nat.lt_of_succ_lt_succ h) with ⟨tok, htok, hdelim⟩
          refine ⟨tok, ?_, hdelim⟩
          simp only [splitFirst, hdrop]
          exact List.mem_cons_of_mem _ htok

theorem splitFirst_documented : StrsplitDocumented splitFirst := by
  constructor
  · intro delim maxtokens s hne hroom
    cases maxtokens with
    | zero =>
        rw [List.eq_nil_of_length_eq_zero (Nat.le_zero.mp hroom)]
        rfl
    | succ n => exact splitFirst_eq_fields hroom
  · intro delim maxtokens s _ hpos hmany
    cases maxtokens with
    | zero => contradiction
    | succ n => exact exists_mem_splitFirst hmany

example : splitFirst ',' 3 "0,2-4,7,8".toList =
    ["0".toList, "2-4".toList, "7,8".toList] := by decide +kernel

end Config
end FStackLite
