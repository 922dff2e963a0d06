import FStackLite.Config.Text

/-!
# The parser of configuration files

`ini_parse_stream` goes through the lines that `fgets` delivers and hands each
`name = value` pair, with the section it stands in, to a handler.  It stops at the first
line that is malformed or that the handler refuses.
-/

namespace FStackLite
namespace Config

inductive CfgArray where
  | portCfgs
  | vdevCfgs
deriving DecidableEq, Repr

/-- The use of an element of `port_cfgs` or `vdev_cfgs`, which may be null. -/
structure Access where
  array : CfgArray
  index : Int
  allocated : Bool
deriving DecidableEq, Repr

inductive Fault where
  /-- It returns 0, or -1. -/
  | refused
  /-- It uses memory that is not there. -/
  | undefined
  /-- It uses an element that is not there. -/
  | outside (access : Access)
deriving DecidableEq, Repr

/-- What `ini_parse` stops with: the number of a line, or -1 without a file. -/
inductive IniError where
  | line (lineno : Int)
  | undefined
  | outside (access : Access)
deriving DecidableEq, Repr

/--
`find_chars_or_comment`: what stands before the first of the characters, or before a
comment that follows a space, and the rest.
-/
def findCharsOrComment (chars : Text) : Bool -> Text -> Text × Text
  | _, [] => ([], [])
  | wasSpace, c :: s =>
      if chars.contains c || (wasSpace && c == ';') then
        ([], c :: s)
      else
        match findCharsOrComment chars (isspace c) s with
        | (before, rest) => (c :: before, rest)

/-- What `ini_parse_stream` knows between two lines. -/
structure Parser (σ : Type) where
  sect : Text
  prevName : Text
  user : σ

/-- `strncpy0` into an array of 50 characters. -/
def strncpy0 (s : Text) : Text :=
  s.take 49

def Parser.handle {σ : Type} (handler : Nat -> σ -> Text -> Text -> Text -> Except Fault σ)
    (lineno : Nat) (p : Parser σ) (name value : Text) : Except IniError (Parser σ) :=
  match handler lineno p.user p.sect name value with
  | .ok user => .ok { p with user := user }
  | .error .refused => .error (.line lineno)
  | .error .undefined => .error .undefined
  | .error (.outside access) => .error (.outside access)

def skipBom (lineno : Nat) : Text -> Text
  | '\xef' :: '\xbb' :: '\xbf' :: s => if lineno = 1 then s else '\xef' :: '\xbb' :: '\xbf' :: s
  | s => s

/-- A `[section]` line, after its bracket. -/
def iniParseSection {σ : Type} (lineno : Nat) (s : Text) (p : Parser σ) :
    Except IniError (Parser σ) :=
  match findCharsOrComment [']'] false s with
  | (name, ']' :: _) => .ok { p with sect := strncpy0 name, prevName := [] }
  | _ => .error (.line lineno)

/-- A `name = value` or `name : value` line. -/
def iniParsePair {σ : Type} (handler : Nat -> σ -> Text -> Text -> Text -> Except Fault σ)
    (lineno : Nat) (start : Text) (p : Parser σ) : Except IniError (Parser σ) :=
  match findCharsOrComment ['=', ':'] false start with
  | (_, []) => .error (.line lineno)
  | (before, e :: rest) =>
      if e = '=' ∨ e = ':' then
        Parser.handle handler lineno { p with prevName := strncpy0 (rstrip before) }
          (rstrip before) (rstrip (lskip (findCharsOrComment [] false rest).1))
      else
        .error (.line lineno)

/-- One line.  A line that is indented goes on with the value of the name before it. -/
def iniParseLine {σ : Type} (handler : Nat -> σ -> Text -> Text -> Text -> Except Fault σ)
    (lineno : Nat) (line : Text) (p : Parser σ) : Except IniError (Parser σ) :=
  match lskip (rstrip (skipBom lineno line)) with
  | [] => .ok p
  | c :: s =>
      if c = ';' ∨ c = '#' then
        .ok p
      else if p.prevName ≠ [] ∧ (c :: s).length < (rstrip line).length then
        p.handle handler lineno p.prevName (c :: s)
      else if c = '[' then
        iniParseSection lineno s p
      else
        iniParsePair handler lineno (c :: s) p

def iniParseStream {σ : Type} (handler : Nat -> σ -> Text -> Text -> Text -> Except Fault σ) :
    Nat -> List Text -> Parser σ -> Except IniError σ
  | _, [], p => .ok p.user
  | lineno, line :: lines, p =>
      match iniParseLine handler (lineno + 1) line p with
      | .ok p' => iniParseStream handler (lineno + 1) lines p'
      | .error e => .error e

/-- `ini_parse` of a file, if it can be opened. -/
def iniParse {σ : Type} (handler : Nat -> σ -> Text -> Text -> Text -> Except Fault σ)
    (file : Option (List Text)) (user : σ) : Except IniError σ :=
  match file with
  | none => .error (.line (-1))
  | some lines => iniParseStream handler 0 lines ⟨[], [], user⟩

/-!
## What the handler keeps, a whole file keeps
-/

theorem iniParseSection_user {σ : Type} {lineno : Nat} {s : Text} {p p' : Parser σ}
    (h : iniParseSection lineno s p = .ok p') : p'.user = p.user := by
  unfold iniParseSection at h
  split at h
  · injection h with h
    rw [<- h]
  · contradiction

section

variable {σ : Type} {handler : Nat -> σ -> Text -> Text -> Text -> Except Fault σ}
variable {P : σ -> Prop} {lineno : Nat} {p p' : Parser σ}
variable (hkeeps : forall {lineno user sect name value user'}, P user ->
  handler lineno user sect name value = .ok user' -> P user')

include hkeeps

theorem Parser.handle_keeps {name value : Text} (hp : P p.user)
    (h : p.handle handler lineno name value = .ok p') : P p'.user := by
  unfold Parser.handle at h
  split at h
  · next user hok =>
      injection h with h
      rw [<- h]
      exact hkeeps hp hok
  · contradiction
  · contradiction
  · contradiction

theorem iniParsePair_keeps {start : Text} (hp : P p.user)
    (h : iniParsePair handler lineno start p = .ok p') : P p'.user := by
  unfold iniParsePair at h
  split at h
  · contradiction
  · split at h
    · exact Parser.handle_keeps hkeeps (show P { p with prevName := _ }.user from hp) h
    · contradiction

theorem iniParseLine_keeps {line : Text} (hp : P p.user)
    (h : iniParseLine handler lineno line p = .ok p') : P p'.user := by
  unfold iniParseLine at h
  split at h
  · injection h with h
    rwa [<- h]
  · split at h
    · injection h with h
      rwa [<- h]
    · split at h
      · exact Parser.handle_keeps hkeeps hp h
      · split at h
        · rw [iniParseSection_user h]
          exact hp
        · exact iniParsePair_keeps hkeeps hp h

theorem iniParseStream_keeps {lines : List Text} {user' : σ} (hp : P p.user)
    (h : iniParseStream handler lineno lines p = .ok user') : P user' := by
  induction lines generalizing lineno p with
  | nil =>
      injection h with h
      rwa [<- h]
  | cons line lines ih =>
      unfold iniParseStream at h
      split at h
      · next p' hline =>
          exact ih (iniParseLine_keeps hkeeps hp hline) h
      · contradiction

theorem iniParse_keeps {file : Option (List Text)} {user user' : σ} (hp : P user)
    (h : iniParse handler file user = .ok user') : P user' := by
  cases file with
  | none => contradiction
  | some lines =>
      exact iniParseStream_keeps hkeeps (show P (Parser.mk [] [] user).user from hp) h

end

end Config
end FStackLite
