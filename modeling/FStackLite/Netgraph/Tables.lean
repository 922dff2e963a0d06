import FStackLite.Netgraph.State
import Mathlib.Algebra.Group.Nat.Defs

/-!
# Types, identifiers and names of nodes

`ng_make_node_common` gives a node an identifier that no valid node has and puts it into
the table of identifiers, which is moved to one of twice the size when it fills up.  A node
is found by its identifier or by its name.
-/

namespace FStackLite
namespace Netgraph

open Foundation

variable (env : Env)

/-!
## Types
-/

def NG_TYPESIZ : Nat := 32

/-- `ng_newtype`, behind the check of its version. -/
def newtype (type : Name) : M Nat := do
  if type.length = 0 ∨ NG_TYPESIZ ≤ type.length then
    pure EINVAL
  else if ((<- get).tables.types type).isSome then
    pure EEXIST
  else
    modifyTables fun t => { t with types := Function.update t.types type (some 1) }
    pure 0

def EBUSY : Nat := 16

/-- `ng_rmtype`, which looks at `refs` only.  That is 0 in a type that was never installed. -/
def rmtype (type : Name) : M Nat := do
  let t := (<- get).tables
  match t.types type with
  | some refs =>
      if refs ≠ 1 then
        pure EBUSY
      else
        modifyTables fun t => { t with
          types := Function.update t.types type none
          retired := Function.update t.retired type true }
        pure 0
  | none => if t.retired type then throw .unlisted else pure EBUSY

/-!
## Chains
-/

def findIn (test : Node -> Bool) : List NodeId -> M (Option NodeId)
  | [] => pure none
  | n :: rest => do
      let nd <- node n
      if test nd then pure (some n) else findIn test rest

/-- The loop of `hashinit_flags` that doubles the size. -/
def doubled (elements : Nat) : Nat -> Nat -> Nat
  | 0, size => size
  | loop + 1, size => if size ≤ elements then doubled elements loop (2 * size) else size

/-- The size of the table that `hashinit_flags` makes. -/
def hashSize (elements : Nat) : Nat :=
  doubled elements (elements + 1) 1 / 2

/-- Moves the nodes of the chains to the heads of new chains, one after the other. -/
def rehashed (place : Node -> Nat) : List NodeId -> List (List NodeId) -> M (List (List NodeId))
  | [], new => pure new
  | n :: rest, new => do
      let nd <- node n
      rehashed place rest (Chains.insertAt (place nd) n new)

/-!
## Identifiers
-/

/-- `NG_IDHASH_FIND` -/
def idhashFind (id : Nat) : M (Option NodeId) := do
  let t := (<- get).tables
  findIn (fun nd => nd.valid && nd.id == id) (Chains.chain t.idHash (id % t.idHash.length))

/-- `ng_ID_rehash` -/
def idRehash : M Unit := do
  if <- answer env.table then
    let t := (<- get).tables
    let size := hashSize (t.idHash.length * 2)
    let new <- rehashed (fun nd => nd.id % size) t.idHash.flatten (Chains.empty size)
    modifyTables fun t => { t with idHash := new }

/-- The loop of `ng_make_node_common` that takes the next free identifier. -/
def takeID : Nat -> M Nat
  | 0 => throw .depth
  | loop + 1 => do
      let id := (<- get).tables.nextID
      modifyTables fun t => { t with nextID := (t.nextID + 1) % 2 ^ 32 }
      let found <- idhashFind id
      if id ≠ 0 ∧ found = none then pure id else takeID loop

/-- `NG_ALLOC_NODE` and the first reference. -/
def newNode (type : Name) : M NodeId := do
  let n := (<- get).nextNode
  modify (·.withNewNode ⟨[], type, true, false, 0, 0, [], 1⟩)
  modifyTables fun t => { t with
    types := Function.update t.types type ((t.types type).map (· + 1)) }
  pure n

def growIDs : M Unit := do
  let t := (<- get).tables
  if t.ngNodes * 2 > (t.idHash.length : Int) - 1 then
    idRehash env

/-- `ng_make_node_common` behind its checks. -/
def register (loop : Nat) (type : Name) : M (Except Nat NodeId) := do
  let n <- newNode type
  let id <- takeID loop
  modifyNode n fun nd => { nd with id := id }
  modifyTables fun t => { t with ngNodes := t.ngNodes + 1 }
  growIDs env
  modifyTables fun t => { t with idHash := Chains.insertAt (id % t.idHash.length) n t.idHash }
  pure (.ok n)

/-- `ng_make_node_common` -/
def makeNodeCommon (loop : Nat) (type : Name) : M (Except Nat NodeId) := do
  if (<- get).tables.types type = none then
    pure (.error EINVAL)
  else if <- answer env.node then
    register env loop type
  else
    pure (.error ENOMEM)

def refFound : Option NodeId -> M (Option NodeId)
  | none => pure none
  | some n => do
      refNode n
      pure (some n)

/-- `ng_ID2noderef` -/
def ID2noderef (id : Nat) : M (Option NodeId) := do
  refFound (<- idhashFind id)

/-!
## Names
-/

/-- `hash32_str(name, HASHINIT)` -/
def hash32Str (name : Name) : Nat :=
  name.foldl (fun hash c => (hash * 33 + c.toNat) % 2 ^ 32) 5381

def hexValue (c : Char) : Option Nat :=
  if c.isDigit then some (c.toNat - 48)
  else if 'a' ≤ c ∧ c ≤ 'f' then some (c.toNat - 87)
  else if 'A' ≤ c ∧ c ≤ 'F' then some (c.toNat - 55)
  else none

/-- The digits that `strtoul` reads in base 16, and what is behind them. -/
def hexDigits : List Char -> List Nat × List Char
  | [] => ([], [])
  | c :: rest =>
      match hexValue c with
      | some d => (d :: (hexDigits rest).1, (hexDigits rest).2)
      | none => ([], c :: rest)

/-- `strtoul(text, &eptr, 16)` for a text that starts with a digit: the value and the rest. -/
def strtoul16 (text : List Char) : Nat × List Char :=
  let digits :=
    match text with
    | '0' :: 'x' :: rest => hexDigits rest
    | '0' :: 'X' :: rest => hexDigits rest
    | _ => hexDigits text
  if digits.1.isEmpty then
    (0, text)
  else
    (min (digits.1.foldl (fun val d => 16 * val + d) 0) (2 ^ 64 - 1), digits.2)

/-- `ng_decodeidname` -/
def decodeidname (name : Name) : Nat :=
  match name with
  | '[' :: c :: rest =>
      if (hexValue c).isNone ∨ rest.getLast? ≠ some ']' then
        0
      else
        let (val, eptr) := strtoul16 (c :: rest)
        if eptr ≠ [']'] ∨ val = 2 ^ 64 - 1 then 0 else val % 2 ^ 32
  | _ => 0

def Tables.nameChain (t : Tables) (name : Name) : List NodeId :=
  Chains.chain t.nameHash (hash32Str name &&& (t.nameHash.length - 1))

def named (name : Name) (nd : Node) : Bool :=
  nd.valid && nd.name == name

/-- `ng_name2noderef` -/
def name2noderef (here : NodeId) (name : Name) : M (Option NodeId) := do
  if name = ['.'] then
    refFound (some here)
  else if decodeidname name ≠ 0 then
    ID2noderef (decodeidname name)
  else
    refFound (<- findIn (named name) ((<- get).tables.nameChain name))

end Netgraph
end FStackLite
