import FStackLite.Foundation.Chains
import FStackLite.Foundation.Program
import Mathlib.Data.Int.Notation
import Mathlib.Logic.Function.Basic

/-!
# Nodes and hooks

The memory that `lib/ff_ng_base.c` keeps its graph in: nodes, hooks and the tables that
nodes are found in.  Nodes and hooks are allocated, counted and given back; to use one
that was given back is a fault of the model.  `ng_deadnode` and `ng_deadhook` are the
absent values of the fields `node` and `peer` of a hook.

The library is built with `FSTACK`, so an item that is sent to a node is applied to it
at once, in the same thread, and there are no queues.

What the memory allocator and the methods of the node types answer is given by an
environment that is indexed by the number of the call.  A type's `disconnect` method may
ask for the shutdown of its node, as they all do by `ng_rmnode_self`; the other methods
are taken to answer only.
-/

namespace FStackLite
namespace Netgraph

open Foundation

/-- The address of a `struct ng_node`. -/
abbrev NodeId := Nat

/-- The address of a `struct ng_hook`. -/
abbrev HookId := Nat

abbrev Name := List Char

structure Hook where
  name : Name
  /-- `HK_INVALID` is not set. -/
  valid : Bool
  peer : Option HookId
  node : Option NodeId
  refs : Int
deriving DecidableEq, Repr

structure Node where
  name : Name
  type : Name
  /-- `NGF_INVALID` is not set. -/
  valid : Bool
  /-- `NGF_CLOSING` -/
  closing : Bool
  numhooks : Int
  id : Nat
  hooks : List HookId
  refs : Int
deriving DecidableEq, Repr

structure Tables where
  /-- `refs` of each type on `ng_typelist`. -/
  types : Name -> Option Int
  /-- The type was taken off the list; then its `refs` is still 1. -/
  retired : Name -> Bool
  idHash : List (List NodeId)
  /-- `V_nextID` -/
  nextID : Nat
  /-- `V_ng_nodes` -/
  ngNodes : Int
  nameHash : List (List NodeId)
  /-- `V_ng_named_nodes` -/
  ngNamedNodes : Int

/-- Addresses of nodes from `nextNode` on, and of hooks from `nextHook` on, are unused. -/
structure St where
  nodes : NodeId -> Option Node
  hooks : HookId -> Option Hook
  nextNode : Nat
  nextHook : Nat
  tables : Tables
  /-- The items taken from `ng_qzone` and not given back. -/
  items : Int
  /-- The calls made to the environment. -/
  calls : Nat

/-- Before any node is made; `hashinit(16, ...)` has made the two tables. -/
def St.start : St where
  nodes _ := none
  hooks _ := none
  nextNode := 0
  nextHook := 0
  tables := ⟨fun _ => none, fun _ => false, List.replicate 16 [], 1, 0, List.replicate 16 [], 0⟩
  items := 0
  calls := 0

structure Env where
  /-- `ng_alloc_item` finds an item. -/
  item : Nat -> Bool
  /-- `NG_ALLOC_HOOK` finds memory. -/
  hook : Nat -> Bool
  /-- `NG_ALLOC_NODE` finds memory. -/
  node : Nat -> Bool
  /-- `hashinit_flags` finds memory. -/
  table : Nat -> Bool
  newhook : Nat -> Nat
  connect : Nat -> Nat
  /--
  Whether the `disconnect` method asks for the shutdown of its node, which is valid or
  not and has some number of hooks left.
  -/
  disconnect : Nat -> Bool -> Int -> Bool
  /-- Whether the `shutdown` method makes the node valid again. -/
  persists : Nat -> Bool

inductive Fault where
  /-- Memory that was given back is used. -/
  | freed
  /-- The calls nest deeper, or a loop runs longer, than the bound of the model. -/
  | depth
  /-- A type that is not on the list is taken off it. -/
  | unlisted
deriving DecidableEq, Repr

abbrev M := Program St Fault

def ENOENT : Nat := 2
def ENXIO : Nat := 6
def ENOMEM : Nat := 12
def EEXIST : Nat := 17
def EINVAL : Nat := 22

/-!
## Access
-/

def St.withNode (s : St) (n : NodeId) (nd : Option Node) : St :=
  { s with nodes := Function.update s.nodes n nd }

def St.withHook (s : St) (h : HookId) (hk : Option Hook) : St :=
  { s with hooks := Function.update s.hooks h hk }

def St.withNewNode (s : St) (nd : Node) : St :=
  { s with nodes := Function.update s.nodes s.nextNode (some nd), nextNode := s.nextNode + 1 }

def St.withNewHook (s : St) (hk : Hook) : St :=
  { s with hooks := Function.update s.hooks s.nextHook (some hk), nextHook := s.nextHook + 1 }

def modifyTables (f : Tables -> Tables) : M Unit :=
  modify fun s => { s with tables := f s.tables }

def node (n : NodeId) : M Node := do
  match (<- get).nodes n with
  | some nd => pure nd
  | none => throw .freed

def hook (h : HookId) : M Hook := do
  match (<- get).hooks h with
  | some hk => pure hk
  | none => throw .freed

def modifyNode (n : NodeId) (f : Node -> Node) : M Unit := do
  let nd <- node n
  modify (·.withNode n (some (f nd)))

def modifyHook (h : HookId) (f : Hook -> Hook) : M Unit := do
  let hk <- hook h
  modify (·.withHook h (some (f hk)))

def answer {α : Type} (f : Nat -> α) : M α := do
  let s <- get
  modify fun s => { s with calls := s.calls + 1 }
  pure (f s.calls)

/-!
## References
-/

/-- `NG_NODE_REF` -/
def refNode (n : NodeId) : M Unit :=
  modifyNode n fun nd => { nd with refs := nd.refs + 1 }

/-- `NG_HOOK_REF` -/
def refHook (h : HookId) : M Unit :=
  modifyHook h fun hk => { hk with refs := hk.refs + 1 }

/-- `NG_NODE_HAS_NAME` -/
def Node.hasName (nd : Node) : Bool :=
  !nd.name.isEmpty

/-- What `ng_unref_node` does to the tables when a node has lost its last reference. -/
def Tables.forget (t : Tables) (n : NodeId) (nd : Node) : Tables :=
  { t with
    types := Function.update t.types nd.type ((t.types nd.type).map (· - 1))
    nameHash := if nd.hasName then Chains.removeAll n t.nameHash else t.nameHash
    ngNamedNodes := if nd.hasName then t.ngNamedNodes - 1 else t.ngNamedNodes
    idHash := Chains.removeAll n t.idHash
    ngNodes := t.ngNodes - 1 }

def St.forget (s : St) (n : NodeId) (nd : Node) : St :=
  { s with nodes := Function.update s.nodes n none, tables := s.tables.forget n nd }

/-- `ng_unref_node` -/
def unrefNode (n : NodeId) : M Unit := do
  let nd <- node n
  if nd.refs = 1 then
    modify (·.forget n nd)
  else
    modify (·.withNode n (some { nd with refs := nd.refs - 1 }))

/-- `ng_unref_hook` -/
def unrefHook (h : HookId) : M Unit := do
  let hk <- hook h
  if hk.refs = 1 then
    match hk.node with
    | some n => unrefNode n
    | none => pure ()
    modify (·.withHook h none)
  else
    modify (·.withHook h (some { hk with refs := hk.refs - 1 }))

end Netgraph
end FStackLite
