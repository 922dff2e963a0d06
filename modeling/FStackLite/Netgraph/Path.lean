import FStackLite.Netgraph.Connect

/-!
# Addresses of nodes

An address names a node, or the node that sent the message, and a path of hooks to
follow from there.
-/

namespace FStackLite
namespace Netgraph

def NG_PATHSIZ : Nat := 512

/-- What `ng_path_parse` sets: the node, the path, and the path if it is one hook. -/
structure Address where
  node : Option Name
  path : Option Name
  hook : Option Name
deriving DecidableEq, Repr

def repeatsDot : Name -> Bool
  | '.' :: '.' :: _ => true
  | _ :: rest => repeatsDot rest
  | [] => false

def trimDots (path : Name) : Name :=
  let path := if path.head? = some '.' then path.tail else path
  if path.getLast? = some '.' then path.dropLast else path

def pathOnly (node : Option Name) (path : Name) : Option Address :=
  if ':' ∈ path then
    none
  else if repeatsDot path then
    none
  else
    let path := trimDots path
    if path.isEmpty then
      some ⟨node, none, none⟩
    else
      some ⟨node, some path, if '.' ∈ path then none else some path⟩

/-- `ng_path_parse`, with no result for -1. -/
def pathParse (addr : Name) : Option Address :=
  let front := addr.takeWhile (· ≠ ':')
  match addr.dropWhile (· ≠ ':') with
  | [] => pathOnly none addr
  | _ :: path =>
      if front.isEmpty then
        none
      else if front ≠ ['.'] ∧ '.' ∈ front then
        none
      else
        pathOnly (some front) path

def segments : Name -> Name × List Name
  | [] => ([], [])
  | c :: rest =>
      if c = '.' then
        ([], (segments rest).1 :: (segments rest).2)
      else
        (c :: (segments rest).1, (segments rest).2)

/--
One round of the loop of `ng_path2noderef`: the reference on a node is exchanged for one
on the node behind one of its hooks, which comes with the hook on that side.
-/
def followHook (n : NodeId) (segment : Name) : M (Except Nat (NodeId × HookId)) := do
  match <- findhook n segment with
  | none =>
      unrefNode n
      pure (.error ENOENT)
  | some h =>
      let hk <- hook h
      match hk.peer with
      | none =>
          unrefNode n
          pure (.error ENOENT)
      | some p =>
          let pk <- hook p
          if !hk.valid || !pk.valid then
            unrefNode n
            pure (.error ENOENT)
          else
            match pk.node with
            | none =>
                unrefNode n
                pure (.error ENXIO)
            | some m =>
                refNode m
                unrefNode n
                let md <- node m
                if md.valid then
                  pure (.ok (m, p))
                else
                  unrefNode m
                  pure (.error ENXIO)

/-- The loop of `ng_path2noderef`. -/
def followHooks (lasthook : Bool) : NodeId -> Name -> List Name ->
    M (Except Nat (NodeId × Option HookId))
  | n, segment, rest => do
      match <- followHook n segment with
      | .error error => pure (.error error)
      | .ok (m, p) =>
          match rest with
          | [] =>
              if lasthook then
                refHook p
                pure (.ok (m, some p))
              else
                pure (.ok (m, none))
          | segment :: rest => followHooks lasthook m segment rest

def startNode (here : NodeId) : Option Name -> M (Option NodeId)
  | some name => name2noderef here name
  | none => refFound (some here)

/-- `ng_path2noderef` -/
def path2noderef (here : NodeId) (address : Name) (lasthook : Bool) :
    M (Except Nat (NodeId × Option HookId)) := do
  match pathParse (address.take (NG_PATHSIZ - 1)) with
  | none => pure (.error EINVAL)
  | some addr =>
      match <- startNode here addr.node with
      | none => pure (.error ENOENT)
      | some n =>
          match addr.path with
          | none => pure (.ok (n, none))
          | some path => followHooks lasthook n (segments path).1 (segments path).2

end Netgraph
end FStackLite
