import FStackLite.Netgraph.Shutdown
import FStackLite.Netgraph.Tables

/-!
# Hooks are made and connected

`ng_con_nodes` makes a hook on each of two nodes and links them in three parts, of which
the second runs on the other node and the third on this one again.  Every node's
type may refuse a hook when it is made (`newhook`) and once more when it is linked
(`connect`).
-/

namespace FStackLite
namespace Netgraph

variable (env : Env)

def NG_HOOKSIZ : Nat := 32

/-!
## Hooks of a node
-/

/-- The loop of `ng_findhook`. -/
def findhookIn (name : Name) : List HookId -> M (Option HookId)
  | [] => pure none
  | h :: rest => do
      let hk <- hook h
      if hk.valid && hk.name == name then pure (some h) else findhookIn name rest

/-- `ng_findhook` for a type that has no method of its own for it. -/
def findhook (n : NodeId) (name : Name) : M (Option HookId) := do
  let nd <- node n
  findhookIn name nd.hooks

/-- `NG_ALLOC_HOOK`, when there is memory. -/
def newHook (hk : Hook) : M HookId := do
  let h := (<- get).nextHook
  modify (·.withNewHook hk)
  pure h

def Node.adding (nd : Node) (h : HookId) : Node :=
  { nd with hooks := h :: nd.hooks, numhooks := nd.numhooks + 1 }

/-- `LIST_INSERT_HEAD` and the count of the node. -/
def linkHook (n : NodeId) (h : HookId) : M Unit :=
  modifyNode n (·.adding h)

/-- `ng_add_hook` -/
def addHook (n : NodeId) (name : Name) : M (Except Nat HookId) := do
  if (<- findhook n name).isSome then
    pure (.error EEXIST)
  else if <- answer env.hook then
    let h <- newHook ⟨name.take (NG_HOOKSIZ - 1), false, none, some n, 1⟩
    refNode n
    let error <- answer env.newhook
    if error = 0 then
      linkHook n h
      refHook h
      pure (.ok h)
    else
      unrefHook h
      pure (.error error)
  else
    pure (.error ENOMEM)

/-!
## Two nodes
-/

section

variable (destroy : HookId -> M Unit)

/-- `ng_con_part3` -/
def conPart3 (h : HookId) : M Nat := do
  let hk <- hook h
  if hk.node.isNone then
    freeItem
    pure ENOENT
  else
    let error <- answer env.connect
    if error = 0 then
      modifyHook h fun hk => { hk with valid := true }
    else
      destroy h
    freeItem
    pure error

/-- The last part of `ng_con_part2`: the peer's node is asked, by the same item. -/
def askPeer (p : HookId) : M Nat := do
  let pk <- hook p
  match pk.node with
  | none =>
      freeItem
      pure EINVAL
  | some m => sndItem .conPart3 m (some p) (conPart3 env destroy p)

/-- `ng_con_part2` once the hook is on its node. -/
def conPart2Linked (h : HookId) : M Nat := do
  let error <- answer env.connect
  if error = 0 then
    let hk <- hook h
    match hk.peer with
    | none =>
        destroy h
        freeItem
        pure ENOENT
    | some p =>
        let error <- askPeer env destroy p
        if error = 0 then
          modifyHook h fun hk => { hk with valid := true }
        else
          destroy h
        pure error
  else
    destroy h
    freeItem
    pure error

def attachHook (n : NodeId) (h : HookId) : M Unit := do
  modifyHook h fun hk => { hk with node := some n }
  refNode n
  linkHook n h
  refHook h

/-- `ng_con_part2` -/
def conPart2 (n : NodeId) (h : HookId) : M Nat := do
  let hk <- hook h
  if (<- findhook n hk.name).isSome then
    destroy h
    freeItem
    pure EEXIST
  else
    let error <- answer env.newhook
    if error = 0 then
      attachHook n h
      conPart2Linked env destroy h
    else
      destroy h
      freeItem
      pure error

/-- The second hook of `ng_con_nodes`, linked to the first. -/
def conHook2 (h : HookId) (name2 : Name) : M HookId := do
  let h2 <- newHook ⟨name2.take (NG_HOOKSIZ - 1), false, some h, none, 1⟩
  modifyHook h fun hk => { hk with peer := some h2 }
  refHook h
  refHook h2
  pure h2

/-- `ng_con_nodes` once its first hook is made. -/
def conHooks (h : HookId) (n2 : NodeId) (name2 : Name) : M Nat := do
  if <- answer env.hook then
    let h2 <- conHook2 h name2
    let error <- sendFn env .conPart2 n2 (some h2) (conPart2 env destroy n2 h2)
    if error ≠ 0 then
      destroy h
    unrefHook h
    unrefHook h2
    pure error
  else
    destroy h
    unrefHook h
    pure ENOMEM

/-- `ng_con_nodes` -/
def conNodes (n : NodeId) (name : Name) (n2 : NodeId) (name2 : Name) : M Nat := do
  if (<- findhook n2 name2).isSome then
    pure EEXIST
  else
    match <- addHook env n name with
    | .error error => pure error
    | .ok h => conHooks env destroy h n2 name2

end

end Netgraph
end FStackLite
