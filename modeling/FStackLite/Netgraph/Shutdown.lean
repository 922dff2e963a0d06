import FStackLite.Netgraph.State

/-!
# Hooks and nodes go away

`ng_destroy_hook` takes a hook from its node and sends its peer a function that does the
same there; a node that loses a hook may ask for its own shutdown; `ng_rmnode` destroys
all hooks of a node.  The functions call each other through `ng_send_fn`, so the model
bounds how deep the calls nest.
-/

namespace FStackLite
namespace Netgraph

variable (env : Env)

/-!
## Functions sent to a node
-/

inductive Fn where
  | rmnode
  | rmhookPart2
  | conPart2
  | conPart3
deriving DecidableEq, Repr

/-- `ng_alloc_item` -/
def allocItem : M Bool := do
  let found <- answer env.item
  if found then
    modify fun s => { s with items := s.items + 1 }
  pure found

/-- `NG_FREE_ITEM` of an item that holds no references any more. -/
def freeItem : M Unit :=
  modify fun s => { s with items := s.items - 1 }

/-- The items that `ng_apply_item` refuses: their node or their hook is invalid. -/
def refuses (fn : Fn) (n : NodeId) (h : Option HookId) : M Bool := do
  let nd <- node n
  if !nd.valid && fn != .rmnode then
    pure true
  else
    match h with
    | none => pure false
    | some h => do
        let hk <- hook h
        pure (!hk.valid && fn != .conPart2 && fn != .conPart3 && fn != .rmhookPart2)

/-- `run` calls the function of an item that is not refused and frees the item. -/
def runUnless (refused : Bool) (run : M Nat) : M Nat :=
  if refused then do
    freeItem
    pure EINVAL
  else
    run

/-- `ng_apply_item` for an item that holds a function. -/
def applyItem (fn : Fn) (n : NodeId) (h : Option HookId) (run : M Nat) : M Nat := do
  let refused <- refuses fn n h
  let error <- runUnless refused run
  h.forM unrefHook
  pure error

/-- The item, which is there already, takes its references and is applied at once. -/
def sndItem (fn : Fn) (n : NodeId) (h : Option HookId) (run : M Nat) : M Nat := do
  refNode n
  h.forM refHook
  let error <- applyItem fn n h run
  unrefNode n
  pure error

/-- `ng_send_fn`, and `ng_send_fn2` without `NG_REUSE_ITEM`. -/
def sendFn (fn : Fn) (n : NodeId) (h : Option HookId) (run : M Nat) : M Nat := do
  if <- allocItem env then
    sndItem fn n h run
  else
    pure ENOMEM

/-!
## Shutdown
-/

/-- The loop of `ng_rmnode` over the hooks that are left. -/
def destroyHooks (destroy : HookId -> M Unit) (n : NodeId) : Nat -> M Unit
  | 0 => do
      let nd <- node n
      match nd.hooks with
      | [] => pure ()
      | _ :: _ => throw .depth
  | loop + 1 => do
      let nd <- node n
      match nd.hooks with
      | [] => pure ()
      | h :: _ => do
          destroy h
          destroyHooks destroy n loop

/--
The type's `shutdown` method, which drops the node's own reference or makes the node valid
again, and the end of `ng_rmnode`.
-/
def shutdownMethod (n : NodeId) : M Unit := do
  if <- answer env.persists then
    modifyNode n fun nd => { nd with valid := true, closing := false }
    unrefNode n
  else
    unrefNode n
    unrefNode n

/-- `ng_rmnode`, with `ng_destroy_hook` as a parameter. -/
def rmnodeWith (destroy : HookId -> M Unit) (loop : Nat) (n : NodeId) : M Unit := do
  let nd <- node n
  if nd.closing then
    pure ()
  else
    refNode n
    modifyNode n fun nd => { nd with valid := false, closing := true }
    destroyHooks destroy n loop
    shutdownMethod env n

/-- `ng_rmnode_self` -/
def rmnodeSelf (rmnode : NodeId -> M Unit) (n : NodeId) : M Nat := do
  modifyNode n fun nd => { nd with valid := false }
  let nd <- node n
  if nd.closing then
    pure 0
  else
    sendFn env .rmnode n none do
      rmnode n
      freeItem
      pure 0

/-- `ng_rmhook_self` -/
def rmhookSelf (destroy : HookId -> M Unit) (h : HookId) : M Nat := do
  let hk <- hook h
  match hk.node with
  | none => pure 0
  | some n =>
      sendFn env .rmhookPart2 n (some h) do
        destroy h
        freeItem
        pure 0

/-- The type's `disconnect` method, called after the hook has left the list of its node. -/
def disconnect (rmnode : NodeId -> M Unit) (n : NodeId) : M Unit := do
  let nd <- node n
  let asks <- answer env.disconnect
  if asks nd.valid nd.numhooks then
    let _ <- rmnodeSelf env rmnode n
    pure ()

def Node.without (nd : Node) (h : HookId) : Node :=
  { nd with hooks := nd.hooks.erase h, numhooks := nd.numhooks - 1 }

/--
`LIST_REMOVE(hook, hk_hooks)` and the count of the node.  A hook that is in no list has no
links to follow.
-/
def unlinkHook (n : NodeId) (h : HookId) : M Unit := do
  let nd <- node n
  if h ∈ nd.hooks then
    modify (·.withNode n (some (nd.without h)))
  else
    throw .freed

def divorce (destroy : HookId -> M Unit) (h p : HookId) : M Unit := do
  modifyHook p fun pk => { pk with peer := none }
  modifyHook h fun hk => { hk with peer := none }
  let _ <- rmhookSelf env destroy p
  unrefHook p
  unrefHook h

def leaveNode (rmnode : NodeId -> M Unit) (n : NodeId) (h : HookId) : M Unit := do
  unlinkHook n h
  disconnect env rmnode n
  modifyHook h fun hk => { hk with node := none }
  unrefNode n
  unrefHook h

/-- `ng_destroy_hook` with the functions that it calls as parameters. -/
def destroyHookWith (destroy : HookId -> M Unit) (rmnode : NodeId -> M Unit) (h : HookId) :
    M Unit := do
  modifyHook h fun hk => { hk with valid := false }
  let hk <- hook h
  hk.peer.forM (divorce env destroy h)
  hk.node.forM (leaveNode env rmnode · h)

/-- `ng_destroy_hook`, for calls that nest no deeper than `depth`. -/
def destroyHook : Nat -> HookId -> M Unit
  | 0, _ => throw .depth
  | depth + 1, h =>
      destroyHookWith env (destroyHook depth) (rmnodeWith env (destroyHook depth) depth) h

/-- `ng_rmnode` -/
def rmnode (depth : Nat) (n : NodeId) : M Unit :=
  rmnodeWith env (destroyHook env depth) depth n

end Netgraph
end FStackLite
