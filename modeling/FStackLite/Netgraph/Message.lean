import FStackLite.Netgraph.Path

/-!
# Generic messages

The control messages that every node understands and that change the graph.  A message
is sent to the node with an identifier and is handled at once.
-/

namespace FStackLite
namespace Netgraph

variable (env : Env)

inductive Cmd where
  | shutdown
  | connect (path ourhook peerhook : Name)
  | rmhook (ourhook : Name)
deriving DecidableEq, Repr

def Cmd.size : Cmd -> Option Nat
  | .shutdown => none
  | .connect .. => some 576
  | .rmhook _ => some 32

structure Msg where
  cmd : Cmd
  arglen : Nat
deriving DecidableEq, Repr

/-- The last character of each field of an argument is overwritten by the final NUL. -/
def field (size : Nat) (text : Name) : Name :=
  text.take (size - 1)

def runCmd (depth : Nat) (here : NodeId) : Cmd -> M Nat
  | .shutdown => do
      rmnode env depth here
      pure 0
  | .connect path ourhook peerhook => do
      match <- path2noderef here (field 512 path) false with
      | .error error => pure error
      | .ok (n2, _) =>
          let error <- conNodes env (destroyHook env depth) here (field 32 ourhook) n2
            (field 32 peerhook)
          unrefNode n2
          pure error
  | .rmhook ourhook => do
      match <- findhook here (field 32 ourhook) with
      | none => pure 0
      | some h =>
          destroyHook env depth h
          pure 0

/-- `ng_generic_msg` -/
def genericMsg (depth : Nat) (here : NodeId) (msg : Msg) : M Nat :=
  if msg.cmd.size = none ∨ msg.cmd.size = some msg.arglen then
    runCmd env depth here msg.cmd
  else
    pure EINVAL

/--
`ng_address_ID` and `ng_snd_item` for a message, with what `ng_apply_item` does with it.
-/
def sendMsg (depth : Nat) (id : Nat) (msg : Msg) : M Nat := do
  match <- ID2noderef id with
  | none => pure EINVAL
  | some n =>
      let nd <- node n
      let error <- if nd.valid then genericMsg env depth n msg else pure EINVAL
      unrefNode n
      pure error

end Netgraph
end FStackLite
