import FStackLite.Netgraph.State

/-!
# Rules for the steps of the model

What the accesses, the answers of the environment and the references do, and what can be
read from a state after a change.
-/

namespace FStackLite
namespace Netgraph

open Foundation Program

variable {s : St} {n m : NodeId} {h k : HookId} {Q : Unit -> St -> Prop}

@[simp]
theorem returns_node {Q : Node -> St -> Prop} :
    Returns (node n) s Q <-> exists nd, s.nodes n = some nd ∧ Q nd s := by
  unfold node
  rw [returns_bind, returns_get]
  cases s.nodes n with
  | none => simp [Returns, throw, throwThe, MonadExceptOf.throw, StateT.run, StateT.lift]
  | some nd => simp

@[simp]
theorem returns_hook {Q : Hook -> St -> Prop} :
    Returns (hook h) s Q <-> exists hk, s.hooks h = some hk ∧ Q hk s := by
  unfold hook
  rw [returns_bind, returns_get]
  cases s.hooks h with
  | none => simp [Returns, throw, throwThe, MonadExceptOf.throw, StateT.run, StateT.lift]
  | some hk => simp

@[simp]
theorem returns_modifyTables {f : Tables -> Tables} :
    Returns (modifyTables f) s Q <-> Q () { s with tables := f s.tables } :=
  returns_modify

@[simp]
theorem returns_answer {α : Type} {f : Nat -> α} {Q : α -> St -> Prop} :
    Returns (answer f) s Q <-> Q (f s.calls) { s with calls := s.calls + 1 } := by
  simp only [answer, returns_bind, returns_get, returns_modify, returns_pure]

@[simp]
theorem returns_modifyNode {f : Node -> Node} : Returns (modifyNode n f) s Q <->
      exists nd, s.nodes n = some nd ∧ Q () (s.withNode n (some (f nd))) := by
  simp only [modifyNode, returns_bind, returns_node, returns_modify]

@[simp]
theorem returns_modifyHook {f : Hook -> Hook} : Returns (modifyHook h f) s Q <->
      exists hk, s.hooks h = some hk ∧ Q () (s.withHook h (some (f hk))) := by
  simp only [modifyHook, returns_bind, returns_hook, returns_modify]

section Bind

variable {α : Type} {nd : Node} {hk : Hook} {Q : α -> St -> Prop}

theorem bind_node {next : Node -> M α} (hn : s.nodes n = some nd) (hnext : Returns (next nd) s Q) :
    Returns (node n >>= next) s Q :=
  returns_bind.mpr (returns_node.mpr ⟨nd, hn, hnext⟩)

theorem bind_hook {next : Hook -> M α} (hh : s.hooks h = some hk) (hnext : Returns (next hk) s Q) :
    Returns (hook h >>= next) s Q :=
  returns_bind.mpr (returns_hook.mpr ⟨hk, hh, hnext⟩)

theorem bind_modifyNode {f : Node -> Node} {next : Unit -> M α} (hn : s.nodes n = some nd)
    (hnext : Returns (next ()) (s.withNode n (some (f nd))) Q) :
    Returns (modifyNode n f >>= next) s Q :=
  returns_bind.mpr (returns_modifyNode.mpr ⟨nd, hn, hnext⟩)

theorem bind_modifyHook {f : Hook -> Hook} {next : Unit -> M α} (hh : s.hooks h = some hk)
    (hnext : Returns (next ()) (s.withHook h (some (f hk))) Q) :
    Returns (modifyHook h f >>= next) s Q :=
  returns_bind.mpr (returns_modifyHook.mpr ⟨hk, hh, hnext⟩)

end Bind

theorem returns_ite {α : Type} {c : Prop} [Decidable c] {x y : M α} {Q : α -> St -> Prop} :
    Returns (if c then x else y) s Q <-> if c then Returns x s Q else Returns y s Q := by
  split <;> rfl

/-!
## The state after a change
-/

variable (x : Option Node) (y : Option Hook) (nd : Node) (hk : Hook)

@[simp]
theorem withNode_nodes : (s.withNode n x).nodes m = if m = n then x else s.nodes m := by
  simp [St.withNode, Function.update_apply]

theorem withNode_nodes_self {x : Option Node} : (s.withNode n x).nodes n = x := by
  rw [withNode_nodes, if_pos rfl]

@[simp]
theorem withNode_hooks : (s.withNode n x).hooks h = s.hooks h := rfl

@[simp]
theorem withHook_hooks : (s.withHook h y).hooks k = if k = h then y else s.hooks k := by
  simp [St.withHook, Function.update_apply]

theorem withHook_hooks_self {y : Option Hook} : (s.withHook h y).hooks h = y := by
  rw [withHook_hooks, if_pos rfl]

@[simp]
theorem withHook_nodes : (s.withHook h y).nodes n = s.nodes n := rfl

@[simp]
theorem forget_nodes : (s.forget n nd).nodes m = if m = n then none else s.nodes m :=
  withNode_nodes none

@[simp]
theorem withNewNode_nodes :
    (s.withNewNode nd).nodes m = if m = s.nextNode then some nd else s.nodes m :=
  withNode_nodes _

@[simp]
theorem withNewHook_hooks :
    (s.withNewHook hk).hooks k = if k = s.nextHook then some hk else s.hooks k :=
  withHook_hooks _

@[simp]
theorem withNewHook_nextHook : (s.withNewHook hk).nextHook = s.nextHook + 1 := rfl

@[simp]
theorem withNewHook_items : (s.withNewHook hk).items = s.items := rfl

end Netgraph
end FStackLite
