import FStackLite.Netgraph.Connect
import FStackLite.Netgraph.Registry
import Mathlib.Data.List.Nodup

/-!
# Counted references

What the counts of nodes and hooks mean.  A node is referenced once for itself until it
is shut down, once by each of its hooks, and by whoever holds a reference on it; a hook
is referenced by the node whose list it is in, by its peer, and by whoever holds a
reference on it.  What the calls in progress hold is written as a list of tokens.

The parts of the invariant behind `ample` hold as long as no item was missing: then a
hook is connected, a node is valid, and what is on its way out is known to some call in
progress.
-/

namespace FStackLite
namespace Netgraph

open Foundation Program

inductive Token where
  /-- An item. -/
  | item
  /-- A reference on a node. -/
  | node (n : NodeId)
  /-- A reference on a hook. -/
  | hook (h : HookId)
  /-- A hook that has left the list of its node and still points to it. -/
  | detached (h : HookId) (n : NodeId)
  /-- A node's own reference, which `ng_rmnode` is about to give back. -/
  | closing (n : NodeId)
  /-- A hook that is being destroyed. -/
  | dying (h : HookId)
  /-- A node that has asked for its shutdown. -/
  | expiring (n : NodeId)
deriving DecidableEq

@[grind]
def Token.node? : Token -> Option NodeId
  | .node n | .detached _ n | .closing n => some n
  | .item | .hook _ | .dying _ | .expiring _ => none

def nodeHeld (held : List Token) (n : NodeId) : Nat :=
  held.countP (·.node? = some n)

def hookHeld (held : List Token) (h : HookId) : Nat :=
  held.count (.hook h)

def Mentioned (held : List Token) (h : HookId) : Prop :=
  .hook h ∈ held ∨ .dying h ∈ held

def Leaving (held : List Token) (n : NodeId) : Prop :=
  .closing n ∈ held ∨ .expiring n ∈ held

@[grind]
def Hook.ties (hk : Hook) : Nat :=
  (if hk.node.isSome then 1 else 0) + (if hk.peer.isSome then 1 else 0)

@[grind]
def Node.own (nd : Node) : Nat :=
  if nd.closing then 0 else 1

def Hook.Ready (hk : Hook) : Prop :=
  hk.valid = true ∧ hk.peer.isSome = true ∧ hk.node.isSome = true

def St.hooksOf (s : St) (n : NodeId) : List HookId :=
  (s.nodes n).elim [] Node.hooks

def St.nodeOf (s : St) (h : HookId) : Option NodeId :=
  (s.hooks h).bind Hook.node

def St.peerOf (s : St) (h : HookId) : Option HookId :=
  (s.hooks h).bind Hook.peer

def Doomed (held : List Token) (s : St) (h : HookId) (hk : Hook) : Prop :=
  match hk.node with
  | none => False
  | some n => h ∈ s.hooksOf n ∧ Leaving held n

/-- A hook is known to some call, is about to go with its node, or is ready for use. -/
def Settled (held : List Token) (s : St) (h : HookId) (hk : Hook) : Prop :=
  Mentioned held h ∨ Doomed held s h hk ∨ hk.Ready

structure NodeSound (ample : Prop) (held : List Token) (s : St) (n : NodeId) (nd : Node) :
    Prop where
  refs : nd.refs = nd.own + nd.hooks.length + nodeHeld held n
  pos : 0 < nd.refs
  count : nd.numhooks = nd.hooks.length
  nodup : nd.hooks.Nodup
  hooks : forall h, h ∈ nd.hooks -> s.nodeOf h = some n
  closing : nd.closing = true -> nd.valid = false
  leaving : ample -> nd.valid = false -> nd.closing = true ∨ .expiring n ∈ held
  emptied : ample -> nd.closing = true -> nd.hooks = [] ∨ .closing n ∈ held

structure HookSound (ample : Prop) (held : List Token) (s : St) (h : HookId) (hk : Hook) :
    Prop where
  refs : hk.refs = hk.ties + hookHeld held h
  pos : 0 < hk.refs
  node : forall n, hk.node = some n -> h ∈ s.hooksOf n ∨ .detached h n ∈ held
  peer : forall p, hk.peer = some p -> p ≠ h ∧ s.peerOf p = some h
  settled : ample -> Settled held s h hk

def Token.Holds (s : St) : Token -> Prop
  | .node n => (s.nodes n).isSome = true
  | .hook h => (s.hooks h).isSome = true
  | .detached h n => (s.nodes n).isSome = true ∧ h ∉ s.hooksOf n ∧ s.nodeOf h = some n ∧
      s.peerOf h = none
  | .closing n => (s.nodes n).any Node.closing = true
  | .item | .dying _ | .expiring _ => True

theorem Token.Holds.node {s : St} {t : Token} {n : NodeId} (ht : t.Holds s)
    (hon : t.node? = some n) : (s.nodes n).isSome = true := by
  cases t with
  | node m =>
      cases hon
      exact ht
  | detached k m =>
      cases hon
      exact ht.1
  | closing m =>
      cases hon
      rcases (Option.any_eq_true _ _).mp ht with ⟨nd, hn, _⟩
      rw [hn]
      rfl
  | item => contradiction
  | hook k => contradiction
  | dying k => contradiction
  | expiring m => contradiction

structure Sound (ample : Prop) (held : List Token) (s : St) : Prop where
  nodes : forall n nd, s.nodes n = some nd -> NodeSound ample held s n nd
  hooks : forall h hk, s.hooks h = some hk -> HookSound ample held s h hk
  tokens : forall t, t ∈ held -> t.Holds s
  freshNode : forall n, s.nextNode ≤ n -> s.nodes n = none
  freshHook : forall h, s.nextHook ≤ h -> s.hooks h = none
  items : s.items = held.count .item
  filed : Filed ample s.label s.tables

variable {ample : Prop} {held held' : List Token} {s : St}
variable {n : NodeId} {nd : Node} {h p : HookId} {hk pk : Hook} {s' : St}

theorem hooksOf_of_some (hn : s.nodes n = some nd) : s.hooksOf n = nd.hooks := by
  rw [St.hooksOf, hn, Option.elim_some]

theorem nodeOf_of_some (hh : s.hooks h = some hk) : s.nodeOf h = hk.node := by
  rw [St.nodeOf, hh, Option.bind_some]

theorem peerOf_of_some (hh : s.hooks h = some hk) : s.peerOf h = hk.peer := by
  rw [St.peerOf, hh, Option.bind_some]

theorem exists_node_of_mem (hlist : h ∈ s.hooksOf n) :
    exists nd, s.nodes n = some nd ∧ h ∈ nd.hooks := by
  cases hn : s.nodes n with
  | none =>
      rw [St.hooksOf, hn] at hlist
      contradiction
  | some nd =>
      rw [hooksOf_of_some hn] at hlist
      exact ⟨nd, rfl, hlist⟩

@[simp, grind =]
theorem nodeHeld_cons (t : Token) :
    nodeHeld (t :: held) n = nodeHeld held n + if t.node? = some n then 1 else 0 := by
  simp [nodeHeld, List.countP_cons]

theorem nodeHeld_pos {t : Token} (ht : t ∈ held) (hon : t.node? = some n) : 0 < nodeHeld held n :=
  List.countP_pos_iff.mpr ⟨t, ht, by simpa using hon⟩

@[simp, grind =]
theorem hookHeld_cons (t : Token) :
    hookHeld (t :: held) h = hookHeld held h + if t = .hook h then 1 else 0 := by
  simp [hookHeld, List.count_cons]

theorem hookHeld_pos : 0 < hookHeld held h <-> .hook h ∈ held :=
  List.count_pos_iff

attribute [grind] Node.adding Node.without

/-!
## What a change must keep
-/

theorem NodeSound.frame (hold : NodeSound ample held s n nd)
    (hheld : nodeHeld held' n = nodeHeld held n)
    (htokens : forall t, t = .closing n ∨ t = .expiring n -> t ∈ held -> t ∈ held')
    (hnode : forall h, h ∈ nd.hooks -> s'.nodeOf h = s.nodeOf h) :
    NodeSound ample held' s' n nd where
  refs := by rw [hheld, hold.refs]
  pos := hold.pos
  count := hold.count
  nodup := hold.nodup
  hooks h hmem := (hnode h hmem).trans (hold.hooks h hmem)
  closing := hold.closing
  leaving ha hvalid := (hold.leaving ha hvalid).imp_right (htokens _ (Or.inr rfl))
  emptied ha hclosed := (hold.emptied ha hclosed).imp_right (htokens _ (Or.inl rfl))

theorem Settled.frame (hold : Settled held s h hk) (hmentioned : Mentioned held h -> Mentioned held' h)
    (hdoomed : forall n, hk.node = some n -> h ∈ s.hooksOf n -> Leaving held n ->
      Mentioned held' h ∨ h ∈ s'.hooksOf n ∧ Leaving held' n) : Settled held' s' h hk := by
  rcases hold with hment | hdoom | hready
  · exact Or.inl (hmentioned hment)
  · unfold Doomed at hdoom
    split at hdoom
    · contradiction
    · next n hn =>
        rcases hdoomed n hn hdoom.1 hdoom.2 with hment | hdoom'
        · exact Or.inl hment
        · refine Or.inr (Or.inl ?_)
          rw [Doomed, hn]
          exact hdoom'
  · exact Or.inr (Or.inr hready)

theorem HookSound.frame (hold : HookSound ample held s h hk)
    (hheld : hookHeld held' h = hookHeld held h)
    (hnode : forall n, hk.node = some n -> h ∈ s.hooksOf n ∨ .detached h n ∈ held ->
      h ∈ s'.hooksOf n ∨ .detached h n ∈ held')
    (hpeer : forall p, hk.peer = some p -> s'.peerOf p = s.peerOf p)
    (hmentioned : Mentioned held h -> Mentioned held' h)
    (hdoomed : ample -> forall n, hk.node = some n -> h ∈ s.hooksOf n -> Leaving held n ->
      Mentioned held' h ∨ h ∈ s'.hooksOf n ∧ Leaving held' n) : HookSound ample held' s' h hk where
  refs := by rw [hheld, hold.refs]
  pos := hold.pos
  node n hn := hnode n hn (hold.node n hn)
  peer p hp := ⟨(hold.peer p hp).1, (hpeer p hp).trans (hold.peer p hp).2⟩
  settled ha := (hold.settled ha).frame hmentioned (hdoomed ha)

/-- Two lists of tokens differ only in tokens of one kind. -/
def Swaps (kind : Token -> Prop) (held held' : List Token) : Prop :=
  forall p : Token -> Bool, (forall t, kind t -> p t = false) -> held'.countP p = held.countP p

section Swaps

variable {kind : Token -> Prop}

theorem Swaps.append (xs ys : List Token) (hxs : forall t, t ∈ xs -> kind t)
    (hys : forall t, t ∈ ys -> kind t) : Swaps kind (xs ++ held) (ys ++ held) := by
  intro p hp
  have hnone : forall zs : List Token, (forall t, t ∈ zs -> kind t) -> zs.countP p = 0 := by
    intro zs hzs
    rw [List.countP_eq_zero]
    intro t ht
    rw [hp t (hzs t ht)]
    exact Bool.false_ne_true
  rw [List.countP_append, List.countP_append, hnone xs hxs, hnone ys hys]

theorem Swaps.count (hswaps : Swaps kind held held') {t : Token} (ht : ¬ kind t) :
    held'.count t = held.count t := by
  refine hswaps (· == t) ?_
  intro u hu
  rw [beq_eq_false_iff_ne]
  rintro rfl
  exact ht hu

theorem Swaps.mem (hswaps : Swaps kind held held') {t : Token} (ht : ¬ kind t) :
    t ∈ held' <-> t ∈ held := by
  rw [<- List.count_pos_iff, hswaps.count ht, List.count_pos_iff]

theorem Swaps.mono {kind' : Token -> Prop} (hswaps : Swaps kind held held')
    (hkind : forall t, kind t -> kind' t) : Swaps kind' held held' :=
  fun p hp => hswaps p fun t ht => hp t (hkind t ht)

theorem Swaps.nodeHeld (hswaps : Swaps kind held held')
    (hn : forall t, kind t -> t.node? ≠ some n) : nodeHeld held' n = nodeHeld held n :=
  hswaps _ fun t ht => decide_eq_false (hn t ht)

end Swaps

/-- Tokens about the nodes and hooks of two sets. -/
@[simp]
def Token.About (N : NodeId -> Prop) (H : HookId -> Prop) : Token -> Prop
  | .item => False
  | .node m | .closing m | .expiring m => N m
  | .hook k | .dying k => H k
  | .detached k m => N m ∧ H k

@[simp]
def Token.Touches (N : NodeId -> Prop) (H : HookId -> Prop) : Token -> Prop
  | .node m | .closing m => N m
  | .hook k => H k
  | .detached k m => N m ∨ H k
  | .item | .dying _ | .expiring _ => False

/-- Nothing outside of two sets of nodes and hooks sees a change. -/
structure Spares (ample : Prop) (N : NodeId -> Prop) (H : HookId -> Prop) (held held' : List Token)
    (s s' : St) : Prop where
  swaps : Swaps (fun t => t = .item ∨ t.About N H) held held'
  nodes : forall m, ¬ N m -> s'.nodes m = s.nodes m
  hooks : forall k, ¬ H k -> s'.hooks k = s.hooks k
  nodeOf : forall m k, ¬ N m -> k ∈ s.hooksOf m -> s'.nodeOf k = s.nodeOf k
  hooksOf : forall m k, ¬ H k -> (k ∈ s'.hooksOf m <-> k ∈ s.hooksOf m)
  peerOf : forall k p, ¬ H k -> s.peerOf k = some p -> s'.peerOf p = s.peerOf p
  leaving : ample -> forall m k, ¬ H k -> k ∈ s.hooksOf m -> Leaving held m -> Leaving held' m

section Spares

variable {N : NodeId -> Prop} {H : HookId -> Prop} {s' : St}

theorem Spares.nodeSound (hc : Spares ample N H held held' s s') (hm : ¬ N n)
    (hold : NodeSound ample held s n nd) (hn : s.nodes n = some nd) :
    NodeSound ample held' s' n nd := by
  refine hold.frame (hc.swaps.nodeHeld ?_) ?_ fun k hk => hc.nodeOf n k hm ?_
  · rintro t (rfl | ht) hon
    · contradiction
    · cases t <;> simp_all [Token.node?]
  · rintro t (rfl | rfl) ht
    · exact (hc.swaps.mem (by simp [hm])).mpr ht
    · exact (hc.swaps.mem (by simp [hm])).mpr ht
  · rwa [St.hooksOf, hn]

theorem Spares.hookSound (hc : Spares ample N H held held' s s') (hk' : ¬ H h)
    (hold : HookSound ample held s h hk) (hh : s.hooks h = some hk) :
    HookSound ample held' s' h hk := by
  refine hold.frame (hc.swaps.count (by simp [hk'])) ?_ ?_ ?_ ?_
  · rintro m _ (hlisted | ht)
    · exact Or.inl ((hc.hooksOf m h hk').mpr hlisted)
    · exact Or.inr ((hc.swaps.mem (by simp [hk'])).mpr ht)
  · intro p hp
    exact hc.peerOf h p hk' (by rw [St.peerOf, hh]; exact hp)
  · exact Or.imp (hc.swaps.mem (by simp [hk'])).mpr (hc.swaps.mem (by simp [hk'])).mpr
  · intro ha m _ hlisted hleave
    exact Or.inr ⟨(hc.hooksOf m h hk').mpr hlisted, hc.leaving ha m h hk' hlisted hleave⟩

theorem Spares.token (hc : Spares ample N H held held' s s') {t : Token} (ht : t.Holds s)
    (hnot : ¬ t.Touches N H) : t.Holds s' := by
  cases t with
  | item => trivial
  | dying k => trivial
  | expiring m => trivial
  | node m => rwa [Token.Holds, hc.nodes m hnot]
  | closing m => rwa [Token.Holds, hc.nodes m hnot]
  | hook k => rwa [Token.Holds, hc.hooks k hnot]
  | detached k m =>
      rcases not_or.mp hnot with ⟨hm, hk⟩
      rwa [Token.Holds, hc.nodes m hm, hc.hooksOf m k hk, St.nodeOf, St.peerOf, hc.hooks k hk]

/-- What a change of some nodes and hooks must keep. -/
theorem Sound.change (hs : Sound ample held s) (hc : Spares ample N H held held' s s')
    (hN : forall m md, N m -> s'.nodes m = some md -> NodeSound ample held' s' m md)
    (hH : forall k kk, H k -> s'.hooks k = some kk -> HookSound ample held' s' k kk)
    (htokens : forall t, t ∈ held' -> t.Touches N H -> t.Holds s')
    (hfreshNode : forall m, s'.nextNode ≤ m -> s'.nodes m = none)
    (hfreshHook : forall k, s'.nextHook ≤ k -> s'.hooks k = none)
    (hitems : s'.items = held'.count .item) (hfiled : Filed ample s'.label s'.tables) :
    Sound ample held' s' := by
  refine ⟨?_, ?_, ?_, hfreshNode, hfreshHook, hitems, hfiled⟩
  · intro m md hm
    by_cases hin : N m
    · exact hN m md hin hm
    · rw [hc.nodes m hin] at hm
      exact hc.nodeSound hin (hs.nodes m md hm) hm
  · intro k kk hkk
    by_cases hin : H k
    · exact hH k kk hin hkk
    · rw [hc.hooks k hin] at hkk
      exact hc.hookSound hin (hs.hooks k kk hkk) hkk
  · intro t ht
    by_cases hin : t.Touches N H
    · exact htokens t ht hin
    · by_cases habout : t = .item ∨ t.About N H
      · cases t <;> simp_all [Token.Holds]
      · exact hc.token (hs.tokens t ((hc.swaps.mem habout).mp ht)) hin

theorem Spares.same (hnodes : s'.nodes = s.nodes) (hhooks : s'.hooks = s.hooks)
    (hswaps : Swaps (· = .item) held held') :
    Spares ample (fun _ => False) (fun _ => False) held held' s s' where
  swaps := hswaps.mono fun _ => Or.inl
  nodes _ _ := by rw [hnodes]
  hooks _ _ := by rw [hhooks]
  nodeOf _ _ _ _ := by rw [St.nodeOf, St.nodeOf, hhooks]
  hooksOf _ _ _ := by rw [St.hooksOf, St.hooksOf, hnodes]
  peerOf _ _ _ _ := by rw [St.peerOf, St.peerOf, hhooks]
  leaving _ _ _ _ _ := Or.imp (hswaps.mem (by simp)).mpr (hswaps.mem (by simp)).mpr

theorem Spares.withNode {x : Option Node} {tables : Tables} (hhooks : x.elim [] Node.hooks = s.hooksOf n)
    (hswaps : Swaps (Token.About (· = n) fun _ => False) held held')
    (hleaving : ample -> Leaving held n -> Leaving held' n ∨ s.hooksOf n = []) :
    Spares ample (· = n) (fun _ => False) held held' s { s.withNode n x with tables := tables } where
  swaps := hswaps.mono fun _ => Or.inr
  nodes m hm := by rw [withNode_nodes, if_neg hm]
  hooks _ _ := rfl
  nodeOf _ _ _ _ := rfl
  hooksOf m k _ := by
    rw [St.hooksOf, withNode_nodes]
    split
    · next heq => rw [heq, hhooks]
    · rfl
  peerOf _ _ _ _ := rfl
  leaving ha m k _ hlisted hleave := by
    by_cases heq : m = n
    · rw [heq] at hlisted hleave ⊢
      refine (hleaving ha hleave).resolve_right fun hnil => ?_
      rw [hnil] at hlisted
      contradiction
    · exact hleave.imp (hswaps.mem (by simp [heq])).mpr (hswaps.mem (by simp [heq])).mpr

theorem Spares.withHook {y : Option Hook} (hnode : y.bind Hook.node = s.nodeOf h)
    (hpeer : y.bind Hook.peer = s.peerOf h)
    (hswaps : Swaps (Token.About (fun _ => False) (· = h)) held held') :
    Spares ample (fun _ => False) (· = h) held held' s (s.withHook h y) where
  swaps := hswaps.mono fun _ => Or.inr
  nodes _ _ := rfl
  hooks k hk := by rw [withHook_hooks, if_neg hk]
  nodeOf _ k _ _ := by
    rw [St.nodeOf, withHook_hooks]
    split
    · next heq => rw [heq, hnode]
    · rfl
  hooksOf _ _ _ := Iff.rfl
  peerOf _ p _ _ := by
    rw [St.peerOf, withHook_hooks]
    split
    · next heq => rw [heq, hpeer]
    · rfl
  leaving _ _ _ _ _ := Or.imp (hswaps.mem (by simp)).mpr (hswaps.mem (by simp)).mpr

end Spares

/-!
## Items and calls
-/

theorem Sound.swap (hs : Sound ample held s) (hswaps : Swaps (· = .item) held held')
    (hnodes : s'.nodes = s.nodes) (hhooks : s'.hooks = s.hooks)
    (hnextNode : s'.nextNode = s.nextNode) (hnextHook : s.nextHook ≤ s'.nextHook)
    (hitems : s'.items = held'.count .item) (hfiled : Filed ample s'.label s'.tables) :
    Sound ample held' s' := by
  refine hs.change (.same hnodes hhooks hswaps) (by simp) (by simp) ?_ ?_ ?_ hitems hfiled
  · intro t _ htouches
    cases t <;> simp at htouches
  · rw [hnodes, hnextNode]
    exact hs.freshNode
  · intro k hk
    rw [hhooks]
    exact hs.freshHook k (Nat.le_trans hnextHook hk)

theorem Sound.congr (hs : Sound ample held s) (hnodes : s'.nodes = s.nodes)
    (hhooks : s'.hooks = s.hooks) (hnextNode : s'.nextNode = s.nextNode)
    (hnextHook : s.nextHook ≤ s'.nextHook) (hitems : s'.items = s.items)
    (hfiled : Filed ample s'.label s'.tables) : Sound ample held s' :=
  hs.swap (fun _ _ => rfl) hnodes hhooks hnextNode hnextHook (hitems.trans hs.items) hfiled

theorem Sound.setItems {k : Int} (hs : Sound ample held s)
    (hswaps : Swaps (· = .item) held held') (hk : k = held'.count .item) :
    Sound ample held' { s with items := k } :=
  hs.swap hswaps rfl rfl rfl (Nat.le_refl _) hk hs.filed

theorem Sound.perm (hs : Sound ample held s) (hperm : held.Perm held') : Sound ample held' s :=
  hs.setItems (fun p _ => (hperm.countP_eq p).symm) (by rw [hs.items, hperm.count_eq])

/-!
## References on nodes
-/

theorem Sound.setNode {x : Option Node} {tables : Tables} (hs : Sound ample held s)
    (hswaps : Swaps (Token.About (· = n) fun _ => False) held held')
    (hlive : x.isSome = true -> (s.nodes n).isSome = true)
    (hhooks : x.elim [] Node.hooks = s.hooksOf n)
    (hself : forall nd, x = some nd -> NodeSound ample held' s n nd)
    (hleaving : ample -> Leaving held n -> Leaving held' n ∨ s.hooksOf n = [])
    (hclosing : .closing n ∈ held' -> x.any Node.closing = true)
    (hheld : forall t, t ∈ held' -> t.node? = some n -> x.isSome = true)
    (hfiled : Filed ample (s.withNode n x).label tables) :
    Sound ample held' { s.withNode n x with tables := tables } := by
  have hc : Spares ample (· = n) (fun _ => False) held held' s
      { s.withNode n x with tables := tables } := .withNode hhooks hswaps hleaving
  have hnew : (s.withNode n x).nodes n = x := withNode_nodes_self
  refine hs.change hc ?_ (by simp) ?_ ?_ hs.freshHook ?_ hfiled
  · rintro m md rfl hm
    exact (hself md (hnew.symm.trans hm)).frame rfl (fun _ _ ht => ht) fun _ _ => rfl
  · intro t ht htouches
    cases t with
    | node m =>
        cases htouches
        rw [Token.Holds, hnew]
        exact hheld _ ht rfl
    | closing m =>
        cases htouches
        rw [Token.Holds, hnew]
        exact hclosing ht
    | detached k m =>
        cases htouches.resolve_right id
        rcases hs.tokens _ ((hswaps.mem (by simp)).mp ht) with ⟨_, hnot, hnode, hpeer⟩
        rw [Token.Holds, hnew, hc.hooksOf n k id]
        exact ⟨hheld _ ht rfl, hnot, hnode, hpeer⟩
    | _ => contradiction
  · intro m hm
    rw [withNode_nodes]
    split
    · next heq =>
        rw [<- Option.not_isSome_iff_eq_none]
        intro hsome
        have hlive := hlive hsome
        rw [<- heq, hs.freshNode m hm] at hlive
        contradiction
    · exact hs.freshNode m hm
  · rw [hswaps.count (by simp)]
    exact hs.items

theorem Sound.changeNode {nd' : Node} (hs : Sound ample held s) (hn : s.nodes n = some nd)
    (hswaps : Swaps (Token.About (· = n) fun _ => False) held held') (hlabel : nd'.label = nd.label)
    (hhooks : nd'.hooks = nd.hooks) (hself : NodeSound ample held' s n nd')
    (hleaving : ample -> Leaving held n -> Leaving held' n ∨ nd.hooks = [])
    (hclosing : .closing n ∈ held' -> nd'.closing = true) :
    Sound ample held' (s.withNode n (some nd')) := by
  have hlist := hooksOf_of_some hn
  rw [<- hlist] at hhooks hleaving
  refine hs.setNode hswaps (fun _ => by rw [hn]; rfl) hhooks ?_ hleaving hclosing
    (fun _ _ _ => rfl) (hs.filed.withNode hn hlabel)
  rintro md ⟨⟩
  exact hself

theorem Sound.closing_of_mem (hs : Sound ample held s) (hn : s.nodes n = some nd)
    (ht : .closing n ∈ held) : nd.closing = true := by
  have hclosing := hs.tokens _ ht
  rwa [Token.Holds, hn] at hclosing

theorem Sound.recountNode {k : Int} (hs : Sound ample held s) (hn : s.nodes n = some nd)
    (hswaps : Swaps (· = .node n) held held')
    (hk : k = nd.own + nd.hooks.length + nodeHeld held' n) (hpos : 0 < k) :
    Sound ample held' (s.withNode n (some { nd with refs := k })) := by
  have hself := hs.nodes n nd hn
  have hclosing : .closing n ∈ held' <-> .closing n ∈ held := hswaps.mem (by simp)
  have hexpiring : .expiring n ∈ held' <-> .expiring n ∈ held := hswaps.mem (by simp)
  refine hs.changeNode hn (hswaps.mono (by simp)) rfl rfl ?_ ?_ ?_
  · exact { hself with
      refs := hk
      pos := hpos
      leaving := fun ha hvalid => (hself.leaving ha hvalid).imp_right hexpiring.mpr
      emptied := fun ha hclosed => (hself.emptied ha hclosed).imp_right hclosing.mpr }
  · exact fun _ hleave => Or.inl (hleave.imp hclosing.mpr hexpiring.mpr)
  · have hclosed : .closing n ∈ held -> nd.closing = true := hs.closing_of_mem hn
    exact fun ht => hclosed (hclosing.mp ht)

theorem Sound.refNode (hs : Sound ample held s) (hn : s.nodes n = some nd) :
    Sound ample (.node n :: held) (s.withNode n (some { nd with refs := nd.refs + 1 })) := by
  have hself := hs.nodes n nd hn
  exact hs.recountNode hn (.append [] [.node n] (by simp) (by simp)) (by grind [hself.refs])
    (by grind [hself.pos])

theorem Sound.unrefNode (hs : Sound ample (.node n :: held) s) (hn : s.nodes n = some nd)
    (hlast : nd.refs ≠ 1) :
    Sound ample held (s.withNode n (some { nd with refs := nd.refs - 1 })) := by
  have hself := hs.nodes n nd hn
  exact hs.recountNode hn (.append [.node n] [] (by simp) (by simp)) (by grind [hself.refs])
    (by grind [hself.pos])

theorem Sound.last_ref (hs : Sound ample (.node n :: held) s) (hn : s.nodes n = some nd)
    (hlast : nd.refs = 1) : nd.hooks = [] ∧ nodeHeld held n = 0 ∧ nd.closing = true := by
  have hself := hs.nodes n nd hn
  rw [<- List.length_eq_zero_iff]
  grind [cases NodeSound]

theorem Sound.freeNode (hs : Sound ample held' s) (hn : s.nodes n = some nd)
    (hnil : nd.hooks = []) (hheld : held' = held ∨ held' = .node n :: held)
    (hzero : nodeHeld held n = 0) : Sound ample held (s.forget n nd) := by
  have hlist : s.hooksOf n = [] := (hooksOf_of_some hn).trans hnil
  have hnot : forall t, t ∈ held -> t.node? ≠ some n := by
    intro t ht hon
    have hpos : 0 < nodeHeld held n := nodeHeld_pos ht hon
    rw [hzero] at hpos
    contradiction
  have hswaps : Swaps (Token.About (· = n) fun _ => False) held' held := by
    rcases hheld with rfl | rfl
    · exact fun _ _ => rfl
    · exact .append [.node n] [] (by simp) (by simp)
  refine hs.setNode hswaps (x := none) (by simp) hlist.symm (by simp) (fun _ _ => Or.inr hlist)
    (fun ht => absurd rfl (hnot _ ht)) (fun t ht hon => absurd hon (hnot t ht)) ?_
  rw [label_withNode]
  exact hs.filed.forget (label_of_some hn)

/-!
## A node is shut down
-/

/-- `ng_rmnode` takes over the node's own reference and adds one. -/
theorem Sound.startClosing (hs : Sound ample held s) (hn : s.nodes n = some nd)
    (hopen : nd.closing = false) : Sound ample (.closing n :: .node n :: held)
      (s.withNode n (some { nd with refs := nd.refs + 1, valid := false, closing := true })) := by
  have hself := hs.nodes n nd hn
  refine hs.changeNode hn (.append [] [.closing n, .node n] (by simp) (by simp)) rfl rfl ?_
    (fun _ _ => Or.inl (Or.inl List.mem_cons_self)) (fun _ => rfl)
  exact { hself with
    refs := by grind [hself.refs]
    pos := by grind [hself.pos]
    closing := fun _ => rfl
    leaving := fun _ _ => Or.inl rfl
    emptied := fun _ _ => Or.inr List.mem_cons_self }

/-- The node's own reference is given back; it has no hooks and `ng_rmnode` still holds it. -/
theorem Sound.giveOwn (hs : Sound ample (.closing n :: .node n :: held) s)
    (hn : s.nodes n = some nd) (hnil : nd.hooks = []) :
    Sound ample (.node n :: held) (s.withNode n (some { nd with refs := nd.refs - 1 })) := by
  have hself := hs.nodes n nd hn
  have hclosed := hs.closing_of_mem hn List.mem_cons_self
  refine hs.changeNode hn (.append [.closing n] [] (by simp) (by simp)) rfl rfl ?_
    (fun _ _ => Or.inr hnil) (fun _ => hclosed)
  exact { hself with
    refs := by grind [hself.refs]
    pos := by grind [hself.refs]
    leaving := fun _ _ => Or.inl hclosed
    emptied := fun _ _ => Or.inl hnil }

theorem Sound.revive (hs : Sound ample (.closing n :: .node n :: held) s)
    (hn : s.nodes n = some nd) (hnil : nd.hooks = []) (honce : .closing n ∉ held) :
    Sound ample (.node n :: held)
      (s.withNode n (some { nd with valid := true, closing := false })) := by
  have hself := hs.nodes n nd hn
  have hclosed := hs.closing_of_mem hn List.mem_cons_self
  refine hs.changeNode hn (.append [.closing n] [] (by simp) (by simp)) rfl rfl ?_
    (fun _ _ => Or.inr hnil) (fun ht => absurd ht (by simpa using honce))
  exact { hself with
    refs := by grind [hself.refs]
    closing := by simp
    leaving := by simp
    emptied := by simp }

/-- `ng_rmnode_self` marks the node before it sends the shutdown. -/
theorem Sound.expire (hs : Sound ample held s) (hn : s.nodes n = some nd) :
    Sound ample (.expiring n :: held) (s.withNode n (some { nd with valid := false })) := by
  have hself := hs.nodes n nd hn
  have hclosing : .closing n ∈ .expiring n :: held -> nd.closing = true :=
    fun ht => hs.closing_of_mem hn (by simpa using ht)
  refine hs.changeNode hn (.append [] [.expiring n] (by simp) (by simp)) rfl rfl ?_
    (fun _ _ => Or.inl (Or.inr List.mem_cons_self)) hclosing
  exact { hself with
    refs := by grind [hself.refs]
    closing := fun _ => rfl
    leaving := fun _ _ => Or.inr List.mem_cons_self
    emptied := fun ha hclosed => (hself.emptied ha hclosed).imp_right (List.mem_cons_of_mem _) }

theorem St.withNode_self (s : St) (n : NodeId) : s.withNode n (s.nodes n) = s := by
  rw [St.withNode, Function.update_eq_self]

theorem Sound.dropExpiring (hs : Sound ample (.expiring n :: held) s)
    (hnil : ample -> s.hooksOf n = [])
    (hflags : ample -> forall nd, s.nodes n = some nd -> nd.valid = true ∨ nd.closing = true) :
    Sound ample held s := by
  rw [<- s.withNode_self n]
  refine hs.setNode (.append [.expiring n] [] (by simp) (by simp)) id rfl ?_
    (fun ha _ => Or.inr (hnil ha)) ?_ ?_ ?_
  · intro nd hn
    have hself := hs.nodes n nd hn
    exact { hself with
      refs := by grind [hself.refs]
      leaving := fun ha hvalid => by grind [hflags ha nd hn]
      emptied := by simpa using hself.emptied }
  · exact fun ht => hs.tokens _ (List.mem_cons_of_mem _ ht)
  · exact fun t ht hon => (hs.tokens t (List.mem_cons_of_mem _ ht)).node hon
  · rw [s.withNode_self n]
    exact hs.filed

/-!
## References on hooks
-/

theorem Sound.setHook {y : Option Hook} (hs : Sound ample held s)
    (hswaps : Swaps (Token.About (fun _ => False) (· = h)) held held')
    (hlive : y.isSome = true -> (s.hooks h).isSome = true)
    (hnode : y.bind Hook.node = s.nodeOf h) (hpeer : y.bind Hook.peer = s.peerOf h)
    (hself : forall hk, y = some hk -> HookSound ample held' s h hk)
    (hheld : .hook h ∈ held' -> y.isSome = true) : Sound ample held' (s.withHook h y) := by
  have hc : Spares ample (fun _ => False) (· = h) held held' s (s.withHook h y) :=
    .withHook hnode hpeer hswaps
  have hnew : (s.withHook h y).hooks h = y := withHook_hooks_self
  refine hs.change hc (by simp) ?_ ?_ hs.freshNode ?_ ?_ hs.filed
  · rintro k kk rfl hkk
    have hself := hself kk (hnew.symm.trans hkk)
    refine hself.frame rfl (fun _ _ hor => hor) ?_ id fun _ _ _ hmem hleave => Or.inr ⟨hmem, hleave⟩
    intro p hp
    rw [St.peerOf, withHook_hooks, if_neg (hself.peer p hp).1, St.peerOf]
  · intro t ht htouches
    cases t with
    | hook k =>
        cases htouches
        rw [Token.Holds, hnew]
        exact hheld ht
    | detached k m =>
        cases htouches.resolve_left id
        rw [Token.Holds, St.nodeOf, St.peerOf, hnew, hnode, hpeer]
        exact hs.tokens _ ((hswaps.mem (by simp)).mp ht)
    | _ => contradiction
  · intro k hk
    rw [withHook_hooks]
    split
    · next heq =>
        rw [<- Option.not_isSome_iff_eq_none]
        intro hsome
        have hlive := hlive hsome
        rw [<- heq, hs.freshHook k hk] at hlive
        contradiction
    · exact hs.freshHook k hk
  · rw [hswaps.count (by simp)]
    exact hs.items

theorem Sound.changeHook {hk' : Hook} (hs : Sound ample held s) (hh : s.hooks h = some hk)
    (hswaps : Swaps (Token.About (fun _ => False) (· = h)) held held') (hnode : hk'.node = hk.node)
    (hpeer : hk'.peer = hk.peer) (hself : HookSound ample held' s h hk') :
    Sound ample held' (s.withHook h (some hk')) := by
  refine hs.setHook hswaps (fun _ => by rw [hh]; rfl) ?_ ?_ ?_ (fun _ => rfl)
  · exact hnode.trans (nodeOf_of_some hh).symm
  · exact hpeer.trans (peerOf_of_some hh).symm
  · rintro kk ⟨⟩
    exact hself

theorem Sound.refHook (hs : Sound ample held s) (hh : s.hooks h = some hk) :
    Sound ample (.hook h :: held) (s.withHook h (some { hk with refs := hk.refs + 1 })) := by
  have hself := hs.hooks h hk hh
  refine hs.changeHook hh (.append [] [.hook h] (by simp) (by simp)) rfl rfl ?_
  exact { hself with
    refs := by grind [hself.refs]
    pos := by grind [hself.pos]
    node := fun m hm => (hself.node m hm).imp_right (List.mem_cons_of_mem _)
    settled := fun _ => Or.inl (Or.inl List.mem_cons_self) }

theorem Sound.unrefHook (hs : Sound ample (.hook h :: held) s) (hh : s.hooks h = some hk)
    (hlast : hk.refs ≠ 1) (hsettled : ample -> hk.ties = 0 ∨ Settled held s h hk) :
    Sound ample held (s.withHook h (some { hk with refs := hk.refs - 1 })) := by
  have hself := hs.hooks h hk hh
  have hheld : hk.ties = 0 -> .hook h ∈ held := by
    intro hties
    rw [<- hookHeld_pos]
    grind [hself.refs, hself.pos]
  refine hs.changeHook hh (.append [.hook h] [] (by simp) (by simp)) rfl rfl ?_
  exact { hself with
    refs := by grind [hself.refs]
    pos := by grind [hself.pos]
    node := by simpa using hself.node
    settled := fun ha => (hsettled ha).elim (fun hties => Or.inl (Or.inl (hheld hties))) id }

theorem Sound.last_hook_ref (hs : Sound ample (.hook h :: held) s) (hh : s.hooks h = some hk)
    (hlast : hk.refs = 1) : hk.node = none ∧ hk.peer = none ∧ .hook h ∉ held := by
  have hself := hs.hooks h hk hh
  rw [<- hookHeld_pos]
  grind [cases HookSound, Option.isSome_iff_ne_none]

theorem Sound.freeHook (hs : Sound ample (.hook h :: held) s) (hh : s.hooks h = some hk)
    (hlast : hk.refs = 1) : Sound ample held (s.withHook h none) := by
  rcases hs.last_hook_ref hh hlast with ⟨hnode, hpeer, hnot⟩
  refine hs.setHook (.append [.hook h] [] (by simp) (by simp)) (by simp) ?_ ?_ (by simp)
    (fun ht => absurd ht hnot)
  · rw [nodeOf_of_some hh, hnode, Option.bind_none]
  · rw [peerOf_of_some hh, hpeer, Option.bind_none]

theorem Sound.startDying (hs : Sound ample held s) (hh : s.hooks h = some hk) :
    Sound ample (.dying h :: held) (s.withHook h (some { hk with valid := false })) := by
  have hself := hs.hooks h hk hh
  refine hs.changeHook hh (.append [] [.dying h] (by simp) (by simp)) rfl rfl ?_
  exact { hself with
    refs := by grind [hself.refs]
    node := fun m hm => (hself.node m hm).imp_right (List.mem_cons_of_mem _)
    settled := fun _ => Or.inl (Or.inr List.mem_cons_self) }

theorem St.withHook_self (s : St) (h : HookId) : s.withHook h (s.hooks h) = s := by
  rw [St.withHook, Function.update_eq_self]

theorem Sound.dropDying (hs : Sound ample (.dying h :: held) s)
    (hsettled : ample -> forall hk, s.hooks h = some hk -> hk.ties = 0 ∨ Settled held s h hk) :
    Sound ample held s := by
  rw [<- s.withHook_self h]
  refine hs.setHook (.append [.dying h] [] (by simp) (by simp)) id rfl rfl ?_ ?_
  · intro hk hh
    have hself := hs.hooks h hk hh
    have hheld : hk.ties = 0 -> .hook h ∈ held := by
      intro hties
      rw [<- hookHeld_pos]
      grind [hself.refs, hself.pos]
    exact { hself with
      refs := by grind [hself.refs]
      node := by simpa using hself.node
      settled := fun ha => (hsettled ha hk hh).elim (fun hties => Or.inl (Or.inl (hheld hties))) id }
  · exact fun ht => hs.tokens _ (List.mem_cons_of_mem _ ht)

theorem Sound.setValid (hs : Sound ample held s) (hh : s.hooks h = some hk) :
    Sound ample held (s.withHook h (some { hk with valid := true })) := by
  have hself := hs.hooks h hk hh
  refine hs.changeHook hh (fun _ _ => rfl) rfl rfl ?_
  exact { hself with
    settled := fun ha => (hself.settled ha).imp_right (Or.imp_right fun hready => ⟨rfl, hready.2⟩) }

end Netgraph
end FStackLite
