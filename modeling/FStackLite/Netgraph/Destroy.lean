import FStackLite.Netgraph.Links

/-!
# Destroying hooks keeps the counts

A node type keeps to the convention if its `disconnect` method asks for the shutdown of
the node only when the last hook is gone.  Then a shutdown that a disconnection causes
has no hooks to destroy, and `ng_destroy_hook` nests at most once.
-/

namespace FStackLite
namespace Netgraph

open Foundation Program

/-- `disconnect` methods ask for a shutdown only when no hook is left. -/
def Env.Conventional (env : Env) : Prop :=
  forall call valid numhooks, env.disconnect call valid numhooks = true -> numhooks = 0

def Env.HasItems (env : Env) : Prop :=
  forall call, env.item call = true

variable {env : Env} {ample : Prop} {held : List Token} {s s' s'' : St}
variable {n : NodeId} {nd : Node} {h p : HookId} {hk pk : Hook} {H : HookId -> Prop}
    {N : NodeId -> Prop} {destroy : HookId -> M Unit} {loop : Nat} {fn : Fn} {run : M Nat}

/-!
## The graph shrinks
-/

/--
Nothing is made, no list grows and no pointer is set; the nodes and the hooks outside of
two sets are as they were.
-/
structure Cuts (N : NodeId -> Prop) (H : HookId -> Prop) (s s' : St) : Prop where
  node : forall n nd', s'.nodes n = some nd' ->
    exists nd, s.nodes n = some nd ∧ nd'.hooks.Sublist nd.hooks ∧ nd'.label = nd.label
  hook : forall h hk', s'.hooks h = some hk' ->
    exists hk, s.hooks h = some hk ∧ hk'.name = hk.name ∧
      (hk'.node = none ∨ hk'.node = hk.node) ∧ (hk'.peer = none ∨ hk'.peer = hk.peer)
  nodes : forall n, ¬ N n -> s'.nodes n = s.nodes n
  hooks : forall h, ¬ H h -> s'.hooks h = s.hooks h
  nextNode : s'.nextNode = s.nextNode
  nextHook : s'.nextHook = s.nextHook

section Cuts

variable {N N₁ : NodeId -> Prop} {H H₁ : HookId -> Prop}

theorem Cuts.of_eq (hnodes : s'.nodes = s.nodes) (hhooks : s'.hooks = s.hooks)
    (hnextNode : s'.nextNode = s.nextNode) (hnextHook : s'.nextHook = s.nextHook) :
    Cuts N H s s' where
  node n nd hn := ⟨nd, hnodes ▸ hn, List.Sublist.refl _, rfl⟩
  hook h hk hh := ⟨hk, hhooks ▸ hh, rfl, Or.inr rfl, Or.inr rfl⟩
  nodes _ _ := by rw [hnodes]
  hooks _ _ := by rw [hhooks]
  nextNode := hnextNode
  nextHook := hnextHook

theorem Cuts.refl (s : St) : Cuts N H s s :=
  .of_eq rfl rfl rfl rfl

theorem Cuts.mono (hc : Cuts N₁ H₁ s s') (hN : forall m, N₁ m -> N m) (hH : forall k, H₁ k -> H k) :
    Cuts N H s s' :=
  ⟨hc.node, hc.hook, fun m hm => hc.nodes m fun h => hm (hN m h),
    fun k hk => hc.hooks k fun h => hk (hH k h), hc.nextNode, hc.nextHook⟩

theorem Cuts.anyNodes (hc : Cuts (fun _ => False) H s s') : Cuts N H s s' :=
  hc.mono (fun _ => False.elim) fun _ => id

theorem Cuts.anyHooks (hc : Cuts N (fun _ => False) s s') : Cuts N H s s' :=
  hc.mono (fun _ => id) fun _ => False.elim

theorem Cuts.ofPair (hc : Cuts (· = n) (· = h) s s') (hN : N n) (hH : H h) : Cuts N H s s' :=
  hc.mono (fun _ heq => heq ▸ hN) fun _ heq => heq ▸ hH

theorem Cuts.ofHook (hc : Cuts (fun _ => False) (· = h) s s') (hH : H h) : Cuts N H s s' :=
  hc.mono (fun _ => False.elim) fun _ heq => heq ▸ hH

/-- A pointer that was kept or cleared twice was kept or cleared. -/
theorem kept_trans {α : Type} {x y z : Option α} (h : x = none ∨ x = y) (h' : y = none ∨ y = z) :
    x = none ∨ x = z := by
  rcases h with hnone | heq
  · exact Or.inl hnone
  · rwa [heq]

theorem eq_some_of_kept {α : Type} {x y : Option α} {a : α} (h : x = none ∨ x = y)
    (hx : x = some a) : y = some a := by
  rcases h with hnone | heq
  · cases hnone.symm.trans hx
  · rwa [<- heq]

theorem Cuts.trans (hc : Cuts N H s s') (hc' : Cuts N H s' s'') : Cuts N H s s'' where
  node m md hm := by
    rcases hc'.node m md hm with ⟨md', hm', hsub', hlabel'⟩
    rcases hc.node m md' hm' with ⟨md'', hm'', hsub, hlabel⟩
    exact ⟨md'', hm'', hsub'.trans hsub, hlabel'.trans hlabel⟩
  hook k kk hk := by
    rcases hc'.hook k kk hk with ⟨kk', hk', hname', hnode', hpeer'⟩
    rcases hc.hook k kk' hk' with ⟨kk'', hk'', hname, hnode, hpeer⟩
    exact ⟨kk'', hk'', hname'.trans hname, kept_trans hnode' hnode, kept_trans hpeer' hpeer⟩
  nodes m hm := (hc'.nodes m hm).trans (hc.nodes m hm)
  hooks k hk := (hc'.hooks k hk).trans (hc.hooks k hk)
  nextNode := hc'.nextNode.trans hc.nextNode
  nextHook := hc'.nextHook.trans hc.nextHook

theorem Cuts.withNode {x : Option Node} (hn : s.nodes n = some nd) (hN : N n)
    (hx : forall md, x = some md -> md.hooks.Sublist nd.hooks ∧ md.label = nd.label) :
    Cuts N H s (s.withNode n x) where
  node m md hm := by
    rw [withNode_nodes] at hm
    split at hm
    · next heq =>
        rw [heq]
        exact ⟨nd, hn, hx md hm⟩
    · exact ⟨md, hm, List.Sublist.refl _, rfl⟩
  hook _ kk hk := ⟨kk, hk, rfl, Or.inr rfl, Or.inr rfl⟩
  nodes m hm := by rw [withNode_nodes, if_neg fun heq : m = n => hm (heq ▸ hN)]
  hooks _ _ := rfl
  nextNode := rfl
  nextHook := rfl

theorem Cuts.withHook {y : Option Hook} (hh : s.hooks h = some hk) (hH : H h)
    (hy : forall kk, y = some kk -> kk.name = hk.name ∧ (kk.node = none ∨ kk.node = hk.node) ∧
      (kk.peer = none ∨ kk.peer = hk.peer)) : Cuts N H s (s.withHook h y) where
  node _ md hm := ⟨md, hm, List.Sublist.refl _, rfl⟩
  hook k kk hk := by
    rw [withHook_hooks] at hk
    split at hk
    · next heq =>
        rw [heq]
        exact ⟨_, hh, hy kk hk⟩
    · exact ⟨kk, hk, rfl, Or.inr rfl, Or.inr rfl⟩
  nodes _ _ := rfl
  hooks k hk := by rw [withHook_hooks, if_neg fun heq : k = h => hk (heq ▸ hH)]
  nextNode := rfl
  nextHook := rfl

theorem Cuts.setNode {nd' : Node} (hn : s.nodes n = some nd) (hN : N n)
    (hhooks : nd'.hooks = nd.hooks) (hlabel : nd'.label = nd.label) :
    Cuts N H s (s.withNode n (some nd')) := by
  refine .withNode hn hN ?_
  intro md hmd
  cases hmd
  rw [hhooks]
  exact ⟨List.Sublist.refl _, hlabel⟩

theorem Cuts.setHook {hk' : Hook} (hh : s.hooks h = some hk) (hH : H h)
    (hname : hk'.name = hk.name) (hnode : hk'.node = none ∨ hk'.node = hk.node)
    (hpeer : hk'.peer = none ∨ hk'.peer = hk.peer) : Cuts N H s (s.withHook h (some hk')) := by
  refine .withHook hh hH ?_
  intro kk hkk
  cases hkk
  exact ⟨hname, hnode, hpeer⟩

theorem Cuts.of_setNode {nd' : Node} (hc : Cuts N H (s.withNode n (some nd')) s')
    (hn : s.nodes n = some nd) (hN : N n) (hhooks : nd'.hooks = nd.hooks)
    (hlabel : nd'.label = nd.label) : Cuts N H s s' :=
  (Cuts.setNode hn hN hhooks hlabel).trans hc

theorem Cuts.of_setHook {hk' : Hook} (hc : Cuts N H (s.withHook h (some hk')) s')
    (hh : s.hooks h = some hk) (hH : H h) (hname : hk'.name = hk.name)
    (hnode : hk'.node = none ∨ hk'.node = hk.node) (hpeer : hk'.peer = none ∨ hk'.peer = hk.peer) :
    Cuts N H s s' :=
  (Cuts.setHook hh hH hname hnode hpeer).trans hc

theorem Cuts.hooksOf (hc : Cuts N H s s') : (s'.hooksOf n).Sublist (s.hooksOf n) := by
  cases hn' : s'.nodes n with
  | none => simp [St.hooksOf, hn']
  | some nd' =>
      rcases hc.node n nd' hn' with ⟨nd, hn, hsub, _⟩
      rwa [hooksOf_of_some hn', hooksOf_of_some hn]

theorem Cuts.nil (hc : Cuts N H s s') (hnil : s.hooksOf n = []) : s'.hooksOf n = [] := by
  have hsub := hc.hooksOf (n := n)
  rw [hnil] at hsub
  exact List.sublist_nil.mp hsub

theorem Cuts.pointers (hc : Cuts N H s s') (k : HookId) :
    (s'.nodeOf k = none ∨ s'.nodeOf k = s.nodeOf k) ∧
      (s'.peerOf k = none ∨ s'.peerOf k = s.peerOf k) := by
  cases hk' : s'.hooks k with
  | none => simp [St.nodeOf, St.peerOf, hk']
  | some kk' =>
      rcases hc.hook k kk' hk' with ⟨kk, hkk, _, hnode, hpeer⟩
      rw [nodeOf_of_some hk', nodeOf_of_some hkk, peerOf_of_some hk', peerOf_of_some hkk]
      exact ⟨hnode, hpeer⟩

end Cuts

def Gone (s : St) (h : HookId) : Prop :=
  s.nodeOf h = none ∧ s.peerOf h = none

theorem Gone.cuts (hgone : Gone s h) (hc : Cuts N H s s') : Gone s' h := by
  rcases hc.pointers h with ⟨hnode, hpeer⟩
  rw [hgone.1, or_self] at hnode
  rw [hgone.2, or_self] at hpeer
  exact ⟨hnode, hpeer⟩

def Settles (held : List Token) (s : St) (h : HookId) : Prop :=
  forall hk, s.hooks h = some hk -> hk.ties = 0 ∨ Settled held s h hk

theorem Gone.settles (hgone : Gone s h) : Settles held s h := by
  intro hk hh
  rw [Gone, nodeOf_of_some hh, peerOf_of_some hh] at hgone
  refine Or.inl ?_
  rw [Hook.ties, hgone.1, hgone.2]
  rfl

abbrev Still (s s' : St) : Prop :=
  Cuts (fun _ => False) (fun _ => False) s s'

theorem Still.cuts (hst : Still s s') : Cuts N H s s' :=
  hst.anyNodes.anyHooks

theorem answer_sound {α : Type} {f : Nat -> α} (hs : Sound ample held s) :
    Returns (answer f) s fun a s' => a = f s.calls ∧ Sound ample held s' ∧ Still s s' :=
  returns_answer.mpr ⟨rfl, hs.congr rfl rfl rfl (Nat.le_refl _) rfl hs.filed, .of_eq rfl rfl rfl rfl⟩

/-!
## References
-/

theorem Cuts.forget (hn : s.nodes n = some nd) (hN : N n) : Cuts N H s (s.forget n nd) :=
  (Cuts.withNode hn hN (by simp)).trans (.of_eq rfl rfl rfl rfl)

theorem unrefNode_sound (hs : Sound ample (.node n :: held) s) : Returns (unrefNode n) s fun _ s' =>
      Sound ample held s' ∧ Cuts (· = n) (fun _ => False) s s' ∧
        forall nd', s'.nodes n = some nd' ->
          exists nd, s.nodes n = some nd ∧ nd' = { nd with refs := nd.refs - 1 } := by
  rcases Option.isSome_iff_exists.mp (hs.tokens _ List.mem_cons_self) with ⟨nd, hn⟩
  refine bind_node hn ?_
  split
  · next hlast =>
      rcases hs.last_ref hn hlast with ⟨hnil, hzero, _⟩
      exact returns_modify.mpr ⟨hs.freeNode hn hnil (Or.inr rfl) hzero, .forget hn rfl, by simp⟩
  · next hlast =>
      refine returns_modify.mpr ⟨hs.unrefNode hn hlast, .setNode hn rfl rfl rfl, ?_⟩
      intro nd' hn'
      exact ⟨nd, hn, (Option.some.inj (withNode_nodes_self.symm.trans hn')).symm⟩

theorem unrefHook_sound (hs : Sound ample (.hook h :: held) s)
    (hsettles : ample -> Settles held s h) : Returns (unrefHook h) s fun _ s' =>
      Sound ample held s' ∧ Cuts (fun _ => False) (· = h) s s' ∧
        forall hk, s.hooks h = some hk -> s'.hooks h = some { hk with refs := hk.refs - 1 } ∨
          (Gone s h ∧ s'.hooks h = none) := by
  rcases Option.isSome_iff_exists.mp (hs.tokens _ List.mem_cons_self) with ⟨hk, hh⟩
  refine bind_hook hh ?_
  split
  · next hlast =>
      rcases hs.last_hook_ref hh hlast with ⟨hnode, hpeer, _⟩
      rw [hnode]
      refine returns_bind.mpr (returns_pure.mpr (returns_modify.mpr ?_))
      have hgone : Gone s h := ⟨(nodeOf_of_some hh).trans hnode, (peerOf_of_some hh).trans hpeer⟩
      exact ⟨hs.freeHook hh hlast, .withHook hh rfl (by simp),
        fun _ _ => Or.inr ⟨hgone, withHook_hooks_self⟩⟩
  · next hlast =>
      refine returns_modify.mpr ⟨hs.unrefHook hh hlast fun ha => hsettles ha hk hh,
        .setHook hh rfl rfl (Or.inr rfl) (Or.inr rfl), ?_⟩
      intro hk' hh'
      cases hh.symm.trans hh'
      exact Or.inl withHook_hooks_self

/-- Giving a reference back leaves the pointers of a hook as they are. -/
theorem pointers_of_unref (hh : s.hooks h = some hk)
    (hself : s'.hooks h = some { hk with refs := hk.refs - 1 } ∨ (Gone s h ∧ s'.hooks h = none)) :
    s'.nodeOf h = s.nodeOf h ∧ s'.peerOf h = s.peerOf h := by
  rcases hself with hh' | ⟨hgone, hnone⟩
  · exact ⟨(nodeOf_of_some hh').trans (nodeOf_of_some hh).symm,
      (peerOf_of_some hh').trans (peerOf_of_some hh).symm⟩
  · rw [hgone.1, hgone.2, St.nodeOf, St.peerOf, hnone]
    exact ⟨rfl, rfl⟩

/-!
## A node without hooks is shut down
-/

/-- The node, if it is left, is valid or closing. -/
def Marked (s : St) (n : NodeId) : Prop :=
  forall nd, s.nodes n = some nd -> nd.valid = true ∨ nd.closing = true

theorem shutdownMethod_sound (hs : Sound ample (.closing n :: .node n :: held) s)
    (hnil : s.hooksOf n = []) (honce : .closing n ∉ held) :
    Returns (shutdownMethod env n) s fun _ s' =>
      Sound ample held s' ∧ Cuts (· = n) (fun _ => False) s s' ∧ Marked s' n := by
  unfold shutdownMethod
  refine Returns.bind (answer_sound hs) ?_
  rintro persists t ⟨_, ht, hst⟩
  obtain ⟨nd, hn, hclosed⟩ : exists nd, t.nodes n = some nd ∧ nd.closing = true := by
    simpa [Token.Holds, Option.any_eq_true] using ht.tokens _ List.mem_cons_self
  have hempty : nd.hooks = [] := (hooksOf_of_some hn).symm.trans (hst.nil hnil)
  split
  · refine bind_modifyNode hn ?_
    refine (unrefNode_sound (ht.revive hn hempty honce)).imp ?_
    rintro _ s' ⟨hs', hcuts, hself⟩
    refine ⟨hs', hst.cuts.trans (hcuts.of_setNode hn rfl rfl rfl), ?_⟩
    intro nd' hn'
    rcases hself nd' hn' with ⟨md, hm, rfl⟩
    cases withNode_nodes_self.symm.trans hm
    exact Or.inl rfl
  · have hmany : nd.refs ≠ 1 := by
      have hrefs := (ht.nodes n nd hn).refs
      rw [nodeHeld_cons, nodeHeld_cons, Token.node?, Token.node?, if_pos rfl] at hrefs
      omega
    refine returns_bind.mpr (bind_node hn ?_)
    rw [if_neg hmany]
    refine returns_modify.mpr ((unrefNode_sound (ht.giveOwn hn hempty)).imp ?_)
    rintro _ s' ⟨hs', hcuts, hself⟩
    refine ⟨hs', hst.cuts.trans (hcuts.of_setNode hn rfl rfl rfl), ?_⟩
    intro nd' hn'
    rcases hself nd' hn' with ⟨md, hm, rfl⟩
    cases withNode_nodes_self.symm.trans hm
    exact Or.inr hclosed

theorem withNode_withNode (x y : Option Node) : (s.withNode n x).withNode n y = s.withNode n y := by
  simp [St.withNode]

/--
`ng_rmnode` keeps the counts if the loop over the hooks does; what is true after the loop
is true of a state that is as the last one but for the node itself.
-/
theorem rmnodeWith_sound {P : St -> Prop} (hs : Sound ample held s) (hn : s.nodes n = some nd)
    (hclosed : nd.closing = true -> P s)
    (hloop : forall t, Sound ample (.closing n :: .node n :: held) t ->
      t = s.withNode n (some { nd with refs := nd.refs + 1, valid := false, closing := true }) ->
      Returns (destroyHooks destroy n loop) t fun _ t' =>
        Sound ample (.closing n :: .node n :: held) t' ∧ t'.hooksOf n = [] ∧ P t') :
    Returns (rmnodeWith env destroy loop n) s fun _ s' =>
      Sound ample held s' ∧ (exists t, P t ∧ Cuts (· = n) (fun _ => False) t s') ∧ Marked s' n := by
  refine bind_node hn ?_
  split
  · next hclosing =>
      refine returns_pure.mpr ⟨hs, ⟨s, hclosed hclosing, .refl _⟩, ?_⟩
      intro nd' hn'
      cases hn.symm.trans hn'
      exact Or.inr hclosing
  · next hopen =>
      rw [Bool.not_eq_true] at hopen
      have honce : .closing n ∉ held :=
        fun ht => Bool.false_ne_true (hopen.symm.trans (hs.closing_of_mem hn ht))
      refine bind_modifyNode hn ?_
      refine bind_modifyNode withNode_nodes_self ?_
      rw [withNode_withNode]
      refine Returns.bind (hloop _ (hs.startClosing hn hopen) rfl) ?_
      rintro _ t ⟨ht, hnil, hP⟩
      refine (shutdownMethod_sound ht hnil honce).imp ?_
      rintro _ s' ⟨hs', hcuts, hflags⟩
      exact ⟨hs', ⟨t, hP, hcuts⟩, hflags⟩

theorem destroyHooks_nil {Q : Unit -> St -> Prop} (hlive : (s.nodes n).isSome = true)
    (hnil : s.hooksOf n = []) (hQ : Q () s) : Returns (destroyHooks destroy n loop) s Q := by
  rcases Option.isSome_iff_exists.mp hlive with ⟨nd, hn⟩
  rw [hooksOf_of_some hn] at hnil
  cases loop with
  | zero => simpa [destroyHooks, hn, hnil] using hQ
  | succ loop => simpa [destroyHooks, hn, hnil] using hQ

theorem rmnodeWith_nil (hs : Sound ample held s) (hn : s.nodes n = some nd) (hnil : nd.hooks = []) :
    Returns (rmnodeWith env destroy loop n) s fun _ s' =>
      Sound ample held s' ∧ Cuts (· = n) (fun _ => False) s s' ∧ Marked s' n := by
  refine (rmnodeWith_sound (P := Cuts (· = n) (fun _ => False) s) hs hn (fun _ => .refl _) ?_).imp ?_
  · rintro t ht rfl
    have hempty : (s.withNode n (some { nd with
        refs := nd.refs + 1, valid := false, closing := true })).hooksOf n = [] :=
      (hooksOf_of_some withNode_nodes_self).trans hnil
    exact destroyHooks_nil (by simp) hempty ⟨ht, hempty, .setNode hn rfl rfl rfl⟩
  · rintro _ s' ⟨hs', ⟨t, hst, hts'⟩, hflags⟩
    exact ⟨hs', hst.trans hts', hflags⟩

/-!
## Items
-/

theorem allocItem_sound (hs : Sound ample held s) : Returns (allocItem env) s fun found s' =>
      found = env.item s.calls ∧ Still s s' ∧
        Sound ample (if found then .item :: held else held) s' := by
  refine Returns.bind (answer_sound hs) ?_
  rintro found t ⟨hfound, ht, hst⟩
  cases found with
  | true =>
      exact returns_bind.mpr (returns_modify.mpr (returns_pure.mpr ⟨hfound,
        hst.trans (.of_eq rfl rfl rfl rfl),
        ht.setItems (.append [] [.item] (by simp) (by simp)) (by simp [ht.items])⟩))
  | false => exact returns_bind.mpr (returns_pure.mpr (returns_pure.mpr ⟨hfound, hst, ht⟩))

theorem freeItem_sound (hs : Sound ample (.item :: held) s) :
    Returns freeItem s fun _ s' => Sound ample held s' ∧ Still s s' :=
  returns_modify.mpr ⟨hs.setItems (.append [.item] [] (by simp) (by simp)) (by simp [hs.items]),
    .of_eq rfl rfl rfl rfl⟩

/-- An item gives its references back: only counts change, and what points to nothing may go. -/
structure Releases (n : NodeId) (h : HookId) (s s' : St) : Prop where
  cuts : Cuts (· = n) (· = h) s s'
  self : forall hk, s.hooks h = some hk -> s'.hooks h = some { hk with refs := hk.refs - 1 } ∨
    (Gone s h ∧ s'.hooks h = none)

theorem release_sound (hs : Sound ample (.hook h :: .node n :: held) s)
    (hsettles : ample -> Settles (.node n :: held) s h) :
    Returns (do unrefHook h; unrefNode n) s fun _ s' =>
      Sound ample held s' ∧ Releases n h s s' := by
  refine Returns.bind (unrefHook_sound hs hsettles) ?_
  rintro _ t ⟨ht, hst, hself⟩
  refine (unrefNode_sound ht).imp ?_
  rintro _ s' ⟨hs', hts', _⟩
  refine ⟨hs', hst.anyNodes.trans hts'.anyHooks, ?_⟩
  rw [hts'.hooks h id]
  exact hself

structure Takes (n : NodeId) (nd : Node) (h : HookId) (hk : Hook) (s s' : St) : Prop where
  cuts : Cuts (· = n) (· = h) s s'
  node : s'.nodes n = some { nd with refs := nd.refs + 1 }
  hook : s'.hooks h = some { hk with refs := hk.refs + 1 }

theorem returns_refuses {Q : Bool -> St -> Prop} (hfn : fn ≠ .rmnode) (hn : s.nodes n = some nd)
    (hh : s.hooks h = some hk) (hQ : Q (!nd.valid) s) : Returns (refuses fn n (some h)) s Q := by
  refine bind_node hn ?_
  cases hvalid : nd.valid with
  | false => simpa [hfn, hvalid] using hQ
  | true =>
      refine returns_bind.mpr (returns_hook.mpr ⟨hk, hh, returns_pure.mpr ?_⟩)
      cases fn <;> simp_all

/-- An item is applied to a valid node, or refused by an invalid one, and gives all back. -/
theorem sndItem_sound {P : Nat -> St -> Prop} (hfn : fn ≠ .rmnode)
    (hs : Sound ample (.item :: held) s) (hn : s.nodes n = some nd) (hh : s.hooks h = some hk)
    (hrun : forall t, Sound ample (.item :: .hook h :: .node n :: held) t ->
      Takes n nd h hk s t -> nd.valid = true -> Returns run t fun e t' =>
        Sound ample (.hook h :: .node n :: held) t' ∧
          (ample -> Settles (.node n :: held) t' h) ∧ P e t') :
    Returns (sndItem fn n (some h) run) s fun e s' => Sound ample held s' ∧
      if nd.valid then exists t, P e t ∧ Releases n h t s'
      else e = EINVAL ∧ Cuts (· = n) (· = h) s s' := by
  unfold sndItem applyItem runUnless
  simp only [returns_bind, returns_pure, refNode, refHook, Option.forM]
  refine returns_modifyNode.mpr ⟨nd, hn, returns_modifyHook.mpr ⟨hk, hh, ?_⟩⟩
  have htaken : Sound ample (.item :: .hook h :: .node n :: held)
      ((s.withNode n (some { nd with refs := nd.refs + 1 })).withHook h
        (some { hk with refs := hk.refs + 1 })) :=
    ((hs.refNode hn).refHook hh).perm
      (List.perm_middle : ([Token.hook h, .node n] ++ .item :: held).Perm _)
  have htakes : Takes n nd h hk s ((s.withNode n (some { nd with refs := nd.refs + 1 })).withHook h
      (some { hk with refs := hk.refs + 1 })) :=
    ⟨Cuts.of_setNode (.setHook hh rfl rfl (Or.inr rfl) (Or.inr rfl)) hn rfl rfl rfl,
      withNode_nodes_self, withHook_hooks_self⟩
  refine returns_refuses hfn htakes.node htakes.hook ?_
  split
  · next hinvalid =>
      refine returns_bind.mpr ((freeItem_sound htaken).imp ?_)
      rintro _ t ⟨ht, hst⟩
      have hsettles : ample -> Settles (.node n :: held) t h := by
        intro hample hk' hh'
        have hself := (hs.hooks h hk hh).settled hample
        cases ((hst.hooks h id).trans htakes.hook).symm.trans hh'
        refine Or.inr (hself.frame (by simp [Mentioned]) ?_)
        intro m _ hlist hleaving
        refine Or.inr ⟨?_, by simpa [Leaving] using hleaving⟩
        rw [St.hooksOf, hst.nodes m id, withHook_nodes, withNode_nodes]
        split
        · next heq =>
            rw [heq, hooksOf_of_some hn] at hlist
            exact hlist
        · exact hlist
      refine returns_pure.mpr (returns_bind.mp ((release_sound ht hsettles).imp ?_))
      rintro _ s' ⟨hs', hrel⟩
      refine ⟨hs', ?_⟩
      rw [if_neg (by simpa using hinvalid)]
      exact ⟨rfl, htakes.cuts.trans (hst.cuts.trans hrel.cuts)⟩
  · next hvalid =>
      refine (hrun _ htaken htakes (by simpa using hvalid)).imp ?_
      rintro e t ⟨ht, hsettles, hP⟩
      refine returns_bind.mp ((release_sound ht hsettles).imp ?_)
      rintro _ s' ⟨hs', hrel⟩
      rw [if_pos (by simpa using hvalid)]
      exact ⟨hs', t, hP, hrel⟩

theorem sendFn_sound {P : Nat -> St -> Prop} (hfn : fn ≠ .rmnode) (hs : Sound ample held s)
    (hn : s.nodes n = some nd) (hh : s.hooks h = some hk)
    (hrun : forall t, Sound ample (.item :: .hook h :: .node n :: held) t ->
      Takes n nd h hk s t -> nd.valid = true -> Returns run t fun e t' =>
        Sound ample (.hook h :: .node n :: held) t' ∧
          (ample -> Settles (.node n :: held) t' h) ∧ P e t') :
    Returns (sendFn env fn n (some h) run) s fun e s' => Sound ample held s' ∧
      ((env.item s.calls = false ∧ e = ENOMEM ∧ Still s s') ∨
        if nd.valid then exists t, P e t ∧ Releases n h t s'
        else e = EINVAL ∧ Cuts (· = n) (· = h) s s') := by
  refine Returns.bind (allocItem_sound hs) ?_
  rintro found t ⟨hfound, hst, ht⟩
  have hnt : t.nodes n = some nd := by rw [hst.nodes n id, hn]
  have hht : t.hooks h = some hk := by rw [hst.hooks h id, hh]
  cases found with
  | false => exact returns_pure.mpr ⟨ht, Or.inl ⟨hfound.symm, rfl, hst⟩⟩
  | true =>
      refine (sndItem_sound (P := P) hfn ht hnt hht ?_).imp ?_
      · intro u hu htakes hvalid
        exact hrun u hu ⟨hst.cuts.trans htakes.cuts, htakes.node, htakes.hook⟩ hvalid
      · rintro e s' ⟨hs', hpost⟩
        refine ⟨hs', Or.inr ?_⟩
        split
        · next hvalid => rwa [if_pos hvalid] at hpost
        · next hvalid =>
            rw [if_neg hvalid] at hpost
            exact ⟨hpost.1, hst.cuts.trans hpost.2⟩

theorem sendRmnode_sound {P : St -> Prop} (hs : Sound ample held s) (hn : s.nodes n = some nd)
    (hrun : forall t, Sound ample (.item :: .node n :: held) t ->
      Cuts (· = n) (fun _ => False) s t -> t.nodes n = some { nd with refs := nd.refs + 1 } ->
      Returns run t fun _ t' => Sound ample (.node n :: held) t' ∧ P t') :
    Returns (sendFn env .rmnode n none run) s fun _ s' => Sound ample held s' ∧
      ((env.item s.calls = false ∧ Still s s') ∨ exists t, P t ∧
        Cuts (· = n) (fun _ => False) t s' ∧ forall nd', s'.nodes n = some nd' ->
          exists nd, t.nodes n = some nd ∧ nd' = { nd with refs := nd.refs - 1 }) := by
  refine Returns.bind (allocItem_sound hs) ?_
  rintro found t ⟨hfound, hst, ht⟩
  have hnt : t.nodes n = some nd := by rw [hst.nodes n id, hn]
  cases found with
  | false => exact returns_pure.mpr ⟨ht, Or.inl ⟨hfound.symm, hst⟩⟩
  | true =>
      have hself : (t.withNode n (some { nd with refs := nd.refs + 1 })).nodes n =
          some { nd with refs := nd.refs + 1 } := withNode_nodes_self
      rw [if_pos rfl]
      unfold sndItem applyItem runUnless refuses
      simp only [returns_bind, returns_pure, refNode, Option.forM]
      refine returns_modifyNode.mpr ⟨nd, hnt, returns_node.mpr ⟨_, hself, ?_⟩⟩
      rw [if_neg (by simp), returns_pure, if_neg (by simp)]
      refine (hrun _ ((ht.refNode hnt).perm (List.Perm.swap ..)) ?_ hself).imp ?_
      · exact hst.cuts.trans (.setNode hnt rfl rfl rfl)
      · rintro e u ⟨hu, hP⟩
        refine (unrefNode_sound hu).imp ?_
        rintro _ s' ⟨hs', hcuts, hflags⟩
        exact ⟨hs', Or.inr ⟨u, hP, hcuts, hflags⟩⟩

/-!
## A hook leaves its node
-/

/-- `ng_rmnode_self` for a node without hooks. -/
theorem rmnodeSelf_nil (hs : Sound ample held s) (hn : s.nodes n = some nd) (hnil : nd.hooks = [])
    (hitems : ample -> env.HasItems) :
    Returns (rmnodeSelf env (rmnodeWith env destroy loop) n) s fun _ s' =>
      Sound ample held s' ∧ Cuts (· = n) (fun _ => False) s s' := by
  have hempty : s.hooksOf n = [] := (hooksOf_of_some hn).trans hnil
  have hnt : (s.withNode n (some { nd with valid := false })).nodes n =
      some { nd with valid := false } := withNode_nodes_self
  have hexpired := hs.expire hn
  have hst : Cuts (· = n) (fun _ => False) s (s.withNode n (some { nd with valid := false })) :=
    .setNode hn rfl rfl rfl
  refine bind_modifyNode hn ?_
  refine bind_node hnt ?_
  generalize s.withNode n (some { nd with valid := false }) = t at *
  split
  · next hclosing =>
      refine returns_pure.mpr ⟨hexpired.dropExpiring (fun _ => hst.nil hempty) ?_, hst⟩
      intro _ nd' hn'
      cases hnt.symm.trans hn'
      exact Or.inr hclosing
  · refine (sendRmnode_sound (P := fun u => Cuts (· = n) (fun _ => False) s u ∧
      Marked u n)
      hexpired hnt ?_).imp ?_
    · intro u hu htu hnu
      refine returns_bind.mpr ((rmnodeWith_nil hu hnu hnil).imp ?_)
      rintro _ v ⟨hv, huv, hflags⟩
      refine returns_bind.mpr ((freeItem_sound hv).imp ?_)
      rintro _ w ⟨hw, hvw⟩
      refine returns_pure.mpr ⟨hw, ((hst.trans htu).trans huv).trans hvw.cuts, ?_⟩
      rw [Marked, hvw.nodes n id]
      exact hflags
    · rintro _ s' ⟨hs', ⟨hitem, hts'⟩ | ⟨u, ⟨hsu, hflags⟩, hus', hself⟩⟩
      · refine ⟨hs'.dropExpiring ?_ ?_, hst.trans hts'.cuts⟩
        all_goals
          intro hample
          rw [hitems hample] at hitem
          contradiction
      · refine ⟨hs'.dropExpiring (fun _ => (hsu.trans hus').nil hempty) ?_, hsu.trans hus'⟩
        intro _ nd' hn'
        rcases hself nd' hn' with ⟨ud, hud, rfl⟩
        exact hflags ud hud

theorem disconnect_sound (hconv : env.Conventional) (hitems : ample -> env.HasItems)
    (hs : Sound ample held s) (hn : s.nodes n = some nd) :
    Returns (disconnect env (rmnodeWith env destroy loop) n) s fun _ s' =>
      Sound ample held s' ∧ Cuts (· = n) (fun _ => False) s s' := by
  refine returns_bind.mpr (returns_node.mpr ⟨nd, hn, Returns.bind (answer_sound hs) ?_⟩)
  rintro asks t ⟨rfl, ht, hst⟩
  split
  · next hasks =>
      have hnt : t.nodes n = some nd := by rw [hst.nodes n id, hn]
      have hcount := (ht.nodes n nd hnt).count
      have hnil : nd.hooks = [] := by
        have hzero := hconv _ _ _ hasks
        rw [<- List.length_eq_zero_iff]
        omega
      refine Returns.bind (rmnodeSelf_nil ht hnt hnil hitems) ?_
      rintro _ s' ⟨hs', hts'⟩
      exact returns_pure.mpr ⟨hs', hst.cuts.trans hts'⟩
  · exact returns_pure.mpr ⟨ht, hst.cuts⟩

theorem leaveNode_sound (hconv : env.Conventional) (hitems : ample -> env.HasItems)
    (hs : Sound ample (.dying h :: held) s) (hlist : h ∈ s.hooksOf n) (hh : s.hooks h = some hk)
    (hpeer : hk.peer = none) (honce : forall m, .detached h m ∉ held) :
    Returns (leaveNode env (rmnodeWith env destroy loop) n h) s fun _ s' =>
      Sound ample (.dying h :: held) s' ∧ Cuts (· = n) (· = h) s s' ∧ Gone s' h := by
  rcases exists_node_of_mem hlist with ⟨nd, hn, hmem⟩
  unfold leaveNode unlinkHook
  simp only [returns_bind]
  refine returns_node.mpr ⟨nd, hn, ?_⟩
  rw [if_pos hmem]
  refine returns_modify.mpr ?_
  have hdetached := hs.detach hn hmem hh hpeer List.mem_cons_self
  have hleft : Cuts (· = n) (· = h) s (s.withNode n (some (nd.without h))) := by
    refine .withNode hn rfl ?_
    intro md hmd
    cases hmd
    exact ⟨List.erase_sublist, rfl⟩
  refine (disconnect_sound hconv hitems hdetached withNode_nodes_self).imp ?_
  rintro _ t ⟨ht, hst⟩
  have hht : t.hooks h = some hk := (hst.hooks h id).trans hh
  refine returns_modifyHook.mpr ⟨hk, hht, ?_⟩
  refine (unrefNode_sound (ht.undetach hht (by simpa using honce))).imp ?_
  rintro _ u ⟨hu, htu, _⟩
  have hhu : u.hooks h = some { hk with node := none } := (htu.hooks h id).trans withHook_hooks_self
  have hgone : Gone u h := ⟨nodeOf_of_some hhu, (peerOf_of_some hhu).trans hpeer⟩
  refine (unrefHook_sound hu fun _ => hgone.settles).imp ?_
  rintro _ s' ⟨hs', hus', _⟩
  have hset : Cuts (· = n) (· = h) t (t.withHook h (some { hk with node := none })) :=
    .setHook hht rfl rfl (Or.inl rfl) (Or.inr rfl)
  exact ⟨hs', (((hleft.trans hst.anyHooks).trans hset).trans htu.anyHooks).trans hus'.anyNodes,
    hgone.cuts hus'⟩

def DestroysSingles (ample : Prop) (destroy : HookId -> M Unit) : Prop :=
  forall (held : List Token) (s : St) (n : NodeId) (h : HookId) (hk : Hook),
    Sound ample held s -> h ∈ s.hooksOf n -> s.hooks h = some hk -> hk.peer = none ->
    (forall m, .detached h m ∉ held) ->
    Returns (destroy h) s fun _ s' =>
      Sound ample held s' ∧ Cuts (· = n) (· = h) s s' ∧ Gone s' h

theorem destroyHook_single (hconv : env.Conventional) (hitems : ample -> env.HasItems)
    (depth : Nat) : DestroysSingles ample (destroyHook env (depth + 1)) := by
  intro held s n h hk hs hlist hh hpeer honce
  have hnode : hk.node = some n := (nodeOf_of_some hh).symm.trans (hs.nodeOf_of_mem hlist)
  rcases hk with ⟨name, valid, peer, node, refs⟩
  cases hpeer
  cases hnode
  refine bind_modifyHook hh ?_
  refine bind_hook withHook_hooks_self ?_
  refine (leaveNode_sound hconv hitems (hs.startDying hh) hlist withHook_hooks_self rfl honce).imp ?_
  rintro _ s' ⟨hs', hss', hgone⟩
  exact ⟨hs'.dropDying fun _ => hgone.settles,
    hss'.of_setHook hh rfl rfl (Or.inr rfl) (Or.inr rfl), hgone⟩

/-!
## The two ends of a link
-/

/-- A hook that has lost its peer and is in no list but that of a node about to go. -/
def Parted (held : List Token) (s : St) (p : HookId) : Prop :=
  s.peerOf p = none ∧ forall m, s.nodeOf p = some m -> Leaving held m

theorem Parted.cuts (hparted : Parted held s p) (hc : Cuts N H s s') : Parted held s' p := by
  rcases hc.pointers p with ⟨hnode, hpeer⟩
  rw [hparted.1, or_self] at hpeer
  exact ⟨hpeer, fun m hm => hparted.2 m (eq_some_of_kept hnode hm)⟩

theorem Gone.parted (hgone : Gone s p) : Parted held s p := by
  refine ⟨hgone.2, ?_⟩
  intro m hm
  cases hgone.1.symm.trans hm

theorem Parted.drop {t : Token} (hparted : Parted (t :: held) s p)
    (ht : forall m, .closing m ≠ t ∧ .expiring m ≠ t) : Parted held s p :=
  ⟨hparted.1, fun m hm => (hparted.2 m hm).imp (List.mem_of_ne_of_mem (ht m).1)
    (List.mem_of_ne_of_mem (ht m).2)⟩

theorem Parted.settles (hparted : Parted held s p) (hs : Sound ample (.hook p :: held) s)
    (honce : forall m, .detached p m ∉ held) : Settles held s p := by
  intro pk hp
  have hpeer : pk.peer = none := (peerOf_of_some hp).symm.trans hparted.1
  cases hnode : pk.node with
  | none => exact Or.inl (by rw [Hook.ties, hnode, hpeer]; rfl)
  | some m =>
      refine Or.inr (Or.inr (Or.inl ?_))
      rw [Doomed, hnode]
      exact ⟨((hs.hooks p pk hp).node m hnode).resolve_right (by simpa using honce m),
        hparted.2 m ((nodeOf_of_some hp).trans hnode)⟩

/-- `ng_rmhook_self` for a hook that has just lost its peer. -/
theorem rmhookSelf_sound (hdestroy : DestroysSingles ample destroy)
    (hitems : ample -> env.HasItems) (hs : Sound ample held s) (hp : s.hooks p = some pk)
    (hpeer : pk.peer = none) (honce : forall m, .detached p m ∉ held) :
    Returns (rmhookSelf env destroy p) s fun _ s' =>
      Sound ample held s' ∧ Cuts (pk.node = some ·) (· = p) s s' ∧ (ample -> Parted held s' p) := by
  refine bind_hook hp ?_
  cases hnode : pk.node with
  | none =>
      have hgone : Gone s p := ⟨(nodeOf_of_some hp).trans hnode, (peerOf_of_some hp).trans hpeer⟩
      exact returns_pure.mpr ⟨hs, .refl _, fun _ => hgone.parted⟩
  | some m =>
      have hlist : p ∈ s.hooksOf m := ((hs.hooks p pk hp).node m hnode).resolve_right (honce m)
      rcases exists_node_of_mem hlist with ⟨md, hm, hmem⟩
      refine (sendFn_sound (P := fun _ t => Cuts (· = m) (· = p) s t ∧ Gone t p) (by decide) hs hm hp
        ?_).imp ?_
      · intro t ht htakes _
        have hlist' : p ∈ t.hooksOf m := by rwa [hooksOf_of_some htakes.node]
        refine Returns.bind (hdestroy _ t m p _ ht hlist' htakes.hook hpeer (by simpa using honce)) ?_
        rintro _ u ⟨hu, htu, hgone⟩
        refine returns_bind.mpr ((freeItem_sound hu).imp ?_)
        rintro _ v ⟨hv, huv⟩
        have hgone := hgone.cuts huv
        exact returns_pure.mpr ⟨hv, fun _ => hgone.settles,
          (htakes.cuts.trans htu).trans huv.cuts, hgone⟩
      · rintro e s' ⟨hs', ⟨hitem, _, hst⟩ | hpost⟩
        · refine ⟨hs', hst.cuts, ?_⟩
          intro hample
          rw [hitems hample] at hitem
          contradiction
        · split at hpost
          · rcases hpost with ⟨t, ⟨hst, hgone⟩, hrel⟩
            exact ⟨hs', (hst.trans hrel.cuts).ofPair rfl rfl, fun _ => (hgone.cuts hrel.cuts).parted⟩
          · next hinvalid =>
              refine ⟨hs', hpost.2.ofPair rfl rfl, ?_⟩
              intro hample
              have hself := hs.nodes m md hm
              have hleaving : Leaving held m := by
                rcases hself.leaving hample (by simpa using hinvalid) with hclosed | hexpiring
                · exact Or.inl ((hself.emptied hample hclosed).resolve_left (List.ne_nil_of_mem hmem))
                · exact Or.inr hexpiring
              have hparted : Parted held s p := by
                refine ⟨(peerOf_of_some hp).trans hpeer, ?_⟩
                intro k hk
                rw [nodeOf_of_some hp, hnode] at hk
                cases hk
                exact hleaving
              exact hparted.cuts hpost.2

def Across (s : St) (hk : Hook) (m : NodeId) : Prop :=
  exists p, hk.peer = some p ∧ s.nodeOf p = some m

def Ends (h : HookId) (hk : Hook) (k : HookId) : Prop :=
  k = h ∨ hk.peer = some k

structure Unlinked (ample : Prop) (held : List Token) (h : HookId) (hk : Hook) (s s' : St) :
    Prop where
  cuts : Cuts (Across s hk) (Ends h hk) s s'
  parted : ample -> forall p, hk.peer = some p -> Parted held s' p
  self : s'.peerOf h = none ∧ s'.nodeOf h = hk.node

theorem divorce_sound (hdestroy : DestroysSingles ample destroy) (hitems : ample -> env.HasItems)
    (hs : Sound ample held s) (hh : s.hooks h = some hk) (hpeer : hk.peer = some p)
    (hdying : .dying h ∈ held) : Returns (divorce env destroy h p) s fun _ s' =>
      Sound ample held s' ∧ Unlinked ample held h hk s s' := by
  rcases hs.exists_peer hh hpeer with ⟨hne, pk, hp, hback⟩
  have honce : forall m, .detached p m ∉ held := by
    intro m ht
    have hnone := (hs.tokens _ ht).2.2.2
    rw [peerOf_of_some hp, hback] at hnone
    contradiction
  have hhp : (s.withHook p (some { pk with peer := none })).hooks h = some hk := by
    rw [withHook_hooks, if_neg hne.symm, hh]
  unfold divorce
  refine bind_modifyHook hp ?_
  refine bind_modifyHook hhp ?_
  have hunlinked := hs.unlink hh hp hpeer
  have hcuts : Cuts (Across s hk) (Ends h hk) s ((s.withHook p (some { pk with peer := none })).withHook
      h (some { hk with peer := none })) :=
    Cuts.of_setHook (.setHook hhp (Or.inl rfl) rfl (Or.inr rfl) (Or.inl rfl)) hp (Or.inr hpeer) rfl
      (Or.inr rfl) (Or.inl rfl)
  have hpu : ((s.withHook p (some { pk with peer := none })).withHook h
      (some { hk with peer := none })).hooks p = some { pk with peer := none } := by simp [hne]
  refine Returns.bind (rmhookSelf_sound hdestroy hitems hunlinked hpu rfl (by simpa using honce)) ?_
  rintro _ t ⟨ht, hst, hparted⟩
  have hht : t.hooks h = some { hk with peer := none } :=
    (hst.hooks h hne.symm).trans withHook_hooks_self
  have hcuts := hcuts.trans (hst.mono (fun m hm => ⟨p, hpeer, (nodeOf_of_some hp).trans hm⟩)
    fun k heq => Or.inr (heq ▸ hpeer))
  have hparted : ample -> Parted (.hook h :: held) t p := fun ha => (hparted ha).drop (by simp)
  refine Returns.bind (unrefHook_sound ht fun ha => (hparted ha).settles ht (by simpa using honce)) ?_
  rintro _ u ⟨hu, htu, _⟩
  have hhu : u.hooks h = some { hk with peer := none } := by rw [htu.hooks h hne.symm, hht]
  refine (unrefHook_sound hu fun _ _ _ => Or.inr (Or.inl (Or.inr hdying))).imp ?_
  rintro _ s' ⟨hs', hus', hself⟩
  have hcuts := hcuts.trans (htu.ofHook (Or.inr hpeer))
  refine ⟨hs', hcuts.trans (hus'.ofHook (Or.inl rfl)), ?_, ?_⟩
  · intro hample q hq
    cases hpeer.symm.trans hq
    exact (((hparted hample).cuts htu).cuts hus').drop (by simp)
  · rcases pointers_of_unref hhu (hself _ hhu) with ⟨hnode, hnone⟩
    rw [hnode, hnone, nodeOf_of_some hhu, peerOf_of_some hhu]
    exact ⟨rfl, rfl⟩

theorem unlink_sound (hdestroy : DestroysSingles ample destroy) (hitems : ample -> env.HasItems)
    (hs : Sound ample held s) (hh : s.hooks h = some hk) (hdying : .dying h ∈ held) :
    Returns (hk.peer.forM (divorce env destroy h)) s fun _ s' =>
      Sound ample held s' ∧ Unlinked ample held h hk s s' := by
  cases hpeer : hk.peer with
  | some p => exact divorce_sound hdestroy hitems hs hh hpeer hdying
  | none =>
      refine returns_pure.mpr ⟨hs, .refl _, ?_, (peerOf_of_some hh).trans hpeer, nodeOf_of_some hh⟩
      intro _ p hp
      cases hpeer.symm.trans hp

/-!
## Any hook
-/

structure Destroyed (ample : Prop) (held : List Token) (h : HookId) (hk : Hook) (s s' : St) :
    Prop where
  sound : Sound ample held s'
  cuts : Cuts (fun m => hk.node = some m ∨ Across s hk m) (Ends h hk) s s'
  gone : Gone s' h
  parted : ample -> forall p, hk.peer = some p -> Parted held s' p

/-- What `ng_destroy_hook` does to a hook that is not being destroyed already. -/
def Destroys (ample : Prop) (destroy : HookId -> M Unit) : Prop :=
  forall (held : List Token) (s : St) (h : HookId) (hk : Hook),
    Sound ample held s -> s.hooks h = some hk -> (forall m, .detached h m ∉ held) ->
    Returns (destroy h) s fun _ s' => Destroyed ample held h hk s s'

theorem destroyHook_sound (hconv : env.Conventional) (hitems : ample -> env.HasItems)
    (depth : Nat) : Destroys ample (destroyHook env (depth + 2)) := by
  intro held s h hk hs hh honce
  have hself : (s.withHook h (some { hk with valid := false })).hooks h =
      some { hk with valid := false } := withHook_hooks_self
  refine bind_modifyHook hh ?_
  refine bind_hook hself ?_
  refine Returns.bind (unlink_sound (destroyHook_single hconv hitems depth) hitems
    (hs.startDying hh) hself List.mem_cons_self) ?_
  rintro _ t ⟨ht, hcuts, hparted, hpeer, hnodeOf⟩
  have hst : Cuts (fun m => hk.node = some m ∨ Across s hk m) (Ends h hk) s t := by
    refine Cuts.of_setHook (hcuts.mono ?_ fun _ => id) hh (Or.inl rfl) rfl (Or.inr rfl) (Or.inr rfl)
    rintro m ⟨p, hp, hm⟩
    rw [St.nodeOf, withHook_hooks, if_neg (hs.exists_peer hh hp).1] at hm
    exact Or.inr ⟨p, hp, hm⟩
  have hparted : ample -> forall p, hk.peer = some p -> Parted held t p :=
    fun ha p hp => (hparted ha p hp).drop (by simp)
  cases hnode : hk.node with
  | none =>
      have hgone : Gone t h := ⟨hnodeOf.trans hnode, hpeer⟩
      exact returns_pure.mpr ⟨ht.dropDying fun _ => hgone.settles, hst, hgone, hparted⟩
  | some n =>
      obtain ⟨hk', hhk', hsame⟩ := Option.bind_eq_some_iff.mp (hnodeOf.trans hnode)
      have hlist : h ∈ t.hooksOf n :=
        ((ht.hooks h hk' hhk').node n hsame).resolve_right (by simpa using honce n)
      have hnopeer : hk'.peer = none := (peerOf_of_some hhk').symm.trans hpeer
      refine (leaveNode_sound hconv hitems ht hlist hhk' hnopeer honce).imp ?_
      rintro _ s' ⟨hs', hts', hgone⟩
      refine ⟨hs'.dropDying fun _ => hgone.settles, ?_, hgone, ?_⟩
      · exact hst.trans (hts'.ofPair (Or.inl hnode) (Or.inl rfl))
      · exact fun hample p hp => (hparted hample p hp).cuts hts'

/-!
## All hooks of a node
-/

def Tied (s : St) (n : NodeId) (k : HookId) : Prop :=
  exists h hk, h ∈ s.hooksOf n ∧ s.hooks h = some hk ∧ Ends h hk k

def Near (s : St) (n m : NodeId) : Prop :=
  m = n ∨ exists h hk, h ∈ s.hooksOf n ∧ s.hooks h = some hk ∧ Across s hk m

theorem Tied.of_cuts {k : HookId} (htied : Tied s' n k) (hc : Cuts N H s s') : Tied s n k := by
  rcases htied with ⟨h, hk', hlist, hh', hends⟩
  rcases hc.hook h hk' hh' with ⟨hk, hh, _, _, hpeer⟩
  exact ⟨h, hk, hc.hooksOf.subset hlist, hh, hends.imp_right (eq_some_of_kept hpeer)⟩

theorem Near.of_cuts {m : NodeId} (hnear : Near s' n m) (hc : Cuts N H s s') : Near s n m := by
  rcases hnear with rfl | ⟨h, hk', hlist, hh', p, hp, hm⟩
  · exact Or.inl rfl
  · rcases hc.hook h hk' hh' with ⟨hk, hh, _, _, hpeer⟩
    exact Or.inr ⟨h, hk, hc.hooksOf.subset hlist, hh, p, eq_some_of_kept hpeer hp,
      eq_some_of_kept (hc.pointers p).1 hm⟩

/-- The loop of `ng_rmnode` empties the list. -/
theorem destroyHooks_sound (hdestroy : Destroys ample destroy) (loop : Nat)
    (hs : Sound ample held s) (hheld : .node n ∈ held) (hloop : (s.hooksOf n).length ≤ loop) :
    Returns (destroyHooks destroy n loop) s fun _ s' =>
      Sound ample held s' ∧ s'.hooksOf n = [] ∧ Cuts (Near s n) (Tied s n) s s' := by
  have hlive := hs.tokens _ hheld
  induction loop generalizing s with
  | zero =>
      have hnil := List.length_eq_zero_iff.mp (Nat.le_zero.mp hloop)
      exact destroyHooks_nil hlive hnil ⟨hs, hnil, .refl _⟩
  | succ loop ih =>
      obtain ⟨nd, hn⟩ := Option.isSome_iff_exists.mp hlive
      have hhooks := hooksOf_of_some hn
      cases hlist : nd.hooks with
      | nil => exact destroyHooks_nil hlive (hhooks.trans hlist) ⟨hs, hhooks.trans hlist, .refl _⟩
      | cons h rest =>
          refine bind_node hn ?_
          rw [hlist]
          have hmem : h ∈ s.hooksOf n := by rw [hhooks, hlist]; exact List.mem_cons_self
          have hon := hs.nodeOf_of_mem hmem
          obtain ⟨hk, hh, hnode⟩ := Option.bind_eq_some_iff.mp hon
          have honce : forall m, .detached h m ∉ held := by
            intro m ht
            rcases hs.tokens _ ht with ⟨_, hnot, hon', _⟩
            cases hon.symm.trans hon'
            exact hnot hmem
          refine Returns.bind (hdestroy held s h hk hs hh honce) ?_
          rintro _ t ⟨ht, hst, hgone, _⟩
          have hlen : (t.hooksOf n).length ≤ loop := by
            have hsub := hst.hooksOf (n := n)
            rw [hhooks, hlist] at hsub hloop
            rcases List.sublist_cons_iff.mp hsub with hrest | ⟨r, heq, _⟩
            · exact Nat.le_trans hrest.length_le (Nat.le_of_succ_le_succ hloop)
            · have hin : h ∈ t.hooksOf n := by rw [heq]; exact List.mem_cons_self
              cases hgone.1.symm.trans (ht.nodeOf_of_mem hin)
          refine (ih ht hlen (ht.tokens _ hheld)).imp ?_
          rintro _ s' ⟨hs', hnil, hts'⟩
          refine ⟨hs', hnil, (hst.mono ?_ fun k hk' => ⟨h, hk, hmem, hh, hk'⟩).trans
            (hts'.mono (fun m hm => hm.of_cuts hst) fun k hk' => hk'.of_cuts hst)⟩
          rintro m (hm | hm)
          · exact Or.inl (Option.some.inj (hm.symm.trans hnode))
          · exact Or.inr ⟨h, hk, hmem, hh, hm⟩

/-- `ng_rmnode` for a node with at most as many hooks as the bound of the model. -/
theorem rmnode_sound (hconv : env.Conventional) (hitems : ample -> env.HasItems) {depth : Nat}
    (hs : Sound ample held s) (hn : s.nodes n = some nd) (hdepth : 2 ≤ depth)
    (hloop : nd.hooks.length ≤ depth) : Returns (rmnode env depth n) s fun _ s' =>
      Sound ample held s' ∧ Cuts (Near s n) (Tied s n) s s' ∧
        (nd.closing = false -> s'.hooksOf n = []) := by
  obtain ⟨depth, rfl⟩ : exists d, depth = d + 2 := ⟨depth - 2, by omega⟩
  refine (rmnodeWith_sound (P := fun t => Cuts (Near s n) (Tied s n) s t ∧
    (nd.closing = false -> t.hooksOf n = [])) hs hn ?_ ?_).imp ?_
  · intro hclosing
    refine ⟨.refl _, ?_⟩
    intro hopen
    cases hclosing.symm.trans hopen
  · rintro t ht hheap
    have hst : Cuts (Near s n) (Tied s n) s t := by
      rw [hheap]
      exact .setNode hn (Or.inl rfl) rfl rfl
    have hlength : (t.hooksOf n).length ≤ depth + 2 := by
      rwa [hheap, hooksOf_of_some withNode_nodes_self]
    refine (destroyHooks_sound (destroyHook_sound hconv hitems depth) (depth + 2) ht (by simp)
      hlength).imp ?_
    rintro _ u ⟨hu, hnil, htu⟩
    exact ⟨hu, hnil, hst.trans (htu.mono (fun m hm => hm.of_cuts hst) fun k hk => hk.of_cuts hst),
      fun _ => hnil⟩
  · rintro _ s' ⟨hs', ⟨t, ⟨hst, hnil⟩, hts'⟩, _⟩
    exact ⟨hs', hst.trans (hts'.mono (fun _ => Or.inl) fun _ => False.elim),
      fun hopen => hts'.nil (hnil hopen)⟩

end Netgraph
end FStackLite
