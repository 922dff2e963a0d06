import FStackLite.Netgraph.Destroy

/-!
# Connecting two nodes

`ng_con_nodes` makes a hook on each of two nodes, or leaves all hooks as they were, however
the types of the nodes answer and whether or not there is memory.
-/

namespace FStackLite
namespace Netgraph

open Foundation Program

variable {env : Env} {ample : Prop} {held : List Token} {s s₀ s' t : St}
variable {n n2 : NodeId} {nd nd2 : Node} {h h2 p : HookId} {hk hk2 pk : Hook} {name name2 : Name}

/-!
## Hooks by name
-/

def St.isHook (s : St) (name : Name) (h : HookId) : Bool :=
  (s.hooks h).any fun hk => hk.valid && hk.name == name

def St.hookNamed (s : St) (n : NodeId) (name : Name) : Option HookId :=
  (s.hooksOf n).find? (s.isHook name)

theorem findhookIn_finds {hooks : List HookId}
    (hlive : forall h, h ∈ hooks -> (s.hooks h).isSome = true) :
    Returns (findhookIn name hooks) s fun found s' =>
      s' = s ∧ found = hooks.find? (s.isHook name) := by
  induction hooks with
  | nil => exact returns_pure.mpr ⟨rfl, rfl⟩
  | cons h rest ih =>
      obtain ⟨hk, hh⟩ := Option.isSome_iff_exists.mp (hlive h List.mem_cons_self)
      have htest : s.isHook name h = (hk.valid && hk.name == name) := by simp [St.isHook, hh]
      refine bind_hook hh ?_
      rw [List.find?_cons, htest]
      split
      · next hyes =>
          rw [hyes]
          exact returns_pure.mpr ⟨rfl, rfl⟩
      · next hno =>
          rw [Bool.not_eq_true] at hno
          rw [hno]
          exact ih fun k hk => hlive k (List.mem_cons_of_mem _ hk)

theorem findhook_finds (hs : Sound ample held s) (hn : s.nodes n = some nd) :
    Returns (findhook n name) s fun found s' => s' = s ∧ found = s.hookNamed n name := by
  refine bind_node hn ?_
  rw [St.hookNamed, hooksOf_of_some hn]
  refine findhookIn_finds ?_
  intro h hmem
  obtain ⟨hk, hh, _⟩ := Option.bind_eq_some_iff.mp ((hs.nodes n nd hn).hooks h hmem)
  rw [hh]
  rfl

/-!
## A hook is added
-/

theorem Sound.same (hs : Sound ample held s) (hnodes : s'.nodes = s.nodes)
    (hhooks : s'.hooks = s.hooks) (hnextNode : s'.nextNode = s.nextNode)
    (hnextHook : s.nextHook ≤ s'.nextHook) (hitems : s'.items = s.items)
    (htables : s'.tables = s.tables) : Sound ample held s' := by
  refine hs.congr hnodes hhooks hnextNode hnextHook hitems ?_
  have hlabel : s'.label = s.label := by
    funext m
    rw [St.label, hnodes]
    rfl
  rw [hlabel, htables]
  exact hs.filed

/-- The state after a hook was made on a node; the caller has a reference on it. -/
structure Adds (n : NodeId) (nd : Node) (name : Name) (s s' : St) : Prop where
  node : s'.nodes n = some { nd.adding s.nextHook with refs := nd.refs + 1 }
  nodes : forall m, m ≠ n -> s'.nodes m = s.nodes m
  hook : s'.hooks s.nextHook = some ⟨name, false, none, some n, 2⟩
  hooks : forall k, k ≠ s.nextHook -> s'.hooks k = s.hooks k
  nextHook : s'.nextHook = s.nextHook + 1

theorem addHook_sound (hs : Sound ample held s) (hn : s.nodes n = some nd)
    (hvalid : nd.valid = true) : Returns (addHook env n name) s fun result s' =>
      (forall e, result = .error e -> e ≠ 0 ∧ Sound ample held s' ∧
        s'.nodes = s.nodes ∧ s'.hooks = s.hooks) ∧
      (forall h, result = .ok h -> h = s.nextHook ∧ Sound ample (.hook h :: held) s' ∧
        Adds n nd (name.take (NG_HOOKSIZ - 1)) s s') := by
  unfold addHook newHook
  refine Returns.bind (findhook_finds hs hn) ?_
  rintro found t ⟨rfl, _⟩
  split
  · exact returns_pure.mpr ⟨by rintro e ⟨⟩; exact ⟨by decide, hs, rfl, rfl⟩, by rintro h ⟨⟩⟩
  · refine returns_bind.mpr (returns_answer.mpr ?_)
    have hcalls : Sound ample held { t with calls := t.calls + 1 } :=
      hs.same rfl rfl rfl (Nat.le_refl _) rfl rfl
    split
    · refine returns_bind.mpr (returns_bind.mpr (returns_get.mpr ?_))
      refine returns_bind.mpr (returns_modify.mpr (returns_pure.mpr ?_))
      refine bind_modifyNode hn ?_
      refine returns_bind.mpr (returns_answer.mpr ?_)
      split
      · refine bind_modifyNode withNode_nodes_self ?_
        refine bind_modifyHook withHook_hooks_self ?_
        refine returns_pure.mpr ⟨by rintro e ⟨⟩, ?_⟩
        rintro h ⟨⟩
        have hmade := hs.newHook (name.take (NG_HOOKSIZ - 1)) false
        have hnew := hmade.attach (n := n) (h := t.nextHook) hn hvalid
          withHook_hooks_self rfl List.mem_cons_self
        refine ⟨rfl, hnew.same (Function.update_idem ..) ?_ rfl (Nat.le_refl _) rfl rfl, ?_⟩
        · exact (Function.update_idem ..).trans (Function.update_idem ..).symm
        · exact {
            node := withNode_nodes_self
            nodes := fun m hm => (Function.update_of_ne hm ..).trans (Function.update_of_ne hm ..)
            hook := withHook_hooks_self
            hooks := fun k hk => (Function.update_of_ne hk ..).trans (Function.update_of_ne hk ..)
            nextHook := rfl }
      · next herror =>
          have hpos := (hs.nodes n nd hn).pos
          refine returns_bind.mpr (bind_hook (if_pos rfl) ?_)
          rw [if_pos rfl]
          refine returns_bind.mpr (bind_node (if_pos rfl) ?_)
          rw [if_neg (by show nd.refs + 1 ≠ 1; omega)]
          refine returns_modify.mpr (returns_modify.mpr (returns_pure.mpr ⟨?_, by rintro h ⟨⟩⟩))
          rintro e ⟨⟩
          have hfresh := hs.freshHook t.nextHook (Nat.le_refl _)
          have hfail : forall u : St, u.nodes = t.nodes -> u.hooks = t.hooks ->
              u.nextNode = t.nextNode -> t.nextHook ≤ u.nextHook -> u.items = t.items ->
              u.tables = t.tables ->
              Sound ample held u ∧ u.nodes = t.nodes ∧ u.hooks = t.hooks :=
            fun u h1 h2 h3 h4 h5 h6 => ⟨hs.same h1 h2 h3 h4 h5 h6, h1, h2⟩
          refine ⟨herror, hfail _ ?_ ?_ rfl (Nat.le_succ _) rfl rfl⟩
          · refine (Function.update_idem ..).trans (Function.update_eq_self_iff.mpr ?_)
            rw [Int.add_sub_cancel]
            exact hn.symm
          · exact (Function.update_idem ..).trans (Function.update_eq_self_iff.mpr hfresh.symm)
    · exact returns_pure.mpr ⟨by rintro e ⟨⟩; exact ⟨by decide, hcalls, rfl, rfl⟩, by rintro h ⟨⟩⟩

/-!
## Where a connection reaches
-/

/-- Only two sets have changed, and the hooks of one are linked among each other, on the nodes of
the other. -/
structure Within (N : NodeId -> Prop) (H : HookId -> Prop) (s s' : St) : Prop where
  nodes : forall m, ¬ N m -> s'.nodes m = s.nodes m
  hooks : forall k, ¬ H k -> s'.hooks k = s.hooks k
  nodeOf : forall k m, H k -> s'.nodeOf k = some m -> N m
  peerOf : forall k q, H k -> s'.peerOf k = some q -> H q

section Within

variable {N : NodeId -> Prop} {H : HookId -> Prop}

theorem Within.cuts (hw : Within N H s t) (hc : Cuts N H t s') : Within N H s s' where
  nodes m hm := (hc.nodes m hm).trans (hw.nodes m hm)
  hooks k hk := (hc.hooks k hk).trans (hw.hooks k hk)
  nodeOf k m hk hm := hw.nodeOf k m hk (eq_some_of_kept (hc.pointers k).1 hm)
  peerOf k q hk hq := hw.peerOf k q hk (eq_some_of_kept (hc.pointers k).2 hq)

theorem Within.start (hfresh : forall k, H k -> s.hooks k = none) : Within N H s s where
  nodes _ _ := rfl
  hooks _ _ := rfl
  nodeOf k m hk hm := by
    rw [St.nodeOf, hfresh k hk] at hm
    contradiction
  peerOf k q hk hq := by
    rw [St.peerOf, hfresh k hk] at hq
    contradiction

/-- A hook of the set is as before, or is on a node and has a peer of the sets. -/
theorem Within.change (hw : Within N H s t) (hnodes : forall m, ¬ N m -> s'.nodes m = t.nodes m)
    (hhooks : forall k, ¬ H k -> s'.hooks k = t.hooks k)
    (hself : forall k kk, H k -> s'.hooks k = some kk -> t.hooks k = some kk ∨
      (forall m, kk.node = some m -> N m) ∧ forall q, kk.peer = some q -> H q) :
    Within N H s s' where
  nodes m hm := (hnodes m hm).trans (hw.nodes m hm)
  hooks k hk := (hhooks k hk).trans (hw.hooks k hk)
  nodeOf k m hk hm := by
    rcases Option.bind_eq_some_iff.mp hm with ⟨kk, hkk, hnode⟩
    rcases hself k kk hk hkk with hold | hnew
    · exact hw.nodeOf k m hk ((nodeOf_of_some hold).trans hnode)
    · exact hnew.1 m hnode
  peerOf k q hk hq := by
    rcases Option.bind_eq_some_iff.mp hq with ⟨kk, hkk, hpeer⟩
    rcases hself k kk hk hkk with hold | hnew
    · exact hw.peerOf k q hk ((peerOf_of_some hold).trans hpeer)
    · exact hnew.2 q hpeer

theorem Within.destroyed (hw : Within N H s t) (hH : H h) (hh : t.hooks h = some hk)
    (hd : Destroyed ample held h hk t s') : Within N H s s' := by
  have hpeer : forall q, hk.peer = some q -> H q :=
    fun q hq => hw.peerOf h q hH ((peerOf_of_some hh).trans hq)
  refine hw.cuts (hd.cuts.mono ?_ ?_)
  · rintro m (hm | ⟨q, hq, hm⟩)
    · exact hw.nodeOf h m hH ((nodeOf_of_some hh).trans hm)
    · exact hw.nodeOf q m (hpeer q hq) hm
  · rintro k (rfl | hk)
    · exact hH
    · exact hpeer k hk

end Within

def St.shape (s : St) (h : HookId) : Option (Name × Bool × Option HookId × Option NodeId) :=
  (s.hooks h).map fun hk => (hk.name, hk.valid, hk.peer, hk.node)

def Validates (h : HookId) (s s' : St) : Prop :=
  forall k, s'.shape k = if k = h then (s.shape h).map fun x => (x.1, true, x.2.2) else s.shape k

def Loose (s : St) (h2 h : HookId) : Prop :=
  s.nodeOf h2 = none ∧ forall q, s.peerOf h2 = some q -> q = h

theorem nodeOf_shape : s.nodeOf h = (s.shape h).bind fun x => x.2.2.2 := by
  cases hh : s.hooks h <;> simp [St.nodeOf, St.shape, hh]

theorem peerOf_shape : s.peerOf h = (s.shape h).bind fun x => x.2.2.1 := by
  cases hh : s.hooks h <;> simp [St.peerOf, St.shape, hh]

theorem shape_of_some (hh : s.hooks h = some hk) :
    s.shape h = some (hk.name, hk.valid, hk.peer, hk.node) := by
  rw [St.shape, hh, Option.map_some]

theorem settles_of_shape (hshape : s.shape h = some (name, true, some p, some n)) :
    Settles held s h := by
  rintro ⟨_, _, _, _, _⟩ hh
  cases (shape_of_some hh).symm.trans hshape
  exact Or.inr (Or.inr (Or.inr ⟨rfl, rfl, rfl⟩))

theorem Cuts.shape {N : NodeId -> Prop} {H : HookId -> Prop} (hc : Cuts N H s s') {k : HookId}
    (hk : ¬ H k) : s'.shape k = s.shape k := by
  rw [St.shape, hc.hooks k hk]
  rfl

theorem Releases.shape (hrel : Releases n h s s') (hon : (s.nodeOf h).isSome = true) (k : HookId) :
    s'.shape k = s.shape k := by
  by_cases heq : k = h
  · rcases Option.isSome_iff_exists.mp hon with ⟨m, hm⟩
    rcases Option.bind_eq_some_iff.mp hm with ⟨hk, hh, _⟩
    rw [heq]
    rcases hrel.self hk hh with hh' | ⟨hgone, _⟩
    · rw [shape_of_some hh', shape_of_some hh]
    · cases hgone.1.symm.trans hm
  · exact hrel.cuts.shape heq

theorem Takes.shape (htakes : Takes n nd h hk s s') (hh : s.hooks h = some hk) (k : HookId) :
    s'.shape k = s.shape k := by
  by_cases heq : k = h
  · rw [heq, shape_of_some htakes.hook, shape_of_some hh]
  · exact htakes.cuts.shape heq

theorem validates_withHook (hh : s.hooks h = some hk) :
    Validates h s (s.withHook h (some { hk with valid := true })) := by
  intro k
  rw [St.shape, withHook_hooks]
  split
  · rw [shape_of_some hh]
    rfl
  · rfl

section Connect

variable {destroy : HookId -> M Unit} {N : NodeId -> Prop} {H : HookId -> Prop}

theorem conPart3_sound (hdestroy : Destroys ample destroy)
    (hs : Sound ample (.item :: held) s) (hw : Within N H s₀ s) (hH : H h)
    (hh : s.hooks h = some hk) (honce : forall m, .detached h m ∉ held) :
    Returns (conPart3 env destroy h) s fun e s' =>
      Sound ample held s' ∧ Within N H s₀ s' ∧ (e = 0 -> Validates h s s') := by
  unfold conPart3
  refine bind_hook hh ?_
  split
  · refine Returns.bind (freeItem_sound hs) ?_
    rintro _ t ⟨ht, hst⟩
    exact returns_pure.mpr ⟨ht, hw.cuts hst.cuts, by simp [ENOENT]⟩
  · refine Returns.bind (answer_sound hs) ?_
    rintro e t ⟨_, ht, hst⟩
    have hht : t.hooks h = some hk := by rw [hst.hooks h id, hh]
    have hwt := hw.cuts hst.cuts
    split
    · refine bind_modifyHook hht ?_
      refine Returns.bind (freeItem_sound (ht.setValid hht)) ?_
      rintro _ s' ⟨hs', hts'⟩
      have hws' := hwt.cuts (hts'.cuts.of_setHook hht hH rfl (Or.inr rfl) (Or.inr rfl))
      refine returns_pure.mpr ⟨hs', hws', ?_⟩
      intro _ k
      rw [hts'.shape id, validates_withHook hht k, hst.shape id, hst.shape id]
    · next herror =>
        refine Returns.bind (hdestroy _ t h hk ht hht (by simpa using honce)) ?_
        intro _ u hu
        refine Returns.bind (freeItem_sound hu.sound) ?_
        rintro _ s' ⟨hs', hus'⟩
        exact returns_pure.mpr ⟨hs', (hwt.destroyed hH hht hu).cuts hus'.cuts,
          fun h0 => absurd h0 herror⟩

theorem askPeer_sound (hdestroy : Destroys ample destroy)
    (hs : Sound ample (.item :: held) s) (hw : Within N H s₀ s) (hH : H p)
    (hp : s.hooks p = some pk) (hheld : .hook p ∈ held) (honce : forall m, .detached p m ∉ held) :
    Returns (askPeer env destroy p) s fun e s' =>
      Sound ample held s' ∧ Within N H s₀ s' ∧ (e = 0 -> Validates p s s') := by
  unfold askPeer
  refine bind_hook hp ?_
  cases hnode : pk.node with
  | none =>
      refine Returns.bind (freeItem_sound hs) ?_
      rintro _ t ⟨ht, hst⟩
      exact returns_pure.mpr ⟨ht, hw.cuts hst.cuts, by simp [EINVAL]⟩
  | some m =>
      have hN : N m := hw.nodeOf p m hH ((nodeOf_of_some hp).trans hnode)
      have hlist : p ∈ s.hooksOf m :=
        ((hs.hooks p pk hp).node m hnode).resolve_right (by simpa using honce m)
      rcases exists_node_of_mem hlist with ⟨md, hm, _⟩
      refine (sndItem_sound (P := fun e t => Within N H s₀ t ∧ (e = 0 -> Validates p s t))
        (by decide) hs hm hp ?_).imp ?_
      · intro t ht htakes _
        refine (conPart3_sound hdestroy ht (hw.cuts (htakes.cuts.ofPair hN hH)) hH htakes.hook
          (by simpa using honce)).imp ?_
        rintro e u ⟨hu, hwu, hdone⟩
        refine ⟨hu, fun _ _ _ => Or.inr (Or.inl (Or.inl (List.mem_cons_of_mem _ hheld))), hwu, ?_⟩
        intro h0 k
        rw [hdone h0 k, htakes.shape hp, htakes.shape hp]
      · rintro e s' ⟨hs', hpost⟩
        split at hpost
        · rcases hpost with ⟨t, ⟨hwt, hdone⟩, hrel⟩
          refine ⟨hs', hwt.cuts (hrel.cuts.ofPair hN hH), ?_⟩
          intro h0 k
          have hon : (t.nodeOf p).isSome = true := by
            rw [nodeOf_shape, hdone h0 p, if_pos rfl]
            simp [St.shape, hp, hnode]
          rw [hrel.shape hon k, hdone h0 k]
        · exact ⟨hs', hw.cuts (hpost.2.ofPair hN hH), by simp [hpost.1, EINVAL]⟩

/-- Both ends of a link have become valid, or one of them is on its way out. -/
structure Connects (h2 h : HookId) (hk2 hk : Hook) (e : Nat) (s' : St) : Prop where
  done : e = 0 -> s'.shape h2 = some (hk2.name, true, hk2.peer, hk2.node) ∧
    s'.shape h = some (hk.name, true, hk.peer, hk.node)
  failed : e ≠ 0 -> Loose s' h2 h

theorem Gone.loose (hgone : Gone s h2) : Loose s h2 h := by
  refine ⟨hgone.1, ?_⟩
  intro q hq
  rw [hgone.2] at hq
  contradiction

theorem Loose.cuts {N : NodeId -> Prop} {H : HookId -> Prop} (hloose : Loose s h2 h)
    (hc : Cuts N H s s') : Loose s' h2 h := by
  rcases hc.pointers h2 with ⟨hnode, hpeer⟩
  rw [hloose.1, or_self] at hnode
  exact ⟨hnode, fun q hq => hloose.2 q (eq_some_of_kept hpeer hq)⟩

theorem conPart2Linked_sound (hdestroy : Destroys ample destroy)
    (hs : Sound ample (.item :: held) s) (hw : Within N H s₀ s) (hH : H h2)
    (hh2 : s.hooks h2 = some hk2) (hh : s.hooks h = some hk) (hpeer : hk2.peer = some h)
    (hheld2 : .hook h2 ∈ held) (hheld : .hook h ∈ held) (hnone : forall k m, .detached k m ∉ held) :
    Returns (conPart2Linked env destroy h2) s fun e s' =>
      Sound ample held s' ∧ Within N H s₀ s' ∧ Connects h2 h hk2 hk e s' := by
  have hHh : H h := hw.peerOf h2 h hH ((peerOf_of_some hh2).trans hpeer)
  have hne : h ≠ h2 := (hs.exists_peer hh2 hpeer).1
  unfold conPart2Linked
  refine Returns.bind (answer_sound hs) ?_
  rintro e t ⟨_, ht, hst⟩
  have hht2 : t.hooks h2 = some hk2 := by rw [hst.hooks h2 id, hh2]
  have hht : t.hooks h = some hk := by rw [hst.hooks h id, hh]
  have hwt := hw.cuts hst.cuts
  split
  · refine bind_hook hht2 ?_
    rw [hpeer]
    refine Returns.bind (askPeer_sound hdestroy ht hwt hHh hht hheld (hnone h)) ?_
    rintro e u ⟨hu, hwu, hdone⟩
    obtain ⟨kk, hkk⟩ := Option.isSome_iff_exists.mp (hu.tokens _ hheld2)
    split
    · next h0 =>
        refine returns_bind.mpr (returns_modifyHook.mpr ⟨kk, hkk, returns_pure.mpr ?_⟩)
        have hvalid := validates_withHook hkk
        refine ⟨hu.setValid hkk, hwu.cuts (.setHook hkk hH rfl (Or.inr rfl) (Or.inr rfl)), ?_,
          fun herror => absurd h0 herror⟩
        intro _
        constructor
        · rw [hvalid h2, if_pos rfl, hdone h0 h2, if_neg hne.symm, shape_of_some hht2]
          rfl
        · rw [hvalid h, if_neg hne, hdone h0 h, if_pos rfl, shape_of_some hht]
          rfl
    · next herror =>
        refine Returns.bind (hdestroy held u h2 kk hu hkk (hnone h2)) ?_
        intro _ s' hs'
        exact returns_pure.mpr ⟨hs'.sound, hwu.destroyed hH hkk hs',
          fun h0 => absurd h0 herror, fun _ => hs'.gone.loose⟩
  · next herror =>
      refine Returns.bind (hdestroy _ t h2 hk2 ht hht2 (by simpa using hnone h2)) ?_
      intro _ u hu
      refine Returns.bind (freeItem_sound hu.sound) ?_
      rintro _ s' ⟨hs', hus'⟩
      exact returns_pure.mpr ⟨hs', (hwt.destroyed hH hht2 hu).cuts hus'.cuts,
        fun h0 => absurd h0 herror, fun _ => (hu.gone.cuts hus').loose⟩

theorem attachHook_sound (hs : Sound ample held s) (hn : s.nodes n = some nd)
    (hvalid : nd.valid = true) (hh : s.hooks h = some hk) (hnode : hk.node = none)
    (hheld : .hook h ∈ held) : Returns (attachHook n h) s fun _ s' => Sound ample held s' ∧
      s'.hooks h = some { hk with node := some n, refs := hk.refs + 1 } ∧
      (forall k, k ≠ h -> s'.hooks k = s.hooks k) ∧ forall m, m ≠ n -> s'.nodes m = s.nodes m := by
  unfold attachHook
  refine bind_modifyHook hh ?_
  refine bind_modifyNode hn ?_
  refine bind_modifyNode withNode_nodes_self ?_
  refine returns_modifyHook.mpr ⟨_, withHook_hooks_self, ?_⟩
  refine ⟨(hs.attach hn hvalid hh hnode hheld).same (Function.update_idem ..)
    (Function.update_idem ..) rfl (Nat.le_refl _) rfl rfl, withHook_hooks_self, ?_, ?_⟩
  · exact fun k hk => (Function.update_of_ne hk ..).trans (Function.update_of_ne hk ..)
  · exact fun m hm => (Function.update_of_ne hm ..).trans (Function.update_of_ne hm ..)

theorem conPart2_sound (hdestroy : Destroys ample destroy)
    (hs : Sound ample (.item :: held) s) (hw : Within N H s₀ s) (hN : N n2) (hH : H h2)
    (hn : s.nodes n2 = some nd2) (hvalid : nd2.valid = true) (hh2 : s.hooks h2 = some hk2)
    (hh : s.hooks h = some hk) (hnode : hk2.node = none) (hpeer : hk2.peer = some h)
    (hheld2 : .hook h2 ∈ held) (hheld : .hook h ∈ held) (hnone : forall k m, .detached k m ∉ held) :
    Returns (conPart2 env destroy n2 h2) s fun e s' => Sound ample held s' ∧ Within N H s₀ s' ∧
        Connects h2 h { hk2 with node := some n2 } hk e s' := by
  have hne : h ≠ h2 := (hs.exists_peer hh2 hpeer).1
  have hHh : H h := hw.peerOf h2 h hH ((peerOf_of_some hh2).trans hpeer)
  have hrefuse : forall t e, e ≠ 0 -> Sound ample (.item :: held) t -> Within N H s₀ t ->
      t.hooks h2 = some hk2 ->
      Returns (do destroy h2; freeItem; pure e : M Nat) t fun e s' => Sound ample held s' ∧
        Within N H s₀ s' ∧ Connects h2 h { hk2 with node := some n2 } hk e s' := by
    intro t e herror ht hwt hht
    refine Returns.bind (hdestroy _ t h2 hk2 ht hht (by simpa using hnone h2)) ?_
    intro _ u hu
    refine Returns.bind (freeItem_sound hu.sound) ?_
    rintro _ s' ⟨hs', hus'⟩
    exact returns_pure.mpr ⟨hs', (hwt.destroyed hH hht hu).cuts hus'.cuts,
      fun h0 => absurd h0 herror, fun _ => (hu.gone.cuts hus').loose⟩
  unfold conPart2
  refine bind_hook hh2 ?_
  refine Returns.bind (findhook_finds hs hn) ?_
  rintro found t ⟨rfl, _⟩
  split
  · exact hrefuse t EEXIST (by decide) hs hw hh2
  · refine Returns.bind (answer_sound hs) ?_
    rintro e u ⟨_, hu, htu⟩
    have hwu := hw.cuts htu.cuts
    have hhu2 : u.hooks h2 = some hk2 := by rw [htu.hooks h2 id, hh2]
    split
    · have hnu : u.nodes n2 = some nd2 := by rw [htu.nodes n2 id, hn]
      refine Returns.bind (attachHook_sound hu hnu hvalid hhu2 hnode
        (List.mem_cons_of_mem _ hheld2)) ?_
      rintro _ v ⟨hv, hself, hhooks, hnodes⟩
      have hwv : Within N H s₀ v := by
        refine hwu.change (fun m hm => hnodes m fun heq => hm (heq ▸ hN))
          (fun k hk => hhooks k fun heq => hk (heq ▸ hH)) ?_
        intro k kk _ hkk
        by_cases heq : k = h2
        · rw [heq, hself] at hkk
          cases hkk
          exact Or.inr ⟨fun m hm => Option.some.inj hm ▸ hN,
            fun q hq => Option.some.inj (hpeer.symm.trans hq) ▸ hHh⟩
        · exact Or.inl ((hhooks k heq).symm.trans hkk)
      have hhv : v.hooks h = some hk := by rw [hhooks h hne, htu.hooks h id, hh]
      refine (conPart2Linked_sound hdestroy hv hwv hH hself hhv hpeer hheld2 hheld hnone).imp ?_
      rintro e s' ⟨hs', hws', hcon⟩
      exact ⟨hs', hws', hcon.done, hcon.failed⟩
    · next herror => exact hrefuse u e herror hu hwu hhu2

theorem sendConPart2_sound (hdestroy : Destroys ample destroy)
    (hs : Sound ample held s) (hw : Within N H s₀ s) (hN : N n2) (hH : H h2)
    (hn : s.nodes n2 = some nd2) (hh2 : s.hooks h2 = some hk2)
    (hh : s.hooks h = some hk) (hnode : hk2.node = none) (hpeer : hk2.peer = some h)
    (hheld2 : .hook h2 ∈ held) (hheld : .hook h ∈ held) (hnone : forall k m, .detached k m ∉ held) :
    Returns (sendFn env .conPart2 n2 (some h2) (conPart2 env destroy n2 h2)) s fun e s' =>
      Sound ample held s' ∧ Within N H s₀ s' ∧
        Connects h2 h { hk2 with node := some n2 } hk e s' := by
  have hne : h ≠ h2 := (hs.exists_peer hh2 hpeer).1
  have hloose : Loose s h2 h := by
    rw [Loose, nodeOf_of_some hh2, peerOf_of_some hh2]
    exact ⟨hnode, fun q hq => Option.some.inj (hq.symm.trans hpeer)⟩
  refine (sendFn_sound (P := fun e t => Within N H s₀ t ∧
    Connects h2 h { hk2 with node := some n2 } hk e t) (by decide) hs hn hh2 ?_).imp ?_
  · intro t ht htakes hvalid
    have hht : t.hooks h = some hk := by rw [htakes.cuts.hooks h hne, hh]
    refine (conPart2_sound hdestroy ht (hw.cuts (htakes.cuts.ofPair hN hH)) hN hH htakes.node hvalid
      htakes.hook hht hnode hpeer (by simp) (by simp [hheld]) (by simpa using hnone)).imp ?_
    rintro e u ⟨hu, hwu, hcon⟩
    exact ⟨hu, fun _ _ _ => Or.inr (Or.inl (Or.inl (List.mem_cons_of_mem _ hheld2))), hwu,
      hcon.done, hcon.failed⟩
  · rintro e s' ⟨hs', ⟨_, rfl, hst⟩ | hpost⟩
    · exact ⟨hs', hw.cuts hst.cuts, by simp [ENOMEM], fun _ => hloose.cuts hst⟩
    · split at hpost
      · rcases hpost with ⟨t, ⟨hwt, hdone, hfailed⟩, hrel⟩
        refine ⟨hs', hwt.cuts (hrel.cuts.ofPair hN hH), ?_,
          fun herror => (hfailed herror).cuts hrel.cuts⟩
        intro h0
        have hon : (t.nodeOf h2).isSome = true := by
          rw [nodeOf_shape, (hdone h0).1]
          rfl
        rw [hrel.shape hon, hrel.shape hon]
        exact hdone h0
      · exact ⟨hs', hw.cuts (hpost.2.ofPair hN hH), by simp [hpost.1, EINVAL],
          fun _ => hloose.cuts hpost.2⟩

theorem conHook2_sound (hs : Sound ample held s) (hh : s.hooks h = some hk)
    (hpeer : hk.peer = none) (hheld : .hook h ∈ held) (hnone : forall k m, .detached k m ∉ held) :
    Returns (conHook2 h name2) s fun h2 s' => h2 = s.nextHook ∧
      Sound ample (.hook h2 :: held) s' ∧ s'.nodes = s.nodes ∧
      s'.hooks h2 = some ⟨name2.take (NG_HOOKSIZ - 1), false, some h, none, 2⟩ ∧
      s'.hooks h = some { hk with peer := some h2, refs := hk.refs + 1 } ∧
      forall k, k ≠ h -> k ≠ h2 -> s'.hooks k = s.hooks k := by
  have hfresh := hs.freshHook s.nextHook (Nat.le_refl _)
  have hne : s.nextHook ≠ h := by
    intro heq
    rw [heq] at hfresh
    cases hh.symm.trans hfresh
  have hold : forall kk, (s.withNewHook kk).hooks h = some hk :=
    fun kk => by rw [withNewHook_hooks, if_neg hne.symm, hh]
  unfold conHook2 newHook
  refine returns_bind.mpr (returns_bind.mpr (returns_get.mpr ?_))
  refine returns_bind.mpr (returns_modify.mpr (returns_pure.mpr ?_))
  refine bind_modifyHook (hold _) ?_
  refine bind_modifyHook withHook_hooks_self ?_
  refine bind_modifyHook ((Function.update_of_ne hne ..).trans ((Function.update_of_ne hne ..).trans
    (Function.update_self ..))) ?_
  have hmade := hs.newHook (name2.take (NG_HOOKSIZ - 1)) false
  have hlinked := hmade.link (hold _) withHook_hooks_self hne hpeer rfl
    (List.mem_cons_of_mem _ hheld) List.mem_cons_self
    (by simpa using fun m => ⟨hnone h m, hnone s.nextHook m⟩)
  refine returns_pure.mpr ⟨rfl, hlinked.same rfl ?_ rfl (Nat.le_refl _) rfl rfl, rfl,
    withHook_hooks_self, ?_, ?_⟩
  · simp only [St.withHook, St.withNewHook]
    rw [Function.update_idem, Function.update_comm hne, Function.update_idem, Function.update_idem]
    exact Function.update_comm hne.symm ..
  · rw [withHook_hooks, if_neg hne.symm, withHook_hooks_self]
  · intro k h1 h2
    rw [withHook_hooks, if_neg h2, withHook_hooks, if_neg h1, withHook_hooks, if_neg h1,
      withNewHook_hooks, if_neg h2]

def Pair (a b x : Nat) : Prop :=
  x = a ∨ x = b

theorem Loose.gone (hs : Sound ample held s) (hloose : Loose s h2 h) (hgone : Gone s h) :
    Gone s h2 := by
  refine ⟨hloose.1, ?_⟩
  cases hp : s.peerOf h2 with
  | none => rfl
  | some q =>
      obtain ⟨hk2, hh2, hpeer⟩ := Option.bind_eq_some_iff.mp hp
      have hback := ((hs.hooks h2 hk2 hh2).peer q hpeer).2
      rw [hloose.2 q hp, hgone.2] at hback
      contradiction

section LetGo

variable {e : Nat}

/-- `ng_con_nodes` lets go of two hooks that were taken apart. -/
theorem letGo_gone (hs : Sound ample (.hook h2 :: .hook h :: held) s)
    (hw : Within (Pair n n2) (Pair h h2) s₀ s) (hgone : Gone s h) (hgone2 : Gone s h2) :
    Returns (do unrefHook h; unrefHook h2; pure e) s fun e' s' => e' = e ∧
      Sound ample held s' ∧ Within (Pair n n2) (Pair h h2) s₀ s' ∧ Gone s' h ∧ Gone s' h2 := by
  refine Returns.bind (unrefHook_sound (hs.perm (List.Perm.swap ..)) fun _ => hgone.settles) ?_
  rintro _ t ⟨ht, hst, _⟩
  refine Returns.bind (unrefHook_sound ht fun _ => (hgone2.cuts hst).settles) ?_
  rintro _ s' ⟨hs', hts', _⟩
  have hwt := hw.cuts (hst.ofHook (Or.inl rfl))
  exact returns_pure.mpr ⟨rfl, hs', hwt.cuts (hts'.ofHook (Or.inr rfl)),
    (hgone.cuts hst).cuts hts', (hgone2.cuts hst).cuts hts'⟩

/-- `ng_con_nodes` lets go of two hooks that are linked, which stay. -/
theorem letGo_linked (hs : Sound ample (.hook h2 :: .hook h :: held) s)
    (hw : Within (Pair n n2) (Pair h h2) s₀ s)
    (hshape : s.shape h = some (name, true, some h2, some n))
    (hshape2 : s.shape h2 = some (name2, true, some h, some n2)) :
    Returns (do unrefHook h; unrefHook h2; pure e) s fun e' s' => e' = e ∧
      Sound ample held s' ∧ Within (Pair n n2) (Pair h h2) s₀ s' ∧
        s'.shape h = s.shape h ∧ s'.shape h2 = s.shape h2 := by
  have hon : (s.nodeOf h).isSome = true := by
    rw [nodeOf_shape, hshape]
    rfl
  refine Returns.bind (unrefHook_sound (hs.perm (List.Perm.swap ..))
    fun _ => settles_of_shape hshape) ?_
  rintro _ t ⟨ht, hst, hself⟩
  have hrel : Releases n h s t := ⟨hst.anyNodes, hself⟩
  have hshapet : t.shape h2 = _ := (hrel.shape hon _).trans hshape2
  have hont : (t.nodeOf h2).isSome = true := by
    rw [nodeOf_shape, hshapet]
    rfl
  refine Returns.bind (unrefHook_sound ht fun _ => settles_of_shape hshapet) ?_
  rintro _ s' ⟨hs', hts', hself2⟩
  have hrel2 : Releases n h2 t s' := ⟨hts'.anyNodes, hself2⟩
  have hwt := hw.cuts (hst.ofHook (Or.inl rfl))
  refine returns_pure.mpr ⟨rfl, hs', hwt.cuts (hts'.ofHook (Or.inr rfl)), ?_, ?_⟩
  · rw [hrel2.shape hont, hrel.shape hon]
  · rw [hrel2.shape hont, hrel.shape hon]

end LetGo

theorem conHooks_sound (hdestroy : Destroys ample destroy)
    (hs : Sound ample (.hook h :: held) s) (hw : Within (Pair n n2) (Pair h (h + 1)) s₀ s)
    (hh : s.hooks h = some hk) (hpeer : hk.peer = none) (hnode : hk.node = some n)
    (hnext : s.nextHook = h + 1) (hn2 : .node n2 ∈ held)
    (hnone : forall k m, .detached k m ∉ held) :
    Returns (conHooks env destroy h n2 name2) s fun e s' =>
      Sound ample held s' ∧ Within (Pair n n2) (Pair h (h + 1)) s₀ s' ∧
        (e = 0 -> s'.shape h = some (hk.name, true, some (h + 1), some n) ∧
          s'.shape (h + 1) = some (name2.take (NG_HOOKSIZ - 1), true, some h, some n2)) ∧
        (e ≠ 0 -> Gone s' h ∧ Gone s' (h + 1)) := by
  unfold conHooks
  refine Returns.bind (answer_sound hs) ?_
  rintro found t ⟨_, ht, hst⟩
  have hwt := hw.cuts hst.cuts
  have hht : t.hooks h = some hk := by rw [hst.hooks h id, hh]
  have hnext' : t.nextHook = h + 1 := by rw [hst.nextHook, hnext]
  split
  · refine Returns.bind (conHook2_sound ht hht hpeer List.mem_cons_self (by simpa using hnone)) ?_
    rintro h2 u ⟨rfl, hu, hnodes, hhu2, hhu, hothers⟩
    rw [hnext'] at hu hhu2 hhu hothers ⊢
    have hwu : Within (Pair n n2) (Pair h (h + 1)) s₀ u := by
      refine hwt.change (fun _ _ => by rw [hnodes])
        (fun k hk => hothers k (fun heq => hk (Or.inl heq)) fun heq => hk (Or.inr heq)) ?_
      intro k kk hk hkk
      rcases hk with heq | heq
      · rw [heq, hhu] at hkk
        cases hkk
        exact Or.inr ⟨fun m hm => Or.inl (Option.some.inj (hm.symm.trans hnode)),
          fun q hq => Or.inr (Option.some.inj hq).symm⟩
      · rw [heq, hhu2] at hkk
        cases hkk
        exact Or.inr ⟨fun m hm => by contradiction, fun q hq => Or.inl (Option.some.inj hq).symm⟩
    obtain ⟨nd2, hnd2⟩ := Option.isSome_iff_exists.mp (hu.tokens (.node n2) (by simp [hn2]))
    have hnoneu : forall k m, .detached k m ∉ .hook (h + 1) :: .hook h :: held := by
      simpa using hnone
    refine Returns.bind (sendConPart2_sound hdestroy hu hwu (Or.inr rfl) (Or.inr rfl) hnd2 hhu2 hhu
      rfl rfl (by simp) (by simp) hnoneu) ?_
    rintro e v ⟨hv, hwv, hdone, hfailed⟩
    split
    · next herror =>
        obtain ⟨kk, hkk⟩ := Option.isSome_iff_exists.mp (hv.tokens (.hook h) (by simp))
        refine Returns.bind (hdestroy _ v h kk hv hkk (hnoneu h)) ?_
        intro _ w hd
        have hww := hwv.destroyed (Or.inl rfl) hkk hd
        have hloose := (hfailed herror).cuts hd.cuts
        have hgone2 := hloose.gone hd.sound hd.gone
        refine (letGo_gone hd.sound hww hd.gone hgone2).imp ?_
        rintro _ s' ⟨rfl, hs', hws', hgones⟩
        exact ⟨hs', hws', fun h0 => absurd h0 herror, fun _ => hgones⟩
    · next herror =>
        rw [not_not] at herror
        have hshape : v.shape h = some (hk.name, true, some (h + 1), some n) := by
          rw [(hdone herror).2]
          simp [hnode]
        have hshape2 : v.shape (h + 1) =
            some (name2.take (NG_HOOKSIZ - 1), true, some h, some n2) := (hdone herror).1
        refine (letGo_linked hv hwv hshape hshape2).imp ?_
        rintro _ s' ⟨rfl, hs', hws', hkept, hkept2⟩
        rw [hkept, hkept2]
        exact ⟨hs', hws', fun _ => ⟨hshape, hshape2⟩, fun h0 => absurd herror h0⟩
  · refine Returns.bind (hdestroy _ t h hk ht hht (by simpa using hnone h)) ?_
    intro _ u hu
    refine Returns.bind (unrefHook_sound hu.sound fun _ => hu.gone.settles) ?_
    rintro _ s' ⟨hs', hus', _⟩
    have hws' := (hwt.destroyed (Or.inl rfl) hht hu).cuts (hus'.ofHook (Or.inl rfl))
    have hfresh := ht.freshHook (h + 1) (Nat.le_of_eq hnext')
    have hgone2 : Gone t (h + 1) := by
      rw [Gone, St.nodeOf, St.peerOf, hfresh]
      exact ⟨rfl, rfl⟩
    exact returns_pure.mpr ⟨hs', hws', by simp [ENOMEM],
      fun _ => ⟨hu.gone.cuts hus', (hgone2.cuts hu.cuts).cuts hus'⟩⟩

/-- What `ng_con_nodes` does: two hooks of a new link, or nothing. -/
structure Joins (n : NodeId) (name : Name) (n2 : NodeId) (name2 : Name) (e : Nat) (s s' : St) :
    Prop where
  nodes : forall m, m ≠ n -> m ≠ n2 -> s'.nodes m = s.nodes m
  done : e = 0 ->
    s'.hooks s.nextHook =
        some ⟨name.take (NG_HOOKSIZ - 1), true, some (s.nextHook + 1), some n, 2⟩ ∧
      s'.hooks (s.nextHook + 1) =
        some ⟨name2.take (NG_HOOKSIZ - 1), true, some s.nextHook, some n2, 2⟩ ∧
      forall k, k ≠ s.nextHook -> k ≠ s.nextHook + 1 -> s'.hooks k = s.hooks k
  failed : e ≠ 0 -> s'.hooks = s.hooks

theorem Sound.linked_hook (hs : Sound ample held s) (hheld : hookHeld held h = 0)
    (hshape : s.shape h = some (name, true, some p, some n)) :
    s.hooks h = some ⟨name, true, some p, some n, 2⟩ := by
  rcases Option.map_eq_some_iff.mp hshape with ⟨⟨_, _, _, _, refs⟩, hh, heq⟩
  cases heq
  have hrefs := (hs.hooks h _ hh).refs
  rw [hheld] at hrefs
  rw [hh, show refs = 2 from hrefs]

theorem Sound.free_of_gone (hs : Sound ample held s) (hheld : hookHeld held h = 0)
    (hgone : Gone s h) : s.hooks h = none := by
  cases hh : s.hooks h with
  | none => rfl
  | some hk =>
      have hself := hs.hooks h hk hh
      have hrefs := hself.refs
      rw [Gone, nodeOf_of_some hh, peerOf_of_some hh] at hgone
      rw [Hook.ties, hgone.1, hgone.2, hheld] at hrefs
      exact absurd hself.pos (by rw [hrefs]; decide)

theorem conNodes_sound (hdestroy : Destroys ample destroy) (hs : Sound ample held s)
    (hn : s.nodes n = some nd) (hvalid : nd.valid = true) (hn2 : .node n2 ∈ held)
    (hnone : forall k m, .detached k m ∉ held) :
    Returns (conNodes env destroy n name n2 name2) s fun e s' =>
      Sound ample held s' ∧ Joins n name n2 name2 e s s' := by
  have hfresh : forall k, s.nextHook ≤ k -> s.hooks k = none ∧ hookHeld held k = 0 :=
    fun k hk => ⟨hs.freshHook k hk, hs.hookHeld_fresh (hs.freshHook k hk)⟩
  have hfresh₁ := hfresh s.nextHook (Nat.le_refl _)
  have hfresh₂ := hfresh (s.nextHook + 1) (Nat.le_succ _)
  obtain ⟨nd2, hnd2⟩ := Option.isSome_iff_exists.mp (hs.tokens _ hn2)
  unfold conNodes
  refine Returns.bind (findhook_finds hs hnd2) ?_
  rintro found t ⟨rfl, _⟩
  split
  · exact returns_pure.mpr ⟨hs, fun _ _ _ => rfl, by simp [EEXIST], fun _ => rfl⟩
  · refine Returns.bind (addHook_sound hs hn hvalid) ?_
    rintro result u ⟨herror, hok⟩
    cases result with
    | error e =>
        rcases herror e rfl with ⟨hne, hu, hnodes, hhooks⟩
        exact returns_pure.mpr ⟨hu, fun _ _ _ => by rw [hnodes], fun h0 => absurd h0 hne,
          fun _ => hhooks⟩
    | ok h =>
        obtain ⟨rfl, hu, hadds⟩ := hok h rfl
        have hstart : Within (Pair n n2) (Pair t.nextHook (t.nextHook + 1)) t t := by
          refine .start ?_
          intro k hk
          rcases hk with heq | heq
          · rw [heq, hfresh₁.1]
          · rw [heq, hfresh₂.1]
        have hw : Within (Pair n n2) (Pair t.nextHook (t.nextHook + 1)) t u := by
          refine hstart.change (fun m hm => hadds.nodes m fun heq => hm (Or.inl heq))
            (fun k hk => hadds.hooks k fun heq => hk (Or.inl heq)) ?_
          intro k kk _ hkk
          by_cases heq : k = t.nextHook
          · rw [heq, hadds.hook] at hkk
            cases hkk
            exact Or.inr ⟨fun m hm => Or.inl (Option.some.inj hm).symm, fun q hq => by contradiction⟩
          · exact Or.inl ((hadds.hooks k heq).symm.trans hkk)
        refine (conHooks_sound hdestroy hu hw hadds.hook rfl rfl hadds.nextHook hn2 hnone).imp ?_
        rintro e s' ⟨hs', hws', hdone, hfailed⟩
        have hothers : forall k, k ≠ t.nextHook -> k ≠ t.nextHook + 1 ->
            s'.hooks k = t.hooks k := fun k h1 h2 => hws'.hooks k (not_or.mpr ⟨h1, h2⟩)
        refine ⟨hs', fun m h1 h2 => hws'.nodes m (not_or.mpr ⟨h1, h2⟩), ?_, ?_⟩
        · intro h0
          rcases hdone h0 with ⟨hshape, hshape2⟩
          exact ⟨hs'.linked_hook hfresh₁.2 hshape, hs'.linked_hook hfresh₂.2 hshape2, hothers⟩
        · intro herror
          rcases hfailed herror with ⟨hgone, hgone2⟩
          funext k
          by_cases h1 : k = t.nextHook
          · rw [h1, hs'.free_of_gone hfresh₁.2 hgone, hfresh₁.1]
          · by_cases heq : k = t.nextHook + 1
            · rw [heq, hs'.free_of_gone hfresh₂.2 hgone2, hfresh₂.1]
            · exact hothers k h1 heq

end Connect

end Netgraph
end FStackLite
