import FStackLite.Netgraph.References

/-!
# Links and lists of hooks

Linking two hooks and taking them apart, and putting a hook into the list of a node and
out of it again, keep the counts.
-/

namespace FStackLite
namespace Netgraph

variable {ample : Prop} {held held' : List Token} {s : St}
variable {n : NodeId} {nd : Node} {h p : HookId} {hk pk : Hook}

theorem Sound.exists_peer (hs : Sound ample held s) (hh : s.hooks h = some hk)
    (hpeer : hk.peer = some p) : p ≠ h ∧ exists pk, s.hooks p = some pk ∧ pk.peer = some h := by
  rcases (hs.hooks h hk hh).peer p hpeer with ⟨hne, hback⟩
  exact ⟨hne, Option.bind_eq_some_iff.mp hback⟩

theorem Sound.nodeOf_of_mem (hs : Sound ample held s) (hlist : h ∈ s.hooksOf n) :
    s.nodeOf h = some n := by
  rcases exists_node_of_mem hlist with ⟨nd, hn, hmem⟩
  exact (hs.nodes n nd hn).hooks h hmem

/-- The peers of two hooks change, which no third hook points to. -/
theorem Sound.setPeers {hk' pk' : Hook} {s' : St} (hs : Sound ample held s)
    (hh : s.hooks h = some hk) (hp : s.hooks p = some pk)
    (hs' : s' = (s.withHook p (some pk')).withHook h (some hk'))
    (hswaps : Swaps (Token.About (fun _ => False) fun k => k = h ∨ k = p) held held')
    (hnode : hk'.node = hk.node) (hnode' : pk'.node = pk.node)
    (honly : forall k, hk.peer = some k -> k = p) (honly' : forall k, pk.peer = some k -> k = h)
    (hself : HookSound ample held' s' h hk') (hself' : HookSound ample held' s' p pk')
    (hdetached : forall m, .detached h m ∈ held -> hk'.peer = none)
    (hdetached' : forall m, .detached p m ∈ held -> pk'.peer = none) : Sound ample held' s' := by
  have hhooks : forall k, s'.hooks k =
      if k = h then some hk' else if k = p then some pk' else s.hooks k := by
    intro k
    rw [hs', withHook_hooks, withHook_hooks]
  have hnodes : forall k, s'.nodeOf k = s.nodeOf k := by
    intro k
    rw [St.nodeOf, hhooks]
    split
    · next heq => rw [heq, nodeOf_of_some hh, Option.bind_some, hnode]
    · split
      · next heq => rw [heq, nodeOf_of_some hp, Option.bind_some, hnode']
      · rfl
  have hc : Spares ample (fun _ => False) (fun k => k = h ∨ k = p) held held' s s' := by
    refine ⟨hswaps.mono fun _ => Or.inr, fun _ _ => by rw [hs']; rfl, ?_, fun _ k _ _ => hnodes k,
      fun _ _ _ => by rw [hs']; rfl, ?_, ?_⟩
    · intro k hk
      rw [hhooks, if_neg fun heq => hk (Or.inl heq), if_neg fun heq => hk (Or.inr heq)]
    · intro k q hk hq
      rcases Option.bind_eq_some_iff.mp hq with ⟨kk, hkk, hpeer⟩
      rcases hs.exists_peer hkk hpeer with ⟨_, qk, hqk, hback⟩
      rw [St.peerOf, hhooks, if_neg, if_neg, St.peerOf]
      · rintro rfl
        cases hqk.symm.trans hp
        exact hk (Or.inl (honly' k hback))
      · rintro rfl
        cases hqk.symm.trans hh
        exact hk (Or.inr (honly k hback))
    · exact fun _ _ _ _ _ => Or.imp (hswaps.mem (by simp)).mpr (hswaps.mem (by simp)).mpr
  refine hs.change hc (by simp) ?_ ?_ (by rw [hs']; exact hs.freshNode) ?_ ?_
    (by rw [hs']; exact hs.filed)
  · rintro k kk hin hkk
    rw [hhooks] at hkk
    split at hkk
    · next heq =>
        cases hkk
        rw [heq]
        exact hself
    · next hne =>
        cases hin.resolve_left hne
        rw [if_pos rfl] at hkk
        cases hkk
        exact hself'
  · intro t ht htouches
    cases t with
    | hook k =>
        rw [Token.Holds, hhooks]
        rcases htouches with rfl | rfl
        · rw [if_pos rfl]
          rfl
        · split
          · rfl
          · rw [if_pos rfl]
            rfl
    | detached k m =>
        have ht := (hswaps.mem (by simp)).mp ht
        rcases hs.tokens _ ht with ⟨hm, hnot, hon, hnone⟩
        refine ⟨by rwa [hs'], by rwa [hs'], (hnodes k).trans hon, ?_⟩
        rw [St.peerOf, hhooks]
        split
        · next heq => exact hdetached m (heq ▸ ht)
        · split
          · next heq => exact hdetached' m (heq ▸ ht)
          · exact hnone
    | _ => contradiction
  · intro k hk
    have hfresh := hs.freshHook k (by rwa [hs'] at hk)
    rw [hhooks, if_neg, if_neg, hfresh]
    · rintro rfl
      cases hp.symm.trans hfresh
    · rintro rfl
      cases hh.symm.trans hfresh
  · rw [hs', hswaps.count (by simp)]
    exact hs.items

theorem Sound.unlink (hs : Sound ample held s) (hh : s.hooks h = some hk)
    (hp : s.hooks p = some pk) (hpeer : hk.peer = some p) : Sound ample (.hook p :: .hook h :: held)
      ((s.withHook p (some { pk with peer := none })).withHook h
        (some { hk with peer := none })) := by
  obtain ⟨hne, pk', hp', hback⟩ := hs.exists_peer hh hpeer
  cases hp.symm.trans hp'
  have hself := hs.hooks h hk hh
  have hself' := hs.hooks p pk hp
  have hlater : forall t : Token, t ∈ held -> t ∈ .hook p :: .hook h :: held := by
    intro t ht
    exact List.mem_cons_of_mem _ (List.mem_cons_of_mem _ ht)
  refine hs.setPeers hh hp rfl (.append [] [.hook p, .hook h] (by simp) (by simp)) rfl rfl ?_ ?_
    ?_ ?_ (fun _ _ => rfl) (fun _ _ => rfl)
  · exact fun k hk => Option.some.inj (hk.symm.trans hpeer)
  · exact fun k hk => Option.some.inj (hk.symm.trans hback)
  · exact { hself with
      refs := by grind [hself.refs]
      node := fun m hm => (hself.node m hm).imp_right (hlater _)
      peer := by simp
      settled := fun _ => Or.inl (Or.inl (List.mem_cons_of_mem _ List.mem_cons_self)) }
  · exact { hself' with
      refs := by grind [hself'.refs]
      node := fun m hm => (hself'.node m hm).imp_right (hlater _)
      peer := by simp
      settled := fun _ => Or.inl (Or.inl List.mem_cons_self) }

theorem Sound.link (hs : Sound ample held s) (hh : s.hooks h = some hk)
    (hp : s.hooks p = some pk) (hne : p ≠ h) (hhpeer : hk.peer = none) (hppeer : pk.peer = none)
    (hhheld : .hook h ∈ held) (hpheld : .hook p ∈ held)
    (hdetached : forall m, .detached h m ∉ held ∧ .detached p m ∉ held) : Sound ample held
      ((s.withHook p (some { pk with peer := some h, refs := pk.refs + 1 })).withHook h
        (some { hk with peer := some p, refs := hk.refs + 1 })) := by
  have hself := hs.hooks h hk hh
  have hself' := hs.hooks p pk hp
  refine hs.setPeers hh hp rfl (fun _ _ => rfl) rfl rfl ?_ ?_ ?_ ?_
    (fun m ht => absurd ht (hdetached m).1) (fun m ht => absurd ht (hdetached m).2)
  · rw [hhpeer]
    simp
  · rw [hppeer]
    simp
  · exact { hself with
      refs := by grind [hself.refs]
      pos := by grind [hself.pos]
      peer := by
        rintro q ⟨⟩
        refine ⟨hne, ?_⟩
        rw [St.peerOf, withHook_hooks, if_neg hne, withHook_hooks, if_pos rfl]
        rfl
      settled := fun _ => Or.inl (Or.inl hhheld) }
  · exact { hself' with
      refs := by grind [hself'.refs]
      pos := by grind [hself'.pos]
      peer := by
        rintro q ⟨⟩
        refine ⟨hne.symm, ?_⟩
        rw [St.peerOf, withHook_hooks, if_pos rfl]
        rfl
      settled := fun _ => Or.inl (Or.inl hpheld) }

/-- A hook and the list of a node change together; the hook is in no other list. -/
theorem Sound.setBoth {nd' : Node} {hk' : Hook} {s' : St} (hs : Sound ample held s)
    (hn : s.nodes n = some nd) (hh : s.hooks h = some hk)
    (hs' : s' = (s.withHook h (some hk')).withNode n (some nd'))
    (hswaps : Swaps (fun t => t = .node n ∨ t = .hook h ∨ t = .detached h n) held held')
    (hlabel : nd'.label = nd.label) (hclosing : nd'.closing = nd.closing)
    (hlist : forall k, k ≠ h -> (k ∈ nd'.hooks <-> k ∈ nd.hooks))
    (hother : forall m, m ≠ n -> h ∉ s.hooksOf m) (hpeer : hk'.peer = hk.peer)
    (hself : NodeSound ample held' s' n nd') (hself' : HookSound ample held' s' h hk')
    (hdetached : forall m, .detached h m ∈ held' ->
      m = n ∧ h ∉ nd'.hooks ∧ hk'.node = some n ∧ hk'.peer = none) : Sound ample held' s' := by
  have hnodes : forall m, s'.nodes m = if m = n then some nd' else s.nodes m := by
    intro m
    rw [hs', withNode_nodes, withHook_nodes]
  have hhooks : forall k, s'.hooks k = if k = h then some hk' else s.hooks k := by
    intro k
    rw [hs', withNode_hooks, withHook_hooks]
  have hpeers : forall k, s'.peerOf k = s.peerOf k := by
    intro k
    rw [St.peerOf, hhooks]
    split
    · next heq => rw [heq, peerOf_of_some hh, Option.bind_some, hpeer]
    · rfl
  have hc : Spares ample (· = n) (· = h) held held' s s' := by
    refine ⟨hswaps.mono (by rintro t (rfl | rfl | rfl) <;> simp), fun m hm => by rw [hnodes, if_neg hm],
      fun k hk => by rw [hhooks, if_neg hk], ?_, ?_, fun _ p _ _ => hpeers p, ?_⟩
    · intro m k hm hlisted
      rw [St.nodeOf, hhooks, if_neg, St.nodeOf]
      rintro rfl
      exact hother m hm hlisted
    · intro m k hk
      rw [St.hooksOf, hnodes]
      split
      · next heq =>
          rw [heq, St.hooksOf, hn]
          exact hlist k hk
      · rfl
    · exact fun _ _ _ _ _ => Or.imp (hswaps.mem (by simp)).mpr (hswaps.mem (by simp)).mpr
  refine hs.change hc ?_ ?_ ?_ ?_ ?_ ?_ (by rw [hs']; exact hs.filed.withNode hn hlabel)
  · rintro m md rfl hm
    rw [hnodes, if_pos rfl] at hm
    cases hm
    exact hself
  · rintro k kk rfl hkk
    rw [hhooks, if_pos rfl] at hkk
    cases hkk
    exact hself'
  · intro t ht htouches
    cases t with
    | node m =>
        cases htouches
        rw [Token.Holds, hnodes, if_pos rfl]
        rfl
    | closing m =>
        cases htouches
        have hold := hs.tokens _ ((hswaps.mem (by simp)).mp ht)
        rw [Token.Holds, hn] at hold
        rw [Token.Holds, hnodes, if_pos rfl]
        exact hclosing.trans hold
    | hook k =>
        cases htouches
        rw [Token.Holds, hhooks, if_pos rfl]
        rfl
    | detached k m =>
        by_cases heq : k = h
        · rw [heq] at ht ⊢
          rcases hdetached m ht with ⟨rfl, hnot, hnode, hnone⟩
          rw [Token.Holds, St.hooksOf, St.nodeOf, St.peerOf, hnodes, if_pos rfl, hhooks, if_pos rfl]
          exact ⟨rfl, hnot, hnode, hnone⟩
        · cases htouches.resolve_right heq
          rcases hs.tokens _ ((hswaps.mem (by simp [heq])).mp ht) with ⟨_, hnot, hnode, hnone⟩
          rw [Token.Holds, hc.hooksOf n k heq, St.nodeOf, hc.hooks k heq, hpeers, hnodes, if_pos rfl]
          exact ⟨rfl, hnot, hnode, hnone⟩
    | _ => contradiction
  · intro m hm
    have hfresh := hs.freshNode m (by rwa [hs'] at hm)
    rw [hnodes, if_neg, hfresh]
    rintro rfl
    cases hn.symm.trans hfresh
  · intro k hk
    have hfresh := hs.freshHook k (by rwa [hs'] at hk)
    rw [hhooks, if_neg, hfresh]
    rintro rfl
    cases hh.symm.trans hfresh
  · rw [hs', hswaps.count (by simp)]
    exact hs.items

theorem Sound.detach (hs : Sound ample held s) (hn : s.nodes n = some nd) (hmem : h ∈ nd.hooks)
    (hh : s.hooks h = some hk) (hpeer : hk.peer = none) (hdying : .dying h ∈ held) :
    Sound ample (.detached h n :: held) (s.withNode n (some (nd.without h))) := by
  have hself := hs.nodes n nd hn
  have hself' := hs.hooks h hk hh
  have hnode : hk.node = some n := (nodeOf_of_some hh).symm.trans (hself.hooks h hmem)
  have herase : forall k, k ∈ nd.hooks.erase h <-> k ≠ h ∧ k ∈ nd.hooks :=
    fun k => hself.nodup.mem_erase_iff
  have hs' : s.withNode n (some (nd.without h)) =
      (s.withHook h (some hk)).withNode n (some (nd.without h)) := by
    rw [<- hh, s.withHook_self]
  refine hs.setBoth hn hh hs' (.append [] [.detached h n] (by simp) (by simp)) rfl rfl ?_ ?_ rfl
    ?_ ?_ ?_
  · exact fun k hk => (herase k).trans (and_iff_right hk)
  · intro m hne hlisted
    have hnode' := hs.nodeOf_of_mem hlisted
    rw [nodeOf_of_some hh, hnode] at hnode'
    exact hne (Option.some.inj hnode').symm
  · have hlength := List.length_erase_of_mem hmem
    have hpos := List.length_pos_of_mem hmem
    exact { hself with
      refs := by grind [hself.refs]
      count := by grind [hself.count]
      nodup := hself.nodup.erase h
      hooks := fun k hk => hself.hooks k (List.mem_of_mem_erase hk)
      leaving := fun ha hvalid => (hself.leaving ha hvalid).imp_right (List.mem_cons_of_mem _)
      emptied := fun ha hclosed => Or.inr (List.mem_cons_of_mem _
        ((hself.emptied ha hclosed).resolve_left (List.ne_nil_of_mem hmem))) }
  · exact { hself' with
      refs := by grind [hself'.refs]
      node := by
        intro m hm
        cases hnode.symm.trans hm
        exact Or.inr List.mem_cons_self
      settled := fun _ => Or.inl (Or.inr (List.mem_cons_of_mem _ hdying)) }
  · intro m ht
    refine ⟨?_, fun hin => ((herase h).mp hin).1 rfl, hnode, hpeer⟩
    rcases List.mem_cons.mp ht with heq | ht
    · cases heq
      rfl
    · have hnode' := (hs.tokens _ ht).2.2.1
      rw [nodeOf_of_some hh, hnode] at hnode'
      exact (Option.some.inj hnode').symm

/-- The hook stops to point to the node, which leaves a reference on each of them. -/
theorem Sound.undetach (hs : Sound ample (.detached h n :: held) s)
    (hh : s.hooks h = some hk) (honce : forall m, .detached h m ∉ held) :
    Sound ample (.node n :: .hook h :: held) (s.withHook h (some { hk with node := none })) := by
  rcases hs.tokens _ List.mem_cons_self with ⟨hlive, hnot, hnode, _⟩
  rcases Option.isSome_iff_exists.mp hlive with ⟨nd, hn⟩
  have hself := hs.nodes n nd hn
  have hself' := hs.hooks h hk hh
  have hold : hk.node = some n := (nodeOf_of_some hh).symm.trans hnode
  have hs' : s.withHook h (some { hk with node := none }) =
      (s.withHook h (some { hk with node := none })).withNode n (some nd) := by
    rw [<- hn]
    exact (St.withNode_self _ n).symm
  refine hs.setBoth hn hh hs' (.append [.detached h n] [.node n, .hook h] (by simp) (by simp)) rfl rfl
    (fun _ _ => Iff.rfl) ?_ rfl ?_ ?_ ?_
  · intro m hne hlisted
    exact hne (Option.some.inj ((hs.nodeOf_of_mem hlisted).symm.trans hnode))
  · refine hself.frame (by simp [Token.node?]) ?_ ?_
    · rintro t (rfl | rfl) ht
      · simpa using ht
      · simpa using ht
    · intro k hk
      rw [St.nodeOf, withHook_hooks, if_neg, St.nodeOf]
      rintro rfl
      exact hnot (by rwa [St.hooksOf, hn])
  · exact { hself' with
      refs := by grind [hself'.refs]
      node := by simp
      peer := by
        intro p hp
        rcases hself'.peer p hp with ⟨hne, hback⟩
        refine ⟨hne, ?_⟩
        rwa [St.peerOf, withHook_hooks, if_neg hne]
      settled := fun _ => Or.inl (Or.inl (by simp)) }
  · intro m ht
    exact absurd (by simpa using ht) (honce m)

theorem Sound.attach (hs : Sound ample held s) (hn : s.nodes n = some nd)
    (hvalid : nd.valid = true) (hh : s.hooks h = some hk) (hnode : hk.node = none)
    (hheld : .hook h ∈ held) : Sound ample held
      ((s.withHook h (some { hk with node := some n, refs := hk.refs + 1 })).withNode n
        (some { nd.adding h with refs := nd.refs + 1 })) := by
  have hself := hs.nodes n nd hn
  have hself' := hs.hooks h hk hh
  have hnone : s.nodeOf h = none := (nodeOf_of_some hh).trans hnode
  have hnot : forall m, h ∉ s.hooksOf m := by
    intro m hlisted
    cases (hs.nodeOf_of_mem hlisted).symm.trans hnone
  have hnot' : h ∉ nd.hooks := by simpa [hooksOf_of_some hn] using hnot n
  refine hs.setBoth hn hh rfl (fun _ _ => rfl) rfl rfl ?_ (fun m _ => hnot m) rfl ?_ ?_ ?_
  · intro k hk
    exact List.mem_cons.trans (or_iff_right hk)
  · exact { hself with
      refs := by grind [hself.refs]
      pos := by grind [hself.pos]
      count := by grind [hself.count]
      nodup := List.nodup_cons.mpr ⟨hnot', hself.nodup⟩
      hooks := by
        intro k hk
        rw [St.nodeOf, withNode_hooks, withHook_hooks]
        split
        · rfl
        · next hne => exact hself.hooks k ((List.mem_cons.mp hk).resolve_left hne)
      emptied := by
        intro _ hclosed
        cases hvalid.symm.trans (hself.closing hclosed) }
  · exact { hself' with
      refs := by grind [hself'.refs]
      pos := by grind [hself'.pos]
      node := by
        rintro m ⟨⟩
        rw [St.hooksOf, withNode_nodes, if_pos rfl]
        exact Or.inl List.mem_cons_self
      peer := by
        intro p hp
        rcases hself'.peer p hp with ⟨hne, hback⟩
        refine ⟨hne, ?_⟩
        rwa [St.peerOf, withNode_hooks, withHook_hooks, if_neg hne]
      settled := fun _ => Or.inl (Or.inl hheld) }
  · intro m ht
    cases (hs.tokens _ ht).2.2.1.symm.trans hnone

theorem Sound.hookHeld_fresh (hs : Sound ample held s) (hfree : s.hooks h = none) :
    hookHeld held h = 0 := by
  refine List.count_eq_zero.mpr ?_
  intro ht
  have htoken := hs.tokens _ ht
  rw [Token.Holds, hfree] at htoken
  contradiction

theorem Sound.newHook (hs : Sound ample held s) (name : Name) (valid : Bool) :
    Sound ample (.hook s.nextHook :: held) (s.withNewHook ⟨name, valid, none, none, 1⟩) := by
  have hfresh := hs.freshHook s.nextHook (Nat.le_refl _)
  have hheld := hs.hookHeld_fresh hfresh
  have hswaps : Swaps (Token.About (fun _ => False) (· = s.nextHook)) held
      (.hook s.nextHook :: held) := .append [] [.hook s.nextHook] (by simp) (by simp)
  have hc : Spares ample (fun _ => False) (· = s.nextHook) held (.hook s.nextHook :: held) s
      (s.withHook s.nextHook (some ⟨name, valid, none, none, 1⟩)) :=
    .withHook (by rw [St.nodeOf, hfresh]; rfl) (by rw [St.peerOf, hfresh]; rfl) hswaps
  have hc' : Spares ample (fun _ => False) (· = s.nextHook) held (.hook s.nextHook :: held) s
      (s.withNewHook ⟨name, valid, none, none, 1⟩) :=
    ⟨hc.swaps, hc.nodes, hc.hooks, hc.nodeOf, hc.hooksOf, hc.peerOf, hc.leaving⟩
  refine hs.change hc' (by simp) ?_ ?_ hs.freshNode ?_ (by simpa using hs.items) hs.filed
  · rintro k kk rfl hkk
    rw [withNewHook_hooks, if_pos rfl] at hkk
    cases hkk
    exact {
      refs := by simp [Hook.ties, hheld]
      pos := Int.one_pos
      node := by simp
      peer := by simp
      settled := fun _ => Or.inl (Or.inl List.mem_cons_self) }
  · intro t ht htouches
    cases t with
    | hook k =>
        cases htouches
        rw [Token.Holds, withNewHook_hooks, if_pos rfl]
        rfl
    | detached k m =>
        cases htouches.resolve_left id
        rcases hs.tokens _ ((hswaps.mem (by simp)).mp ht) with ⟨_, _, hon, _⟩
        rw [St.nodeOf, hfresh] at hon
        contradiction
    | _ => contradiction
  · intro k hk
    rw [withNewHook_nextHook] at hk
    rw [withNewHook_hooks, if_neg (Nat.ne_of_gt hk)]
    exact hs.freshHook k (Nat.le_of_succ_le hk)

end Netgraph
end FStackLite
