import FStackLite.Netgraph.Lookup
import FStackLite.Netgraph.Path

/-!
# Following an address

An address names a node and the hooks to cross from there, one after the other.
`ng_path2noderef` leaves the graph as it was, and the caller with one reference on the node
that the address leads to, or with none.
-/

namespace FStackLite
namespace Netgraph

open Foundation Program

variable {ample : Prop} {held : List Token} {s s' s'' : St}
variable {n : NodeId} {nd : Node} {h p : HookId} {hk : Hook} {name : Name}

/-!
## Where an address leads
-/

/-- The hook of a node with a name is linked to a hook of the other node. -/
def St.Across (s : St) (n : NodeId) (name : Name) (m : NodeId) : Prop :=
  exists h p, s.hookNamed n name = some h ∧ s.peerOf h = some p ∧ s.nodeOf p = some m

def St.Leads (s : St) : List Name -> NodeId -> NodeId -> Prop
  | [], n, m => n = m
  | name :: rest, n, m => exists k, s.Across n name k ∧ s.Leads rest k m

/-- The node that is named, by `.`, by its identifier or by its name, or the sender. -/
def St.Begins (s : St) (here : NodeId) : Option Name -> NodeId -> Prop
  | none, n => n = here
  | some name, n =>
      if name = ['.'] then
        n = here
      else
        exists nd, s.nodes n = some nd ∧ nd.valid = true ∧
          if decodeidname name ≠ 0 then nd.id = decodeidname name else nd.name = name

def Address.names (addr : Address) : List Name :=
  addr.path.elim [] fun path => (segments path).1 :: (segments path).2

def St.Resolves (s : St) (here : NodeId) (address : Name) (m : NodeId) : Prop :=
  exists addr n, pathParse (address.take (NG_PATHSIZ - 1)) = some addr ∧
    s.Begins here addr.node n ∧ s.Leads addr.names n m

/-- Nothing but counts has changed; a node that nobody references any more is gone. -/
structure Keeps (s s' : St) : Prop where
  nodes : forall m md', s'.nodes m = some md' ->
    exists md, s.nodes m = some md ∧ md' = { md with refs := md'.refs }
  hooks : forall k, s'.shape k = s.shape k
  nextHook : s'.nextHook = s.nextHook

theorem Keeps.refl (s : St) : Keeps s s :=
  ⟨fun _ md hm => ⟨md, hm, rfl⟩, fun _ => rfl, rfl⟩

theorem Keeps.trans (hk : Keeps s s') (hk' : Keeps s' s'') : Keeps s s'' := by
  refine ⟨?_, fun k => (hk'.hooks k).trans (hk.hooks k), hk'.nextHook.trans hk.nextHook⟩
  intro m md'' hm''
  rcases hk'.nodes m md'' hm'' with ⟨md', hm', heq'⟩
  rcases hk.nodes m md' hm' with ⟨md, hm, heq⟩
  refine ⟨md, hm, ?_⟩
  rw [heq', heq]

theorem Keeps.valid (hk : Keeps s s') (hn : s.nodes n = some nd) (hvalid : nd.valid = true)
    (hs' : Sound ample held s') (hheld : .node n ∈ held) :
    exists nd', s'.nodes n = some nd' ∧ nd'.valid = true := by
  obtain ⟨nd', hn'⟩ := Option.isSome_iff_exists.mp (hs'.tokens _ hheld)
  rcases hk.nodes n nd' hn' with ⟨md, hm, heq⟩
  cases hm.symm.trans hn
  rw [heq] at hn'
  exact ⟨_, hn', hvalid⟩

theorem Keeps.hookNamed (hkeeps : Keeps s s') (hnamed : s'.hookNamed n name = some h) :
    s.hookNamed n name = some h := by
  have hlist : s'.hooksOf n = s.hooksOf n := by
    cases hn : s'.nodes n with
    | none => simp [St.hookNamed, St.hooksOf, hn] at hnamed
    | some nd' =>
        rcases hkeeps.nodes n nd' hn with ⟨nd, hnd, heq⟩
        rw [St.hooksOf, St.hooksOf, hn, hnd, Option.elim_some, Option.elim_some, heq]
  have htest : s'.isHook name = s.isHook name := by
    funext k
    have hshape := hkeeps.hooks k
    cases hk : s.hooks k <;> cases hk' : s'.hooks k <;> simp_all [St.shape, St.isHook]
  rwa [St.hookNamed, hlist, htest] at hnamed

theorem Keeps.across (hkeeps : Keeps s s') {m : NodeId} (hacross : s'.Across n name m) :
    s.Across n name m := by
  rcases hacross with ⟨h, p, hnamed, hpeer, hnode⟩
  refine ⟨h, p, hkeeps.hookNamed hnamed, ?_, ?_⟩
  · rw [<- hpeer, peerOf_shape, peerOf_shape, hkeeps.hooks]
  · rw [<- hnode, nodeOf_shape, nodeOf_shape, hkeeps.hooks]

theorem Keeps.leads (hkeeps : Keeps s s') {names : List Name} {m : NodeId}
    (hleads : s'.Leads names n m) : s.Leads names n m := by
  induction names generalizing n with
  | nil => exact hleads
  | cons name rest ih =>
      rcases hleads with ⟨k, hacross, hrest⟩
      exact ⟨k, hkeeps.across hacross, ih hrest⟩

theorem refNode_keeps (hs : Sound ample held s) (hn : (s.nodes n).isSome = true) :
    Returns (refNode n) s fun _ s' => Sound ample (.node n :: held) s' ∧ Keeps s s' := by
  obtain ⟨nd, hn⟩ := Option.isSome_iff_exists.mp hn
  refine returns_modifyNode.mpr ⟨nd, hn, hs.refNode hn, ?_, fun _ => rfl, rfl⟩
  intro m md' hm
  rw [withNode_nodes] at hm
  split at hm
  · next heq =>
      cases hm
      rw [heq]
      exact ⟨nd, hn, rfl⟩
  · exact ⟨md', hm, rfl⟩

theorem unrefNode_keeps (hs : Sound ample (.node n :: held) s) :
    Returns (unrefNode n) s fun _ s' => Sound ample held s' ∧ Keeps s s' := by
  refine (unrefNode_sound hs).imp ?_
  rintro _ s' ⟨hs', hcuts, hself⟩
  refine ⟨hs', ?_, fun k => hcuts.shape id, hcuts.nextHook⟩
  intro m md' hm
  by_cases heq : m = n
  · rw [heq] at hm ⊢
    rcases hself md' hm with ⟨nd, hn, hnd⟩
    exact ⟨nd, hn, by rw [hnd]⟩
  · rw [hcuts.nodes m heq] at hm
    exact ⟨md', hm, rfl⟩

def arrived : Except Nat (NodeId × Option HookId) -> List Token
  | .error _ => []
  | .ok (m, none) => [.node m]
  | .ok (m, some p) => [.hook p, .node m]

structure Follows (ample : Prop) (held : List Token) (n : NodeId) (name : Name) (s : St)
    (result : Except Nat (NodeId × HookId)) (s' : St) : Prop where
  keeps : Keeps s s'
  error : forall e, result = .error e -> e ≠ 0 ∧ Sound ample held s'
  ok : forall m p, result = .ok (m, p) ->
    Sound ample (.node m :: held) s' ∧ (s'.hooks p).isSome = true ∧ s.Across n name m

theorem follows_error {e : Nat} {k : NodeId} (hs : Sound ample (.node n :: held) s) (he : e ≠ 0) :
    Returns (do unrefNode n; pure (.error e)) s fun result s' =>
      Follows ample held k name s result s' := by
  refine Returns.bind (unrefNode_keeps hs) ?_
  rintro _ s' ⟨hs', hkeeps⟩
  exact returns_pure.mpr ⟨hkeeps, by rintro _ ⟨⟩; exact ⟨he, hs'⟩, by rintro m p ⟨⟩⟩

theorem followHook_sound {segment : Name} (hs : Sound ample (.node n :: held) s)
    (hnone : forall k m, .detached k m ∉ held) : Returns (followHook n segment) s fun result s' =>
      Follows ample held n segment s result s' := by
  obtain ⟨nd, hn⟩ := Option.isSome_iff_exists.mp (hs.tokens _ List.mem_cons_self)
  unfold followHook
  refine Returns.bind (findhook_finds hs hn) ?_
  rintro found t ⟨rfl, hfound⟩
  cases found with
  | none => exact follows_error hs (by decide)
  | some h =>
      have hmem := List.mem_of_find?_eq_some hfound.symm
      obtain ⟨hk, hh, _⟩ := Option.bind_eq_some_iff.mp (hs.nodeOf_of_mem hmem)
      refine bind_hook hh ?_
      cases hpeer : hk.peer with
      | none => exact follows_error hs (by decide)
      | some p =>
          obtain ⟨_, pk, hp, _⟩ := hs.exists_peer hh hpeer
          refine bind_hook hp ?_
          refine returns_ite.mpr ?_
          split
          · exact follows_error hs (by decide)
          · cases hnode : pk.node with
            | none => exact follows_error hs (by decide)
            | some m =>
                have hlist : p ∈ t.hooksOf m :=
                  ((hs.hooks p pk hp).node m hnode).resolve_right (by simpa using hnone p m)
                rcases exists_node_of_mem hlist with ⟨md, hm, _⟩
                refine Returns.bind (refNode_keeps hs (by rw [hm]; rfl)) ?_
                rintro _ u ⟨hu, htu⟩
                refine Returns.bind (unrefNode_keeps (hu.perm (List.Perm.swap ..))) ?_
                rintro _ v ⟨hv, huv⟩
                obtain ⟨md, hmd⟩ := Option.isSome_iff_exists.mp (hv.tokens _ List.mem_cons_self)
                refine returns_bind.mpr (returns_node.mpr ⟨md, hmd, returns_ite.mpr ?_⟩)
                split
                · refine returns_pure.mpr ⟨htu.trans huv, by rintro e ⟨⟩, ?_⟩
                  rintro _ _ ⟨⟩
                  refine ⟨hv, ?_, h, p, hfound.symm, ?_, ?_⟩
                  · have hshape := (htu.trans huv).hooks p
                    cases hpv : v.hooks p <;> simp_all [St.shape]
                  · rw [St.peerOf, hh, Option.bind_some, hpeer]
                  · rw [St.nodeOf, hp, Option.bind_some, hnode]
                · refine Returns.bind (unrefNode_keeps hv) ?_
                  rintro _ s' ⟨hs', hkeeps⟩
                  refine returns_pure.mpr ⟨(htu.trans huv).trans hkeeps, ?_, by rintro m p ⟨⟩⟩
                  rintro _ ⟨⟩
                  exact ⟨by decide, hs'⟩

theorem followHooks_sound {lasthook : Bool} {segment : Name} {rest : List Name}
    (hs : Sound ample (.node n :: held) s) (hnone : forall k m, .detached k m ∉ held) :
    Returns (followHooks lasthook n segment rest) s fun result s' =>
      Sound ample (arrived result ++ held) s' ∧ Keeps s s' ∧
        (forall e, result = .error e -> e ≠ 0) ∧ forall m last, result = .ok (m, last) ->
          (lasthook = false -> last = none) ∧ s.Leads (segment :: rest) n m := by
  induction rest generalizing n s segment with
  | nil =>
      unfold followHooks
      refine Returns.bind (followHook_sound hs hnone) ?_
      rintro result t ⟨hkeeps, herror, hok⟩
      cases result with
      | error e =>
          rcases herror e rfl with ⟨he, ht⟩
          refine returns_pure.mpr ⟨ht, hkeeps, ?_, by rintro m last ⟨⟩⟩
          rintro _ ⟨⟩
          exact he
      | ok x =>
          rcases hok x.1 x.2 rfl with ⟨ht, hp, hacross⟩
          obtain ⟨pk, hp⟩ := Option.isSome_iff_exists.mp hp
          refine returns_ite.mpr ?_
          split
          · next hlast =>
              refine returns_bind.mpr (returns_modifyHook.mpr ⟨pk, hp, returns_pure.mpr ?_⟩)
              refine ⟨ht.refHook hp, hkeeps.trans ⟨fun m md hm => ⟨md, hm, rfl⟩, ?_, rfl⟩,
                by rintro e ⟨⟩, ?_⟩
              · intro k
                rw [St.shape, withHook_hooks]
                split
                · next heq =>
                    rw [heq, shape_of_some hp]
                    rfl
                · rfl
              · rw [hlast]
                rintro m last ⟨⟩
                exact ⟨by rintro ⟨⟩, x.1, hacross, rfl⟩
          · refine returns_pure.mpr ⟨ht, hkeeps, by rintro e ⟨⟩, ?_⟩
            rintro m last ⟨⟩
            exact ⟨fun _ => rfl, x.1, hacross, rfl⟩
  | cons segment' rest ih =>
      unfold followHooks
      refine Returns.bind (followHook_sound hs hnone) ?_
      rintro result t ⟨hkeeps, herror, hok⟩
      cases result with
      | error e =>
          rcases herror e rfl with ⟨he, ht⟩
          refine returns_pure.mpr ⟨ht, hkeeps, ?_, by rintro m last ⟨⟩⟩
          rintro _ ⟨⟩
          exact he
      | ok x =>
          rcases hok x.1 x.2 rfl with ⟨ht, _, hacross⟩
          refine (ih ht).imp ?_
          rintro result s' ⟨hs', hkeeps', herror', hok'⟩
          refine ⟨hs', hkeeps.trans hkeeps', herror', ?_⟩
          intro m last hresult
          rcases hok' m last hresult with ⟨hlast, hleads⟩
          exact ⟨hlast, x.1, hacross, hkeeps.leads hleads⟩

/-!
## The node that a path starts from
-/

theorem nameFind_finds (hs : Sound ample held s) (hname : name ≠ []) :
    Returns (findIn (named name) (s.tables.nameChain name)) s fun found s' =>
      s' = s ∧ Finds s.label s (named name) found := by
  refine findIn_finds ?_ ?_
  · intro n hn
    have hmem := (hs.filed.names.mem n).mp (Chains.mem_flatten_iff.mpr ⟨_, hn⟩)
    cases hn' : s.nodes n <;> simp_all [nameOf, St.label]
  · intro n nd _ hnd htest
    simp only [named, Bool.and_eq_true, beq_iff_eq] at htest
    refine hs.filed.names.mem_chain ?_
    simp [nameOf, label_of_some hnd, Node.label, htest.2, hname]

structure Referenced (ample : Prop) (held : List Token) (s : St) (found : Option NodeId)
    (s' : St) : Prop where
  keeps : Keeps s s'
  none : found = none -> Sound ample held s'
  some : forall n, found = some n -> Sound ample (.node n :: held) s'

theorem refFound_sound {found : Option NodeId} (hs : Sound ample held s)
    (hlive : forall n, found = some n -> (s.nodes n).isSome = true) :
    Returns (refFound found) s fun result s' =>
      result = found ∧ Referenced ample held s result s' := by
  cases found with
  | none => exact returns_pure.mpr ⟨rfl, .refl s, fun _ => hs, by rintro n ⟨⟩⟩
  | some n =>
      refine Returns.bind (refNode_keeps hs (hlive n rfl)) ?_
      rintro _ s' ⟨hs', hkeeps⟩
      refine returns_pure.mpr ⟨rfl, hkeeps, by rintro ⟨⟩, ?_⟩
      rintro _ ⟨⟩
      exact hs'

theorem Finds.live {label : NodeId -> Option Label} {test : Node -> Bool} {found : Option NodeId}
    (hfinds : Finds label s test found) (hfound : found = some n) : (s.nodes n).isSome = true := by
  rcases (hfinds.hit n hfound).2 with ⟨nd, hn, _⟩
  rw [hn]
  rfl

theorem ID2noderef_sound {id : Nat} (hs : Sound ample held s) :
    Returns (ID2noderef id) s fun found s' =>
      Finds s.label s (hasID id) found ∧ Referenced ample held s found s' := by
  unfold ID2noderef
  refine Returns.bind (idhashFind_finds _ (fun _ _ hl => hl) hs.filed.ids) ?_
  rintro found t ⟨rfl, hfinds⟩
  refine (refFound_sound hs fun n hn => hfinds.live hn).imp ?_
  rintro result s' ⟨rfl, hreferenced⟩
  exact ⟨hfinds, hreferenced⟩

theorem pathOnly_node {node : Option Name} {path : Name} {parsed : Address}
    (hparse : pathOnly node path = some parsed) : parsed.node = node := by
  unfold pathOnly at hparse
  grind

theorem pathParse_node {addr : Name} {parsed : Address} (hparse : pathParse addr = some parsed)
    (hnode : parsed.node = some name) : name ≠ [] := by
  unfold pathParse at hparse
  dsimp only at hparse
  split at hparse
  · rw [pathOnly_node hparse] at hnode
    contradiction
  · split at hparse
    · contradiction
    · next hfront =>
        split at hparse
        · contradiction
        · rw [pathOnly_node hparse] at hnode
          injection hnode with hnode
          rw [<- hnode]
          intro hnil
          rw [hnil] at hfront
          exact hfront rfl

theorem startNode_sound {here : NodeId} {addr : Option Name} (hs : Sound ample held s)
    (hhere : (s.nodes here).isSome = true) (hname : forall name, addr = some name -> name ≠ []) :
    Returns (startNode here addr) s fun found s' => Referenced ample held s found s' ∧
      forall n, found = some n -> s.Begins here addr n := by
  have hself : Returns (refFound (some here)) s fun found s' =>
      found = some here ∧ Referenced ample held s found s' := by
    apply refFound_sound hs
    rintro n ⟨⟩
    exact hhere
  cases addr with
  | none =>
      refine hself.imp ?_
      rintro _ s' ⟨rfl, hreferenced⟩
      refine ⟨hreferenced, ?_⟩
      rintro n ⟨⟩
      rfl
  | some name =>
      show Returns (name2noderef here name) s _
      unfold name2noderef
      split
      · next hdot =>
          refine hself.imp ?_
          rintro _ s' ⟨rfl, hreferenced⟩
          refine ⟨hreferenced, ?_⟩
          rintro n ⟨⟩
          rw [St.Begins, if_pos hdot]
      · next hdot =>
          split
          · next hid =>
              refine (ID2noderef_sound hs).imp ?_
              rintro found s' ⟨hfinds, hreferenced⟩
              refine ⟨hreferenced, fun n hn => ?_⟩
              rcases (hfinds.hit n hn).2 with ⟨nd, hnd, htest⟩
              simp only [hasID, Bool.and_eq_true, beq_iff_eq] at htest
              rw [St.Begins, if_neg hdot]
              exact ⟨nd, hnd, htest.1, by rw [if_pos hid]; exact htest.2⟩
          · next hid =>
              refine returns_bind.mpr (returns_get.mpr ?_)
              refine Returns.bind (nameFind_finds hs (hname name rfl)) ?_
              rintro found t ⟨rfl, hfinds⟩
              refine (refFound_sound hs fun n hn => hfinds.live hn).imp ?_
              rintro _ s' ⟨rfl, hreferenced⟩
              refine ⟨hreferenced, fun n hn => ?_⟩
              rcases (hfinds.hit n hn).2 with ⟨nd, hnd, htest⟩
              simp only [named, Bool.and_eq_true, beq_iff_eq] at htest
              rw [St.Begins, if_neg hdot]
              exact ⟨nd, hnd, htest.1, by rw [if_neg hid]; exact htest.2⟩

theorem path2noderef_sound {here : NodeId} {address : Name} {lasthook : Bool}
    (hs : Sound ample held s) (hhere : (s.nodes here).isSome = true)
    (hnone : forall k m, .detached k m ∉ held) :
    Returns (path2noderef here address lasthook) s fun result s' =>
      Sound ample (arrived result ++ held) s' ∧ Keeps s s' ∧
        (forall e, result = .error e -> e ≠ 0) ∧ forall m last, result = .ok (m, last) ->
          (lasthook = false -> last = none) ∧ s.Resolves here address m := by
  unfold path2noderef
  cases hparse : pathParse (address.take (NG_PATHSIZ - 1)) with
  | none => exact returns_pure.mpr ⟨hs, .refl s, by rintro e ⟨⟩; decide, by rintro m last ⟨⟩⟩
  | some addr =>
      refine Returns.bind (startNode_sound hs hhere fun name => pathParse_node hparse) ?_
      rintro found t ⟨⟨hkeeps, hmiss, hfound⟩, hbegins⟩
      cases found with
      | none =>
          exact returns_pure.mpr ⟨hmiss rfl, hkeeps, by rintro e ⟨⟩; decide, by rintro m last ⟨⟩⟩
      | some n =>
          have ht := hfound n rfl
          have hresolves : forall m, s.Leads addr.names n m -> s.Resolves here address m :=
            fun m hleads => ⟨addr, n, hparse, hbegins n rfl, hleads⟩
          unfold Address.names at hresolves
          cases hpath : addr.path with
          | none =>
              rw [hpath] at hresolves
              refine returns_pure.mpr ⟨ht, hkeeps, by rintro e ⟨⟩, ?_⟩
              rintro m last ⟨⟩
              exact ⟨fun _ => rfl, hresolves n rfl⟩
          | some path =>
              rw [hpath] at hresolves
              refine (followHooks_sound ht hnone).imp ?_
              rintro result s' ⟨hs', hkeeps', herror, hok⟩
              refine ⟨hs', hkeeps.trans hkeeps', herror, ?_⟩
              intro m last hresult
              rcases hok m last hresult with ⟨hlast, hleads⟩
              exact ⟨hlast, hresolves m (hkeeps.leads hleads)⟩

end Netgraph
end FStackLite
