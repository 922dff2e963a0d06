import FStackLite.Netgraph.Message
import FStackLite.Netgraph.Resolve

/-!
# Runs of messages

Types and nodes come and go and messages are sent, one after the other, with whatever
answers the allocator and the node types give.  No run uses memory that was given back,
and between two operations all counts and tables are right.
-/

namespace FStackLite
namespace Netgraph

open Foundation Program

variable {env : Env} {ample : Prop} {held : List Token} {s s' : St}
variable {n : NodeId} {nd : Node} {h : HookId} {hk : Hook} {depth : Nat}

def Deep (s : St) (depth : Nat) : Prop :=
  s.nextHook + 2 ≤ depth ∧ s.tables.idHash.flatten.length + 2 ≤ depth

theorem Sound.length_hooks_le (hs : Sound ample held s) (hn : s.nodes n = some nd) :
    nd.hooks.length ≤ s.nextHook := by
  have hsub : nd.hooks ⊆ List.range s.nextHook := by
    intro h hmem
    rw [List.mem_range]
    by_contra hge
    have hfresh := hs.freshHook h (Nat.le_of_not_lt hge)
    have hnode := (hs.nodes n nd hn).hooks h hmem
    rw [St.nodeOf, hfresh] at hnode
    contradiction
  have hle := ((hs.nodes n nd hn).nodup.subperm hsub).length_le
  rwa [List.length_range] at hle

theorem Sound.allValid (hs : Sound ample [] s) (hample : ample) : AllValid s := by
  intro m md hm
  have hself := hs.nodes m md hm
  have hnone : nodeHeld [] m = 0 := rfl
  cases hvalid : md.valid with
  | true => rfl
  | false =>
      have hclosing := (hself.leaving hample hvalid).resolve_right List.not_mem_nil
      have hnil := (hself.emptied hample hclosing).resolve_right List.not_mem_nil
      have hrefs := hself.refs
      have hpos := hself.pos
      simp [Node.own, hclosing, hnil, hnone] at hrefs
      omega

/-!
## Messages
-/

/--
A request to the node with an identifier to connect it to the one that a path leads to: it makes
the two hooks of a link between them, or leaves all hooks as they were.
-/
structure Connected (id : Nat) (path ourhook peerhook : Name) (e : Nat) (s s' : St) : Prop where
  done : e = 0 -> exists n nd m, s.nodes n = some nd ∧ nd.id = id ∧ s.Resolves n path m ∧
    s'.shape s.nextHook =
      some (ourhook.take (NG_HOOKSIZ - 1), true, some (s.nextHook + 1), some n) ∧
    s'.shape (s.nextHook + 1) =
      some (peerhook.take (NG_HOOKSIZ - 1), true, some s.nextHook, some m) ∧
    forall k, k ≠ s.nextHook -> k ≠ s.nextHook + 1 -> s'.shape k = s.shape k
  failed : e ≠ 0 -> forall k, s'.shape k = s.shape k

theorem Joins.connected {t u : St} {m : NodeId} {path name name2 : Name} {e : Nat}
    (hjoins : Joins n name m name2 e t u) (hkeeps : Keeps s t) (hkeeps' : Keeps u s')
    (hn : s.nodes n = some nd) (hresolves : s.Resolves n path m) :
    Connected nd.id path name name2 e s s' := by
  have hback := hkeeps.hooks
  constructor
  · intro h0
    rcases hjoins.done h0 with ⟨hone, htwo, hothers⟩
    rw [hkeeps.nextHook] at hone htwo hothers
    refine ⟨n, nd, m, hn, rfl, hresolves, by rw [hkeeps'.hooks, St.shape, hone]; rfl,
      by rw [hkeeps'.hooks, St.shape, htwo]; rfl, ?_⟩
    intro k h1 h2
    rw [hkeeps'.hooks, <- hback, St.shape, hothers k h1 h2]
    rfl
  · intro herror k
    rw [hkeeps'.hooks, <- hback, St.shape, hjoins.failed herror]
    rfl

theorem Keeps.resolves (hkeeps : Keeps s s') {address : Name} {m : NodeId}
    (hresolves : s'.Resolves n address m) : s.Resolves n address m := by
  rcases hresolves with ⟨addr, k, hparse, hbegins, hleads⟩
  refine ⟨addr, k, hparse, ?_, hkeeps.leads hleads⟩
  cases hnode : addr.node with
  | none =>
      rw [hnode] at hbegins
      exact hbegins
  | some name =>
      rw [hnode, St.Begins] at hbegins
      rw [St.Begins]
      split
      · next hdot =>
          rwa [if_pos hdot] at hbegins
      · next hdot =>
          rw [if_neg hdot] at hbegins
          rcases hbegins with ⟨kd', hkd', hvalid, hname⟩
          rcases hkeeps.nodes k kd' hkd' with ⟨kd, hkd, heq⟩
          rw [heq] at hvalid hname
          exact ⟨kd, hkd, hvalid, hname⟩

/-- The counts before and after a request do not matter to what it connects. -/
theorem Connected.between {t u : St} {id e : Nat} {path name name2 : Name}
    (h : Connected id path name name2 e t u) (hkeeps : Keeps s t) (hkeeps' : Keeps u s') :
    Connected id path name name2 e s s' := by
  constructor
  · intro h0
    rcases h.done h0 with ⟨n, nd', m, hn', hid, hresolves, hone, htwo, hothers⟩
    rcases hkeeps.nodes n nd' hn' with ⟨nd, hn, heq⟩
    rw [heq] at hid
    simp only [hkeeps.nextHook, hkeeps.hooks, <- hkeeps'.hooks] at hone htwo hothers
    exact ⟨n, nd, m, hn, hid, hkeeps.resolves hresolves, hone, htwo, hothers⟩
  · intro herror k
    rw [hkeeps'.hooks, h.failed herror, hkeeps.hooks]

theorem runCmd_sound {cmd : Cmd} (hconv : env.Conventional) (hitems : ample -> env.HasItems)
    (hs : Sound ample held s) (hn : s.nodes n = some nd) (hvalid : nd.valid = true)
    (hheld : .node n ∈ held) (hnone : forall k m, .detached k m ∉ held)
    (hdepth : s.nextHook + 2 ≤ depth) :
    Returns (runCmd env depth n cmd) s fun e s' => Sound ample held s' ∧
      forall path ourhook peerhook, cmd = .connect path ourhook peerhook ->
        Connected nd.id (field 512 path) (field 32 ourhook) (field 32 peerhook) e s s' := by
  have hlen := hs.length_hooks_le hn
  have hdestroy : Destroys ample (destroyHook env depth) := by
    obtain ⟨d, rfl⟩ : exists d, depth = d + 2 := ⟨depth - 2, by omega⟩
    exact destroyHook_sound hconv hitems d
  cases cmd with
  | shutdown =>
      refine Returns.bind (rmnode_sound hconv hitems hs hn (by omega) (by omega)) ?_
      rintro _ s' ⟨hs', _⟩
      exact returns_pure.mpr ⟨hs', by rintro _ _ _ ⟨⟩⟩
  | connect path ourhook peerhook =>
      refine Returns.bind (path2noderef_sound hs (by rw [hn]; rfl) hnone) ?_
      rintro result t ⟨ht, hkeeps, herror, hlast⟩
      cases result with
      | error e =>
          refine returns_pure.mpr ⟨ht, ?_⟩
          rintro _ _ _ ⟨⟩
          exact ⟨fun h0 => absurd h0 (herror e rfl), fun _ => hkeeps.hooks⟩
      | ok x =>
          rcases x with ⟨m, last⟩
          rcases hlast m last rfl with ⟨hnolast, hresolves⟩
          cases hnolast rfl
          obtain ⟨nd', hn', hvalid'⟩ := hkeeps.valid hn hvalid ht (List.mem_cons_of_mem _ hheld)
          refine Returns.bind (conNodes_sound hdestroy ht hn' hvalid' List.mem_cons_self
            (by simpa [arrived] using hnone)) ?_
          rintro e u ⟨hu, hjoins⟩
          refine Returns.bind (unrefNode_keeps hu) ?_
          rintro _ s' ⟨hs', hkeeps'⟩
          refine returns_pure.mpr ⟨hs', ?_⟩
          rintro _ _ _ ⟨⟩
          exact hjoins.connected hkeeps hkeeps' hn hresolves
  | rmhook ourhook =>
      refine Returns.bind (findhook_finds hs hn) ?_
      rintro found t ⟨rfl, hfound⟩
      cases found with
      | none => exact returns_pure.mpr ⟨hs, by rintro _ _ _ ⟨⟩⟩
      | some h =>
          have hmem := List.mem_of_find?_eq_some hfound.symm
          obtain ⟨hk, hh, _⟩ := Option.bind_eq_some_iff.mp (hs.nodeOf_of_mem hmem)
          refine Returns.bind (hdestroy held t h hk hs hh (hnone h)) ?_
          intro _ s' hs'
          exact returns_pure.mpr ⟨hs'.sound, by rintro _ _ _ ⟨⟩⟩

theorem sendMsg_sound {id : Nat} {msg : Msg} (hconv : env.Conventional)
    (hitems : ample -> env.HasItems) (hs : Sound ample [] s) (hdepth : s.nextHook + 2 ≤ depth) :
    Returns (sendMsg env depth id msg) s fun e s' => Sound ample [] s' ∧
      forall path ourhook peerhook, msg.cmd = .connect path ourhook peerhook ->
        Connected id (field 512 path) (field 32 ourhook) (field 32 peerhook) e s s' := by
  unfold sendMsg
  refine Returns.bind (ID2noderef_sound hs) ?_
  rintro found t ⟨hfinds, hkeeps, hmiss, hfound⟩
  cases found with
  | none =>
      refine returns_pure.mpr ⟨hmiss rfl, ?_⟩
      exact fun _ _ _ _ => ⟨by simp [EINVAL], fun _ => hkeeps.hooks⟩
  | some n =>
      have ht := hfound n rfl
      obtain ⟨_, nd, hn, htest⟩ := hfinds.hit n rfl
      simp only [hasID, Bool.and_eq_true, beq_iff_eq] at htest
      obtain ⟨nd', hn', hvalid⟩ := hkeeps.valid hn htest.1 ht List.mem_cons_self
      have hid : nd'.id = id := by
        rcases hkeeps.nodes n nd' hn' with ⟨old, hold, heq⟩
        cases hold.symm.trans hn
        rw [heq]
        exact htest.2
      refine bind_node hn' ?_
      rw [if_pos hvalid]
      unfold genericMsg
      refine Returns.bind (P := fun e u => Sound ample [.node n] u ∧
        forall path ourhook peerhook, msg.cmd = .connect path ourhook peerhook ->
          Connected id (field 512 path) (field 32 ourhook) (field 32 peerhook) e s u) ?_ ?_
      · split
        · refine (runCmd_sound hconv hitems ht hn' hvalid (by simp) (by simp)
            (by rwa [hkeeps.nextHook])).imp ?_
          rintro e u ⟨hu, hconnects⟩
          refine ⟨hu, fun path ourhook peerhook hcmd => ?_⟩
          rw [<- hid]
          exact (hconnects path ourhook peerhook hcmd).between hkeeps (.refl u)
        · exact returns_pure.mpr ⟨ht, fun _ _ _ _ => ⟨by simp [EINVAL], fun _ => hkeeps.hooks⟩⟩
      · rintro e u ⟨hu, hconnects⟩
        refine Returns.bind (unrefNode_keeps hu) ?_
        rintro _ s' ⟨hs', hkeeps'⟩
        refine returns_pure.mpr ⟨hs', fun path ourhook peerhook hcmd => ?_⟩
        exact (hconnects path ourhook peerhook hcmd).between (.refl s) hkeeps'

/-!
## Runs
-/

inductive Op where
  | newtype (type : Name)
  | rmtype (type : Name)
  | make (type : Name)
  | send (id : Nat) (msg : Msg)
deriving DecidableEq, Repr

def Op.run (env : Env) (depth : Nat) : Op -> M Nat
  | .newtype type => Netgraph.newtype type
  | .rmtype type => Netgraph.rmtype type
  | .make type => do
      match <- makeNodeCommon env depth type with
      | .error error => pure error
      | .ok _ => pure 0
  | .send id msg => sendMsg env depth id msg

/-- A type that was removed is not removed once more, which would unlink it twice. -/
def Op.Proper (s : St) : Op -> Prop
  | .rmtype type => (s.tables.types type).isSome = true ∨ s.tables.retired type = false
  | _ => True

/-- A state between two operations; `ample` if no item has ever been missing. -/
inductive Reachable (ample : Prop) : St -> Prop
  | start : Reachable ample St.start
  | step {s s' : St} {env : Env} {depth e : Nat} {op : Op} (hs : Reachable ample s)
      (hconv : env.Conventional) (hitems : ample -> env.HasItems) (hdepth : Deep s depth)
      (hroom : HasRoom s) (hproper : op.Proper s)
      (hrun : (op.run env depth).run s = .ok (e, s')) : Reachable ample s'

theorem Op.run_sound {op : Op} (hs : Sound ample [] s) (hconv : env.Conventional)
    (hitems : ample -> env.HasItems) (hdepth : Deep s depth) (hroom : HasRoom s)
    (hproper : op.Proper s) : Returns (op.run env depth) s fun _ s' => Sound ample [] s' := by
  have htables : forall t, Filed ample s.label t -> Sound ample [] { s with tables := t } :=
    fun t hf => hs.congr rfl rfl rfl (Nat.le_refl _) rfl hf
  cases op with
  | newtype type =>
      refine returns_ite.mpr ?_
      split
      · exact returns_pure.mpr hs
      · refine returns_bind.mpr (returns_get.mpr (returns_ite.mpr ?_))
        split
        · exact returns_pure.mpr hs
        · next hnone =>
            refine returns_bind.mpr (returns_modifyTables.mpr (returns_pure.mpr (htables _ ?_)))
            exact hs.filed.addType (by simpa using hnone)
  | rmtype type =>
      refine returns_bind.mpr (returns_get.mpr ?_)
      cases htype : s.tables.types type with
      | none =>
          have hretired : s.tables.retired type = false := by simpa [Op.Proper, htype] using hproper
          simp only [htype, hretired, Bool.false_eq_true, if_false]
          exact returns_pure.mpr hs
      | some refs =>
          simp only [htype]
          refine returns_ite.mpr ?_
          split
          · exact returns_pure.mpr hs
          · next hone =>
              rw [not_not] at hone
              refine returns_bind.mpr (returns_modifyTables.mpr (returns_pure.mpr (htables _ ?_)))
              exact hs.filed.removeType (by rw [htype, hone]) _
  | make type =>
      refine Returns.bind (makeNodeCommon_sound hs hs.allValid hdepth.2 hroom) ?_
      rintro result s' ⟨hs', _⟩
      cases result with
      | error e => exact returns_pure.mpr hs'
      | ok n => exact returns_pure.mpr hs'
  | send id msg => exact (sendMsg_sound hconv hitems hs hdepth.1).imp fun _ _ hpost => hpost.1

theorem Reachable.sound (hs : Reachable ample s) : Sound ample [] s := by
  induction hs with
  | start =>
      refine ⟨?_, ?_, ?_, fun _ _ => rfl, fun _ _ => rfl, rfl, Filed.start⟩
      · rintro n nd ⟨⟩
      · rintro h hk ⟨⟩
      · rintro t ⟨⟩
  | step _ hconv hitems hdepth hroom hproper hrun ih =>
      exact (Op.run_sound ih hconv hitems hdepth hroom hproper).of_run hrun

/-!
## What holds between two operations
-/

def obliging : Env :=
  ⟨fun _ => true, fun _ => true, fun _ => true, fun _ => true, fun _ => 0, fun _ => 0,
    fun _ _ _ => false, fun _ => false⟩

theorem obliging_conventional : obliging.Conventional := by
  intro _ _ _ h
  contradiction

instance (s : St) (depth : Nat) : Decidable (Deep s depth) :=
  inferInstanceAs (Decidable (_ ∧ _))

instance (s : St) : Decidable (HasRoom s) :=
  inferInstanceAs (Decidable (_ ≤ _))

instance (op : Op) (s : St) : Decidable (op.Proper s) := by
  cases op <;> unfold Op.Proper <;> infer_instance

/-- Operations with a depth of 9, one after the other, and what they return. -/
def runAll : List Op -> St -> Option (List Nat × St)
  | [], s => some ([], s)
  | op :: ops, s =>
      if Deep s 9 ∧ HasRoom s ∧ op.Proper s then
        match (op.run obliging 9).run s with
        | .error _ => none
        | .ok (e, s') => (runAll ops s').map fun r => (e :: r.1, r.2)
      else
        none

theorem Reachable.runAll {ops : List Op} {es : List Nat} (hs : Reachable True s)
    (hrun : Netgraph.runAll ops s = some (es, s')) : Reachable True s' := by
  induction ops generalizing s es with
  | nil =>
      injection hrun with hrun
      injection hrun with _ hrun
      rwa [<- hrun]
  | cons op ops ih =>
      unfold Netgraph.runAll at hrun
      split at hrun
      · next hready =>
          split at hrun
          · contradiction
          · next e t hstep =>
              rcases Option.map_eq_some_iff.mp hrun with ⟨⟨es', u⟩, hrest, heq⟩
              injection heq with _ heq
              subst heq
              exact ih (hs.step obliging_conventional (fun _ _ => rfl) hready.1 hready.2.1
                hready.2.2 hstep) hrest
      · contradiction

/-- Two types and three nodes of the first one. -/
def setUp : List Op :=
  [.newtype ['a'], .newtype ['b'], .make ['a'], .make ['a'], .make ['a']]

/-- Links the node with identifier 1 to the one with identifier 2. -/
def linkOp : Op :=
  .send 1 ⟨.connect ['[', '2', ']', ':'] ['x'] ['y'], 576⟩

/-- The first two of three nodes have been linked. -/
structure Linked (s s' : St) : Prop where
  before : Reachable True s
  deep : Deep s 9
  room : HasRoom s
  run : (linkOp.run obliging 9).run s = .ok (0, s')
  reachable : Reachable True s'
  deep_after : Deep s' 9
  room_after : HasRoom s'
  first : s'.nodes 0 = some ⟨[], ['a'], true, false, 1, 1, [0], 2⟩
  second : s'.nodes 1 = some ⟨[], ['a'], true, false, 1, 2, [1], 2⟩
  third : s'.nodes 2 = some ⟨[], ['a'], true, false, 0, 3, [], 1⟩
  hook : s'.hooks 0 = some ⟨['x'], true, some 1, some 0, 2⟩
  peer : s'.hooks 1 = some ⟨['y'], true, some 0, some 1, 2⟩
  used : s'.tables.types ['a'] = some 4
  unused : s'.tables.types ['b'] = some 1
  make : exists t, (makeNodeCommon obliging 9 ['a']).run s' = .ok (.ok 3, t)
  remove : exists t, (rmtype ['b']).run s' = .ok (0, t)

theorem exists_ok {e α : Type} {r : Except e α} {p : α -> Bool} (h : r.toOption.any p = true) :
    exists a, r = .ok a ∧ p a = true := by
  cases r with
  | error _ => contradiction
  | ok a => exact ⟨a, rfl, h⟩

theorem exists_linked : exists s s', Linked s s' := by
  have hsetUp : (runAll setUp St.start).any (fun r => Deep r.2 9 ∧ HasRoom r.2 ∧
      ((linkOp.run obliging 9).run r.2).toOption.any fun t => t.1 = 0 ∧ Deep t.2 9 ∧
        HasRoom t.2 ∧ t.2.nodes 0 = some ⟨[], ['a'], true, false, 1, 1, [0], 2⟩ ∧
        t.2.nodes 1 = some ⟨[], ['a'], true, false, 1, 2, [1], 2⟩ ∧
        t.2.nodes 2 = some ⟨[], ['a'], true, false, 0, 3, [], 1⟩ ∧
        t.2.hooks 0 = some ⟨['x'], true, some 1, some 0, 2⟩ ∧
        t.2.hooks 1 = some ⟨['y'], true, some 0, some 1, 2⟩ ∧
        t.2.tables.types ['a'] = some 4 ∧ t.2.tables.types ['b'] = some 1 ∧
        (((makeNodeCommon obliging 9 ['a']).run t.2).toOption.any fun u =>
          u.1.toOption.any fun n => n = 3) ∧
        ((rmtype ['b']).run t.2).toOption.any fun u => u.1 = 0) = true := by
    decide +kernel
  rcases (Option.any_eq_true _ _).mp hsetUp with ⟨⟨es, s⟩, hall, hs⟩
  rcases of_decide_eq_true hs with ⟨hdeep, hroom, hlink⟩
  have hbefore : Reachable True s := Reachable.start.runAll hall
  rcases exists_ok hlink with ⟨⟨e, s'⟩, hrun, hview⟩
  rcases of_decide_eq_true hview with
    ⟨rfl, hdeep', hroom', hfirst, hsecond, hthird, hhook, hpeer, hused, hunused, hmake,
      hremove⟩
  have hproper : linkOp.Proper s := trivial
  have hafter : Reachable True s' :=
    hbefore.step obliging_conventional (fun _ _ => rfl) hdeep hroom hproper hrun
  have hmakes : exists t, (makeNodeCommon obliging 9 ['a']).run s' = .ok (.ok 3, t) := by
    rcases exists_ok hmake with ⟨⟨result, t⟩, hmake, hresult⟩
    rcases exists_ok hresult with ⟨n, rfl, hn⟩
    rw [of_decide_eq_true hn] at hmake
    exact ⟨t, hmake⟩
  have hremoves : exists t, (rmtype ['b']).run s' = .ok (0, t) := by
    rcases exists_ok hremove with ⟨⟨e, t⟩, hremove, he⟩
    have he : e = 0 := of_decide_eq_true he
    exact ⟨t, he ▸ hremove⟩
  exact ⟨s, s', hbefore, hdeep, hroom, hrun, hafter, hdeep', hroom', hfirst, hsecond, hthird,
    hhook, hpeer, hused, hunused, hmakes, hremoves⟩

-- `ng_rmtype` looks at the count only: a type that is removed twice is unlinked twice.
example : (runAll [.newtype ['b'], .rmtype ['b']] St.start).map (fun r =>
    match (rmtype ['b']).run r.2 with
    | .error fault => some fault
    | .ok _ => none) = some (some .unlisted) := by
  decide +kernel

end Netgraph
end FStackLite
