import FStackLite.Netgraph.Join
import Mathlib.Data.List.Perm.Subperm

/-!
# Nodes are found and made

A search through the table of identifiers finds a valid node with an identifier if there is
one.  `ng_make_node_common` takes an identifier that no valid node has: it tries one number
after the other, and there are more numbers than nodes.
-/

namespace FStackLite
namespace Netgraph

open Foundation Program

variable {env : Env} {ample : Prop} {held : List Token} {s s' : St}
variable {label : NodeId -> Option Label} {t : Tables} {n : NodeId} {nd : Node} {type : Name}
    {loop : Nat}

/-!
## Searches
-/

structure Finds (label : NodeId -> Option Label) (s : St) (test : Node -> Bool)
    (found : Option NodeId) : Prop where
  hit : forall n, found = some n ->
    (label n).isSome = true ∧ exists nd, s.nodes n = some nd ∧ test nd = true
  miss : found = none -> forall n nd, (label n).isSome = true -> s.nodes n = some nd ->
    test nd = false

theorem findIn_finds {test : Node -> Bool} {chain : List NodeId}
    (hlive : forall n, n ∈ chain -> (label n).isSome = true ∧ (s.nodes n).isSome = true)
    (hall : forall n nd, (label n).isSome = true -> s.nodes n = some nd -> test nd = true ->
      n ∈ chain) :
    Returns (findIn test chain) s fun found s' => s' = s ∧ Finds label s test found := by
  induction chain with
  | nil =>
      refine returns_pure.mpr ⟨rfl, by rintro n ⟨⟩, ?_⟩
      intro _ n nd hl hnd
      have hnot := hall n nd hl hnd
      grind
  | cons n rest ih =>
      rcases hlive n List.mem_cons_self with ⟨hl, hsome⟩
      obtain ⟨nd, hn⟩ := Option.isSome_iff_exists.mp hsome
      refine bind_node hn ?_
      split
      · next htest =>
          refine returns_pure.mpr ⟨rfl, ?_, by rintro ⟨⟩⟩
          rintro m ⟨⟩
          exact ⟨hl, nd, hn, htest⟩
      · next htest =>
          refine ih (fun m hm => hlive m (List.mem_cons_of_mem _ hm)) ?_
          intro m md hlm hm hyes
          have hmem := hall m md hlm hm hyes
          grind

def hasID (id : Nat) (nd : Node) : Bool :=
  nd.valid && nd.id == id

def Knows (label : NodeId -> Option Label) (s : St) : Prop :=
  forall n l, label n = some l -> s.label n = some l

theorem idhashFind_finds (id : Nat) (hknows : Knows label s)
    (hids : Chains.Holds idPlace (idOf label) s.tables.idHash) :
    Returns (idhashFind id) s fun found s' => s' = s ∧ Finds label s (hasID id) found := by
  refine returns_bind.mpr (returns_get.mpr (findIn_finds ?_ ?_))
  · intro n hn
    have hmem := (hids.mem n).mp (Chains.mem_flatten_iff.mpr ⟨_, hn⟩)
    obtain ⟨l, hl⟩ : exists l, label n = some l := by
      cases hl : label n <;> simp_all [idOf]
    have hself := hknows n l hl
    refine ⟨by simp [hl], ?_⟩
    cases hn' : s.nodes n <;> simp_all [St.label]
  · intro n nd hl hnd htest
    obtain ⟨l, hl⟩ := Option.isSome_iff_exists.mp hl
    have hself := hknows n l hl
    rw [label_of_some hnd] at hself
    injection hself with hself
    have hid : idOf label n = some id := by
      simp only [Bool.and_eq_true, beq_iff_eq] at htest
      simp [idOf, hl, <- hself, Node.label, htest.2]
    exact hids.mem_chain hid

/-!
## A free identifier
-/

structure FreeID (label : NodeId -> Option Label) (s : St) (id : Nat) : Prop where
  nonzero : id ≠ 0
  range : id < 2 ^ 32
  unused : Finds label s (hasID id) none

def takenIDs (label : NodeId -> Option Label) (t : Tables) : List Nat :=
  0 :: t.idHash.flatten.filterMap (idOf label)

theorem exists_not_taken {taken : List Nat} {next : Nat} (hloop : taken.length < loop)
    (hrange : loop ≤ 2 ^ 32) : exists i, i < loop ∧ (next + i) % 2 ^ 32 ∉ taken := by
  by_contra hall
  have hsub : (List.range loop).map (fun i => (next + i) % 2 ^ 32) ⊆ taken := by
    intro id hid
    rcases List.mem_map.mp hid with ⟨i, hi, rfl⟩
    by_contra hnot
    exact hall ⟨i, List.mem_range.mp hi, hnot⟩
  have hnodup : ((List.range loop).map fun i => (next + i) % 2 ^ 32).Nodup := by
    refine List.Nodup.map_on ?_ List.nodup_range
    intro i hi j hj heq
    rw [List.mem_range] at hi hj
    omega
  have hle := (hnodup.subperm hsub).length_le
  rw [List.length_map, List.length_range] at hle
  omega

theorem takeID_finds (hknows : Knows label s)
    (hids : Chains.Holds idPlace (idOf label) s.tables.idHash) (hnext : s.tables.nextID < 2 ^ 32)
    (hfree : exists i, i < loop ∧ (s.tables.nextID + i) % 2 ^ 32 ∉ takenIDs label s.tables) :
    Returns (takeID loop) s fun id s' => FreeID label s id ∧
      s' = { s with tables := { s.tables with nextID := (id + 1) % 2 ^ 32 } } := by
  induction loop generalizing s with
  | zero =>
      rcases hfree with ⟨i, hi, _⟩
      contradiction
  | succ loop ih =>
      unfold takeID
      refine returns_bind.mpr (returns_get.mpr ?_)
      refine returns_bind.mpr (returns_modifyTables.mpr ?_)
      have hfind := idhashFind_finds s.tables.nextID (s := { s with
        tables := { s.tables with nextID := (s.tables.nextID + 1) % 2 ^ 32 } }) hknows hids
      refine Returns.bind hfind ?_
      rintro found t ⟨rfl, hhit, hmiss⟩
      split
      · next hgood =>
          refine returns_pure.mpr ⟨⟨hgood.1, hnext, by rintro n ⟨⟩, fun _ => hmiss hgood.2⟩, rfl⟩
      · next hbad =>
          refine (ih (s := { s with tables := { s.tables with
            nextID := (s.tables.nextID + 1) % 2 ^ 32 } }) hknows hids
            (Nat.mod_lt _ (by decide)) ?_).imp ?_
          · rcases hfree with ⟨i, hi, hnot⟩
            cases i with
            | zero =>
                rw [Nat.add_zero, Nat.mod_eq_of_lt hnext, takenIDs, List.mem_cons, not_or] at hnot
                refine absurd ⟨hnot.1, ?_⟩ hbad
                cases found with
                | none => rfl
                | some n =>
                    rcases hhit n rfl with ⟨hl, nd, hnd, htest⟩
                    change s.nodes n = some nd at hnd
                    obtain ⟨l, hl⟩ := Option.isSome_iff_exists.mp hl
                    have hself := hknows n l hl
                    rw [label_of_some hnd] at hself
                    injection hself with hself
                    refine absurd (List.mem_filterMap.mpr ⟨n, ?_, ?_⟩) hnot.2
                    · exact (hids.mem n).mpr (by simp [idOf, hl])
                    · simp only [hasID, Bool.and_eq_true, beq_iff_eq] at htest
                      simp [idOf, hl, <- hself, Node.label, htest.2]
            | succ i =>
                refine ⟨i, Nat.lt_of_succ_lt_succ hi, ?_⟩
                rw [Nat.mod_add_mod, Nat.add_right_comm]
                exact hnot
          · rintro id s' ⟨⟨hnonzero, hrange, hunused⟩, rfl⟩
            exact ⟨⟨hnonzero, hrange, hunused.hit, hunused.miss⟩, rfl⟩

/-!
## Larger tables
-/

theorem le_doubled (elements loop size : Nat) : size ≤ doubled elements loop size := by
  induction loop generalizing size with
  | zero => exact Nat.le_refl _
  | succ loop ih =>
      unfold doubled
      split
      · exact Nat.le_trans (Nat.le_mul_of_pos_left size (by decide)) (ih (2 * size))
      · exact Nat.le_refl _

theorem hashSize_pos {elements : Nat} (helements : 0 < elements) : 0 < hashSize elements := by
  unfold hashSize doubled
  rw [if_pos (show 1 ≤ elements from helements)]
  exact Nat.div_pos (le_doubled elements elements 2) (by decide)

theorem rehashed_holds {κ : Type} {place : Node -> Nat} {placeOf : Nat -> κ -> Nat}
    {key key' : NodeId -> Option κ} {nodes : List NodeId} {new : List (List NodeId)}
    (hlive : forall n, n ∈ nodes -> exists nd k, s.nodes n = some nd ∧ key n = some k ∧
      place nd = placeOf new.length k)
    (hlt : forall k, placeOf new.length k < new.length) (hnodup : nodes.Nodup)
    (hnew : forall n, n ∈ nodes -> key' n = none) (hholds : Chains.Holds placeOf key' new) :
    Returns (rehashed place nodes new) s fun new' s' => s' = s ∧
      Chains.Holds placeOf (fun n => if n ∈ nodes then key n else key' n) new' := by
  induction nodes generalizing new key' with
  | nil => exact returns_pure.mpr ⟨rfl, by simpa using hholds⟩
  | cons n rest ih =>
      rcases hlive n List.mem_cons_self with ⟨nd, k, hn, hk, hplace⟩
      rcases List.nodup_cons.mp hnodup with ⟨hnot, hrest⟩
      refine bind_node hn ?_
      rw [hplace]
      refine (ih ?_ ?_ hrest ?_ (hholds.add (hnew n List.mem_cons_self) (hlt k))).imp ?_
      · intro m hm
        rw [Chains.length_insertAt]
        exact hlive m (List.mem_cons_of_mem _ hm)
      · rw [Chains.length_insertAt]
        exact hlt
      · intro m hm
        have hnone := hnew m (List.mem_cons_of_mem _ hm)
        grind
      · rintro new' s' ⟨rfl, hholds'⟩
        refine ⟨rfl, ?_⟩
        convert hholds' using 1
        funext m
        grind

theorem growIDs_returns (hknows : Knows label s)
    (hids : Chains.Holds idPlace (idOf label) s.tables.idHash) :
    Returns (growIDs env) s fun _ s' => exists ids calls, Chains.Holds idPlace (idOf label) ids ∧
        s' = { s with tables := { s.tables with idHash := ids }, calls := calls } := by
  have hsize : 0 < hashSize (s.tables.idHash.length * 2) :=
    hashSize_pos (Nat.mul_pos hids.size (by decide))
  have hlive : forall n, n ∈ s.tables.idHash.flatten -> exists nd k, s.nodes n = some nd ∧
      idOf label n = some k ∧ nd.id % hashSize (s.tables.idHash.length * 2) =
        idPlace (Chains.empty (hashSize (s.tables.idHash.length * 2)) : List (List NodeId)).length
          k := by
    intro n hn
    have hmem := (hids.mem n).mp hn
    obtain ⟨l, hl⟩ : exists l, label n = some l := by cases hl : label n <;> simp_all [idOf]
    obtain ⟨nd, hnd, hlabel⟩ := Option.map_eq_some_iff.mp (hknows n l hl)
    refine ⟨nd, l.id, hnd, by simp [idOf, hl], ?_⟩
    rw [Chains.length_empty, <- hlabel]
    rfl
  unfold growIDs idRehash
  refine returns_bind.mpr (returns_get.mpr (returns_ite.mpr ?_))
  split
  · refine returns_bind.mpr (returns_answer.mpr ?_)
    split
    · refine returns_bind.mpr (returns_get.mpr ?_)
      refine Returns.bind (rehashed_holds hlive ?_ hids.nodup (fun _ _ => rfl)
        (Chains.Holds.empty hsize)) ?_
      · intro k
        rw [Chains.length_empty]
        exact Nat.mod_lt _ hsize
      · rintro ids s' ⟨rfl, hholds⟩
        refine returns_modifyTables.mpr ⟨ids, s.calls + 1, ?_, rfl⟩
        convert hholds using 1
        funext n
        have hmem := hids.mem n
        grind [Option.isSome_iff_ne_none]
    · exact returns_pure.mpr ⟨s.tables.idHash, s.calls + 1, hids, rfl⟩
  · exact returns_pure.mpr ⟨s.tables.idHash, s.calls, hids, rfl⟩

/-!
## A node is made
-/

/-- The tables after `ng_make_node_common`, which may have moved the identifiers. -/
def Tables.registering (t : Tables) (ids : List (List NodeId)) (n : NodeId) (type : Name)
    (id : Nat) : Tables :=
  { t with
    types := Function.update t.types type ((t.types type).map (· + 1))
    idHash := Chains.insertAt (id % ids.length) n ids
    nextID := (id + 1) % 2 ^ 32
    ngNodes := t.ngNodes + 1 }

theorem Filed.register {ids : List (List NodeId)} {id : Nat} (hf : Filed ample label t)
    (hnew : label n = none) (hnonzero : id ≠ 0) (hrange : id < 2 ^ 32)
    (htype : (t.types type).isSome = true) (hids : Chains.Holds idPlace (idOf label) ids)
    (hunused : ample -> forall m, idOf label m ≠ some id) :
    Filed ample (Function.update label n (some ⟨[], type, id⟩)) (t.registering ids n type id) := by
  have hlt : id % ids.length < ids.length := Nat.mod_lt id hids.size
  have hinsert := Chains.perm_insertAt hlt n
  have hperm := hf.ids.perm hids
  have hname : nameOf (Function.update label n (some ⟨[], type, id⟩)) = nameOf label := by
    rw [nameOf_update, Function.update_eq_self_iff.mpr]
    simp [nameOf, hnew]
  have hcount : forall type', ofType (Function.update label n (some ⟨[], type, id⟩))
      (t.registering ids n type id) type' =
        ofType label t type' + if type = type' then 1 else 0 := by
    intro type'
    unfold ofType Tables.registering
    rw [typeOf_update, hinsert.countP_eq, List.countP_cons, hperm.countP_eq]
    congr 1
    · apply List.countP_congr
      intro m hm
      have hne : m ≠ n := by
        rintro rfl
        have hsome := (hids.mem m).mp hm
        simp [idOf, hnew] at hsome
      grind
    · simp
  constructor
  case ids =>
    rw [idOf_update]
    exact hids.add (by simp [idOf, hnew]) hlt
  case idCount =>
    have hlen := hinsert.length_eq
    have hlen' := hperm.length_eq
    have hold := hf.idCount
    simp only [Tables.registering, List.length_cons] at hlen ⊢
    omega
  case nextID => exact Nat.mod_lt _ (by decide)
  case names =>
    rw [hname]
    exact hf.names
  case nameCount => exact hf.nameCount
  case typeCount =>
    intro type' refs href
    have hold := hf.typeCount type'
    rw [hcount type']
    simp only [Tables.registering] at href
    grind [Option.map_eq_some_iff]
  case typeLive =>
    intro m type' hm
    have hold := hf.typeLive m type'
    rw [typeOf_update] at hm
    simp only [Tables.registering]
    grind
  case idRange =>
    rw [idOf_update]
    have hold := hf.idRange
    grind
  case idDistinct =>
    rw [idOf_update]
    have hold := hf.idDistinct
    grind

theorem Sound.newNode {id : Nat} (hs : Sound ample held s)
    (hfiled : Filed ample (s.withNewNode ⟨[], type, true, false, 0, id, [], 1⟩).label t)
    (calls : Nat) : Sound ample held { s.withNewNode ⟨[], type, true, false, 0, id, [], 1⟩ with
      tables := t, calls := calls } := by
  have hfresh := hs.freshNode s.nextNode (Nat.le_refl _)
  have hnot : forall x, x ∈ held -> x.node? ≠ some s.nextNode := by
    intro x hx hon
    have hlive := (hs.tokens x hx).node hon
    rw [hfresh] at hlive
    contradiction
  have hheld : nodeHeld held s.nextNode = 0 := by
    rw [nodeHeld, List.countP_eq_zero]
    intro x hx hon
    exact hnot x hx (of_decide_eq_true hon)
  have hempty : s.hooksOf s.nextNode = [] := by
    rw [St.hooksOf, hfresh]
    rfl
  have hc : Spares ample (· = s.nextNode) (fun _ => False) held held s
      { s.withNode s.nextNode (some ⟨[], type, true, false, 0, id, [], 1⟩) with tables := t } :=
    .withNode hempty.symm (fun _ _ => rfl) fun _ => Or.inl
  have hc' : Spares ample (· = s.nextNode) (fun _ => False) held held s
      { s.withNewNode ⟨[], type, true, false, 0, id, [], 1⟩ with tables := t, calls := calls } :=
    ⟨hc.swaps, hc.nodes, hc.hooks, hc.nodeOf, hc.hooksOf, hc.peerOf, hc.leaving⟩
  refine hs.change hc' ?_ (by simp) ?_ ?_ hs.freshHook hs.items hfiled
  · rintro m md rfl hm
    cases withNode_nodes_self.symm.trans hm
    exact {
      refs := by simp [Node.own, hheld]
      pos := Int.one_pos
      count := rfl
      nodup := List.nodup_nil
      hooks := by simp
      closing := by simp
      leaving := by simp
      emptied := by simp }
  · intro x hx htouches
    cases x with
    | node m => exact absurd (congrArg some htouches) (hnot _ hx)
    | closing m => exact absurd (congrArg some htouches) (hnot _ hx)
    | detached k m => exact absurd (congrArg some (htouches.resolve_right False.elim)) (hnot _ hx)
    | _ => contradiction
  · intro m hm
    refine (Function.update_of_ne (Nat.ne_of_gt hm) ..).trans ?_
    exact hs.freshNode m (Nat.le_of_succ_le hm)

def HasRoom (s : St) : Prop :=
  s.tables.idHash.flatten.length + 2 ≤ 2 ^ 32

def AllValid (s : St) : Prop :=
  forall n nd, s.nodes n = some nd -> nd.valid = true

structure Makes (type : Name) (n : NodeId) (s s' : St) : Prop where
  fresh : n = s.nextNode
  node : exists id, FreeID s.label s id ∧
    s'.nodes = Function.update s.nodes n (some ⟨[], type, true, false, 0, id, [], 1⟩)
  hooks : s'.hooks = s.hooks

theorem register_sound (hs : Sound ample held s) (hall : ample -> AllValid s)
    (htype : (s.tables.types type).isSome = true)
    (hloop : s.tables.idHash.flatten.length + 2 ≤ loop) (hroom : HasRoom s) :
    Returns (register env loop type) s fun result s' =>
      Sound ample held s' ∧ result = .ok s.nextNode ∧ Makes type s.nextNode s s' := by
  have hfresh := hs.freshNode s.nextNode (Nat.le_refl _)
  have hnew : s.label s.nextNode = none := by rw [St.label, hfresh, Option.map_none]
  have hknows : forall u : St, (forall m, m ≠ s.nextNode -> u.nodes m = s.nodes m) ->
      Knows s.label u := by
    intro u hu m l hl
    have hne : m ≠ s.nextNode := by
      rintro rfl
      rw [hnew] at hl
      contradiction
    rw [St.label, hu m hne]
    exact hl
  have hfree : exists i, i < loop ∧
      (s.tables.nextID + i) % 2 ^ 32 ∉ takenIDs s.label s.tables := by
    have hlen : (takenIDs s.label s.tables).length ≤ s.tables.idHash.flatten.length + 1 := by
      rw [takenIDs, List.length_cons]
      exact Nat.succ_le_succ (List.length_filterMap_le _ _)
    unfold HasRoom at hroom
    rcases exists_not_taken (Nat.lt_succ_self (takenIDs s.label s.tables).length)
      (by omega) with ⟨i, hi, hnot⟩
    exact ⟨i, by omega, hnot⟩
  unfold register newNode
  refine returns_bind.mpr (returns_bind.mpr (returns_get.mpr ?_))
  refine returns_bind.mpr (returns_modify.mpr (returns_bind.mpr (returns_modifyTables.mpr ?_)))
  refine returns_pure.mpr (Returns.bind (takeID_finds (hknows _ fun m hm => by simp [hm])
    hs.filed.ids hs.filed.nextID hfree) ?_)
  rintro id u ⟨⟨hnonzero, hrange, hunused⟩, rfl⟩
  have hfreeID : FreeID s.label s id := by
    refine ⟨hnonzero, hrange, by rintro m ⟨⟩, ?_⟩
    intro _ m md hl hmd
    refine hunused.miss rfl m md hl ?_
    have hne : m ≠ s.nextNode := by grind
    simp [hne, hmd]
  refine bind_modifyNode (if_pos rfl) ?_
  refine returns_bind.mpr (returns_modifyTables.mpr ?_)
  refine Returns.bind (growIDs_returns (hknows _ fun m hm => by simp [hm]) hs.filed.ids) ?_
  rintro _ v ⟨ids, calls, hids, rfl⟩
  have hfiled : Filed ample (s.withNewNode ⟨[], type, true, false, 0, id, [], 1⟩).label
      (s.tables.registering ids s.nextNode type id) := by
    rw [show (s.withNewNode ⟨[], type, true, false, 0, id, [], 1⟩).label =
      Function.update s.label s.nextNode (some ⟨[], type, id⟩) from label_withNode _]
    refine hs.filed.register hnew hnonzero hrange htype hids ?_
    intro hample m hm
    obtain ⟨l, hl, hid⟩ := Option.map_eq_some_iff.mp hm
    obtain ⟨md, hmd, hlabel⟩ := Option.map_eq_some_iff.mp hl
    have hmiss := hfreeID.unused.miss rfl m md (by rw [hl]; rfl) hmd
    rw [hasID, hall hample m md hmd, Bool.true_and, beq_eq_false_iff_ne] at hmiss
    rw [<- hlabel] at hid
    exact hmiss hid
  have hnodes : forall nd nd' : Node, Function.update (Function.update s.nodes s.nextNode (some nd))
      s.nextNode (some nd') = Function.update s.nodes s.nextNode (some nd') :=
    fun nd nd' => Function.update_idem _ _ _
  refine returns_bind.mpr (returns_modifyTables.mpr (returns_pure.mpr ⟨?_, rfl, rfl, ?_, rfl⟩))
  · exact (hs.newNode hfiled calls).same (hnodes _ _) rfl rfl (Nat.le_refl _) rfl rfl
  · exact ⟨id, hfreeID, hnodes _ _⟩

/-- `ng_make_node_common` makes a node with a free identifier, or changes nothing. -/
theorem makeNodeCommon_sound (hs : Sound ample held s) (hall : ample -> AllValid s)
    (hloop : s.tables.idHash.flatten.length + 2 ≤ loop) (hroom : HasRoom s) :
    Returns (makeNodeCommon env loop type) s fun result s' => Sound ample held s' ∧
      (forall e, result = .error e -> e ≠ 0 ∧ s'.nodes = s.nodes ∧ s'.hooks = s.hooks) ∧
      (forall n, result = .ok n -> Makes type n s s') := by
  unfold makeNodeCommon
  refine returns_bind.mpr (returns_get.mpr ?_)
  split
  · exact returns_pure.mpr ⟨hs, by rintro e ⟨⟩; exact ⟨by decide, rfl, rfl⟩, by rintro n ⟨⟩⟩
  · next htype =>
      refine returns_bind.mpr (returns_answer.mpr ?_)
      have hcalls : Sound ample held { s with calls := s.calls + 1 } :=
        hs.congr rfl rfl rfl (Nat.le_refl _) rfl hs.filed
      split
      · refine (register_sound hcalls hall (Option.isSome_iff_ne_none.mpr htype) hloop hroom).imp ?_
        rintro result s' ⟨hs', rfl, hmakes⟩
        refine ⟨hs', by rintro e ⟨⟩, ?_⟩
        rintro n ⟨⟩
        rcases hmakes.node with ⟨id, hid, hnode⟩
        exact ⟨rfl, ⟨id, ⟨hid.nonzero, hid.range, by rintro m ⟨⟩, hid.unused.miss⟩, hnode⟩, hmakes.hooks⟩
      · exact returns_pure.mpr ⟨hcalls, by rintro e ⟨⟩; exact ⟨by decide, rfl, rfl⟩, by rintro n ⟨⟩⟩

end Netgraph
end FStackLite
