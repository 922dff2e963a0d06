import FStackLite.Netgraph.Rules
import FStackLite.Netgraph.Tables
import Mathlib.Data.List.Count

/-!
# The tables of nodes

Every node is in the table of identifiers, every node with a name in the table of names,
each in the chain that its identifier or its name leads to, and the counts of nodes and
of the references on types are right.  As long as no item was missing, no two nodes share
an identifier.
-/

namespace FStackLite
namespace Netgraph

open Foundation

structure Label where
  name : Name
  type : Name
  id : Nat
deriving DecidableEq

def Node.label (nd : Node) : Label :=
  ⟨nd.name, nd.type, nd.id⟩

def St.label (s : St) (n : NodeId) : Option Label :=
  (s.nodes n).map Node.label

def idOf (label : NodeId -> Option Label) (n : NodeId) : Option Nat :=
  (label n).map Label.id

def typeOf (label : NodeId -> Option Label) (n : NodeId) : Option Name :=
  (label n).map Label.type

def nameOf (label : NodeId -> Option Label) (n : NodeId) : Option Name :=
  ((label n).map Label.name).filter (!·.isEmpty)

def idPlace (size id : Nat) : Nat :=
  id % size

def namePlace (size : Nat) (name : Name) : Nat :=
  hash32Str name &&& (size - 1)

def ofType (label : NodeId -> Option Label) (t : Tables) (type : Name) : Nat :=
  t.idHash.flatten.countP fun n => typeOf label n = some type

structure Filed (ample : Prop) (label : NodeId -> Option Label) (t : Tables) : Prop where
  ids : Chains.Holds idPlace (idOf label) t.idHash
  idCount : t.ngNodes = t.idHash.flatten.length
  idRange : forall n id, idOf label n = some id -> id ≠ 0 ∧ id < 2 ^ 32
  nextID : t.nextID < 2 ^ 32
  names : Chains.Holds namePlace (nameOf label) t.nameHash
  nameCount : t.ngNamedNodes = t.nameHash.flatten.length
  typeCount : forall type refs, t.types type = some refs -> refs = 1 + ofType label t type
  typeLive : forall n type, typeOf label n = some type -> (t.types type).isSome = true
  idDistinct : ample ->
    forall n m id, idOf label n = some id -> idOf label m = some id -> n = m

variable {ample : Prop} {label : NodeId -> Option Label} {t : Tables} {s : St}
variable {n : NodeId} {nd nd' : Node}

theorem Filed.start : Filed ample St.start.label St.start.tables where
  ids := Chains.Holds.empty (by decide)
  idCount := rfl
  idRange _ _ h := by contradiction
  nextID := by decide
  names := Chains.Holds.empty (by decide)
  nameCount := rfl
  typeCount _ _ h := by contradiction
  typeLive _ _ h := by contradiction
  idDistinct _ _ _ _ h := by contradiction

/-!
## Labels
-/

theorem label_of_some (hn : s.nodes n = some nd) : s.label n = some nd.label := by
  rw [St.label, hn, Option.map_some]

theorem label_withNode (x : Option Node) :
    (s.withNode n x).label = Function.update s.label n (x.map Node.label) := by
  funext m
  rw [St.label, withNode_nodes, Function.update_apply]
  split
  · rfl
  · rfl

theorem Filed.withNode (hf : Filed ample s.label t) (hn : s.nodes n = some nd)
    (hlabel : nd'.label = nd.label) : Filed ample (s.withNode n (some nd')).label t := by
  rw [label_withNode, Option.map_some, hlabel, Function.update_eq_self_iff.mpr]
  · exact hf
  · rw [label_of_some hn]

variable (label) (n) (l : Option Label)

theorem idOf_update :
    idOf (Function.update label n l) = Function.update (idOf label) n (l.map Label.id) := by
  funext m
  grind [idOf]

theorem typeOf_update :
    typeOf (Function.update label n l) = Function.update (typeOf label) n (l.map Label.type) := by
  funext m
  grind [typeOf]

theorem nameOf_update : nameOf (Function.update label n l) =
    Function.update (nameOf label) n ((l.map Label.name).filter (!·.isEmpty)) := by
  funext m
  grind [nameOf]

variable {label} {n}

/-!
## A node is forgotten
-/

@[grind =]
theorem tables_forget_types (type : Name) : (t.forget n nd).types type =
    if type = nd.type then (t.types nd.type).map (· - 1) else t.types type :=
  Function.update_apply ..

theorem Filed.names_forget (hf : Filed ample label t) (hl : label n = some nd.label) :
    Chains.Holds namePlace (Function.update (nameOf label) n none) (t.forget n nd).nameHash ∧
      (t.forget n nd).ngNamedNodes = (t.forget n nd).nameHash.flatten.length := by
  have hcount := hf.nameCount
  unfold Tables.forget
  cases hhas : nd.hasName with
  | true =>
      have hname : nameOf label n = some nd.name := by grind [nameOf, Node.label, Node.hasName]
      have hlen := hf.names.length_remove hname
      simp only [if_true]
      exact ⟨hf.names.remove n, by omega⟩
  | false =>
      have hname : nameOf label n = none := by grind [nameOf, Node.label, Node.hasName]
      rw [Function.update_eq_self_iff.mpr hname.symm]
      exact ⟨hf.names, hcount⟩

theorem Filed.ofType_forget (hf : Filed ample label t) (hl : label n = some nd.label)
    (type : Name) :
    ofType label t type = ofType (Function.update label n none) (t.forget n nd) type +
      if nd.type = type then 1 else 0 := by
  have hmem : n ∈ t.idHash.flatten := (hf.ids.mem n).mpr (by simp [idOf, hl])
  have hnodup := hf.ids.nodup
  unfold ofType Tables.forget
  rw [typeOf_update, (List.perm_cons_erase hmem).countP_eq, List.countP_cons,
    (Chains.perm_removeAll hnodup).countP_eq]
  congr 1
  · apply List.countP_congr
    intro m hm
    have hne := (hnodup.mem_erase_iff.mp hm).1
    grind
  · simp [typeOf, hl, Node.label]

theorem Filed.forget (hf : Filed ample label t) (hl : label n = some nd.label) :
    Filed ample (Function.update label n none) (t.forget n nd) := by
  have hid : idOf label n = some nd.id := by simp [idOf, hl, Node.label]
  have htype := hf.ofType_forget hl
  constructor
  case ids =>
    rw [idOf_update]
    exact hf.ids.remove n
  case idCount =>
    have hlen := hf.ids.length_remove hid
    have hcount := hf.idCount
    simp only [Tables.forget]
    omega
  case nextID => exact hf.nextID
  case names =>
    rw [nameOf_update]
    exact (hf.names_forget hl).1
  case nameCount => exact (hf.names_forget hl).2
  case typeCount =>
    intro type refs href
    have hold := hf.typeCount type
    specialize htype type
    grind [Option.map_eq_some_iff]
  case typeLive =>
    intro m type hm
    have hold := hf.typeLive m type
    rw [typeOf_update] at hm
    grind
  all_goals
    simp only [idOf_update]
    grind [Filed]

/-!
## Types come and go
-/

theorem Filed.addType {type : Name} (hf : Filed ample label t) (htype : t.types type = none) :
    Filed ample label { t with types := Function.update t.types type (some 1) } := by
  have hnone : ofType label t type = 0 := by
    rw [ofType, List.countP_eq_zero]
    intro n _ hn
    have hlive := hf.typeLive n type (by simpa using hn)
    rw [htype] at hlive
    contradiction
  refine { hf with typeCount := ?_, typeLive := ?_ }
  · intro type' refs href
    have hold := hf.typeCount type' refs
    simp only [ofType] at hold hnone ⊢
    grind
  · intro n type' hn
    have hold := hf.typeLive n type' hn
    grind

theorem Filed.removeType {type : Name} (hf : Filed ample label t)
    (htype : t.types type = some 1) (retired : Name -> Bool) : Filed ample label
      { t with types := Function.update t.types type none, retired := retired } := by
  have hnone : ofType label t type = 0 := by
    have hcount := hf.typeCount type 1 htype
    omega
  rw [ofType, List.countP_eq_zero] at hnone
  refine { hf with typeCount := ?_, typeLive := ?_ }
  · intro type' refs href
    have hold := hf.typeCount type' refs
    simp only [ofType] at hold ⊢
    grind
  · intro n type' hn
    have hold := hf.typeLive n type' hn
    have hmem : n ∈ t.idHash.flatten :=
      (hf.ids.mem n).mpr (by grind [idOf, typeOf, Option.map_eq_some_iff])
    have hne := hnone n hmem
    grind

end Netgraph
end FStackLite
