import FStackLite.Foundation.Chain
import FStackLite.Foundation.Loop

/-!
# The lists of `sys/queue.h`

The elements of a `LIST` or an `SLIST` hold the links themselves.  An element of a `LIST`
also knows the place of the link that leads to it, which is the head of the list or the link
of another element; an `SLIST` leaves that member alone.  The two kinds of list may share the
link of an element, as members of one union.
-/

namespace FStackLite
namespace Foundation

universe u v

inductive Slot (η : Type u) (ν : Type v) where
  | head (h : η)
  | elem (a : ν)
deriving DecidableEq

structure Links (η : Type u) (ν : Type v) where
  first : η -> Option ν
  next : ν -> Option ν
  prev : ν -> Option (Slot η ν)

namespace Links

variable {η : Type u} {ν : Type v}

/-- `LIST_INIT` of every head, with elements that are filled with zeros. -/
def empty : Links η ν where
  first _ := none
  next _ := none
  prev _ := none

def read (l : Links η ν) : Slot η ν -> Option ν
  | .head h => l.first h
  | .elem a => l.next a

/-- `LIST_FOREACH` from an element on, left at the first element that is sought. -/
def seek (l : Links η ν) (sought : ν -> Bool) : Nat -> Option ν -> Option (Option ν)
  | 0, _ => none
  | _ + 1, none => some none
  | fuel + 1, some a => if sought a then some (some a) else l.seek sought fuel (l.next a)

/-- Following the links from a slot visits these elements; `both` asks for the way back, too. -/
def Linked (l : Links η ν) (both : Bool) : Slot η ν -> List ν -> Prop
  | s, [] => l.read s = none
  | s, a :: as =>
      l.read s = some a ∧ (both = true -> l.prev a = some s) ∧ l.Linked both (.elem a) as

section Operations

variable [DecidableEq η] [DecidableEq ν]

def setFirst (l : Links η ν) (h : η) (a : Option ν) : Links η ν :=
  { l with first := Function.update l.first h a }

def setNext (l : Links η ν) (a : ν) (b : Option ν) : Links η ν :=
  { l with next := Function.update l.next a b }

def setPrev (l : Links η ν) (a : ν) (s : Option (Slot η ν)) : Links η ν :=
  { l with prev := Function.update l.prev a s }

def write (l : Links η ν) : Slot η ν -> Option ν -> Links η ν
  | .head h, a => l.setFirst h a
  | .elem b, a => l.setNext b a

/-- `LIST_NEXT(b)->le_prev = s` if there is an element. -/
def setPrevOf (l : Links η ν) (b : Option ν) (s : Option (Slot η ν)) : Links η ν :=
  match b with
  | none => l
  | some b => l.setPrev b s

/-- `LIST_INSERT_HEAD` -/
def listInsertHead (l : Links η ν) (h : η) (a : ν) : Links η ν :=
  let linked := (l.setNext a (l.first h)).setPrevOf (l.first h) (some (.elem a))
  (linked.setFirst h (some a)).setPrev a (some (.head h))

/-- `LIST_REMOVE`.  An element that was never on a `LIST` has a null pointer for its slot. -/
def listRemove (l : Links η ν) (a : ν) : Option (Links η ν) :=
  let linked := l.setPrevOf (l.next a) (l.prev a)
  (linked.prev a).map fun s => linked.write s (linked.next a)

/-- `SLIST_INSERT_HEAD` -/
def slistInsertHead (l : Links η ν) (h : η) (a : ν) : Links η ν :=
  (l.setNext a (l.first h)).setFirst h (some a)

/-- `SLIST_REMOVE_HEAD` -/
def slistRemoveHead (l : Links η ν) (h : η) : Links η ν :=
  l.setFirst h ((l.first h).bind l.next)

end Operations

section Laws

variable {l l' : Links η ν} {both : Bool} {s t : Slot η ν} {a : ν} {as front back : List ν}

theorem Linked.chain (h : l.Linked both s as) : Chain l.next (l.read s) as := by
  induction as generalizing s with
  | nil =>
      rw [show l.read s = none from h]
      exact Chain.nil
  | cons a as ih =>
      rw [h.1]
      exact Chain.cons (ih h.2.2)

theorem Linked.nodup (h : l.Linked both s as) : as.Nodup :=
  h.chain.nodup

theorem Linked.read_eq (h : l.Linked both s as) : l.read s = as.head? := by
  cases as with
  | nil => exact h
  | cons a as => exact h.1

/-- Only the slots on the way matter; without the way back the list may start anywhere. -/
theorem Linked.frame (h : l.Linked both s as) (hread : l'.read t = l.read s)
    (hslot : both = true -> t = s) (hnext : forall a, a ∈ as -> l'.next a = l.next a)
    (hprev : both = true -> forall a, a ∈ as -> l'.prev a = l.prev a) : l'.Linked both t as := by
  induction as generalizing s t with
  | nil => exact hread.trans h
  | cons a as ih =>
      refine ⟨hread.trans h.1, ?_, ?_⟩
      · intro hboth
        rw [hprev hboth a List.mem_cons_self, hslot hboth]
        exact h.2.1 hboth
      · have hlink : l'.read (.elem a) = l.read (.elem a) := hnext a List.mem_cons_self
        apply ih h.2.2 hlink (fun _ => rfl)
        · intro b hb
          exact hnext b (List.mem_cons_of_mem a hb)
        · intro hboth b hb
          exact hprev hboth b (List.mem_cons_of_mem a hb)

theorem some_ne_head_of_mem_tail (hnodup : as.Nodup) (h : a ∈ as.tail) : some a ≠ as.head? := by
  cases as with
  | nil => contradiction
  | cons b as =>
      intro heq
      injection heq with heq
      exact (List.nodup_cons.mp hnodup).1 (heq ▸ h)

theorem Linked.rehang (h : l.Linked both s as) (hread : l'.read t = as.head?)
    (hfirst : forall a, as.head? = some a -> l'.prev a = some t)
    (hnext : forall a, a ∈ as -> l'.next a = l.next a)
    (hprev : forall a, a ∈ as.tail -> l'.prev a = l.prev a) : l'.Linked both t as := by
  cases as with
  | nil => exact hread
  | cons a as =>
      have hlink : l'.read (.elem a) = l.read (.elem a) := hnext a List.mem_cons_self
      refine ⟨hread, fun _ => hfirst a rfl, h.2.2.frame hlink (fun _ => rfl) ?_ fun _ => hprev⟩
      intro b hb
      exact hnext b (List.mem_cons_of_mem a hb)

theorem Linked.elem (h : l.Linked both s (front ++ a :: back)) : l.Linked both (.elem a) back := by
  induction front generalizing s with
  | nil => exact h.2.2
  | cons b front ih => exact ih h.2.2

theorem Linked.next_eq (h : l.Linked both s (front ++ a :: back)) : l.next a = back.head? :=
  h.elem.read_eq

theorem Linked.seek_converges (h : l.Linked both s as) (sought : ν -> Bool) :
    Converges (fun fuel => l.seek sought fuel (l.read s)) (as.find? sought) := by
  induction as generalizing s with
  | nil =>
      rw [show l.read s = none from h]
      exact .of_succ (fun _ => rfl) .of_some
  | cons a as ih =>
      rw [h.1, List.find?_cons]
      cases hsought : sought a with
      | true =>
          refine .of_succ (fun fuel => ?_) .of_some
          rw [seek, hsought, if_pos rfl]
      | false =>
          refine .of_succ (fun fuel => ?_) (ih h.2.2)
          rw [seek, hsought, if_neg Bool.false_ne_true]
          rfl

end Laws

section Changes

variable [DecidableEq ν] {a b : ν}

@[simp] theorem setPrevOf_read (l : Links η ν) (b : Option ν) (s : Option (Slot η ν))
    (t : Slot η ν) : (l.setPrevOf b s).read t = l.read t := by
  cases b <;> cases t <;> rfl

@[simp] theorem setPrevOf_next (l : Links η ν) (b : Option ν) (s : Option (Slot η ν)) :
    (l.setPrevOf b s).next = l.next := by
  cases b <;> rfl

@[simp] theorem setPrevOf_first (l : Links η ν) (b : Option ν) (s : Option (Slot η ν)) :
    (l.setPrevOf b s).first = l.first := by
  cases b <;> rfl

theorem setPrevOf_prev_self (l : Links η ν) (b : ν) (s : Option (Slot η ν)) :
    (l.setPrevOf (some b) s).prev b = s := by
  show Function.update l.prev b s b = s
  rw [Function.update_self]

theorem setPrevOf_prev_of_ne (l : Links η ν) {b : Option ν} (hne : some a ≠ b)
    (s : Option (Slot η ν)) : (l.setPrevOf b s).prev a = l.prev a := by
  cases b with
  | none => rfl
  | some b =>
      have hne : a ≠ b := fun heq => hne (congrArg some heq)
      exact Function.update_of_ne hne s l.prev

variable [DecidableEq η] {s t : Slot η ν}

theorem read_write_self (l : Links η ν) (s : Slot η ν) (v : Option ν) :
    (l.write s v).read s = v := by
  cases s with
  | head h => exact Function.update_self h v l.first
  | elem a => exact Function.update_self a v l.next

theorem read_write_of_ne (l : Links η ν) (hne : t ≠ s) (v : Option ν) :
    (l.write s v).read t = l.read t := by
  cases s with
  | head h =>
      cases t with
      | head h' =>
          have hne : h' ≠ h := fun heq => hne (congrArg Slot.head heq)
          exact Function.update_of_ne hne v l.first
      | elem b => rfl
  | elem a =>
      cases t with
      | head h' => rfl
      | elem b =>
          have hne : b ≠ a := fun heq => hne (congrArg Slot.elem heq)
          exact Function.update_of_ne hne v l.next

@[simp] theorem write_prev (l : Links η ν) (s : Slot η ν) (v : Option ν) :
    (l.write s v).prev = l.prev := by
  cases s <;> rfl

/-- Where a link leads after `LIST_INSERT_HEAD`. -/
theorem listInsertHead_read (l : Links η ν) (h : η) (a : ν) (t : Slot η ν) :
    (l.listInsertHead h a).read t =
      if t = .head h then some a else if t = .elem a then l.first h else l.read t := by
  cases t with
  | head h' =>
      simp [listInsertHead, read, setPrev, setFirst, setNext, Function.update_apply]
  | elem b =>
      simp [listInsertHead, read, setPrev, setFirst, setNext, Function.update_apply]

theorem listInsertHead_prev_self (l : Links η ν) (h : η) (a : ν) :
    (l.listInsertHead h a).prev a = some (.head h) := by
  simp [listInsertHead, setPrev]

theorem listInsertHead_prev_first (l : Links η ν) {h : η} (hne : b ≠ a)
    (hfirst : l.first h = some b) : (l.listInsertHead h a).prev b = some (.elem a) := by
  simp only [listInsertHead, setPrev, setFirst, hfirst]
  rw [Function.update_of_ne hne, setPrevOf_prev_self]

theorem listInsertHead_prev_of_ne (l : Links η ν) {h : η} (hne : b ≠ a)
    (hfirst : some b ≠ l.first h) : (l.listInsertHead h a).prev b = l.prev b := by
  simp only [listInsertHead, setPrev, setFirst]
  rw [Function.update_of_ne hne, setPrevOf_prev_of_ne _ hfirst]
  rfl

end Changes

section Removal

variable {l : Links η ν} {s : Slot η ν} {a : ν} {front back : List ν}

theorem Linked.remove [DecidableEq η] [DecidableEq ν] (h : l.Linked true s (front ++ a :: back))
    (hs : forall b, b ∈ front ++ a :: back -> s ≠ .elem b) :
    exists t, l.prev a = some t ∧ (t = s ∨ exists b, b ∈ front ∧ t = .elem b) ∧
      ((l.setPrevOf (l.next a) (some t)).write t (l.next a)).Linked true s (front ++ back) := by
  have hnodup := h.nodup
  induction front generalizing s with
  | nil =>
      have hlink : l.next a = back.head? := h.2.2.read_eq
      refine ⟨s, h.2.1 rfl, Or.inl rfl, ?_⟩
      apply h.2.2.rehang
      · rw [read_write_self, hlink]
      · intro b hb
        rw [write_prev, hlink, hb, setPrevOf_prev_self]
      · intro b hb
        have hread := read_write_of_ne (l.setPrevOf (l.next a) (some s))
          (hs b (List.mem_cons_of_mem a hb)).symm (l.next a)
        rw [setPrevOf_read] at hread
        exact hread
      · intro b hb
        rw [write_prev, hlink]
        exact setPrevOf_prev_of_ne _ (some_ne_head_of_mem_tail h.2.2.nodup hb) _
  | cons f front ih =>
      rw [List.cons_append, List.nodup_cons] at hnodup
      have hstep : forall b, b ∈ front ++ a :: back ->
          (Slot.elem f : Slot η ν) ≠ .elem b := by
        intro b hb heq
        injection heq with heq
        exact hnodup.1 (heq ▸ hb)
      rcases ih h.2.2 hstep hnodup.2 with ⟨t, ht, hplace, hrest⟩
      have hin : exists b, b ∈ f :: front ∧ t = .elem b := by
        rcases hplace with heq | ⟨b, hb, heq⟩
        · exact ⟨f, List.mem_cons_self, heq⟩
        · exact ⟨b, List.mem_cons_of_mem f hb, heq⟩
      refine ⟨t, ht, Or.inr hin, ?_, fun _ => ?_, hrest⟩
      · rcases hin with ⟨b, hb, rfl⟩
        have hb : b ∈ f :: front ++ a :: back := List.mem_append_left _ hb
        rw [read_write_of_ne _ (hs b hb), setPrevOf_read]
        exact h.1
      · rw [write_prev, setPrevOf_prev_of_ne]
        · exact h.2.1 rfl
        · intro heq
          rw [h.next_eq] at heq
          have hback := List.mem_cons_of_mem a (List.mem_of_head? heq.symm)
          exact hnodup.1 (List.mem_append_right front hback)

theorem Linked.listRemove_eq [DecidableEq η] [DecidableEq ν] {t : Slot η ν}
    (h : l.Linked true s (front ++ a :: back)) (ht : l.prev a = some t) :
    l.listRemove a = some ((l.setPrevOf (l.next a) (some t)).write t (l.next a)) := by
  have hne : some a ≠ l.next a := by
    rw [h.next_eq]
    intro heq
    have hnodup := (List.nodup_append.mp h.nodup).2.1
    exact (List.nodup_cons.mp hnodup).1 (List.mem_of_head? heq.symm)
  rw [listRemove, ht, setPrevOf_next, setPrevOf_prev_of_ne _ hne, ht]
  rfl

end Removal

/-!
## Several lists

Each head has a list of its own, and no element is on two of them.  `both` says which of the
lists are a `LIST`.
-/

structure Holds (l : Links η ν) (both : η -> Bool) (lists : η -> List ν) : Prop where
  linked : forall h, l.Linked (both h) (.head h) (lists h)
  apart : forall h h' a, a ∈ lists h -> a ∈ lists h' -> h = h'

section Families

variable {l : Links η ν} {both : η -> Bool} {lists : η -> List ν} {h : η} {a : ν}
  {as front back : List ν}

theorem empty_holds (both : η -> Bool) : (empty : Links η ν).Holds both fun _ => [] :=
  ⟨fun _ => rfl, fun _ _ _ hmem => absurd hmem List.not_mem_nil⟩

theorem mem_update_cons [DecidableEq η] {h' : η} {b : ν} :
    b ∈ Function.update lists h (a :: lists h) h' <-> (b = a ∧ h' = h) ∨ b ∈ lists h' := by
  by_cases heq : h' = h
  · rw [heq, Function.update_self, List.mem_cons, and_iff_left rfl]
  · rw [Function.update_of_ne heq]
    exact ⟨Or.inr, fun hmem => hmem.resolve_left fun hnew => heq hnew.2⟩

namespace Holds

theorem first_eq (hl : l.Holds both lists) (h : η) : l.first h = (lists h).head? :=
  (hl.linked h).read_eq

theorem next_eq (hl : l.Holds both lists) (hlist : lists h = front ++ a :: back) :
    l.next a = back.head? := by
  have hlinked := hl.linked h
  rw [hlist] at hlinked
  exact hlinked.next_eq

theorem nodup (hl : l.Holds both lists) (h : η) : (lists h).Nodup :=
  (hl.linked h).nodup

theorem ne_of_mem (hl : l.Holds both lists) {h' : η} {b : ν} (hne : h' ≠ h) (ha : a ∈ lists h)
    (hb : b ∈ lists h') : b ≠ a := by
  intro heq
  exact hne (hl.apart h' h a (heq ▸ hb) ha)

theorem some_ne_first (hl : l.Holds both lists) {h' : η} {b : ν} (hne : h' ≠ h)
    (hb : b ∈ lists h') : some b ≠ l.first h := by
  intro heq
  rw [hl.first_eq h] at heq
  exact hl.ne_of_mem hne (List.mem_of_head? heq.symm) hb rfl

variable [DecidableEq η]

/-- One list is replaced by a list of its own elements and of elements that were on none. -/
theorem apart_update (hl : l.Holds both lists)
    (has : forall b, b ∈ as -> b ∈ lists h ∨ forall h', b ∉ lists h') (h1 h2 : η) (b : ν)
    (h1mem : b ∈ Function.update lists h as h1) (h2mem : b ∈ Function.update lists h as h2) :
    h1 = h2 := by
  have key : forall h', b ∈ as -> b ∈ lists h' -> h = h' := by
    intro h' hb hb'
    rcases has b hb with hold | hnew
    · exact hl.apart h h' b hold hb'
    · exact absurd hb' (hnew h')
  by_cases heq1 : h1 = h
  · rw [heq1, Function.update_self] at h1mem
    by_cases heq2 : h2 = h
    · rw [heq1, heq2]
    · rw [Function.update_of_ne heq2] at h2mem
      rw [heq1]
      exact key h2 h1mem h2mem
  · rw [Function.update_of_ne heq1] at h1mem
    by_cases heq2 : h2 = h
    · rw [heq2, Function.update_self] at h2mem
      rw [heq2]
      exact (key h1 h2mem h1mem).symm
    · rw [Function.update_of_ne heq2] at h2mem
      exact hl.apart h1 h2 b h1mem h2mem

theorem update {l' : Links η ν} (hl : l.Holds both lists)
    (has : forall b, b ∈ as -> b ∈ lists h ∨ forall h', b ∉ lists h')
    (hself : l'.Linked (both h) (.head h) as)
    (hother : forall h', h' ≠ h -> l'.Linked (both h') (.head h') (lists h')) :
    l'.Holds both (Function.update lists h as) := by
  refine ⟨?_, hl.apart_update has⟩
  intro h'
  by_cases heq : h' = h
  · rw [heq, Function.update_self]
    exact hself
  · rw [Function.update_of_ne heq]
    exact hother h' heq

/-- `SLIST_REMOVE_HEAD` -/
theorem slistRemoveHead (hl : l.Holds both lists) (hsingle : both h = false)
    (hlist : lists h = a :: as) :
    (l.slistRemoveHead h).Holds both (Function.update lists h as) := by
  have hold := hl.linked h
  rw [hlist, hsingle] at hold
  apply hl.update
  · intro b hb
    rw [hlist]
    exact Or.inl (List.mem_cons_of_mem a hb)
  · rw [hsingle]
    have hread : (l.slistRemoveHead h).read (.head h) = l.read (.elem a) := by
      have hfirst : l.first h = some a := hold.1
      show Function.update l.first h ((l.first h).bind l.next) h = l.next a
      rw [Function.update_self, hfirst]
      rfl
    exact hold.2.2.frame hread (fun hboth => by contradiction) (fun _ _ => rfl) (fun _ _ _ => rfl)
  · intro h' hne
    exact (hl.linked h').frame (Function.update_of_ne hne ..) (fun _ => rfl) (fun _ _ => rfl)
      (fun _ _ _ => rfl)

variable [DecidableEq ν]

/-- `LIST_INSERT_HEAD` of an element that is on no list. -/
theorem insertHead (hl : l.Holds both lists) (h : η) (hfree : forall h', a ∉ lists h') :
    (l.listInsertHead h a).Holds both (Function.update lists h (a :: lists h)) := by
  have hne : forall h' b, b ∈ lists h' -> b ≠ a := fun h' b hb => ne_of_mem_of_not_mem hb (hfree h')
  have hnext : forall h' b, b ∈ lists h' -> (l.listInsertHead h a).next b = l.next b := by
    intro h' b hb
    have hread := l.listInsertHead_read h a (.elem b)
    rw [if_neg (by simp), if_neg (by simp [hne h' b hb])] at hread
    exact hread
  apply hl.update
  · intro b hb
    rcases List.mem_cons.mp hb with rfl | hold
    · exact Or.inr hfree
    · exact Or.inl hold
  · have hfirst := hl.first_eq h
    have hlink := l.listInsertHead_read h a (.elem a)
    rw [if_neg (by simp), if_pos rfl, hfirst] at hlink
    refine ⟨?_, fun _ => l.listInsertHead_prev_self h a, ?_⟩
    · rw [listInsertHead_read, if_pos rfl]
    · apply (hl.linked h).rehang hlink
      · intro b hb
        exact l.listInsertHead_prev_first (hne h b (List.mem_of_head? hb)) (hfirst.trans hb)
      · exact hnext h
      · intro b hb
        apply l.listInsertHead_prev_of_ne (hne h b (List.mem_of_mem_tail hb))
        rw [hfirst]
        exact some_ne_head_of_mem_tail (hl.nodup h) hb
  · intro h' hne'
    have hread := l.listInsertHead_read h a (.head h')
    rw [if_neg (by simp [hne']), if_neg (by simp)] at hread
    apply (hl.linked h').frame hread (fun _ => rfl) (hnext h')
    intro _ b hb
    exact l.listInsertHead_prev_of_ne (hne h' b hb) (hl.some_ne_first hne' hb)

/-- `SLIST_INSERT_HEAD` of an element that is on no list. -/
theorem slistInsertHead (hl : l.Holds both lists) (hsingle : both h = false)
    (hfree : forall h', a ∉ lists h') :
    (l.slistInsertHead h a).Holds both (Function.update lists h (a :: lists h)) := by
  have hnext : forall h' b, b ∈ lists h' -> (l.slistInsertHead h a).next b = l.next b := by
    intro h' b hb
    exact Function.update_of_ne (ne_of_mem_of_not_mem hb (hfree h')) ..
  apply hl.update
  · intro b hb
    rcases List.mem_cons.mp hb with rfl | hold
    · exact Or.inr hfree
    · exact Or.inl hold
  · refine ⟨Function.update_self .., fun hboth => ?_, ?_⟩
    · rw [hsingle] at hboth
      contradiction
    · apply (hl.linked h).frame _ _ (hnext h) (fun _ _ _ => rfl)
      · exact Function.update_self ..
      · intro hboth
        rw [hsingle] at hboth
        contradiction
  · intro h' hne
    exact (hl.linked h').frame (Function.update_of_ne hne ..) (fun _ => rfl) (hnext h')
      (fun _ _ _ => rfl)

/-- `LIST_REMOVE` -/
theorem remove (hl : l.Holds both lists) (hboth : both h = true) (ha : a ∈ lists h) :
    exists l', l.listRemove a = some l' ∧
      l'.Holds both (Function.update lists h ((lists h).erase a)) := by
  rcases List.append_of_mem ha with ⟨front, back, hlist⟩
  have hold := hl.linked h
  rw [hboth, hlist] at hold
  rcases hold.remove (fun _ _ heq => by contradiction) with ⟨t, ht, hplace, hremoved⟩
  refine ⟨_, hold.listRemove_eq ht, ?_⟩
  apply hl.update
  · intro b hb
    exact Or.inl (List.mem_of_mem_erase hb)
  · have hfront : a ∉ front := by
      intro hmem
      exact (List.nodup_append.mp hold.nodup).2.2 a hmem a List.mem_cons_self rfl
    rw [hboth, hlist, List.erase_append_right _ hfront, List.erase_cons_head]
    exact hremoved
  · intro h' hne
    -- the slot that is written belongs to the list of the element
    have hhead : (.head h' : Slot η ν) ≠ t := by
      rintro rfl
      rcases hplace with heq | ⟨b, _, heq⟩
      · injection heq with heq
        exact hne heq
      · contradiction
    have helem : forall b, b ∈ lists h' -> (.elem b : Slot η ν) ≠ t := by
      rintro b hb rfl
      rcases hplace with heq | ⟨c, hc, heq⟩
      · contradiction
      · injection heq with heq
        have hc : c ∈ lists h := hlist ▸ List.mem_append_left _ hc
        exact hl.ne_of_mem hne hc hb heq
    apply (hl.linked h').frame _ (fun _ => rfl)
    · intro b hb
      have hread := read_write_of_ne (l.setPrevOf (l.next a) (some t)) (helem b hb) (l.next a)
      rw [setPrevOf_read] at hread
      exact hread
    · intro _ b hb
      rw [write_prev]
      apply setPrevOf_prev_of_ne
      intro heq
      rw [hold.next_eq] at heq
      have hback := List.mem_cons_of_mem a (List.mem_of_head? heq.symm)
      exact hl.ne_of_mem hne (hlist ▸ List.mem_append_right front hback) hb rfl
    · rw [read_write_of_ne _ hhead, setPrevOf_read]

end Holds

end Families

/-!
## Where an element is

The lists say of each element which list it is on, and the operations move one element.
-/

def Placed (l : Links η ν) (both : η -> Bool) (place : ν -> Option η) : Prop :=
  exists lists, l.Holds both lists ∧ forall a h, a ∈ lists h <-> place a = some h

namespace Placed

variable {l : Links η ν} {both : η -> Bool} {place : ν -> Option η} {h : η} {a b : ν}

theorem of_first (hl : l.Placed both place) (hfirst : l.first h = some a) : place a = some h := by
  rcases hl with ⟨lists, hholds, hmem⟩
  rw [hholds.first_eq] at hfirst
  exact (hmem a h).mp (List.mem_of_head? hfirst)

theorem of_first_none (hl : l.Placed both place) (hfirst : l.first h = none) (a : ν) :
    place a ≠ some h := by
  rcases hl with ⟨lists, hholds, hmem⟩
  rw [hholds.first_eq, List.head?_eq_none_iff] at hfirst
  intro hplace
  have hin := (hmem a h).mpr hplace
  rw [hfirst] at hin
  contradiction

theorem of_next (hl : l.Placed both place) (ha : place a = some h) (hnext : l.next a = some b) :
    place b = some h ∧ b ≠ a := by
  rcases hl with ⟨lists, hholds, hmem⟩
  rcases List.append_of_mem ((hmem a h).mpr ha) with ⟨front, back, hlist⟩
  rw [hholds.next_eq hlist] at hnext
  have hback := List.mem_of_head? hnext
  constructor
  · apply (hmem b h).mp
    rw [hlist]
    exact List.mem_append_right front (List.mem_cons_of_mem a hback)
  · have hnodup := hholds.nodup h
    rw [hlist, List.nodup_append, List.nodup_cons] at hnodup
    exact ne_of_mem_of_not_mem hback hnodup.2.1.1

variable {lists : η -> List ν}

theorem not_mem (hmem : forall a h, a ∈ lists h <-> place a = some h) (ha : place a = none)
    (h : η) : a ∉ lists h := by
  intro hin
  rw [hmem, ha] at hin
  contradiction

variable [DecidableEq η] [DecidableEq ν]

theorem insert {l' : Links η ν} (hmem : forall a h, a ∈ lists h <-> place a = some h)
    (hholds : l'.Holds both (Function.update lists h (a :: lists h))) (ha : place a = none) :
    l'.Placed both (Function.update place a (some h)) := by
  refine ⟨_, hholds, ?_⟩
  intro b h'
  rw [mem_update_cons, hmem]
  by_cases heq : b = a
  · rw [heq, ha, Function.update_self]
    simp [eq_comm]
  · rw [Function.update_of_ne heq]
    simp [heq]

theorem erase {l' : Links η ν} (hmem : forall a h, a ∈ lists h <-> place a = some h)
    (hl : l.Holds both lists)
    (hholds : l'.Holds both (Function.update lists h ((lists h).erase a))) (ha : place a = some h) :
    l'.Placed both (Function.update place a none) := by
  refine ⟨_, hholds, ?_⟩
  intro b h'
  by_cases heq : b = a
  · rw [heq, Function.update_self]
    by_cases hself : h' = h
    · rw [hself, Function.update_self]
      simp [(hl.nodup h).mem_erase_iff]
    · rw [Function.update_of_ne hself, hmem, ha]
      simp [Ne.symm hself]
  · rw [Function.update_of_ne heq, <- hmem]
    by_cases hself : h' = h
    · rw [hself, Function.update_self, (hl.nodup h).mem_erase_iff]
      simp [heq]
    · rw [Function.update_of_ne hself]

theorem listInsertHead (hl : l.Placed both place) (h : η) (ha : place a = none) :
    (l.listInsertHead h a).Placed both (Function.update place a (some h)) := by
  rcases hl with ⟨lists, hholds, hmem⟩
  exact insert hmem (hholds.insertHead h (not_mem hmem ha)) ha

theorem slistInsertHead (hl : l.Placed both place) (hsingle : both h = false)
    (ha : place a = none) :
    (l.slistInsertHead h a).Placed both (Function.update place a (some h)) := by
  rcases hl with ⟨lists, hholds, hmem⟩
  exact insert hmem (hholds.slistInsertHead hsingle (not_mem hmem ha)) ha

theorem listRemove (hl : l.Placed both place) (hboth : both h = true) (ha : place a = some h) :
    exists l', l.listRemove a = some l' ∧ l'.Placed both (Function.update place a none) := by
  rcases hl with ⟨lists, hholds, hmem⟩
  rcases hholds.remove hboth ((hmem a h).mpr ha) with ⟨l', hremove, hholds'⟩
  exact ⟨l', hremove, erase hmem hholds hholds' ha⟩

theorem slistRemoveHead (hl : l.Placed both place) (hsingle : both h = false)
    (hfirst : l.first h = some a) :
    (l.slistRemoveHead h).Placed both (Function.update place a none) := by
  have ha := hl.of_first hfirst
  rcases hl with ⟨lists, hholds, hmem⟩
  rw [hholds.first_eq] at hfirst
  rcases List.head?_eq_some_iff.mp hfirst with ⟨as, hlist⟩
  have hholds' := hholds.slistRemoveHead hsingle hlist
  have herase : as = (lists h).erase a := by
    rw [hlist, List.erase_cons_head]
  rw [herase] at hholds'
  exact erase hmem hholds hholds' ha

end Placed

end Links

end Foundation
end FStackLite
