import FStackLite.Foundation.Arena
import FStackLite.Foundation.Queue
import Mathlib.Data.List.MinMax
import Mathlib.Order.Nat
import Mathlib.Tactic.Ring

/-!
# The slabs of pages

`lib/include/vm/uma_int.h` keeps the slab of a page in a hash table with chained entries.
`vsetslab` changes the entry of a page in place or puts a new one at the head of its bucket,
and `vtoslab` looks for the entry.
-/

namespace FStackLite
namespace Slab

open Foundation

/-- `vm_offset_t` -/
abbrev Va := UInt64

abbrev UmaPage := Nat

variable {σ : Type}

/-- `uma_page_slab_hash` with its nodes; `none` is the null pointer of a slab. -/
structure PageHash (σ : Type) where
  umaPageMask : UInt64
  links : Links UInt64 UmaPage
  upVa : UmaPage -> Va
  upSlab : UmaPage -> Option σ
  /-- The memory that `malloc` gave. -/
  pages : Arena UmaPage

/-- `UMA_PAGE_HASH` -/
def umaPageHash (umaPageMask : UInt64) (va : Va) : UInt64 :=
  (va >>> 12) &&& umaPageMask

/-- `num_hash_buckets - 1`, which is stored as an `int`. -/
def maskOf (numHashBuckets : UInt32) : UInt64 :=
  UInt64.ofInt (((numHashBuckets - 1).toNat : Int).bmod (2 ^ 32))

namespace PageHash

def empty (numHashBuckets : UInt32) : PageHash σ where
  umaPageMask := maskOf numHashBuckets
  links := .empty
  upVa _ := 0
  upSlab _ := none
  pages := ⟨[], 0, [], [], List.nodup_nil⟩

def bucket (t : PageHash σ) (va : Va) : UInt64 :=
  umaPageHash t.umaPageMask va

/-- The loop of both functions: `up` is at the entry of the page or at the null pointer. -/
def findPage (t : PageHash σ) (va : Va) (fuel : Nat) : Option (Option UmaPage) :=
  t.links.seek (fun up => t.upVa up = va) fuel (t.links.first (t.bucket va))

def vtoslab (t : PageHash σ) (va : Va) (fuel : Nat) : Option (Option σ) :=
  (t.findPage va fuel).map fun up => up.bind t.upSlab

def changePage (t : PageHash σ) (up : UmaPage) (slab : Option σ) : PageHash σ :=
  { t with upSlab := Function.update t.upSlab up slab }

/-- With `M_WAITOK` a request for memory is served. -/
def addPage (malloc : Allocator UmaPage) (t : PageHash σ) (va : Va) (slab : Option σ) :
    PageHash σ :=
  let up := t.pages.item malloc
  { t with
    pages := t.pages.take malloc
    upVa := Function.update t.upVa up va
    upSlab := Function.update t.upSlab up slab
    links := t.links.listInsertHead (t.bucket va) up }

def vsetslab (malloc : Allocator UmaPage) (t : PageHash σ) (va : Va) (slab : Option σ)
    (fuel : Nat) : Option (PageHash σ) :=
  (t.findPage va fuel).map fun up =>
    match up with
    | some up => t.changePage up slab
    | none => t.addPage malloc va slab

end PageHash

/-- Calls of `vsetslab`, one after the other. -/
def setSlabs (malloc : Allocator UmaPage) :
    List (Va × Option σ) -> PageHash σ -> Nat -> Option (PageHash σ)
  | [], t, _ => some t
  | (va, slab) :: calls, t, fuel =>
      (t.vsetslab malloc va slab fuel).bind fun t' => setSlabs malloc calls t' fuel

/-!
## The table as a map
-/

/-- The entries are in the buckets of their pages, one for each page that the map knows. -/
structure Represents (t : PageHash σ) (lists : UInt64 -> List UmaPage) (m : Va -> Option σ) :
    Prop where
  holds : t.links.Holds (fun _ => true) lists
  placed : forall h up, up ∈ lists h -> t.bucket (t.upVa up) = h
  unique : forall h up up', up ∈ lists h -> up' ∈ lists h -> t.upVa up = t.upVa up' -> up = up'
  allocated : forall h up, up ∈ lists h -> up ∈ t.pages.used
  stored : forall h up, up ∈ lists h -> t.upSlab up = m (t.upVa up)
  known : forall va, (forall up, up ∈ lists (t.bucket va) -> t.upVa up ≠ va) -> m va = none

variable {t : PageHash σ} {lists : UInt64 -> List UmaPage} {m : Va -> Option σ} {va : Va}

namespace Represents

theorem empty (numHashBuckets : UInt32) :
    Represents (PageHash.empty numHashBuckets : PageHash σ) (fun _ => []) fun _ => none where
  holds := Links.empty_holds _
  placed _ _ h := absurd h List.not_mem_nil
  unique _ _ _ h := absurd h List.not_mem_nil
  allocated _ _ h := absurd h List.not_mem_nil
  stored _ _ h := absurd h List.not_mem_nil
  known _ _ := rfl

theorem findPage (h : Represents t lists m) (va : Va) :
    Converges (t.findPage va) ((lists (t.bucket va)).find? fun up => t.upVa up = va) :=
  (h.holds.linked (t.bucket va)).seek_converges fun up => t.upVa up = va

theorem vtoslab (h : Represents t lists m) (va : Va) : Converges (t.vtoslab va) (m va) := by
  have hfind := (h.findPage va).map fun up => up.bind t.upSlab
  cases hup : (lists (t.bucket va)).find? fun up => t.upVa up = va with
  | none =>
      have hnone := h.known va (fun up hmem => by simpa using List.find?_eq_none.mp hup up hmem)
      rw [hup] at hfind
      rw [hnone]
      exact hfind
  | some up =>
      have hva : t.upVa up = va := by simpa using List.find?_some hup
      have hslab := h.stored _ up (List.mem_of_find?_eq_some hup)
      rw [hva] at hslab
      rw [hup] at hfind
      rw [<- hslab]
      exact hfind

variable {up : UmaPage}

theorem eq_of_upVa (h : Represents t lists m) {up' : UmaPage} {b : UInt64}
    (hup : up ∈ lists (t.bucket va)) (hva : t.upVa up = va) (hup' : up' ∈ lists b)
    (hva' : t.upVa up' = va) : up' = up := by
  have hb := h.placed b up' hup'
  rw [hva'] at hb
  rw [<- hb] at hup'
  exact h.unique _ up' up hup' hup (hva'.trans hva.symm)

theorem changePage (h : Represents t lists m) (hup : up ∈ lists (t.bucket va))
    (hva : t.upVa up = va) (slab : Option σ) :
    Represents (t.changePage up slab) lists (Function.update m va slab) where
  holds := h.holds
  placed := h.placed
  unique := h.unique
  allocated := h.allocated
  stored b up' hup' := by
    show Function.update t.upSlab up slab up' = Function.update m va slab (t.upVa up')
    by_cases heq : t.upVa up' = va
    · rw [h.eq_of_upVa hup hva hup' heq, Function.update_self, hva, Function.update_self]
    · have hother : up' ≠ up := by
        rintro rfl
        exact heq hva
      rw [Function.update_of_ne heq, Function.update_of_ne hother]
      exact h.stored b up' hup'
  known va' hnone := by
    have hne : va' ≠ va := by
      rintro rfl
      exact hnone up hup hva
    rw [Function.update_of_ne hne]
    exact h.known va' hnone

theorem item_not_mem (h : Represents t lists m) (malloc : Allocator UmaPage) (b : UInt64) :
    t.pages.item malloc ∉ lists b :=
  fun hmem => t.pages.item_not_mem malloc (h.allocated b _ hmem)

theorem addPage_old (h : Represents t lists m) (malloc : Allocator UmaPage) (va : Va)
    (slab : Option σ) {b : UInt64} (hup : up ∈ lists b) :
    (t.addPage malloc va slab).upVa up = t.upVa up ∧
      (t.addPage malloc va slab).upSlab up = t.upSlab up := by
  have hne := ne_of_mem_of_not_mem hup (h.item_not_mem malloc b)
  exact ⟨Function.update_of_ne hne .., Function.update_of_ne hne ..⟩

theorem addPage_new (t : PageHash σ) (malloc : Allocator UmaPage) (va : Va) (slab : Option σ) :
    (t.addPage malloc va slab).upVa (t.pages.item malloc) = va ∧
      (t.addPage malloc va slab).upSlab (t.pages.item malloc) = slab :=
  ⟨Function.update_self .., Function.update_self ..⟩

theorem addPage (h : Represents t lists m) (malloc : Allocator UmaPage)
    (hnew : forall up, up ∈ lists (t.bucket va) -> t.upVa up ≠ va) (slab : Option σ) :
    Represents (t.addPage malloc va slab)
      (Function.update lists (t.bucket va) (t.pages.item malloc :: lists (t.bucket va)))
      (Function.update m va slab) := by
  have hself := addPage_new t malloc va slab
  have hother : forall b up, up ∈ lists b -> t.upVa up ≠ va := by
    rintro b up hup rfl
    exact hnew up (h.placed b up hup ▸ hup) rfl
  refine ⟨h.holds.insertHead _ (h.item_not_mem malloc), ?_, ?_, ?_, ?_, ?_⟩
  · intro b up hup
    rcases Links.mem_update_cons.mp hup with ⟨rfl, rfl⟩ | hold
    · rw [hself.1]
      rfl
    · rw [(h.addPage_old malloc va slab hold).1]
      exact h.placed b up hold
  · intro b up up' hup hup' heq
    rcases Links.mem_update_cons.mp hup with ⟨rfl, rfl⟩ | hold
    · rcases Links.mem_update_cons.mp hup' with ⟨rfl, _⟩ | hold'
      · rfl
      · rw [hself.1, (h.addPage_old malloc va slab hold').1] at heq
        exact absurd heq.symm (hother _ up' hold')
    · rw [(h.addPage_old malloc va slab hold).1] at heq
      rcases Links.mem_update_cons.mp hup' with ⟨rfl, rfl⟩ | hold'
      · rw [hself.1] at heq
        exact absurd heq (hother _ up hold)
      · rw [(h.addPage_old malloc va slab hold').1] at heq
        exact h.unique b up up' hold hold' heq
  · intro b up hup
    rcases Links.mem_update_cons.mp hup with ⟨rfl, _⟩ | hold
    · exact List.mem_cons_self
    · exact List.mem_cons_of_mem _ (h.allocated b up hold)
  · intro b up hup
    rcases Links.mem_update_cons.mp hup with ⟨rfl, _⟩ | hold
    · rw [hself.1, hself.2, Function.update_self]
    · have hold' := h.addPage_old malloc va slab hold
      rw [hold'.1, hold'.2, Function.update_of_ne (hother b up hold)]
      exact h.stored b up hold
  · intro va' hnone
    have hva' : va' ≠ va := by
      rintro rfl
      exact hnone _ (Links.mem_update_cons.mpr (Or.inl ⟨rfl, rfl⟩)) hself.1
    rw [Function.update_of_ne hva']
    apply h.known va'
    intro up hup
    rw [<- (h.addPage_old malloc va slab hup).1]
    exact hnone up (Links.mem_update_cons.mpr (Or.inr hup))

end Represents

/-!
## Calls
-/

def lastSlab (calls : List (Va × Option σ)) (va : Va) : Option σ :=
  (calls.reverse.find? fun call => call.1 = va).bind Prod.snd

def PageHash.OneEntryEach (t : PageHash σ) : Prop :=
  exists lists, t.links.Holds (fun _ => true) lists ∧
    (forall b, ((lists b).map t.upVa).Nodup) ∧
    forall b b' up up', up ∈ lists b -> up' ∈ lists b' -> b ≠ b' -> t.upVa up ≠ t.upVa up'

theorem Represents.oneEntryEach (h : Represents t lists m) : t.OneEntryEach := by
  refine ⟨lists, h.holds, ?_, ?_⟩
  · intro b
    apply List.Nodup.map_on _ (h.holds.nodup b)
    intro up hup up' hup' heq
    exact h.unique b up up' hup hup' heq
  · intro b b' up up' hup hup' hne heq
    have hb := h.placed b up hup
    rw [heq, h.placed b' up' hup'] at hb
    exact hne hb.symm

theorem Represents.vsetslab (h : Represents t lists m) (malloc : Allocator UmaPage) (va : Va)
    (slab : Option σ) : exists t' lists', Converges (t.vsetslab malloc va slab) t' ∧
      Represents t' lists' (Function.update m va slab) ∧ t'.umaPageMask = t.umaPageMask := by
  have hfind := (h.findPage va).map fun up =>
    match up with
    | some up => t.changePage up slab
    | none => t.addPage malloc va slab
  cases hup : (lists (t.bucket va)).find? fun up => t.upVa up = va with
  | none =>
      rw [hup] at hfind
      refine ⟨_, _, hfind, h.addPage malloc ?_ slab, rfl⟩
      intro up hmem
      simpa using List.find?_eq_none.mp hup up hmem
  | some up =>
      have hva : t.upVa up = va := by simpa using List.find?_some hup
      rw [hup] at hfind
      exact ⟨_, _, hfind, h.changePage (List.mem_of_find?_eq_some hup) hva slab, rfl⟩

theorem Represents.setSlabs (h : Represents t lists m) (malloc : Allocator UmaPage)
    (calls : List (Va × Option σ)) : exists t' lists', Converges (setSlabs malloc calls t) t' ∧
      Represents t' lists' (calls.foldl (fun m call => Function.update m call.1 call.2) m) ∧
      t'.umaPageMask = t.umaPageMask := by
  induction calls generalizing t lists m with
  | nil => exact ⟨t, lists, Converges.of_some, h, rfl⟩
  | cons call calls ih =>
      rcases h.vsetslab malloc call.1 call.2 with ⟨t', lists', hset, hrep, hmask⟩
      rcases ih hrep with ⟨t'', lists'', hrest, hreps, hmasks⟩
      exact ⟨t'', lists'', hset.bind hrest, hreps, hmasks.trans hmask⟩

theorem foldl_update_eq_lastSlab (calls : List (Va × Option σ)) (va : Va) :
    calls.foldl (fun m call => Function.update m call.1 call.2) (fun _ => none) va =
      lastSlab calls va := by
  rw [lastSlab, <- List.foldr_reverse]
  induction calls.reverse with
  | nil => rfl
  | cons call calls ih =>
      rw [List.foldr_cons, List.find?_cons]
      by_cases heq : call.1 = va
      · rw [heq, Function.update_self, decide_eq_true rfl]
        rfl
      · rw [Function.update_of_ne (Ne.symm heq), ih, decide_eq_false heq]

theorem maskOf_two_pow {k : Nat} (hk : k < 32) :
    (maskOf (UInt32.ofNat (2 ^ k))).toNat = 2 ^ k - 1 := by
  have hpos := Nat.two_pow_pos k
  have hle : 2 ^ k ≤ 2 ^ 31 := Nat.pow_le_pow_right (by decide) (Nat.le_of_lt_succ hk)
  have hone : (1 : UInt32) ≤ UInt32.ofNat (2 ^ k) := by
    rw [UInt32.le_iff_toNat_le, UInt32.toNat_ofNat']
    show 1 ≤ _
    omega
  have hsub : (UInt32.ofNat (2 ^ k) - 1).toNat = 2 ^ k - 1 := by
    rw [UInt32.toNat_sub_of_le _ _ hone, UInt32.toNat_ofNat']
    show 2 ^ k % 2 ^ 32 - 1 = _
    omega
  rw [maskOf, hsub, Int.bmod_eq_of_le (by omega) (by omega), UInt64.ofInt, UInt64.toNat_ofNat']
  omega

theorem umaPageHash_lt {k : Nat} (hk : k < 32) (va : Va) :
    (umaPageHash (maskOf (UInt32.ofNat (2 ^ k))) va).toNat < 2 ^ k := by
  have hpos := Nat.two_pow_pos k
  have hle := Nat.and_le_right (n := (va >>> 12).toNat) (m := 2 ^ k - 1)
  rw [umaPageHash, UInt64.toNat_and, maskOf_two_pow hk]
  omega

/-- The table is the map of the last calls. -/
theorem slab_table (malloc : Allocator UmaPage) (k : Nat) (hk : k < 32)
    (calls : List (Va × Option σ)) : exists t : PageHash σ,
      Converges (setSlabs malloc calls (PageHash.empty (UInt32.ofNat (2 ^ k)))) t ∧
      (forall va, Converges (t.vtoslab va) (lastSlab calls va)) ∧ t.OneEntryEach ∧
      forall va, (t.bucket va).toNat < 2 ^ k := by
  have hempty : Represents (PageHash.empty (UInt32.ofNat (2 ^ k)) : PageHash σ) _ _ := .empty _
  rcases hempty.setSlabs malloc calls with ⟨t, lists, hrun, hrep, hmask⟩
  refine ⟨t, hrun, ?_, hrep.oneEntryEach, ?_⟩
  · intro va
    rw [<- foldl_update_eq_lastSlab]
    exact hrep.vtoslab va
  · intro va
    rw [PageHash.bucket, hmask]
    exact umaPageHash_lt hk va

def nextAbove : Allocator UmaPage where
  ok _ := true
  pick _ used := used.foldr max ⊥ + 1
  fresh _ _ hmem := Nat.not_succ_le_self _ (List.le_max_of_le hmem (Nat.le_refl _))

/-- Two pages in one bucket, the first of them set twice. -/
theorem slab_table_of_one_bucket : exists t : PageHash Nat,
      Converges (setSlabs nextAbove [(0x1000, some 1), (0x2000, some 2), (0x1000, some 3)]
        (PageHash.empty (UInt32.ofNat (2 ^ 0)))) t ∧ (forall va, Converges (t.vtoslab va)
        (lastSlab [(0x1000, some 1), (0x2000, some 2), (0x1000, some 3)] va)) ∧ t.OneEntryEach ∧
      forall va, (t.bucket va).toNat < 2 ^ 0 :=
  slab_table nextAbove 0 (by decide) _

end Slab
end FStackLite
