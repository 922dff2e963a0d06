import FStackLite.PageArray.Pool

/-!
# Addresses of pages

`ff_chk_vma` says whether an address is in the region of the pages, and `ff_mem_virt2phy`
gives its physical address.  Both are asked about data in the pages that `ff_mem_get_page`
hands out.
-/

namespace FStackLite
namespace PageArray

/-!
## The region
-/

/-- The physical addresses of the pages are known; `phys` gives that of a page. -/
structure Region.Initialised (phys : Addr -> Addr) (r : Region) : Prop where
  aligned : r.pageStart.toNat % 4096 = 0
  fits : r.pageStart.toNat + 4096 * r.size.toNat < 2 ^ 64
  known : forall i : UInt32, i < r.size -> r.mpagePhy i = phys (pageAt r.pageStart i.toNat)

def Region.Contains (r : Region) (a : Addr) : Prop :=
  r.pageStart ≤ a ∧ a < r.pageEnd

structure Region.Resolves (phys : Addr -> Addr) (r : Region) (a : Addr) : Prop where
  check : ffChkVma r a = true <-> r.Contains a
  translate : r.Contains a -> ffMemVirt2phy r a = some (phys (a - a % 4096) + a % 4096)

variable {phys : Addr -> Addr} {r : Region} {a : Addr}

theorem Region.Initialised.pageEnd (h : r.Initialised phys) :
    r.pageEnd.toNat = r.pageStart.toNat + 4096 * r.size.toNat := by
  have hfits := h.fits
  rw [Region.pageEnd, UInt64.toNat_add, UInt64.toNat_mul, UInt32.toNat_toUInt64]
  show (r.pageStart.toNat + 4096 * r.size.toNat % 2 ^ 64) % 2 ^ 64 = _
  omega

theorem Region.Initialised.contains_iff (h : r.Initialised phys) : r.Contains a <->
      r.pageStart.toNat ≤ a.toNat ∧ a.toNat < r.pageStart.toNat + 4096 * r.size.toNat := by
  rw [Region.Contains, UInt64.le_iff_toNat_le, UInt64.lt_iff_toNat_lt, h.pageEnd]

theorem Region.Initialised.toNat_pageOf (h : r.Initialised phys) (ha : r.Contains a) :
    (r.pageOf a).toNat = (a.toNat - r.pageStart.toNat) / 4096 := by
  have hsize := r.size.toNat_lt
  have hbounds := h.contains_iff.mp ha
  rw [Region.pageOf, UInt64.toNat_toUInt32, UInt64.toNat_shiftRight,
    UInt64.toNat_sub_of_le _ _ ha.1, show (12 : UInt64).toNat % 64 = 12 from rfl,
    Nat.shiftRight_eq_div_pow]
  omega

theorem Region.Initialised.pageOf_lt (h : r.Initialised phys) (ha : r.Contains a) :
    r.pageOf a < r.size := by
  have hbounds := h.contains_iff.mp ha
  rw [UInt32.lt_iff_toNat_lt, h.toNat_pageOf ha]
  omega

theorem Region.Initialised.pageAt_pageOf (h : r.Initialised phys) (ha : r.Contains a) :
    pageAt r.pageStart (r.pageOf a).toNat = a - a % 4096 := by
  have hbounds := h.contains_iff.mp ha
  have haligned := h.aligned
  have hmod : (a % 4096).toNat = a.toNat % 4096 := UInt64.toNat_mod a 4096
  have hle : a % 4096 ≤ a := by
    rw [UInt64.le_iff_toNat_le, hmod]
    exact Nat.mod_le _ _
  apply UInt64.toNat_inj.mp
  rw [pageAt, UInt64.toNat_add, UInt64.toNat_ofNat', UInt64.toNat_sub_of_le _ _ hle, hmod,
    h.toNat_pageOf ha]
  have ha := a.toNat_lt
  omega

theorem and_4095 (a : Addr) : a &&& 4095 = a % 4096 := by
  apply UInt64.toNat_inj.mp
  rw [UInt64.toNat_and, UInt64.toNat_mod]
  exact Nat.and_two_pow_sub_one_eq_mod a.toNat 12

theorem Region.Initialised.translates (h : r.Initialised phys) (ha : r.Contains a) :
    ffMemVirt2phy r a = some (phys (a - a % 4096) + a % 4096) := by
  rw [ffMemVirt2phy_of_lt (h.pageOf_lt ha), h.known _ (h.pageOf_lt ha), h.pageAt_pageOf ha,
    and_4095]

theorem ffChkVma_iff : ffChkVma r a = true <-> r.Contains a ∧ a ≠ r.pageStart := by
  rw [ffChkVma, Bool.and_eq_true, decide_eq_true_iff, decide_eq_true_iff, Region.Contains]
  constructor
  · intro h
    exact ⟨⟨UInt64.le_of_lt h.1, h.2⟩, fun heq => UInt64.lt_irrefl _ (heq ▸ h.1)⟩
  · intro h
    exact ⟨UInt64.lt_of_le_of_ne h.1.1 (Ne.symm h.2), h.1.2⟩

theorem Region.Initialised.contains_pageStart (h : r.Initialised phys) :
    r.Contains r.pageStart <-> r.size ≠ 0 := by
  rw [h.contains_iff]
  constructor
  · intro hbounds hzero
    rw [hzero] at hbounds
    exact Nat.lt_irrefl _ hbounds.2
  · intro hne
    have hpos : 0 < r.size.toNat := by
      apply Nat.pos_of_ne_zero
      intro hzero
      exact hne (UInt32.toNat_inj.mp hzero)
    omega

theorem Region.Initialised.resolves_iff (h : r.Initialised phys) :
    r.Resolves phys a <-> r.size = 0 ∨ a ≠ r.pageStart := by
  constructor
  · intro hres
    by_cases heq : a = r.pageStart
    · apply Or.inl
      apply Classical.byContradiction
      intro hsize
      have hin : r.Contains a := heq ▸ h.contains_pageStart.mpr hsize
      exact (ffChkVma_iff.mp (hres.check.mpr hin)).2 heq
    · exact Or.inr heq
  · intro hcond
    refine ⟨?_, h.translates⟩
    rw [ffChkVma_iff, and_iff_left_of_imp]
    intro hin heq
    rcases hcond with hzero | hne
    · exact h.contains_pageStart.mp (heq ▸ hin) hzero
    · exact hne heq

/-!
## The pages that are handed out
-/

def ffMemGetPage (ctl : StackList) : Except PoolFault (Option Addr × StackList) :=
  stklistPop ctl

/-- What `stklist_push` returns is not looked at. -/
def ffMemFreeAddr (p : Addr) (ctl : StackList) : Except PoolFault StackList :=
  (stklistPush ctl p).map Prod.fst

inductive PageCall where
  | getPage
  | freeAddr (p : Addr)

def servePages : List PageCall -> StackList -> Except PoolFault (List Addr × StackList)
  | [], ctl => .ok ([], ctl)
  | .getPage :: calls, ctl =>
      match ffMemGetPage ctl with
      | .error e => .error e
      | .ok (page, ctl') =>
          (servePages calls ctl').map fun served => (page.toList ++ served.1, served.2)
  | .freeAddr p :: calls, ctl =>
      match ffMemFreeAddr p ctl with
      | .error e => .error e
      | .ok ctl' => servePages calls ctl'

def Region.IsPage (r : Region) (p : Addr) : Prop :=
  exists i, i < r.size.toNat ∧ p = pageAt r.pageStart i

structure StackList.HoldsPages (r : Region) (ctl : StackList) : Prop where
  allocated : ctl.ele.isSome = true
  pages : forall p, p ∈ ctl.elements -> r.IsPage p

def FreesPages (r : Region) (calls : List PageCall) : Prop :=
  forall p, PageCall.freeAddr p ∈ calls -> r.IsPage p

theorem StackList.elements_eq {ctl : StackList} {ele : Nat -> Addr} (h : ctl.ele = some ele) :
    ctl.elements = (List.range ctl.top).map ele := by
  rw [StackList.elements, h]

variable {ctl : StackList}

theorem ffMemFreeAddr_holds {p : Addr} (h : ctl.HoldsPages r) (hp : r.IsPage p) :
    exists ctl', ffMemFreeAddr p ctl = .ok ctl' ∧ ctl'.HoldsPages r := by
  rcases Option.isSome_iff_exists.mp h.allocated with ⟨ele, hele⟩
  by_cases hroom : (ctl.top : Int) < ctl.size
  · refine ⟨⟨some (Function.update ele ctl.top p), ctl.size, ctl.top + 1⟩, ?_, rfl, ?_⟩
    · simp only [ffMemFreeAddr, stklistPush, hroom, if_true, hele]
      rfl
    · intro x hx
      rw [StackList.elements_eq rfl] at hx
      rcases List.mem_map.mp hx with ⟨k, hk, rfl⟩
      have hk : k < ctl.top + 1 := List.mem_range.mp hk
      by_cases heq : k = ctl.top
      · rw [heq, Function.update_self]
        exact hp
      · rw [Function.update_of_ne heq]
        apply h.pages
        rw [StackList.elements_eq hele]
        exact List.mem_map_of_mem (List.mem_range.mpr (by omega))
  · refine ⟨ctl, ?_, h⟩
    simp only [ffMemFreeAddr, stklistPush, hroom, if_false]
    rfl

theorem ffMemGetPage_holds (h : ctl.HoldsPages r) :
    exists page ctl', ffMemGetPage ctl = .ok (page, ctl') ∧ ctl'.HoldsPages r ∧
      forall p, page = some p -> r.IsPage p := by
  rcases Option.isSome_iff_exists.mp h.allocated with ⟨ele, hele⟩
  cases htop : ctl.top with
  | zero =>
      refine ⟨none, ctl, ?_, h, ?_⟩
      · simp only [ffMemGetPage, stklistPop, htop]
      · intro p hp
        contradiction
  | succ n =>
      refine ⟨some (ele n), { ctl with top := n }, ?_, ⟨h.allocated, ?_⟩, ?_⟩
      · simp only [ffMemGetPage, stklistPop, htop, hele]
      · intro p hp
        rw [show StackList.elements ⟨ctl.ele, ctl.size, n⟩ = _ from StackList.elements_eq hele] at hp
        rcases List.mem_map.mp hp with ⟨k, hk, rfl⟩
        have hk : k < n := List.mem_range.mp hk
        apply h.pages
        rw [StackList.elements_eq hele, htop]
        exact List.mem_map_of_mem (List.mem_range.mpr (Nat.lt_succ_of_lt hk))
      · intro p hp
        injection hp with hp
        rw [<- hp]
        apply h.pages
        rw [StackList.elements_eq hele, htop]
        exact List.mem_map_of_mem (List.mem_range.mpr (Nat.lt_succ_self n))

/-- Only pages of the region are handed out, whatever is requested and given back. -/
theorem servePages_pages {calls : List PageCall} (h : ctl.HoldsPages r)
    (hfrees : FreesPages r calls) : exists given ctl', servePages calls ctl = .ok (given, ctl') ∧
      forall p, p ∈ given -> r.IsPage p := by
  induction calls generalizing ctl with
  | nil =>
      refine ⟨[], ctl, rfl, ?_⟩
      intro p hp
      contradiction
  | cons call calls ih =>
      have hrest : FreesPages r calls := fun p hp => hfrees p (List.mem_cons_of_mem call hp)
      cases call with
      | freeAddr p =>
          rcases ffMemFreeAddr_holds h (hfrees p List.mem_cons_self) with ⟨next, hnext, hholds⟩
          rcases ih hholds hrest with ⟨given, ctl', hserve, hpages⟩
          refine ⟨given, ctl', ?_, hpages⟩
          simp only [servePages, hnext, hserve]
      | getPage =>
          rcases ffMemGetPage_holds h with ⟨page, next, hnext, hholds, hpage⟩
          rcases ih hholds hrest with ⟨given, ctl', hserve, hpages⟩
          refine ⟨page.toList ++ given, ctl', ?_, ?_⟩
          · simp only [servePages, hnext, hserve]
            rfl
          · intro p hp
            rcases List.mem_append.mp hp with hp | hp
            · exact hpage p (Option.mem_toList.mp hp)
            · exact hpages p hp

theorem Region.Initialised.byte (h : r.Initialised phys) {p b : Addr} (hp : r.IsPage p)
    (hb : b < 4096) : r.Contains (p + b) ∧ (p + b) % 4096 = b ∧ p + b - b = p := by
  rcases hp with ⟨i, hi, rfl⟩
  have haligned := h.aligned
  have hfits := h.fits
  have hb : b.toNat < 4096 := UInt64.lt_iff_toNat_lt.mp hb
  have hbyte : (pageAt r.pageStart i + b).toNat = r.pageStart.toNat + 4096 * i + b.toNat := by
    rw [pageAt, UInt64.toNat_add, UInt64.toNat_add, UInt64.toNat_ofNat']
    omega
  refine ⟨?_, ?_, UInt64.add_sub_cancel _ _⟩
  · rw [h.contains_iff, hbyte]
    omega
  · apply UInt64.toNat_inj.mp
    rw [UInt64.toNat_mod, hbyte]
    show (r.pageStart.toNat + 4096 * i + b.toNat) % 4096 = b.toNat
    omega

/-!
Every address is classified and translated correctly but the first one of the region, which
is the first byte of a page that is handed out like the others.
-/
theorem page_addresses (phys : Addr -> Addr) (r : Region) (h : r.Initialised phys) :
    (forall a, r.Resolves phys a <-> r.size = 0 ∨ a ≠ r.pageStart) ∧
    (forall (ctl : StackList) (calls : List PageCall), ctl.HoldsPages r -> FreesPages r calls ->
      exists given ctl', servePages calls ctl = .ok (given, ctl') ∧
        forall p, p ∈ given -> forall b : UInt64, b < 4096 ->
          r.Contains (p + b) ∧ ffMemVirt2phy r (p + b) = some (phys p + b) ∧
          (ffChkVma r (p + b) = true <-> p + b ≠ r.pageStart)) := by
  constructor
  · intro a
    exact h.resolves_iff
  · intro ctl calls hctl hfrees
    rcases servePages_pages hctl hfrees with ⟨given, ctl', hserve, hpages⟩
    refine ⟨given, ctl', hserve, ?_⟩
    intro p hp b hb
    rcases h.byte (hpages p hp) hb with ⟨hin, hoffset, hpage⟩
    have htranslate := h.translates hin
    rw [hoffset, hpage] at htranslate
    refine ⟨hin, htranslate, ?_⟩
    rw [ffChkVma_iff, and_iff_right hin]

/-!
## The region that is set up
-/

def PagePool.region (pool : PagePool) : Region where
  pageStart := pool.pageStart
  size := UInt32.ofInt pool.ctl.size
  mpagePhy i := pool.mpagePhy i.toNat

/-- What `ff_mmap_init` sets up is a region whose pages are known, with all of them on the stack. -/
theorem ffMmapInit_region {env : MmapEnv} {memSize : Int} {n : Nat} (hmaps : env.Maps memSize)
    (hbytes : (bsdMemsz memSize).toNat = 4096 * n) (hpos : 0 < n) (hn : n ≤ 2 ^ 19)
    (haligned : (env.mmap (bsdMemsz memSize)).toNat % 4096 = 0) :
    exists pool, ffMmapInit env memSize = .ok pool ∧
      pool.region.Initialised env.rteMemVirt2phy ∧ pool.ctl.HoldsPages pool.region ∧
      pool.region.pageEnd = pool.pageEnd := by
  rcases ffMmapInit_pages hmaps hbytes hpos hn with ⟨pool, hpool, hfirst⟩
  have hsize : pool.region.size.toNat = n := by
    show (UInt32.ofInt pool.ctl.size).toNat = n
    rw [hfirst.size, UInt32.ofInt, UInt32.toNat_ofNat']
    omega
  have hstart : pool.region.pageStart = env.mmap (bsdMemsz memSize) := hfirst.pageStart
  have hfits := hmaps.fits
  have hinit : pool.region.Initialised env.rteMemVirt2phy := by
    rw [hbytes] at hfits
    refine ⟨by rw [hstart, haligned], by rw [hstart, hsize]; exact hfits, ?_⟩
    intro i hi
    rw [UInt32.lt_iff_toNat_lt, hsize] at hi
    rw [hstart]
    exact hfirst.phys i.toNat hi
  refine ⟨pool, hpool, hinit, ⟨?_, ?_⟩, ?_⟩
  · rcases hfirst.stacked with ⟨ele, hele, _⟩
    rw [hele]
    rfl
  · intro p hp
    rw [hfirst.elements] at hp
    rcases List.mem_map.mp hp with ⟨i, hi, rfl⟩
    exact ⟨i, hsize.symm ▸ List.mem_range.mp hi, by rw [hstart]⟩
  · apply UInt64.toNat_inj.mp
    rw [hinit.pageEnd, hstart, hsize, hfirst.pageEnd, UInt64.toNat_add, Nat.mod_eq_of_lt hfits,
      hbytes]

/-- After a set-up of one megabyte, the second page, and two pages that are handed out. -/
theorem page_addresses_set_up : exists pool, ffMmapInit obliging 1 = .ok pool ∧
      pool.region.Resolves obliging.rteMemVirt2phy (pool.pageStart + 4096) ∧
      exists given ctl', servePages [.getPage, .getPage] pool.ctl = .ok (given, ctl') ∧
        forall p, p ∈ given ->
          ffMemVirt2phy pool.region (p + 16) = some (obliging.rteMemVirt2phy p + 16) := by
  have hbytes : (bsdMemsz 1).toNat = 4096 * 256 := by decide
  rcases ffMmapInit_region (obliging_maps 1 (by decide)) hbytes (by decide) (by decide)
    (by decide) with ⟨pool, hpool, hinit, hholds, _⟩
  have hsecond : pool.pageStart + 4096 ≠ pool.pageStart := by
    intro heq
    exact absurd (UInt64.add_eq_left.mp heq) (by decide)
  rcases page_addresses _ pool.region hinit with ⟨hresolves, hpages⟩
  refine ⟨pool, hpool, (hresolves _).mpr (.inr hsecond), ?_⟩
  rcases hpages pool.ctl [.getPage, .getPage] hholds (by simp [FreesPages]) with
    ⟨given, ctl', hserve, hgiven⟩
  exact ⟨given, ctl', hserve, fun p hp => (hgiven p hp 16 (by decide)).2.1⟩

theorem sixteenPages_initialised : sixteenPages.Initialised id := by
  refine ⟨by decide, by decide, ?_⟩
  intro i hi
  have hi : i.toNat < 16 := UInt32.lt_iff_toNat_lt.mp hi
  apply UInt64.toNat_inj.mp
  show (0x10000 + 4096 * i.toUInt64).toNat = (0x10000 + UInt64.ofNat (4096 * i.toNat)).toNat
  rw [UInt64.toNat_add, UInt64.toNat_add, UInt64.toNat_mul, UInt32.toNat_toUInt64,
    UInt64.toNat_ofNat']
  rfl

/-- The last page on the stack is the first one of the region. -/
theorem first_page_unknown : sixteenPages.Initialised id ∧
    (servePages [.getPage] ⟨some fun _ => 0x10000, 16, 1⟩).toOption.map Prod.fst = some [0x10000] ∧
    ffChkVma sixteenPages 0x10000 = false ∧ ¬ sixteenPages.Resolves id 0x10000 := by
  have hcheck : ffChkVma sixteenPages 0x10000 = false := by decide
  refine ⟨sixteenPages_initialised, rfl, hcheck, ?_⟩
  intro h
  have hin : sixteenPages.Contains 0x10000 := ⟨by decide, by decide⟩
  rw [h.check.mpr hin] at hcheck
  contradiction

end PageArray
end FStackLite
