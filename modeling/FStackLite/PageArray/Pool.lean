import FStackLite.PageArray.ZeroCopy
import Mathlib.Data.List.Range
import Mathlib.Data.List.Nodup

/-!
# The pool of pages

`ff_mmap_init` maps the memory of the stack, puts the address of every page on a stack and
notes the physical address of each of them.  The number of bytes and the offsets of the pages
are computed as `int`.
-/

namespace FStackLite
namespace PageArray

/-!
## The stack
-/

/-- `StackList_t`.  Without memory for the elements there is the null pointer. -/
structure StackList where
  ele : Option (Nat -> Addr)
  size : Int
  top : Nat

inductive PoolFault where
  | panic
  /-- It uses memory that is not there, or counts above the largest `int`. -/
  | undefined
deriving DecidableEq

/-- `ff_mpage_ctl` at the start. -/
def StackList.zero : StackList :=
  ⟨none, 0, 0⟩

/-- `memory` is what `posix_memalign` gives. -/
def stklistInit (memory : Option (Nat -> Addr)) (p : StackList) (size : Int) : StackList × Int :=
  if size ≤ 0 then
    (p, -1)
  else
    match memory with
    | none => ({ p with size := size, top := 0 }, -2)
    | some ele => (⟨some ele, size, 0⟩, 0)

def stklistPush (p : StackList) (val : Addr) : Except PoolFault (StackList × Int) :=
  if (p.top : Int) < p.size then
    match p.ele with
    | none => .error .undefined
    | some ele =>
        .ok ({ p with ele := some (Function.update ele p.top val), top := p.top + 1 }, 0)
  else
    .ok (p, -1)

def stklistPop (p : StackList) : Except PoolFault (Option Addr × StackList) :=
  match p.top with
  | 0 => .ok (none, p)
  | n + 1 =>
      match p.ele with
      | none => .error .undefined
      | some ele => .ok (some (ele n), { p with top := n })

def StackList.elements (p : StackList) : List Addr :=
  match p.ele with
  | none => []
  | some ele => (List.range p.top).map ele

/-!
## The set-up
-/

structure MmapEnv where
  mmap : UInt64 -> Addr
  mlock : Addr -> UInt64 -> Bool
  /-- The memory for `ff_mpage_phy`. -/
  phyMemory : Option (Nat -> Addr)
  /-- The memory for the elements of the stack. -/
  eleMemory : Option (Nat -> Addr)
  rteMemVirt2phy : Addr -> Addr

/-- `(uint64_t)-1`, the result of a mapping that fails. -/
def mapFailed : Addr :=
  0xffffffffffffffff

def rteBadIova : Addr :=
  0xffffffffffffffff

structure PagePool where
  ctl : StackList
  pageStart : Addr
  pageEnd : Addr
  mpagePhy : Nat -> Addr

/-- `mem_size << 20`, which is an `int`. -/
def bsdMemsz (memSize : Int) : UInt64 :=
  UInt64.ofInt ((memSize * 2 ^ 20).bmod (2 ^ 32))

/-- `PAGE_SIZE * i`, which is an `int`. -/
def pageOffset (i : Nat) : UInt64 :=
  UInt64.ofInt ((4096 * (i : Int)).bmod (2 ^ 32))

def initPage (env : MmapEnv) (i : Nat) (pool : PagePool) : Except PoolFault PagePool :=
  let virtAddr := pool.pageStart + pageOffset i
  match stklistPush pool.ctl virtAddr with
  | .error e => .error e
  | .ok (ctl, _) =>
      if env.rteMemVirt2phy virtAddr = rteBadIova then
        .error .panic
      else
        .ok { pool with
          ctl := ctl
          mpagePhy := Function.update pool.mpagePhy i (env.rteMemVirt2phy virtAddr) }

/-- The loop, with `n` pages left. -/
def initPages (env : MmapEnv) : Nat -> Nat -> PagePool -> Except PoolFault PagePool
  | 0, _, pool => .ok pool
  | n + 1, i, pool =>
      match initPage env i pool with
      | .error e => .error e
      | .ok pool' =>
          if i = 2 ^ 31 - 1 then
            .error .undefined
          else
            initPages env n (i + 1) pool'

def startPool (env : MmapEnv) (start : Addr) (memsz : UInt64) (phy : Nat -> Addr) : PagePool where
  ctl := (stklistInit env.eleMemory .zero
    (((memsz >>> 12).toUInt32.toNat : Int).bmod (2 ^ 32))).1
  pageStart := start
  pageEnd := start + memsz
  mpagePhy := phy

def ffMmapInit (env : MmapEnv) (memSize : Int) : Except PoolFault PagePool :=
  let memsz := bsdMemsz memSize
  let start := env.mmap memsz
  if start = mapFailed then
    .error .panic
  else if !env.mlock start memsz then
    .error .panic
  else
    match env.phyMemory with
    | none => .error .panic
    | some phy => initPages env (memsz >>> 12).toUInt32.toNat 0 (startPool env start memsz phy)

/-!
## Pages
-/

def pageAt (start : Addr) (i : Nat) : Addr :=
  start + UInt64.ofNat (4096 * i)

theorem toNat_ofInt (v : Int) : ((UInt64.ofInt v).toNat : Int) = v % 2 ^ 64 := by
  rw [UInt64.ofInt, UInt64.toNat_ofNat']
  omega

theorem pageOffset_eq {i : Nat} (h : i < 2 ^ 19) : pageOffset i = UInt64.ofNat (4096 * i) := by
  have hmod : (4096 * (i : Int)).bmod (2 ^ 32) = 4096 * (i : Int) :=
    Int.bmod_eq_of_le (by omega) (by omega)
  have hoffset := toNat_ofInt (4096 * (i : Int))
  apply UInt64.toNat_inj.mp
  rw [pageOffset, hmod, UInt64.toNat_ofNat']
  omega

theorem pageAt_inj {start : Addr} {i j : Nat} (hi : i < 2 ^ 19) (hj : j < 2 ^ 19)
    (h : pageAt start i = pageAt start j) : i = j := by
  have hoffset := congrArg UInt64.toNat ((UInt64.add_right_inj start).mp h)
  rw [UInt64.toNat_ofNat', UInt64.toNat_ofNat'] at hoffset
  omega

/-- The pool when the first `i` pages are set up. -/
structure FirstPages (env : MmapEnv) (start finish : Addr) (n i : Nat) (pool : PagePool) :
    Prop where
  pageStart : pool.pageStart = start
  pageEnd : pool.pageEnd = finish
  size : pool.ctl.size = n
  top : pool.ctl.top = i
  stacked : exists ele, pool.ctl.ele = some ele ∧ forall k, k < i -> ele k = pageAt start k
  phys : forall k, k < i -> pool.mpagePhy k = env.rteMemVirt2phy (pageAt start k)

variable {env : MmapEnv} {start finish : Addr} {n i memSize : Nat} {pool : PagePool}

theorem FirstPages.step (h : FirstPages env start finish n i pool) (hi : i < n) (hn : n ≤ 2 ^ 19)
    (hknown : env.rteMemVirt2phy (pageAt start i) ≠ rteBadIova) :
    exists pool', initPage env i pool = .ok pool' ∧
      FirstPages env start finish n (i + 1) pool' := by
  rcases h.stacked with ⟨ele, hele, hpages⟩
  have haddr : pool.pageStart + pageOffset i = pageAt start i := by
    rw [h.pageStart, pageOffset_eq (Nat.lt_of_lt_of_le hi hn), pageAt]
  have hroom : (i : Int) < pool.ctl.size := by
    rw [h.size]
    exact Int.ofNat_lt.mpr hi
  have hpush : stklistPush pool.ctl (pageAt start i) =
      .ok (⟨some (Function.update ele i (pageAt start i)), pool.ctl.size, i + 1⟩, 0) := by
    simp only [stklistPush, h.top, hroom, if_true, hele]
  refine ⟨⟨⟨some (Function.update ele i (pageAt start i)), pool.ctl.size, i + 1⟩, pool.pageStart,
    pool.pageEnd, Function.update pool.mpagePhy i (env.rteMemVirt2phy (pageAt start i))⟩, ?_, ?_⟩
  · simp only [initPage, haddr, hpush, hknown, if_false]
  · refine ⟨h.pageStart, h.pageEnd, h.size, rfl, ⟨_, rfl, ?_⟩, ?_⟩
    · intro k hk
      by_cases heq : k = i
      · rw [heq, Function.update_self]
      · rw [Function.update_of_ne heq, hpages k (by omega)]
    · intro k hk
      by_cases heq : k = i
      · rw [heq]
        exact Function.update_self _ _ _
      · rw [<- h.phys k (by omega)]
        exact Function.update_of_ne heq _ _

theorem initPages_firstPages {left : Nat} (h : FirstPages env start finish n i pool)
    (hleft : i + left = n) (hn : n ≤ 2 ^ 19)
    (hknown : forall a, env.rteMemVirt2phy a ≠ rteBadIova) :
    exists pool', initPages env left i pool = .ok pool' ∧
      FirstPages env start finish n n pool' := by
  induction left generalizing i pool with
  | zero =>
      have hend : i = n := hleft
      exact ⟨pool, rfl, hend ▸ h⟩
  | succ left ih =>
      rcases h.step (by omega) hn (hknown _) with ⟨next, hnext, hfirst⟩
      have hcount : i ≠ 2 ^ 31 - 1 := by omega
      rcases ih hfirst (by omega) with ⟨pool', hpool', hall⟩
      refine ⟨pool', ?_, hall⟩
      simp only [initPages, hnext, hcount, if_false]
      exact hpool'

theorem initPages_bounds {left : Nat} {pool' : PagePool} (h : initPages env left i pool = .ok pool') :
    pool'.pageStart = pool.pageStart ∧ pool'.pageEnd = pool.pageEnd := by
  induction left generalizing i pool with
  | zero =>
      injection h with h
      rw [h]
      exact ⟨rfl, rfl⟩
  | succ left ih =>
      rw [initPages] at h
      split at h
      · contradiction
      · next next hnext =>
          split at h
          · contradiction
          · have hlater := ih h
            simp only [initPage] at hnext
            split at hnext
            · contradiction
            · split at hnext
              · contradiction
              · injection hnext with hnext
                rw [<- hnext] at hlater
                exact hlater

/-!
## What is set up
-/

structure MmapEnv.Maps (env : MmapEnv) (memSize : Int) : Prop where
  mapped : env.mmap (bsdMemsz memSize) ≠ mapFailed
  locked : env.mlock (env.mmap (bsdMemsz memSize)) (bsdMemsz memSize) = true
  fits : (env.mmap (bsdMemsz memSize)).toNat + (bsdMemsz memSize).toNat < 2 ^ 64
  phyMemory : env.phyMemory.isSome = true
  eleMemory : env.eleMemory.isSome = true
  known : forall a, env.rteMemVirt2phy a ≠ rteBadIova

/-- Every page of a region of `memSize` megabytes is known. -/
structure PagePool.SetUp (env : MmapEnv) (memSize : Nat) (pool : PagePool) : Prop where
  bytes : pool.pageEnd.toNat = pool.pageStart.toNat + memSize * 2 ^ 20
  pages : pool.ctl.elements.Perm ((List.range (memSize * 256)).map (pageAt pool.pageStart))
  once : pool.ctl.elements.Nodup
  phys : forall i, i < memSize * 256 ->
    pool.mpagePhy i = env.rteMemVirt2phy (pageAt pool.pageStart i)

theorem FirstPages.elements (h : FirstPages env start finish n i pool) :
    pool.ctl.elements = (List.range i).map (pageAt start) := by
  rcases h.stacked with ⟨ele, hele, hpages⟩
  simp only [StackList.elements, hele, h.top]
  apply List.map_congr_left
  intro k hk
  exact hpages k (List.mem_range.mp hk)

theorem pages_nodup (start : Addr) (hn : n ≤ 2 ^ 19) :
    ((List.range n).map (pageAt start)).Nodup := by
  apply List.Nodup.map_on
  · intro i hi j hj heq
    have hi := List.mem_range.mp hi
    have hj := List.mem_range.mp hj
    exact pageAt_inj (by omega) (by omega) heq
  · exact List.nodup_range

theorem bsdMemsz_eq_iff (h : memSize < 2 ^ 31) :
    (bsdMemsz memSize).toNat = memSize * 2 ^ 20 <-> memSize ≤ 2047 := by
  have hbytes := toNat_ofInt (((memSize : Int) * 2 ^ 20).bmod (2 ^ 32))
  rw [Int.bmod_def] at hbytes
  rw [bsdMemsz, Int.bmod_def]
  split at hbytes
  · next hsmall =>
      rw [if_pos hsmall]
      omega
  · next hlarge =>
      rw [if_neg hlarge]
      omega

theorem startPool_firstPages {memsz : UInt64} {phy ele : Nat -> Addr}
    (hele : env.eleMemory = some ele) (hcount : (memsz >>> 12).toUInt32.toNat = n) (hpos : 0 < n)
    (hn : n ≤ 2 ^ 19) :
    FirstPages env start (start + memsz) n 0 (startPool env start memsz phy) := by
  have hsize : ((n : Int)).bmod (2 ^ 32) = n := Int.bmod_eq_of_le (by omega) (by omega)
  have hnonneg : ¬ (n : Int) ≤ 0 := by omega
  have hctl : (startPool env start memsz phy).ctl = ⟨some ele, n, 0⟩ := by
    simp only [startPool, hcount, hsize, stklistInit, hnonneg, if_false, hele]
  refine ⟨rfl, rfl, by rw [hctl], by rw [hctl], ⟨ele, by rw [hctl], ?_⟩, ?_⟩
  · intro k hk
    exact absurd hk (Nat.not_lt_zero k)
  · intro k hk
    exact absurd hk (Nat.not_lt_zero k)

/-- A mapping of whole pages, not too many for the offsets to be an `int`. -/
theorem ffMmapInit_pages {memSize : Int} (h : env.Maps memSize)
    (hbytes : (bsdMemsz memSize).toNat = 4096 * n) (hpos : 0 < n) (hn : n ≤ 2 ^ 19) :
    exists pool, ffMmapInit env memSize = .ok pool ∧ FirstPages env (env.mmap (bsdMemsz memSize))
        (env.mmap (bsdMemsz memSize) + bsdMemsz memSize) n n pool := by
  rcases Option.isSome_iff_exists.mp h.phyMemory with ⟨phy, hphy⟩
  rcases Option.isSome_iff_exists.mp h.eleMemory with ⟨ele, hele⟩
  have hcount : (bsdMemsz memSize >>> 12).toUInt32.toNat = n := by
    rw [UInt64.toNat_toUInt32, UInt64.toNat_shiftRight, hbytes,
      show (12 : UInt64).toNat % 64 = 12 from rfl, Nat.shiftRight_eq_div_pow]
    omega
  have hstart : FirstPages env (env.mmap (bsdMemsz memSize))
      (env.mmap (bsdMemsz memSize) + bsdMemsz memSize) n 0
      (startPool env (env.mmap (bsdMemsz memSize)) (bsdMemsz memSize) phy) :=
    startPool_firstPages hele hcount hpos hn
  rcases initPages_firstPages hstart (Nat.zero_add n) hn h.known with ⟨pool, hpool, hall⟩
  refine ⟨pool, ?_, hall⟩
  simp only [ffMmapInit, h.mapped, if_false, h.locked, hphy, hcount]
  exact hpool

theorem ffMmapInit_bounds {memSize : Int} (h : ffMmapInit env memSize = .ok pool) :
    pool.pageStart = env.mmap (bsdMemsz memSize) ∧
      pool.pageEnd = env.mmap (bsdMemsz memSize) + bsdMemsz memSize := by
  simp only [ffMmapInit] at h
  split at h
  · contradiction
  · split at h
    · contradiction
    · split at h
      · contradiction
      · exact initPages_bounds h

theorem PagePool.SetUp.of_firstPages (hmem : memSize ≤ 2047)
    (hend : finish.toNat = start.toNat + memSize * 2 ^ 20)
    (h : FirstPages env start finish (memSize * 256) (memSize * 256) pool) :
    pool.SetUp env memSize := by
  have helements := h.elements
  rw [<- h.pageStart] at helements
  constructor
  · rw [h.pageEnd, h.pageStart, hend]
  · rw [helements]
  · rw [helements]
    exact pages_nodup _ (by omega)
  · intro i hi
    rw [h.pageStart]
    exact h.phys i hi

theorem SetUp.memsz (hmaps : env.Maps memSize) (h : ffMmapInit env memSize = .ok pool)
    (hset : pool.SetUp env memSize) : (bsdMemsz memSize).toNat = memSize * 2 ^ 20 := by
  have hbytes := hset.bytes
  rw [(ffMmapInit_bounds h).1, (ffMmapInit_bounds h).2, UInt64.toNat_add,
    Nat.mod_eq_of_lt hmaps.fits] at hbytes
  exact Nat.add_left_cancel hbytes

/-- The pages are set up exactly when the number of bytes is an `int`. -/
theorem page_pool_set_up_iff (env : MmapEnv) (memSize : Nat) (hpos : 1 ≤ memSize)
    (hint : memSize < 2 ^ 31) (hmaps : env.Maps memSize) :
    (exists pool, ffMmapInit env memSize = .ok pool ∧ pool.SetUp env memSize) <->
      memSize ≤ 2047 := by
  constructor
  · intro h
    rcases h with ⟨pool, hpool, hset⟩
    exact (bsdMemsz_eq_iff hint).mp (SetUp.memsz hmaps hpool hset)
  · intro hmem
    have hbytes := (bsdMemsz_eq_iff hint).mpr hmem
    have hpages : (bsdMemsz memSize).toNat = 4096 * (memSize * 256) := by omega
    rcases ffMmapInit_pages hmaps hpages (by omega) (by omega) with ⟨pool, hpool, hfirst⟩
    refine ⟨pool, hpool, PagePool.SetUp.of_firstPages hmem ?_ hfirst⟩
    rw [UInt64.toNat_add, Nat.mod_eq_of_lt hmaps.fits, hbytes]

def obliging : MmapEnv where
  mmap _ := 0x100000000
  mlock _ _ := true
  phyMemory := some fun _ => 0
  eleMemory := some fun _ => 0
  rteMemVirt2phy a := a &&& 0xffffffffffff

theorem obliging_known (a : Addr) : obliging.rteMemVirt2phy a ≠ rteBadIova := by
  intro h
  have hle : (a &&& 0xffffffffffff).toNat ≤ 0xffffffffffff := by
    rw [UInt64.toNat_and]
    exact Nat.and_le_right
  have hbad := congrArg UInt64.toNat h
  rw [show obliging.rteMemVirt2phy a = a &&& 0xffffffffffff from rfl] at hbad
  rw [hbad] at hle
  exact absurd hle (by decide)

theorem obliging_maps (memSize : Int) (h : (bsdMemsz memSize).toNat < 2 ^ 32) :
    obliging.Maps memSize := by
  have hmapped : (0x100000000 : Addr) ≠ mapFailed := by decide
  refine ⟨hmapped, rfl, ?_, rfl, rfl, obliging_known⟩
  show 0x100000000 + (bsdMemsz memSize).toNat < 2 ^ 64
  omega

theorem page_pool_of_256 :
    exists pool, ffMmapInit obliging (256 : Nat) = .ok pool ∧ pool.SetUp obliging 256 :=
  (page_pool_set_up_iff obliging 256 (by decide) (by decide)
    (obliging_maps _ (by decide))).mpr (by decide)

/-- For 4097 megabytes one is mapped. -/
theorem page_pool_of_4097 : obliging.Maps (4097 : Nat) ∧
    (exists pool, ffMmapInit obliging (4097 : Nat) = .ok pool ∧
      pool.pageEnd.toNat = pool.pageStart.toNat + 2 ^ 20 ∧ pool.ctl.elements.length = 256) ∧
    ¬ exists pool, ffMmapInit obliging (4097 : Nat) = .ok pool ∧ pool.SetUp obliging 4097 := by
  have hmaps : obliging.Maps (4097 : Nat) := obliging_maps _ (by decide)
  refine ⟨hmaps, ?_, ?_⟩
  · rcases ffMmapInit_pages (n := 256) hmaps (by decide) (by decide) (by decide) with
      ⟨pool, hpool, hfirst⟩
    refine ⟨pool, hpool, ?_, ?_⟩
    · rw [hfirst.pageEnd, hfirst.pageStart]
      rfl
    · rw [hfirst.elements, List.length_map, List.length_range]
  · intro h
    rcases h with ⟨pool, hpool, hset⟩
    exact absurd (SetUp.memsz hmaps hpool hset) (by decide)

end PageArray
end FStackLite
