import FStackLite.PageArray.Pages

/-!
# The page allocator

With the page array, `ff_mmap` and `ff_munmap` serve requests of one page from the stack that
`ff_mmap_init` filled, and all others from the host.
-/

namespace FStackLite
namespace PageArray

/-!
## Requests
-/

structure Host where
  mmap : Addr -> UInt64 -> UInt32 -> UInt32 -> UInt32 -> UInt64 -> Addr
  munmap : Addr -> UInt64 -> Int

inductive Stop where
  | fault (f : PoolFault)
  | exit
deriving DecidableEq

/-- The arguments of `ff_mmap`. -/
structure MmapArgs where
  addr : Addr
  len : UInt64
  prot : UInt32
  flags : UInt32
  fd : UInt32
  offset : UInt64

def hostBit (value bit host : UInt32) : UInt32 :=
  if value &&& bit = bit then host else 0

def hostProt (prot : UInt32) : UInt32 :=
  hostBit prot 0x01 0x1 ||| hostBit prot 0x02 0x2

def hostFlags (flags : UInt32) : UInt32 :=
  hostBit flags 0x0001 0x01 ||| hostBit flags 0x0002 0x02 ||| hostBit flags 0x1000 0x20

def ffMmap (host : Host) (args : MmapArgs) (ctl : StackList) :
    Except Stop (Option Addr × StackList) :=
  if args.len = 4096 then
    (ffMemGetPage ctl).mapError Stop.fault
  else
    let ret := host.mmap args.addr args.len (hostProt args.prot) (hostFlags args.flags) args.fd
      args.offset
    if ret = mapFailed then
      .error .exit
    else
      .ok (some ret, ctl)

def ffMunmap (host : Host) (addr : Addr) (len : UInt64) (ctl : StackList) :
    Except Stop (Int × StackList) :=
  if len = 4096 then
    ((ffMemFreeAddr addr ctl).mapError Stop.fault).map fun ctl' => (0, ctl')
  else
    .ok (host.munmap addr len, ctl)

/--
The stack after requests of one page, and the pages that are held then.  Only what is held is
given back.
-/
inductive Served (host : Host) (start : StackList) : StackList -> List Addr -> Prop where
  | start : Served host start start []
  | mmap {ctl ctl' : StackList} {held : List Addr} {page : Option Addr} (args : MmapArgs)
      (h : Served host start ctl held) (hlen : args.len = 4096)
      (hmap : ffMmap host args ctl = .ok (page, ctl')) :
      Served host start ctl' (page.toList ++ held)
  | munmap {ctl ctl' : StackList} {held : List Addr} {p : Addr} {r : Int}
      (h : Served host start ctl held) (hheld : p ∈ held)
      (hunmap : ffMunmap host p 4096 ctl = .ok (r, ctl')) :
      Served host start ctl' (held.erase p)

/-!
## The pages on the stack and the pages that are held
-/

structure Shared (pages : List Addr) (ctl : StackList) (held : List Addr) : Prop where
  size : ctl.size = pages.length
  allocated : pages ≠ [] -> ctl.ele.isSome = true
  top : ctl.elements.length = ctl.top
  perm : (ctl.elements ++ held).Perm pages

variable {pages held : List Addr} {ctl : StackList}

theorem Shared.top_add (h : Shared pages ctl held) : ctl.top + held.length = pages.length := by
  rw [<- h.top, <- List.length_append]
  exact h.perm.length_eq

theorem Shared.some_ele (h : Shared pages ctl held) (hne : pages.length ≠ 0) :
    exists ele, ctl.ele = some ele :=
  Option.isSome_iff_exists.mp (h.allocated (List.ne_nil_of_length_pos (Nat.pos_of_ne_zero hne)))

theorem StackList.elements_succ {ele : Nat -> Addr} (hele : ctl.ele = some ele) {k : Nat}
    (htop : ctl.top = k + 1) :
    ctl.elements = StackList.elements { ctl with top := k } ++ [ele k] := by
  simp [StackList.elements, hele, htop, List.range_succ]

theorem Shared.all_held (h : Shared pages ctl held) (htop : ctl.top = 0) : held.Perm pages := by
  have hempty : ctl.elements = [] := List.eq_nil_of_length_eq_zero (h.top.trans htop)
  have hperm := h.perm
  rw [hempty] at hperm
  exact hperm

theorem Shared.getPage (h : Shared pages ctl held) :
    exists page ctl', ffMemGetPage ctl = .ok (page, ctl') ∧
      Shared pages ctl' (page.toList ++ held) ∧ (page = none -> held.Perm pages) := by
  cases htop : ctl.top with
  | zero =>
      refine ⟨none, ctl, ?_, h, fun _ => h.all_held htop⟩
      simp only [ffMemGetPage, stklistPop, htop]
  | succ k =>
      have hcount := h.top_add
      rcases h.some_ele (by omega) with ⟨ele, hele⟩
      have hsplit := StackList.elements_succ hele htop
      refine ⟨some (ele k), { ctl with top := k }, ?_, ⟨h.size, h.allocated, ?_, ?_⟩, ?_⟩
      · simp only [ffMemGetPage, stklistPop, htop, hele]
      · have hlength := h.top
        rw [hsplit, List.length_append, htop] at hlength
        exact Nat.succ.inj hlength
      · have hperm := h.perm
        rw [hsplit, List.append_assoc] at hperm
        exact hperm
      · intro hnone
        contradiction

theorem Shared.freeAddr (h : Shared pages ctl held) {p : Addr} (hp : p ∈ held) :
    exists ctl', ffMemFreeAddr p ctl = .ok ctl' ∧ Shared pages ctl' (held.erase p) ∧
      ctl'.elements = ctl.elements ++ [p] := by
  have hcount := h.top_add
  have hheld := List.length_pos_of_mem hp
  rcases h.some_ele (by omega) with ⟨ele, hele⟩
  have hroom : (ctl.top : Int) < ctl.size := by
    rw [h.size]
    omega
  have hpush : StackList.elements ⟨some (Function.update ele ctl.top p), ctl.size, ctl.top + 1⟩ =
      ctl.elements ++ [p] := by
    simp only [StackList.elements, hele, List.range_succ, List.map_append, List.map_cons,
      List.map_nil, Function.update_self]
    refine congrArg (· ++ [p]) (List.map_congr_left ?_)
    intro k hk
    exact Function.update_of_ne (Nat.ne_of_lt (List.mem_range.mp hk)) ..
  refine ⟨⟨some (Function.update ele ctl.top p), ctl.size, ctl.top + 1⟩, ?_,
    ⟨h.size, fun _ => rfl, ?_, ?_⟩, hpush⟩
  · simp only [ffMemFreeAddr, stklistPush, hroom, if_true, hele]
    rfl
  · rw [hpush, List.length_append, h.top]
    rfl
  · rw [hpush, List.append_assoc]
    exact ((List.perm_cons_erase hp).symm.append_left ctl.elements).trans h.perm

/-!
## A set-up that succeeds
-/

section SetUp

variable {env : MmapEnv} {start finish : Addr} {n i left : Nat} {pool pool' : PagePool}

/-- The counter is an `int`. -/
theorem initPages_count (hi : i ≤ 2 ^ 31 - 1) (h : initPages env left i pool = .ok pool') :
    i + left ≤ 2 ^ 31 - 1 := by
  induction left generalizing i pool with
  | zero => exact hi
  | succ left ih =>
      rw [initPages] at h
      split at h
      · contradiction
      · split at h
        · contradiction
        · have hlater := ih (by omega) h
          omega

theorem initPage_known (h : initPage env i pool = .ok pool') :
    env.rteMemVirt2phy (pool.pageStart + pageOffset i) ≠ rteBadIova := by
  simp only [initPage] at h
  split at h
  · contradiction
  · split at h
    · contradiction
    · next hknown =>
        exact hknown

theorem firstPages_of_initPages (h : FirstPages env start finish n i pool) (hleft : i + left = n)
    (hn : n ≤ 2 ^ 19) (hpages : initPages env left i pool = .ok pool') :
    FirstPages env start finish n n pool' := by
  induction left generalizing i pool with
  | zero =>
      injection hpages with hpages
      have hend : i = n := hleft
      rw [<- hpages]
      exact hend ▸ h
  | succ left ih =>
      rw [initPages] at hpages
      split at hpages
      · contradiction
      · next next hnext =>
          split at hpages
          · contradiction
          · have hknown := initPage_known hnext
            rw [h.pageStart, pageOffset_eq (by omega)] at hknown
            rcases h.step (by omega) hn hknown with ⟨next', hnext', hfirst⟩
            rw [hnext] at hnext'
            injection hnext' with hnext'
            exact ih (hnext' ▸ hfirst) (by omega) hpages

theorem FirstPages.shared (h : FirstPages env start finish n n pool) :
    Shared ((List.range n).map (pageAt start)) pool.ctl [] where
  size := by
    rw [h.size, List.length_map, List.length_range]
  allocated _ := by
    rcases h.stacked with ⟨ele, hele, _⟩
    rw [hele]
    rfl
  top := by
    rw [h.elements, h.top, List.length_map, List.length_range]
  perm := by
    rw [List.append_nil, h.elements]

end SetUp

def regionPages (memSize : Int) (pool : PagePool) : List Addr :=
  (List.range ((bsdMemsz memSize).toNat / 4096)).map (pageAt pool.pageStart)

theorem mem_regionPages {memSize : Int} {pool : PagePool} {p : Addr} :
    p ∈ regionPages memSize pool <->
      exists i, i < (bsdMemsz memSize).toNat / 4096 ∧ p = pageAt pool.pageStart i := by
  rw [regionPages, List.mem_map]
  simp only [List.mem_range, eq_comm]

/-- A number of pages that is an `int` is that of a region below two gigabytes. -/
theorem pages_of_count (memSize : Int) (h : (bsdMemsz memSize >>> 12).toUInt32.toNat ≤ 2 ^ 31 - 1) :
    (bsdMemsz memSize >>> 12).toUInt32.toNat = (bsdMemsz memSize).toNat / 4096 ∧
      (bsdMemsz memSize).toNat / 4096 ≤ 2 ^ 19 := by
  have hbytes := toNat_ofInt ((memSize * 2 ^ 20).bmod (2 ^ 32))
  have hlow := Int.le_bmod (x := memSize * 2 ^ 20) (m := 2 ^ 32) (by decide)
  have hhigh := Int.bmod_lt (x := memSize * 2 ^ 20) (m := 2 ^ 32) (by decide)
  have hshift : (bsdMemsz memSize >>> 12).toUInt32.toNat =
      (bsdMemsz memSize).toNat / 4096 % 2 ^ 32 := by
    rw [UInt64.toNat_toUInt32, UInt64.toNat_shiftRight, show (12 : UInt64).toNat % 64 = 12 from rfl,
      Nat.shiftRight_eq_div_pow]
  rw [hshift] at h ⊢
  rw [bsdMemsz] at h ⊢
  omega

theorem initPage_of_none {env : MmapEnv} {start : Addr} {memsz : UInt64} {phy : Nat -> Addr}
    {n : Nat} (hele : env.eleMemory = none) (hcount : (memsz >>> 12).toUInt32.toNat = n)
    (hpos : 0 < n) (hn : n ≤ 2 ^ 19) :
    initPage env 0 (startPool env start memsz phy) = .error .undefined := by
  have hsize : ((n : Int)).bmod (2 ^ 32) = n := Int.bmod_eq_of_le (by omega) (by omega)
  have hnonneg : ¬ (n : Int) ≤ 0 := by omega
  have hctl : (startPool env start memsz phy).ctl = ⟨none, n, 0⟩ := by
    simp only [startPool, hcount, hsize, stklistInit, hnonneg, if_false, hele, StackList.zero]
  have hpush : forall v, stklistPush (startPool env start memsz phy).ctl v = .error .undefined := by
    intro v
    rw [hctl]
    exact if_pos (Int.ofNat_lt.mpr hpos)
  rw [initPage, hpush]

theorem ffMmapInit_shared {env : MmapEnv} {memSize : Int} {pool : PagePool}
    (h : ffMmapInit env memSize = .ok pool) :
    Shared (regionPages memSize pool) pool.ctl [] ∧ (regionPages memSize pool).Nodup := by
  have hbounds := ffMmapInit_bounds h
  simp only [ffMmapInit] at h
  split at h
  · contradiction
  · split at h
    · contradiction
    · split at h
      · contradiction
      · next phy hphy =>
          have hint := initPages_count (Nat.zero_le _) h
          rw [Nat.zero_add] at hint
          rcases pages_of_count memSize hint with ⟨hcount, hn⟩
          refine ⟨?_, pages_nodup _ hn⟩
          rw [hcount] at h
          cases hpages : (bsdMemsz memSize).toNat / 4096 with
          | zero =>
              rw [hpages] at h hcount
              injection h with h
              have hctl : pool.ctl = .zero := by
                rw [<- h, startPool, hcount]
                rfl
              rw [regionPages, hpages, hctl]
              exact ⟨rfl, fun hne => absurd rfl hne, rfl, List.Perm.nil⟩
          | succ k =>
              cases hele : env.eleMemory with
              | none =>
                  have hpos : 0 < (bsdMemsz memSize).toNat / 4096 := by omega
                  rw [hpages, initPages, initPage_of_none hele hcount hpos hn] at h
                  contradiction
              | some ele =>
                  have hpos : 0 < (bsdMemsz memSize).toNat / 4096 := by omega
                  have hfirst := firstPages_of_initPages
                    (startPool_firstPages hele hcount hpos hn) (Nat.zero_add _) hn h
                  rw [regionPages, hbounds.1]
                  exact hfirst.shared

/-!
## Runs
-/

theorem ffMmap_page {host : Host} {args : MmapArgs} (hlen : args.len = 4096) (ctl : StackList) :
    ffMmap host args ctl = (ffMemGetPage ctl).mapError Stop.fault :=
  if_pos hlen

theorem ffMunmap_page (host : Host) (p : Addr) (ctl : StackList) : ffMunmap host p 4096 ctl =
      ((ffMemFreeAddr p ctl).mapError Stop.fault).map fun ctl' => (0, ctl') :=
  if_pos rfl

theorem Served.shared {host : Host} {first : StackList} (hfirst : Shared pages first [])
    (h : Served host first ctl held) : Shared pages ctl held := by
  induction h with
  | start => exact hfirst
  | mmap args _ hlen hmap ih =>
      rcases ih.getPage with ⟨page, ctl', hget, hshared, _⟩
      rw [ffMmap_page hlen, hget] at hmap
      injection hmap with hmap
      injection hmap with hpage hctl
      rw [<- hpage, <- hctl]
      exact hshared
  | munmap _ hheld hunmap ih =>
      rcases ih.freeAddr hheld with ⟨ctl', hfree, hshared, _⟩
      rw [ffMunmap_page, hfree] at hunmap
      injection hunmap with hunmap
      injection hunmap with _ hctl
      rw [<- hctl]
      exact hshared

/--
However pages are requested and given back, no page is held twice, and what is held are pages of
the region.  A request is served with another page of the region, and with none only when all are
held.  A page that is given back goes on the stack, which has room for it.
-/
theorem page_allocator (env : MmapEnv) (host : Host) (memSize : Int) {pool : PagePool}
    (hinit : ffMmapInit env memSize = .ok pool) {ctl : StackList} {held : List Addr}
    (h : Served host pool.ctl ctl held) :
    held.Nodup ∧ (forall p, p ∈ held -> p ∈ regionPages memSize pool) ∧ (ctl.top : Int) ≤ ctl.size ∧
      (forall args : MmapArgs, args.len = 4096 ->
        exists page ctl', ffMmap host args ctl = .ok (page, ctl') ∧
          (page = none -> forall p, p ∈ regionPages memSize pool -> p ∈ held) ∧
          forall p, page = some p -> p ∈ regionPages memSize pool ∧ p ∉ held) ∧
      (forall p, p ∈ held -> exists ctl', ffMunmap host p 4096 ctl = .ok (0, ctl') ∧
          ctl'.elements = ctl.elements ++ [p]) := by
  rcases ffMmapInit_shared hinit with ⟨hfirst, honce⟩
  have hshared := h.shared hfirst
  have hall := hshared.perm.nodup_iff.mpr honce
  refine ⟨hall.of_append_right, ?_, ?_, ?_, ?_⟩
  · intro p hp
    exact hshared.perm.subset (List.mem_append_right _ hp)
  · have hcount := hshared.top_add
    rw [hshared.size]
    omega
  · intro args hlen
    rcases hshared.getPage with ⟨page, ctl', hget, hnext, hnone⟩
    refine ⟨page, ctl', ?_, ?_, ?_⟩
    · rw [ffMmap_page hlen, hget]
      rfl
    · intro hpage p hp
      exact (hnone hpage).symm.subset hp
    · rintro p rfl
      have hheld := (hnext.perm.nodup_iff.mpr honce).of_append_right
      refine ⟨hnext.perm.subset (List.mem_append_right _ List.mem_cons_self), ?_⟩
      exact (List.nodup_cons.mp hheld).1
  · intro p hp
    rcases hshared.freeAddr hp with ⟨ctl', hfree, _, helements⟩
    refine ⟨ctl', ?_, helements⟩
    rw [ffMunmap_page, hfree]
    rfl

def idleHost : Host :=
  ⟨fun _ _ _ _ _ _ => 0, fun _ _ => 0⟩

def onePage : MmapArgs :=
  ⟨0, 4096, 3, 0x1002, 0, 0⟩

/-- A page is requested after a set-up of one megabyte, given back, and one is requested again. -/
theorem page_allocator_returned_page : exists pool, ffMmapInit obliging 1 = .ok pool ∧
      exists p ctl back, ffMmap idleHost onePage pool.ctl = .ok (some p, ctl) ∧
        ffMunmap idleHost p 4096 ctl = .ok (0, back) ∧ back.elements = ctl.elements ++ [p] ∧
        exists q next, ffMmap idleHost onePage back = .ok (some q, next) ∧
          q ∈ regionPages 1 pool := by
  have hbytes : (bsdMemsz 1).toNat = 4096 * 256 := by decide
  rcases ffMmapInit_pages (obliging_maps 1 (by decide)) hbytes (by decide) (by decide) with
    ⟨pool, hpool, _⟩
  have hfirst : pageAt pool.pageStart 0 ∈ regionPages 1 pool :=
    mem_regionPages.mpr ⟨0, by rw [hbytes]; decide, rfl⟩
  have hserves : forall {ctl : StackList}, Served idleHost pool.ctl ctl [] ->
      exists p ctl', ffMmap idleHost onePage ctl = .ok (some p, ctl') ∧ p ∈ regionPages 1 pool := by
    intro ctl hserved
    rcases page_allocator obliging idleHost 1 hpool hserved with ⟨_, _, _, hmmap, _⟩
    rcases hmmap onePage rfl with ⟨page, ctl', hpage, hnone, hsome⟩
    cases page with
    | none => exact absurd (hnone rfl _ hfirst) List.not_mem_nil
    | some p => exact ⟨p, ctl', hpage, (hsome p rfl).1⟩
  rcases hserves .start with ⟨p, ctl, hmap, _⟩
  have hheld : Served idleHost pool.ctl ctl [p] := Served.start.mmap onePage rfl hmap
  rcases page_allocator obliging idleHost 1 hpool hheld with ⟨_, _, _, _, hmunmap⟩
  rcases hmunmap p List.mem_cons_self with ⟨back, hback, helements⟩
  have hreturned : Served idleHost pool.ctl back [] := by
    have hserved := hheld.munmap List.mem_cons_self hback
    rwa [List.erase_cons_head] at hserved
  exact ⟨pool, hpool, p, ctl, back, hmap, hback, helements, hserves hreturned⟩

end PageArray
end FStackLite
