import FStackLite.Config.CoreMask
import FStackLite.Config.QueueCoverage

/-!
# Cores of a port and the core mask

`ff_check_config` looks for each core of a port among the cores of the processes.  The search
needs these in increasing order, which is the order in which `parse_lcore_mask` writes them.
-/

namespace FStackLite
namespace Config

/-!
## The elements that are read
-/

def elementAt (arr : List UInt16) (i : Int) : Option UInt16 :=
  if i < 0 then none else arr[i.toNat]?

/--
The search in an array of finite length.  There is no result when an element outside of the array
is read, or when the calls are deeper than `depth`.  The numbers stay between -1 and the length, so
that an `int` holds them.
-/
def searchIn (arr : List UInt16) (x : UInt16) : Nat -> Int -> Int -> Option Int
  | 0, _, _ => none
  | depth + 1, l, r =>
      if l ≤ r then
        match elementAt arr (middle l r) with
        | none => none
        | some v =>
            if v = x then
              some (middle l r)
            else if x < v then
              searchIn arr x depth l (middle l r - 1)
            else
              searchIn arr x depth (middle l r + 1) r
      else
        some (-1)

variable {arr : List UInt16} {l r : Int}

theorem elementAt_eq {i : Int} (hi : 0 ≤ i) (hlt : i < arr.length) :
    elementAt arr i = some (arr.getD i.toNat 0) := by
  have hnat : i.toNat < arr.length := by omega
  rw [elementAt, if_neg (Int.not_lt.mpr hi), List.getElem?_eq_getElem hnat,
    List.getD_eq_getElem _ _ hnat]

theorem searchIn_eq (x : UInt16) {depth : Nat} (hl : 0 ≤ l) (hr : r < arr.length)
    (hdepth : (r - l + 1).toNat < depth) :
    searchIn arr x depth l r = some (uint16BinarySearch (fun i => arr.getD i 0) l r x) := by
  induction depth generalizing l r with
  | zero => contradiction
  | succ depth ih =>
      rw [searchIn, uint16BinarySearch_eq]
      split
      · next hrange =>
          have hmid := middle_mem hrange
          rw [elementAt_eq (by omega) (by omega)]
          simp only
          split
          · rfl
          · split
            · exact ih hl (by omega) (by omega)
            · exact ih (by omega) hr (by omega)
      · rfl

/-!
## The result
-/

theorem getD_le_getD (hsorted : arr.Pairwise (· ≤ ·)) {i j : Nat} (hij : i < j)
    (hj : j < arr.length) : arr.getD i 0 ≤ arr.getD j 0 := by
  rw [List.getD_eq_getElem _ _ (Nat.lt_trans hij hj), List.getD_eq_getElem _ _ hj]
  exact List.pairwise_iff_getElem.mp hsorted i j _ hj hij

theorem searchWithin_complete (hsorted : arr.Pairwise (· ≤ ·)) {x : UInt16} {depth k : Nat}
    (hdepth : (r - l + 1).toNat ≤ depth) (hl : 0 ≤ l) (hr : r < arr.length) (hlk : l ≤ k)
    (hkr : k ≤ r) (hk : arr.getD k 0 = x) :
    0 ≤ searchWithin (fun i => arr.getD i 0) x depth l r := by
  induction depth generalizing l r with
  | zero => omega
  | succ depth ih =>
      have hrange : l ≤ r := Int.le_trans hlk hkr
      have hmid := middle_mem hrange
      simp only [searchWithin, hrange, if_true]
      split
      · omega
      · next hne =>
          have hkne : k ≠ (middle l r).toNat := fun heq => hne (heq ▸ hk)
          split
          · next hless =>
              -- what is at the middle is larger, and so is all that comes after it
              have hbefore : k < (middle l r).toNat := by
                rcases Nat.lt_or_gt_of_ne hkne with hlt | hgt
                · exact hlt
                · have hle := getD_le_getD hsorted hgt (by omega)
                  rw [hk] at hle
                  exact absurd hless (UInt16.not_lt.mpr hle)
              exact ih (by omega) hl (by omega) hlk (by omega)
          · next hgreater =>
              have hafter : (middle l r).toNat < k := by
                rcases Nat.lt_or_gt_of_ne hkne with hlt | hgt
                · have hle := getD_le_getD hsorted hlt (by omega)
                  rw [hk] at hle
                  exact absurd (UInt16.le_antisymm (UInt16.not_lt.mp hgreater) hle) hne
                · exact hgt
              exact ih (by omega) (by omega) hr (by omega) hkr

theorem searchWithin_ge (arr : Nat -> UInt16) (x : UInt16) (depth : Nat) (hl : 0 ≤ l) :
    -1 ≤ searchWithin arr x depth l r := by
  induction depth generalizing l r with
  | zero => exact Int.le_refl _
  | succ depth ih =>
      rw [searchWithin]
      split
      · next hrange =>
          have hmid := middle_mem hrange
          split
          · omega
          · split
            · exact ih hl
            · exact ih (by omega)
      · exact Int.le_refl _

theorem uint16BinarySearch_spec (hsorted : arr.Pairwise (· ≤ ·)) (x : UInt16) :
    (exists k : Nat, uint16BinarySearch (fun i => arr.getD i 0) 0 (arr.length - 1) x = k ∧
        arr[k]? = some x) ∨
      x ∉ arr ∧ uint16BinarySearch (fun i => arr.getD i 0) 0 (arr.length - 1) x = -1 := by
  rcases Int.lt_or_le (uint16BinarySearch (fun i => arr.getD i 0) 0 (arr.length - 1) x) 0 with
    hneg | hpos
  · right
    constructor
    · intro hmem
      rcases List.mem_iff_getElem.mp hmem with ⟨k, hk, hx⟩
      have hfound := searchWithin_complete hsorted (x := x) (k := k) (Nat.le_refl _)
        (Int.le_refl 0) (by omega : (arr.length : Int) - 1 < arr.length) (by omega) (by omega)
        (by rw [List.getD_eq_getElem _ _ hk, hx])
      exact absurd hneg (Int.not_lt.mpr hfound)
    · have hge := searchWithin_ge (fun i => arr.getD i 0) x ((arr.length : Int) - 1 - 0 + 1).toNat
        (r := arr.length - 1) (Int.le_refl 0)
      exact Int.le_antisymm (Int.le_sub_one_of_lt hneg) hge
  · left
    rcases searchWithin_sound _ x _ (Int.le_refl 0) hpos with ⟨k, hk, hle, hx⟩
    refine ⟨k, hk.symm, ?_⟩
    have hlt : k < arr.length := by omega
    rw [List.getElem?_eq_getElem hlt, <- hx, List.getD_eq_getElem _ _ hlt]

/-!
## The bits of the mask
-/

theorem parseLcoreMask_eq_setBits {procId : Int} {coremask mask : Text} {lcores : List UInt16}
    (h : parseLcoreMask procId coremask = some (lcores, mask)) :
    lcores = (setBits (hexValue (maskDigits coremask))).map UInt16.ofNat := by
  unfold parseLcoreMask at h
  split at h
  · contradiction
  · split at h
    · contradiction
    · next positions rest hloop =>
        split at h
        · contradiction
        · next hrest =>
            split at h
            · contradiction
            · injection h with h
              injection h with h _
              rw [<- h]
              rcases maskLoop_digits (maskDigits coremask) with
                ⟨⟨rest', hloop', _⟩, _⟩ | ⟨hnone, _⟩
              · have hsame := hloop'.symm.trans hloop
                injection hsame with hsame
                injection hsame with hsame _
                rw [hsame]
              · exact absurd (hnone positions rest hloop) hrest

theorem testBit_of_mem {v : Nat} {lcore : UInt16} (h : lcore ∈ (setBits v).map UInt16.ofNat) :
    v.testBit lcore.toNat = true := by
  rcases List.mem_map.mp h with ⟨k, hk, rfl⟩
  rw [setBits, List.mem_filter, List.mem_range] at hk
  have hmod : k % 2 ^ 16 = k := Nat.mod_eq_of_lt (Nat.lt_trans hk.1 (by decide))
  rw [UInt16.toNat_ofNat', hmod]
  exact hk.2

theorem ffCheckConfig_checked {cfg : FfConfig} (h : ffCheckConfig cfg = .ok ()) {portid : UInt16}
    (hport : portid ∈ cfg.portidList) : (cfg.port portid).Checked cfg.procLcore := by
  unfold ffCheckConfig at h
  split at h
  · rcases checkPorts_checked h hport with ⟨pc, hpc, _, hchecked⟩
    rw [FfConfig.port, hpc]
    exact hchecked
  · contradiction

def PortCfg.InMask (pc : PortCfg) (lcoreMask : Option Text) : Prop :=
  forall k, k < pc.nbLcores -> exists coremask, lcoreMask = some coremask ∧
    (hexValue (maskDigits coremask)).testBit (pc.lcoreList k).toNat = true

theorem inMask_of_checked {cfg : FfConfig} {pc : PortCfg}
    (hmask : cfg.procLcore = [] ∨ cfg.FromMask) (h : pc.Checked cfg.procLcore) :
    pc.InMask cfg.lcoreMask := by
  intro k hk
  have hmem := h.enabled k hk
  rcases hmask with hnone | ⟨procId, coremask, mask, hcoremask, hparse⟩
  · rw [hnone] at hmem
    contradiction
  · rw [parseLcoreMask_eq_setBits hparse] at hmem
    exact ⟨coremask, hcoremask, testBit_of_mem hmem⟩

/--
The search ends, reads nothing outside of the array and finds what is in it.  A configuration is
accepted only if all the cores of its ports are in the core mask: one whose cores are read from
the mask, and any that is loaded.
-/
theorem lcore_membership : (forall (arr : List UInt16) (x : UInt16), arr.Pairwise (· ≤ ·) ->
      exists i, uint16BinarySearch (fun i => arr.getD i 0) 0 (arr.length - 1) x = i ∧
        (forall depth, arr.length < depth ->
          searchIn arr x depth 0 (arr.length - 1) = some i) ∧
        ((exists k : Nat, i = k ∧ arr[k]? = some x) ∨ x ∉ arr ∧ i = -1)) ∧
    (forall cfg, cfg.FromMask -> ffCheckConfig cfg = .ok () ->
      forall portid, portid ∈ cfg.portidList -> (cfg.port portid).InMask cfg.lcoreMask) ∧
    (forall split frames files opts cfg, ffLoadConfig split frames files opts = .ok cfg ->
      forall portid, portid ∈ cfg.portidList -> (cfg.port portid).InMask cfg.lcoreMask) := by
  refine ⟨?_, ?_, ?_⟩
  · intro arr x hsorted
    refine ⟨_, rfl, ?_, uint16BinarySearch_spec hsorted x⟩
    intro depth hdepth
    exact searchIn_eq x (Int.le_refl 0) (by omega) (by omega)
  · intro cfg hmask hcheck portid hport
    exact inMask_of_checked (Or.inr hmask) (ffCheckConfig_checked hcheck hport)
  · intro split frames files opts cfg hload portid hport
    rcases ffLoadConfig_ok hload with ⟨hmask, hcheck⟩
    exact inMask_of_checked hmask (ffCheckConfig_checked hcheck hport)

/-- A core is found among three; and the two cores of a port that is loaded are in the mask. -/
theorem lcore_membership_two_cores : (exists i, searchIn [0, 1, 5] 5 4 0 2 = some i ∧
      exists k : Nat, i = k ∧ ([0, 1, 5] : List UInt16)[k]? = some 5) ∧
    exists cfg, loadOnePort "0,1".toList = .ok cfg ∧ cfg.FromMask ∧ ffCheckConfig cfg = .ok () ∧
      (cfg.port 0).nbLcores = 2 ∧ (cfg.port 0).InMask cfg.lcoreMask := by
  constructor
  · rcases lcore_membership.1 [0, 1, 5] 5 (by decide) with ⟨i, _, hsearch, hfound⟩
    refine ⟨i, hsearch 4 (by decide), ?_⟩
    rcases hfound with hfound | ⟨hnot, _⟩
    · exact hfound
    · exact absurd (by decide) hnot
  · have houtline : (loadOnePort "0,1".toList).toOption.map FfConfig.outline =
        some ([0, 1], 0, [0], 2, 0, 1) := by
      decide +kernel
    rcases exists_loaded houtline with ⟨cfg, hload, hcfg⟩
    simp only [FfConfig.outline, Prod.mk.injEq] at hcfg
    rcases hcfg with ⟨hprocs, _, hports, hcount, _⟩
    rcases ffLoadConfig_ok hload with ⟨hnone | hmask, hcheck⟩
    · rw [hprocs] at hnone
      contradiction
    · refine ⟨cfg, hload, hmask, hcheck, hcount, ?_⟩
      apply lcore_membership.2.1 cfg hmask hcheck
      rw [hports]
      exact List.mem_singleton.mpr rfl

end Config
end FStackLite
