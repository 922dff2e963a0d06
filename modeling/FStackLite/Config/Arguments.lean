import FStackLite.Config.Load
import Mathlib.Data.List.ReduceOption

/-!
# The arguments of DPDK

`dpdk_args_setup` makes an argument vector of the configuration.  The vector has room for 17
arguments, and how many there are depends on the settings and on the number of virtual
devices.
-/

namespace FStackLite
namespace Config

def dpdkConfigNum : Nat := 16

/-- `%d` and `%u` -/
def formatInt (v : Int) : Text :=
  if v < 0 then '-' :: Nat.toDigits 10 v.natAbs else Nat.toDigits 10 v.natAbs

/-- `%s`, as the C library prints the null pointer. -/
def formatText (s : Option Text) : Text :=
  s.getD "(null)".toList

def intArg (flag : Text) (v : Int) : Option Text :=
  if v = 0 then none else some (flag ++ formatInt v)

def textArg (flag : Text) (s : Option Text) : Option Text :=
  s.map (flag ++ ·)

def optionArgs (cfg : FfConfig) : List (Option Text) :=
  [if cfg.noHuge = 0 then none else some "--no-huge".toList,
    textArg "-c".toList cfg.procMask,
    intArg "-n".toList cfg.nbChannel,
    intArg "-m".toList cfg.memory,
    textArg "--proc-type=".toList cfg.procType,
    textArg "--base-virtaddr=".toList cfg.baseVirtaddr]

def vdevArg (vdev : VdevCfg) : Text :=
  "--vdev=virtio_user".toList ++ formatInt vdev.vdevId.toNat ++
    ",path=".toList ++ formatText vdev.path ++
    (intArg ",queues=".toList vdev.nbQueues.toNat).getD [] ++
    (intArg ",cq=".toList vdev.nbCq.toNat).getD [] ++
    (intArg ",queue_size=".toList vdev.queueSize.toNat).getD [] ++
    (textArg ",mac=".toList vdev.mac).getD []

/-- `vdev_cfgs[i]` -/
def vdevAt (cfg : FfConfig) (i : Nat) : Except Fault VdevCfg :=
  match cfg.vdevCfgs with
  | none => .error .undefined
  | some vc => if i < rteMaxEthports then .ok (vc i) else .error .undefined

def vdevArgs (cfg : FfConfig) : List (Except Fault Text) :=
  if cfg.nbVdev = 0 then
    []
  else
    (List.range cfg.nbVdev.toNat).map (fun i => (vdevAt cfg i).map vdevArg) ++
      [.ok "--no-pci".toList, .ok "--file-prefix=container".toList]

def dpdkArgs (cfg : FfConfig) : List (Except Fault Text) :=
  .ok "f-stack".toList :: (optionArgs cfg).reduceOption.map .ok ++ vdevArgs cfg

/-- `dpdk_argv[n++] = strdup(arg)`, where `argv` is what is stored already. -/
def storeArg (argv : List Text) (arg : Text) : Except Fault (List Text) :=
  if argv.length < dpdkConfigNum + 1 then .ok (argv ++ [arg]) else .error .undefined

def storeArgs : List (Except Fault Text) -> List Text -> Except Fault (List Text)
  | [], argv => .ok argv
  | .error e :: _, _ => .error e
  | .ok arg :: args, argv =>
      match storeArg argv arg with
      | .error e => .error e
      | .ok argv' => storeArgs args argv'

/--
The vector, whose length is `dpdk_argc`.  The texts are put together in a buffer of
`DPDK_CONFIG_MAXLEN` characters, whose end is not looked at here.
-/
def dpdkArgsSetup (cfg : FfConfig) : Except Fault (List Text) :=
  storeArgs (dpdkArgs cfg) []

/-!
## The number of arguments
-/

def isSet (set : Bool) : Nat :=
  if set then 1 else 0

def optionsSet (cfg : FfConfig) : Nat :=
  isSet (cfg.noHuge ≠ 0) + isSet cfg.procMask.isSome + isSet (cfg.nbChannel ≠ 0) +
    isSet (cfg.memory ≠ 0) + isSet cfg.procType.isSome + isSet cfg.baseVirtaddr.isSome

def vdevCount (cfg : FfConfig) : Nat :=
  if cfg.nbVdev = 0 then 0 else cfg.nbVdev.toNat + 2

theorem length_reduceOption_cons (arg : Option Text) (args : List (Option Text)) :
    (arg :: args).reduceOption.length = isSet arg.isSome + args.reduceOption.length := by
  cases arg with
  | none =>
      rw [List.reduceOption_cons_of_none, isSet]
      simp
  | some arg =>
      rw [List.reduceOption_cons_of_some, List.length_cons, isSet]
      simp [Nat.add_comm]

theorem isSome_intArg (flag : Text) (v : Int) : (intArg flag v).isSome = decide (v ≠ 0) := by
  unfold intArg
  split
  · next hzero =>
      simp [hzero]
  · next hset =>
      simp [hset]

theorem isSome_textArg (flag : Text) (s : Option Text) : (textArg flag s).isSome = s.isSome :=
  Option.isSome_map

theorem length_optionArgs (cfg : FfConfig) :
    (optionArgs cfg).reduceOption.length = optionsSet cfg := by
  have hhuge : (if cfg.noHuge = 0 then none else some "--no-huge".toList).isSome =
      decide (cfg.noHuge ≠ 0) := by
    split
    · next hzero =>
        simp [hzero]
    · next hset =>
        simp [hset]
  simp only [optionArgs, length_reduceOption_cons, isSome_textArg, isSome_intArg, hhuge,
    List.reduceOption_nil, List.length_nil, optionsSet]
  omega

theorem length_dpdkArgs (cfg : FfConfig) :
    (dpdkArgs cfg).length = 1 + optionsSet cfg + vdevCount cfg := by
  have hvdev : (vdevArgs cfg).length = vdevCount cfg := by
    unfold vdevArgs vdevCount
    split
    · rfl
    · rw [List.length_append, List.length_map, List.length_range]
      rfl
  rw [dpdkArgs, List.cons_append, List.length_cons, List.length_append, List.length_map,
    length_optionArgs, hvdev]
  omega

theorem storeArgs_cons_iff (text : Text) (args : List (Except Fault Text)) (argv : List Text) :
    (exists argv', storeArgs (.ok text :: args) argv = .ok argv') <->
      argv.length < dpdkConfigNum + 1 ∧
        exists argv', storeArgs args (argv ++ [text]) = .ok argv' := by
  cases Nat.lt_or_ge argv.length (dpdkConfigNum + 1) with
  | inr hfull =>
      have hstore : storeArg argv text = .error .undefined := if_neg (Nat.not_lt.mpr hfull)
      simp only [storeArgs, hstore]
      constructor
      · intro h
        rcases h with ⟨argv', h⟩
        contradiction
      · intro h
        exact absurd h.1 (Nat.not_lt.mpr hfull)
  | inl hroom =>
      have hstore : storeArg argv text = .ok (argv ++ [text]) := if_pos hroom
      simp only [storeArgs, hstore]
      exact ⟨fun h => ⟨hroom, h⟩, fun h => h.2⟩

theorem storeArgs_ok_iff (args : List (Except Fault Text)) (argv : List Text)
    (hargv : argv.length ≤ dpdkConfigNum + 1) : (exists argv', storeArgs args argv = .ok argv') <->
      (forall arg, arg ∈ args -> exists text, arg = .ok text) ∧
        argv.length + args.length ≤ dpdkConfigNum + 1 := by
  induction args generalizing argv with
  | nil =>
      constructor
      · intro _
        exact ⟨fun arg harg => absurd harg List.not_mem_nil, hargv⟩
      · intro _
        exact ⟨argv, rfl⟩
  | cons arg args ih =>
      cases arg with
      | error e =>
          constructor
          · intro h
            rcases h with ⟨argv', h⟩
            contradiction
          · intro h
            rcases h.1 _ List.mem_cons_self with ⟨text, htext⟩
            contradiction
      | ok text =>
          have hlength : (argv ++ [text]).length = argv.length + 1 := by
            rw [List.length_append, List.length_singleton]
          rw [storeArgs_cons_iff, List.forall_mem_cons, List.length_cons]
          constructor
          · intro h
            have hrest := (ih (argv ++ [text]) (by omega)).mp h.2
            exact ⟨⟨⟨text, rfl⟩, hrest.1⟩, by omega⟩
          · intro h
            exact ⟨by omega, (ih (argv ++ [text]) (by omega)).mpr ⟨h.1.2, by omega⟩⟩

theorem vdevAt_ok_iff {cfg : FfConfig} {i : Nat} (hi : i < rteMaxEthports) :
    (exists text, (vdevAt cfg i).map vdevArg = .ok text) <-> cfg.vdevCfgs.isSome = true := by
  unfold vdevAt
  cases cfg.vdevCfgs with
  | none => simp [Except.map]
  | some vc => simp [Except.map, hi]

theorem dpdkArgs_ok_iff {cfg : FfConfig} (hvdev : cfg.nbVdev ≤ rteMaxEthports) :
    (forall arg, arg ∈ dpdkArgs cfg -> exists text, arg = .ok text) <->
      (0 < cfg.nbVdev -> cfg.vdevCfgs.isSome = true) := by
  constructor
  · intro h hpos
    have hne : cfg.nbVdev ≠ 0 := by omega
    have hfirst : (vdevAt cfg 0).map vdevArg ∈ dpdkArgs cfg := by
      apply List.mem_append_right
      rw [vdevArgs, if_neg hne]
      apply List.mem_append_left
      exact List.mem_map_of_mem (List.mem_range.mpr (by omega))
    exact (vdevAt_ok_iff (by decide)).mp (h _ hfirst)
  · intro h arg harg
    rcases List.mem_append.mp harg with harg | harg
    · rcases List.mem_cons.mp harg with rfl | harg
      · exact ⟨_, rfl⟩
      · rcases List.mem_map.mp harg with ⟨text, _, rfl⟩
        exact ⟨text, rfl⟩
    · unfold vdevArgs at harg
      split at harg
      · contradiction
      · rcases List.mem_append.mp harg with harg | harg
        · rcases List.mem_map.mp harg with ⟨i, hi, rfl⟩
          have hi := List.mem_range.mp hi
          exact (vdevAt_ok_iff (by omega)).mpr (h (by omega))
        · rcases List.mem_cons.mp harg with rfl | harg
          · exact ⟨_, rfl⟩
          · rw [List.mem_singleton.mp harg]
            exact ⟨_, rfl⟩

/-!
The vector holds all arguments, and they are made of what is there, exactly when they are at
most 17 and the array of the virtual devices is allocated.
-/
theorem dpdk_args_iff (cfg : FfConfig) (hvdev : cfg.nbVdev ≤ rteMaxEthports) :
    (exists argv, dpdkArgsSetup cfg = .ok argv) <->
      1 + optionsSet cfg + vdevCount cfg ≤ dpdkConfigNum + 1 ∧
        (0 < cfg.nbVdev -> cfg.vdevCfgs.isSome = true) := by
  rw [dpdkArgsSetup, storeArgs_ok_iff _ _ (Nat.zero_le _), dpdkArgs_ok_iff hvdev,
    length_dpdkArgs, List.length_nil, Nat.zero_add, and_comm]

def loadLines (lines : List Text) : Except Fault FfConfig :=
  ffLoadConfig splitFirst (fun _ _ => 0) (fun _ => some lines) []

def elevenVdevs : List Text :=
  ["[dpdk]\n".toList, "lcore_mask=1\n".toList, "channel=4\n".toList, "nb_vdev=11\n".toList,
    "[vdev0]\n".toList, "path=/var/run/usvhost0\n".toList, "queues=1\n".toList]

def FfConfig.counts (cfg : FfConfig) : Int × Nat × Nat × Bool :=
  (cfg.nbVdev, optionsSet cfg, vdevCount cfg, cfg.vdevCfgs.isSome)

/-- With three options and eleven devices the vector is full. -/
theorem dpdk_args_eleven_vdevs :
    exists cfg, loadLines elevenVdevs = .ok cfg ∧ cfg.counts = (11, 3, 13, true) ∧
      exists argv, dpdkArgsSetup cfg = .ok argv := by
  have hloaded : (loadLines elevenVdevs).toOption.map FfConfig.counts =
      some (11, 3, 13, true) := by
    decide +kernel
  rcases exists_loaded hloaded with ⟨cfg, hload, hcounts⟩
  refine ⟨cfg, hload, hcounts, ?_⟩
  simp only [FfConfig.counts, Prod.mk.injEq] at hcounts
  rcases hcounts with ⟨hvdevs, hoptions, hcount, hallocated⟩
  apply (dpdk_args_iff cfg (by rw [hvdevs]; decide)).mpr
  rw [hoptions, hcount]
  exact ⟨by decide, fun _ => hallocated⟩

def sixteenVdevs : List Text :=
  ["[dpdk]\n".toList, "nb_vdev=16\n".toList, "[vdev0]\n".toList, "path=/var/run/usvhost0\n".toList]

def silentVdev : List Text :=
  ["[dpdk]\n".toList, "nb_vdev=1\n".toList]

/-- Both files are accepted, and neither can be made an argument vector of. -/
theorem dpdk_args_undefined :
    ((loadLines sixteenVdevs).map fun cfg => (cfg.nbVdev, dpdkArgsSetup cfg)) =
      .ok (16, .error .undefined) ∧
    ((loadLines silentVdev).map fun cfg => (cfg.nbVdev, dpdkArgsSetup cfg)) =
      .ok (1, .error .undefined) := by
  constructor
  · decide +kernel
  · decide +kernel

end Config
end FStackLite
