import FStackLite.Config.Lists
import FStackLite.Constants
import Mathlib.Data.List.GetD
import Mathlib.Logic.Function.Basic

/-!
# Loading a configuration

`ff_load_config` takes the defaults, the options of the command line and the pairs of
the configuration file one after the other into `ff_global_cfg`, and then checks the
whole.  Memory is always allocated here, and what is printed is left out.
-/

namespace FStackLite
namespace Config

def dpdkMaxLcore : Nat := 128

/-- `struct ff_port_cfg`; the first `nbLcores` elements of `lcoreList` count. -/
structure PortCfg where
  name : Option Text
  portId : UInt8
  addr : Option Text
  netmask : Option Text
  broadcast : Option Text
  gateway : Option Text
  pcap : Option Text
  nbLcores : Nat
  lcoreList : Nat -> UInt16

/-- The bytes that `calloc` gives. -/
def PortCfg.zero : PortCfg :=
  ⟨none, 0, none, none, none, none, none, 0, fun _ => 0⟩

/-- `struct ff_vdev_cfg` -/
structure VdevCfg where
  name : Option Text
  iface : Option Text
  path : Option Text
  mac : Option Text
  vdevId : UInt8
  nbQueues : UInt8
  nbCq : UInt8
  queueSize : UInt16

def VdevCfg.zero : VdevCfg :=
  ⟨none, none, none, none, 0, 0, 0, 0⟩

/-- The value of a setting of FreeBSD, which is an `int`, a `long` or its text. -/
inductive FreebsdValue where
  | int (v : Int)
  | long (v : Int)
  | str

/-- `struct ff_freebsd_cfg` -/
structure FreebsdCfg where
  name : Text
  str : Text
  value : FreebsdValue

/--
`struct ff_config`.  The lists have `nb_procs` and `nb_ports` elements, and the arrays
`port_cfgs` and `vdev_cfgs`, once they are allocated, `RTE_MAX_ETHPORTS`.
-/
structure FfConfig where
  filename : Text
  procType : Option Text
  lcoreMask : Option Text
  procMask : Option Text
  baseVirtaddr : Option Text
  nbChannel : Int
  memory : Int
  noHuge : Int
  procId : Int
  promiscuous : Int
  nbVdev : Int
  numaOn : Int
  tso : Int
  vlanStrip : Int
  idleSleep : UInt32
  pktTxDelay : UInt32
  procLcore : List UInt16
  portidList : List UInt16
  maxPortid : UInt16
  portCfgs : Option (Nat -> PortCfg)
  vdevCfgs : Option (Nat -> VdevCfg)
  kniEnable : Int
  kniMethod : Option Text
  kniTcpPort : Option Text
  kniUdpPort : Option Text
  boot : List FreebsdCfg
  sysctl : List FreebsdCfg
  physmem : Int
  hz : Int
  fdReserve : Int
  memSize : Int

def FfConfig.nbProcs (cfg : FfConfig) : Nat :=
  cfg.procLcore.length

def FfConfig.nbPorts (cfg : FfConfig) : Nat :=
  cfg.portidList.length

def ffDefaultConfig : FfConfig where
  filename := "config.ini".toList
  procType := none
  lcoreMask := none
  procMask := none
  baseVirtaddr := none
  nbChannel := 0
  memory := 0
  noHuge := 0
  procId := -1
  promiscuous := 1
  nbVdev := 0
  numaOn := 1
  tso := 0
  vlanStrip := 0
  idleSleep := 0
  pktTxDelay := 100
  procLcore := []
  portidList := []
  maxPortid := 0
  portCfgs := none
  vdevCfgs := none
  kniEnable := 0
  kniMethod := none
  kniTcpPort := none
  kniUdpPort := none
  boot := []
  sysctl := []
  physmem := 1048576 * 256
  hz := 100
  fdReserve := 0
  memSize := 256

/-!
## The options
-/

/-- What `getopt_long` delivers. -/
inductive Opt where
  | conf (optarg : Text)
  | procId (optarg : Text)
  | procType (optarg : Text)
  | unknown

def parseOpts : List Opt -> FfConfig -> Except Fault FfConfig
  | [], cfg => .ok cfg
  | .conf optarg :: opts, cfg => parseOpts opts { cfg with filename := optarg }
  | .procId optarg :: opts, cfg => parseOpts opts { cfg with procId := atoi optarg }
  | .procType optarg :: opts, cfg => parseOpts opts { cfg with procType := some optarg }
  | .unknown :: _, _ => .error .refused

def procTypes : List Text :=
  ["primary".toList, "secondary".toList, "auto".toList]

def ffParseArgs (opts : List Opt) (cfg : FfConfig) : Except Fault FfConfig :=
  match parseOpts opts cfg with
  | .error e => .error e
  | .ok cfg =>
      let procType := cfg.procType.getD "auto".toList
      if procTypes.contains procType then
        if rteMaxLcore < (UInt16.ofInt cfg.procId).toNat then
          .ok { cfg with procType := some procType, procId := 0 }
        else
          .ok { cfg with procType := some procType }
      else
        .error .refused

/-!
## The handlers
-/

def isInteger (s : Text) : Bool :=
  match (sign s).2 with
  | [] => false
  | digits => digits.all isdigit

def freebsdConf (sect name value : Text) : FreebsdCfg :=
  if sect = "sysctl".toList ∧ isInteger value then
    if name = "kern.ipc.maxsockbuf".toList then
      ⟨name, value, .long (atol value)⟩
    else
      ⟨name, value, .int (atoi value)⟩
  else
    ⟨name, value, .str⟩

def insertConf (conf : FreebsdCfg) : List FreebsdCfg -> List FreebsdCfg
  | [] => [conf]
  | first :: rest => first :: conf :: rest

def parsePortLcoreList (split : Splitter) (pc : PortCfg) (value : Text) : Except Fault PortCfg :=
  match parseInto split dpdkMaxLcore value with
  | .ok (arr, sz) => .ok { pc with nbLcores := sz, lcoreList := overlay arr pc.lcoreList }
  | .error e => .error e

/-- `frame` is what the stack holds where the array `ports` is. -/
def parsePortList (split : Splitter) (frame : Nat -> UInt16) (cfg : FfConfig) (value : Text) :
    Except Fault FfConfig :=
  match parseInto split rteMaxEthports value with
  | .ok (arr, sz) =>
      let ports := overlay arr frame
      .ok { cfg with
        portidList := (List.range sz).map ports
        maxPortid := ports (sz - 1) }
  | .error e => .error e

/-- The array of ports, where each listed port is given the cores of all processes. -/
def initPortCfgs (procLcore : List UInt16) : List UInt16 -> (Nat -> PortCfg) ->
    Except Fault (Nat -> PortCfg)
  | [], pc => .ok pc
  | portid :: rest, pc =>
      if portid.toNat < rteMaxEthports then
        initPortCfgs procLcore rest (Function.update pc portid.toNat
          { pc portid.toNat with
            portId := portid.toUInt8
            nbLcores := procLcore.length
            lcoreList := overlay procLcore (pc portid.toNat).lcoreList })
      else
        .error (.outside ⟨.portCfgs, portid.toNat, true⟩)

def setPort (split : Splitter) (cur : PortCfg) (name value : Text) : Except Fault PortCfg :=
  if name = "addr".toList then
    .ok { cur with addr := some value }
  else if name = "netmask".toList then
    .ok { cur with netmask := some value }
  else if name = "broadcast".toList then
    .ok { cur with broadcast := some value }
  else if name = "gateway".toList then
    .ok { cur with gateway := some value }
  else if name = "pcap".toList then
    .ok { cur with pcap := some value }
  else if name = "lcore_list".toList then
    parsePortLcoreList split cur value
  else
    .ok cur

/-- The pair of a `portN` section, in the array of ports. -/
def setPortOf (split : Splitter) (maxPortid : UInt16) (sect name value : Text)
    (pc : Nat -> PortCfg) : Except Fault (Nat -> PortCfg) :=
  match scanNumbered "port".toList sect with
  | none => .error .refused
  | some portid =>
      if (maxPortid.toNat : Int) < portid then
        .ok pc
      else if portid < 0 ∨ (rteMaxEthports : Int) ≤ portid then
        .error (.outside ⟨.portCfgs, portid, true⟩)
      else
        let cur := pc portid.toNat
        let named := if cur.name = none then
            { cur with name := some sect, portId := UInt8.ofInt portid }
          else
            cur
        match setPort split named name value with
        | .ok cur' => .ok (Function.update pc portid.toNat cur')
        | .error e => .error e

def portCfgHandler (split : Splitter) (cfg : FfConfig) (sect name value : Text) :
    Except Fault FfConfig :=
  if cfg.nbPorts = 0 then
    .error .refused
  else
    let allocated := match cfg.portCfgs with
      | none => initPortCfgs cfg.procLcore cfg.portidList fun _ => .zero
      | some pc => .ok pc
    match allocated with
    | .error e => .error e
    | .ok pc =>
        match setPortOf split cfg.maxPortid sect name value pc with
        | .ok pc' => .ok { cfg with portCfgs := some pc' }
        | .error e => .error e

def setVdev (cur : VdevCfg) (name value : Text) : VdevCfg :=
  if name = "iface".toList then
    { cur with iface := some value }
  else if name = "path".toList then
    { cur with path := some value }
  else if name = "queues".toList then
    { cur with nbQueues := UInt8.ofInt (atoi value) }
  else if name = "queue_size".toList then
    { cur with queueSize := UInt16.ofInt (atoi value) }
  else if name = "mac".toList then
    { cur with mac := some value }
  else if name = "cq".toList then
    { cur with nbCq := UInt8.ofInt (atoi value) }
  else
    cur

def vdevCfgHandler (cfg : FfConfig) (sect name value : Text) : Except Fault FfConfig :=
  if cfg.nbVdev = 0 then
    .error .refused
  else
    let vc := cfg.vdevCfgs.getD fun _ => .zero
    match scanNumbered "vdev".toList sect with
    | none => .error .refused
    | some vdevid =>
        if cfg.nbVdev < vdevid then
          .ok { cfg with vdevCfgs := some vc }
        else if vdevid < 0 ∨ (rteMaxEthports : Int) ≤ vdevid then
          .error (.outside ⟨.vdevCfgs, vdevid, true⟩)
        else
          let cur := vc vdevid.toNat
          let named := if cur.name = none then
              { cur with name := some sect, vdevId := UInt8.ofInt vdevid }
            else
              cur
          .ok { cfg with
            vdevCfgs := some (Function.update vc vdevid.toNat (setVdev named name value)) }

/-- The settings of the `dpdk` section that are one number or one text. -/
def setDpdk (cfg : FfConfig) (name value : Text) : FfConfig :=
  if name = "channel".toList then
    { cfg with nbChannel := atoi value }
  else if name = "memory".toList then
    { cfg with memory := atoi value }
  else if name = "no_huge".toList then
    { cfg with noHuge := atoi value }
  else if name = "base_virtaddr".toList then
    { cfg with baseVirtaddr := some value }
  else if name = "nb_vdev".toList then
    { cfg with nbVdev := atoi value }
  else if name = "promiscuous".toList then
    { cfg with promiscuous := atoi value }
  else if name = "numa_on".toList then
    { cfg with numaOn := atoi value }
  else if name = "tso".toList then
    { cfg with tso := atoi value }
  else if name = "vlan_strip".toList then
    { cfg with vlanStrip := atoi value }
  else if name = "idle_sleep".toList then
    { cfg with idleSleep := UInt32.ofInt (atoi value) }
  else if name = "pkt_tx_delay".toList then
    { cfg with pktTxDelay := UInt32.ofInt (atoi value) }
  else
    cfg

def setKni (cfg : FfConfig) (name value : Text) : FfConfig :=
  if name = "enable".toList then
    { cfg with kniEnable := atoi value }
  else if name = "method".toList then
    { cfg with kniMethod := some value }
  else if name = "tcp_port".toList then
    { cfg with kniTcpPort := some value }
  else if name = "udp_port".toList then
    { cfg with kniUdpPort := some value }
  else
    cfg

def setBoot (cfg : FfConfig) (name value : Text) : FfConfig :=
  if name = "hz".toList then
    { cfg with hz := atoi value }
  else if name = "physmem".toList then
    { cfg with physmem := atol value }
  else if name = "fd_reserve".toList then
    { cfg with fdReserve := atoi value }
  else if name = "memsz_MB".toList then
    { cfg with memSize := atoi value }
  else
    { cfg with boot := insertConf (freebsdConf "boot".toList name value) cfg.boot }

def lcoreMaskHandler (cfg : FfConfig) (value : Text) : Except Fault FfConfig :=
  match parseLcoreMask cfg.procId value with
  | some (procLcore, procMask) =>
      .ok { cfg with
        lcoreMask := some value
        procLcore := procLcore
        procMask := some procMask }
  | none => .error .refused

def iniParseHandler (split : Splitter) (frame : Nat -> UInt16) (cfg : FfConfig)
    (sect name value : Text) : Except Fault FfConfig :=
  if sect = "dpdk".toList then
    if name = "lcore_mask".toList then
      lcoreMaskHandler cfg value
    else if name = "port_list".toList then
      parsePortList split frame cfg value
    else
      .ok (setDpdk cfg name value)
  else if sect = "kni".toList then
    .ok (setKni cfg name value)
  else if sect = "freebsd.boot".toList then
    .ok (setBoot cfg name value)
  else if sect = "freebsd.sysctl".toList then
    .ok { cfg with sysctl := insertConf (freebsdConf "sysctl".toList name value) cfg.sysctl }
  else if "port".toList.isPrefixOf sect then
    portCfgHandler split cfg sect name value
  else if "vdev".toList.isPrefixOf sect then
    vdevCfgHandler cfg sect name value
  else
    .ok cfg

/-!
## The check
-/

def checkLcores (procLcore : List UInt16) (pc : PortCfg) : List Nat -> Except Fault Unit
  | [] => .ok ()
  | k :: ks =>
      if dpdkMaxLcore ≤ k then
        .error .undefined
      else if uint16BinarySearch (fun i => procLcore.getD i 0) 0 (procLcore.length - 1)
          (pc.lcoreList k) < 0 then
        .error .refused
      else
        checkLcores procLcore pc ks

def checkPrimary (cfg : FfConfig) (pc : PortCfg) : Except Fault Unit :=
  if cfg.kniEnable ≠ 0 ∧ cfg.procType = some "primary".toList then
    match cfg.procLcore[cfg.procId.toNat]? with
    | none => .error .undefined
    | some lcoreId =>
        if (List.range pc.nbLcores).any fun j => pc.lcoreList j == lcoreId then
          .ok ()
        else
          .error .refused
  else
    .ok ()

def checkPort (cfg : FfConfig) (pc : PortCfg) : Except Fault Unit :=
  if pc.addr = none ∨ pc.netmask = none ∨ pc.broadcast = none ∨ pc.gateway = none then
    .error .refused
  else
    match checkLcores cfg.procLcore pc (List.range pc.nbLcores) with
    | .error e => .error e
    | .ok () => checkPrimary cfg pc

def checkPorts (cfg : FfConfig) : List UInt16 -> Except Fault Unit
  | [] => .ok ()
  | portid :: rest =>
      match cfg.portCfgs with
      | none => .error (.outside ⟨.portCfgs, portid.toNat, false⟩)
      | some pc =>
          if portid.toNat < rteMaxEthports then
            match checkPort cfg (pc portid.toNat) with
            | .error e => .error e
            | .ok () => checkPorts cfg rest
          else
            .error (.outside ⟨.portCfgs, portid.toNat, true⟩)

def checkKni (cfg : FfConfig) : Bool :=
  match cfg.kniMethod with
  | none => cfg.kniEnable = 0
  | some method => strcasecmp method "accept".toList || strcasecmp method "reject".toList

def ffCheckConfig (cfg : FfConfig) : Except Fault Unit :=
  if checkKni cfg then
    checkPorts cfg cfg.portidList
  else
    .error .refused

/--
The files are what `fgets` reads of them, line by line, and the frames what the stack
holds when a line is handled.  `dpdk_args_setup`, which comes last, only reads the
configuration; what it makes of one that is accepted is looked at apart.
-/
def ffLoadConfig (split : Splitter) (frames : Nat -> Nat -> UInt16)
    (files : Text -> Option (List Text)) (opts : List Opt) : Except Fault FfConfig :=
  match ffParseArgs opts ffDefaultConfig with
  | .error e => .error e
  | .ok given =>
      match iniParse (fun lineno => iniParseHandler split (frames lineno))
          (files given.filename) given with
      | .error (.line _) => .error .refused
      | .error .undefined => .error .undefined
      | .error (.outside access) => .error (.outside access)
      | .ok cfg =>
          match ffCheckConfig cfg with
          | .error e => .error e
          | .ok () => .ok cfg

/-!
## What is known of a configuration that is accepted
-/

structure PortCfg.Checked (procLcore : List UInt16) (pc : PortCfg) : Prop where
  count : pc.nbLcores ≤ dpdkMaxLcore
  enabled : forall k, k < pc.nbLcores -> pc.lcoreList k ∈ procLcore

theorem checkLcores_ok {procLcore : List UInt16} {pc : PortCfg} {ks : List Nat}
    (h : checkLcores procLcore pc ks = .ok ()) {k : Nat} (hk : k ∈ ks) :
    k < dpdkMaxLcore ∧ pc.lcoreList k ∈ procLcore := by
  induction ks with
  | nil => contradiction
  | cons k' ks ih =>
      unfold checkLcores at h
      split at h
      · contradiction
      · next hmax =>
          split at h
          · contradiction
          · next hfound =>
              rcases List.mem_cons.mp hk with rfl | hk
              · rcases uint16BinarySearch_sound (Int.not_lt.mp hfound) with ⟨i, hi, heq⟩
                rw [List.getD_eq_getElem _ _ hi] at heq
                exact ⟨Nat.not_le.mp hmax, heq ▸ List.getElem_mem hi⟩
              · exact ih h hk

variable {cfg cfg' : FfConfig} {split : Splitter} {value name sect : Text} {α : Type}
    {opts : List Opt}

theorem checkPort_checked {pc : PortCfg} (h : checkPort cfg pc = .ok ()) :
    pc.Checked cfg.procLcore := by
  unfold checkPort at h
  split at h
  · contradiction
  · split at h
    · contradiction
    · next hlcores =>
        constructor
        · cases hn : pc.nbLcores with
          | zero => exact Nat.zero_le _
          | succ n =>
              exact (checkLcores_ok hlcores (List.mem_range.mpr (by omega : n < pc.nbLcores))).1
        · intro k hk
          exact (checkLcores_ok hlcores (List.mem_range.mpr hk)).2

theorem checkPorts_checked {ports : List UInt16} (h : checkPorts cfg ports = .ok ())
    {portid : UInt16} (hport : portid ∈ ports) :
    exists pc, cfg.portCfgs = some pc ∧ portid.toNat < rteMaxEthports ∧
      (pc portid.toNat).Checked cfg.procLcore := by
  induction ports with
  | nil => contradiction
  | cons portid' rest ih =>
      unfold checkPorts at h
      split at h
      · contradiction
      · next pc hpc =>
          split at h
          · next hmax =>
              split at h
              · contradiction
              · next hchecked =>
                  rcases List.mem_cons.mp hport with rfl | hport
                  · exact ⟨pc, hpc, hmax, checkPort_checked hchecked⟩
                  · exact ih h hport
          · contradiction

def FfConfig.cores (cfg : FfConfig) : Option Text × List UInt16 :=
  (cfg.lcoreMask, cfg.procLcore)

@[simp] theorem setDpdk_cores (cfg : FfConfig) (name value : Text) :
    (setDpdk cfg name value).cores = cfg.cores := by
  simp only [setDpdk, apply_ite FfConfig.cores]
  simp only [FfConfig.cores, ite_self]

@[simp] theorem setKni_cores (cfg : FfConfig) (name value : Text) :
    (setKni cfg name value).cores = cfg.cores := by
  simp only [setKni, apply_ite FfConfig.cores]
  simp only [FfConfig.cores, ite_self]

@[simp] theorem setBoot_cores (cfg : FfConfig) (name value : Text) :
    (setBoot cfg name value).cores = cfg.cores := by
  simp only [setBoot, apply_ite FfConfig.cores]
  simp only [FfConfig.cores, ite_self]

theorem parsePortList_cores {frame : Nat -> UInt16}
    (h : parsePortList split frame cfg value = .ok cfg') : cfg'.cores = cfg.cores := by
  unfold parsePortList at h
  split at h
  · injection h with h
    rw [<- h]
    rfl
  · contradiction

theorem portCfgHandler_cores (h : portCfgHandler split cfg sect name value = .ok cfg') :
    cfg'.cores = cfg.cores := by
  simp only [portCfgHandler] at h
  split at h
  · contradiction
  · split at h
    · contradiction
    · split at h
      · injection h with h
        rw [<- h]
        rfl
      · contradiction

theorem vdevCfgHandler_cores (h : vdevCfgHandler cfg sect name value = .ok cfg') :
    cfg'.cores = cfg.cores := by
  simp only [vdevCfgHandler] at h
  split at h
  · contradiction
  · split at h
    · contradiction
    · split at h
      · injection h with h
        rw [<- h]
        rfl
      · split at h
        · contradiction
        · injection h with h
          rw [<- h]
          rfl

/-- The cores are those that `parse_lcore_mask` reads from the core mask. -/
def FfConfig.FromMask (cfg : FfConfig) : Prop :=
  exists procId coremask mask, cfg.lcoreMask = some coremask ∧
    parseLcoreMask procId coremask = some (cfg.procLcore, mask)

theorem iniParseHandler_cores {frame : Nat -> UInt16}
    (h : iniParseHandler split frame cfg sect name value = .ok cfg') :
    cfg'.cores = cfg.cores ∨ cfg'.FromMask := by
  have hplain : forall next : FfConfig, next.cores = cfg.cores ->
      (Except.ok next : Except Fault FfConfig) = .ok cfg' -> cfg'.cores = cfg.cores := by
    intro next hnext heq
    injection heq with heq
    rw [<- heq, hnext]
  unfold iniParseHandler at h
  split at h
  · split at h
    · unfold lcoreMaskHandler at h
      split at h
      · next lcores mask hmask =>
          injection h with h
          rw [<- h]
          exact Or.inr ⟨cfg.procId, value, mask, rfl, hmask⟩
      · contradiction
    · split at h
      · exact Or.inl (parsePortList_cores h)
      · exact Or.inl (hplain _ (by simp) h)
  · split at h
    · exact Or.inl (hplain _ (by simp) h)
    · split at h
      · exact Or.inl (hplain _ (by simp) h)
      · split at h
        · exact Or.inl (hplain _ (by rfl) h)
        · split at h
          · exact Or.inl (portCfgHandler_cores h)
          · split at h
            · exact Or.inl (vdevCfgHandler_cores h)
            · exact Or.inl (hplain _ rfl h)

theorem parseOpts_member (member : FfConfig -> α)
    (hkeep : forall (cfg : FfConfig) (f : Text) (p : Int) (t : Option Text),
      member { cfg with filename := f, procId := p, procType := t } = member cfg)
    (h : parseOpts opts cfg = .ok cfg') : member cfg' = member cfg := by
  induction opts generalizing cfg with
  | nil =>
      injection h with h
      rw [<- h]
  | cons opt opts ih =>
      cases opt with
      | unknown => contradiction
      | conf optarg => exact (ih h).trans (hkeep cfg optarg cfg.procId cfg.procType)
      | procId optarg => exact (ih h).trans (hkeep cfg cfg.filename (atoi optarg) cfg.procType)
      | procType optarg => exact (ih h).trans (hkeep cfg cfg.filename cfg.procId (some optarg))

theorem ffParseArgs_member (member : FfConfig -> α)
    (hkeep : forall (cfg : FfConfig) (f : Text) (p : Int) (t : Option Text),
      member { cfg with filename := f, procId := p, procType := t } = member cfg)
    (h : ffParseArgs opts cfg = .ok cfg') : member cfg' = member cfg := by
  simp only [ffParseArgs] at h
  split at h
  · contradiction
  · next parsed hparsed =>
      have hsame := parseOpts_member member hkeep hparsed
      split at h
      · split at h
        · injection h with h
          rw [<- h, <- hsame]
          exact hkeep parsed parsed.filename 0 _
        · injection h with h
          rw [<- h, <- hsame]
          exact hkeep parsed parsed.filename parsed.procId _
      · contradiction

structure Accepted (cfg : FfConfig) : Prop where
  increasing : cfg.procLcore.Pairwise (· < ·)
  checked : forall portid, portid ∈ cfg.portidList ->
    exists pc, cfg.portCfgs = some pc ∧ portid.toNat < rteMaxEthports ∧
      (pc portid.toNat).Checked cfg.procLcore

theorem ffLoadConfig_ok {frames : Nat -> Nat -> UInt16} {files : Text -> Option (List Text)}
    (h : ffLoadConfig split frames files opts = .ok cfg) :
    (cfg.procLcore = [] ∨ cfg.FromMask) ∧ ffCheckConfig cfg = .ok () := by
  unfold ffLoadConfig at h
  split at h
  · contradiction
  · next given hgiven =>
      split at h
      · contradiction
      · contradiction
      · contradiction
      · next loaded hloaded =>
          split at h
          · contradiction
          · next hcheck =>
              injection h with h
              rw [<- h]
              refine ⟨iniParse_keeps (P := fun cfg => cfg.procLcore = [] ∨ cfg.FromMask)
                (fun hp hhandler => ?_) (Or.inl ?_) hloaded, hcheck⟩
              · rcases iniParseHandler_cores hhandler with hsame | hnew
                · injection hsame with hmask hlcores
                  rwa [FfConfig.FromMask, hmask, hlcores]
                · exact Or.inr hnew
              · exact ffParseArgs_member FfConfig.procLcore (fun _ _ _ _ => rfl) hgiven

theorem ffLoadConfig_accepted {frames : Nat -> Nat -> UInt16} {files : Text -> Option (List Text)}
    (h : ffLoadConfig split frames files opts = .ok cfg) : Accepted cfg := by
  rcases ffLoadConfig_ok h with ⟨hcores, hcheck⟩
  constructor
  · rcases hcores with hnone | ⟨procId, coremask, mask, _, hmask⟩
    · rw [hnone]
      exact List.Pairwise.nil
    · exact parseLcoreMask_pairwise hmask
  · intro portid hport
    unfold ffCheckConfig at hcheck
    split at hcheck
    · exact checkPorts_checked hcheck hport
    · contradiction

theorem exists_loaded {loaded : Except Fault FfConfig} {f : FfConfig -> α} {x : α}
    (h : loaded.toOption.map f = some x) : exists cfg, loaded = .ok cfg ∧ f cfg = x := by
  cases loaded with
  | error e => simp [Except.toOption] at h
  | ok cfg => exact ⟨cfg, rfl, by simpa [Except.toOption] using h⟩

end Config
end FStackLite
