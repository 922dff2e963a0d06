import FStackLite.Config.Load

/-!
# The queues of the processes

Every process calls `init_lcore_conf` on the configuration, and takes from each port the
queue whose number is the place of its core in the port's `lcore_list`.  The queues of a
port are then shared out among the processes when the cores of the list differ, but
neither the parser nor the check sees to that.
-/

namespace FStackLite
namespace Config

def maxRxQueuePerLcore : Nat := 16

structure Machine where
  devCount : Nat
  detected : UInt16 -> Bool
  /-- The socket of the core a process runs on. -/
  socketOf : Int -> UInt16

/-- `struct lcore_conf`; a queue is a port and its number there. -/
structure LcoreConf where
  procId : UInt16
  socketId : UInt16
  rxQueueList : List (UInt16 × UInt16)
  txPortId : List UInt16
  txQueueId : Nat -> UInt16
  pcap : Nat -> Option Text
  nbQueueList : Nat -> UInt16

inductive Exit where
  | noDevices
  | noPort
  | lcoreUnavailable
  | nothingToDo
  | undefined
deriving DecidableEq, Repr

def queueAmong (lcoreList : Nat -> UInt16) (lcoreId : UInt16) (nbLcores : Nat) : Int :=
  (List.range nbLcores).foldl
    (fun queueid i => if lcoreList i = lcoreId then (i : Int) else queueid) (-1)

def PortCfg.queueOf (pc : PortCfg) (lcoreId : UInt16) : Int :=
  queueAmong pc.lcoreList lcoreId pc.nbLcores

def addPort (portCfgs : Option (Nat -> PortCfg)) (lcoreId portId : UInt16) (conf : LcoreConf) :
    Except Exit LcoreConf :=
  match portCfgs with
  | none => .error .undefined
  | some pc =>
      if portId.toNat < rteMaxEthports then
        let pconf := pc portId.toNat
        let queueid := pconf.queueOf lcoreId
        if queueid < 0 then
          .ok conf
        else if maxRxQueuePerLcore ≤ conf.rxQueueList.length then
          .error .undefined
        else
          .ok { conf with
            rxQueueList := conf.rxQueueList ++ [(portId, UInt16.ofInt queueid)]
            txPortId := conf.txPortId ++ [portId]
            txQueueId := Function.update conf.txQueueId portId.toNat (UInt16.ofInt queueid)
            pcap := Function.update conf.pcap portId.toNat pconf.pcap
            nbQueueList := Function.update conf.nbQueueList portId.toNat
              (UInt16.ofNat pconf.nbLcores) }
      else
        .error .undefined

def addPorts (portCfgs : Option (Nat -> PortCfg)) (lcoreId : UInt16) : List UInt16 -> LcoreConf ->
    Except Exit LcoreConf
  | [], conf => .ok conf
  | portId :: rest, conf =>
      match addPort portCfgs lcoreId portId conf with
      | .error e => .error e
      | .ok conf' => addPorts portCfgs lcoreId rest conf'

/-- The configuration is one that the machine has the devices and the cores for. -/
def Machine.Has (m : Machine) (cfg : FfConfig) : Prop :=
  m.devCount % 256 ≠ 0 ∧ cfg.maxPortid.toNat < m.devCount % 256 ∧
    forall lcoreId, lcoreId ∈ cfg.procLcore -> m.detected lcoreId = true

/-- The global `lcore_conf` starts as zeros.  `rte_eth_dev_count_avail` is taken as 8 bits. -/
def initLcoreConf (m : Machine) (cfg : FfConfig) : Except Exit LcoreConf :=
  if m.devCount % 256 = 0 then
    .error .noDevices
  else if m.devCount % 256 ≤ cfg.maxPortid.toNat then
    .error .noPort
  else if cfg.procLcore.all m.detected then
    match cfg.procLcore[(UInt16.ofInt cfg.procId).toNat]? with
    | none => .error .undefined
    | some lcoreId =>
        let socketId := if cfg.numaOn ≠ 0 then m.socketOf cfg.procId else 0
        let added := addPorts cfg.portCfgs lcoreId cfg.portidList
          ⟨UInt16.ofInt cfg.procId, socketId, [], [], fun _ => 0, fun _ => none, fun _ => 0⟩
        match added with
        | .error e => .error e
        | .ok conf => if conf.rxQueueList = [] then .error .nothingToDo else .ok conf
  else
    .error .lcoreUnavailable

def rxQueues (m : Machine) (cfg : FfConfig) (procId : Nat) : List (UInt16 × UInt16) :=
  match initLcoreConf m { cfg with procId := procId } with
  | .ok conf => conf.rxQueueList
  | .error _ => []

/-- `port_cfgs[portid]` -/
def FfConfig.port (cfg : FfConfig) (portid : UInt16) : PortCfg :=
  (cfg.portCfgs.getD fun _ => .zero) portid.toNat

def Covered (m : Machine) (cfg : FfConfig) : Prop :=
  forall portid, portid ∈ cfg.portidList -> forall q, q < (cfg.port portid).nbLcores ->
    exists p, p < cfg.nbProcs ∧ (rxQueues m cfg p).count (portid, UInt16.ofNat q) = 1 ∧
      forall p', p' < cfg.nbProcs -> (portid, UInt16.ofNat q) ∈ rxQueues m cfg p' -> p' = p

def PortCfg.Lists (pc : PortCfg) (lcoreId : UInt16) : Prop :=
  exists i, i < pc.nbLcores ∧ pc.lcoreList i = lcoreId

instance (pc : PortCfg) (lcoreId : UInt16) : Decidable (pc.Lists lcoreId) :=
  inferInstanceAs (Decidable (exists i, i < pc.nbLcores ∧ pc.lcoreList i = lcoreId))

structure Shareable (m : Machine) (cfg : FfConfig) : Prop where
  machine : m.Has cfg
  distinct : forall portid, portid ∈ cfg.portidList -> forall i k, i < k ->
    k < (cfg.port portid).nbLcores ->
      (cfg.port portid).lcoreList i ≠ (cfg.port portid).lcoreList k
  once : forall portid, portid ∈ cfg.portidList -> (cfg.port portid).nbLcores ≠ 0 ->
    cfg.portidList.count portid = 1
  room : forall lcoreId, lcoreId ∈ cfg.procLcore ->
    (cfg.portidList.filter fun portid => (cfg.port portid).Lists lcoreId).length ≤
      maxRxQueuePerLcore

/-!
## The last place of a core
-/

theorem queueAmong_succ (lcoreList : Nat -> UInt16) (lcoreId : UInt16) (n : Nat) :
    queueAmong lcoreList lcoreId (n + 1) =
      if lcoreList n = lcoreId then (n : Int) else queueAmong lcoreList lcoreId n := by
  simp [queueAmong, List.range_succ]

theorem queueAmong_eq_iff (lcoreList : Nat -> UInt16) (lcoreId : UInt16) (n q : Nat) :
    queueAmong lcoreList lcoreId n = q <->
      q < n ∧ lcoreList q = lcoreId ∧ forall k, q < k -> k < n -> lcoreList k ≠ lcoreId := by
  induction n with
  | zero => simp [queueAmong]
  | succ n ih =>
      rw [queueAmong_succ]
      by_cases hn : lcoreList n = lcoreId
      · rw [if_pos hn]
        constructor
        · intro heq
          have hq : q = n := by omega
          rw [hq]
          exact ⟨Nat.lt_succ_self n, hn, fun k hlo hhi => by omega⟩
        · rintro ⟨hq, _, hlast⟩
          cases Nat.lt_succ_iff_lt_or_eq.mp hq with
          | inl hlt => exact absurd hn (hlast n hlt (Nat.lt_succ_self n))
          | inr heq => rw [heq]
      · rw [if_neg hn, ih]
        constructor
        · rintro ⟨hq, hlist, hlast⟩
          refine ⟨by omega, hlist, fun k hlo hhi => ?_⟩
          cases Nat.lt_succ_iff_lt_or_eq.mp hhi with
          | inl hlt => exact hlast k hlo hlt
          | inr heq => rwa [heq]
        · rintro ⟨hq, hlist, hlast⟩
          have hne : q ≠ n := by
            intro heq
            exact hn (heq ▸ hlist)
          exact ⟨by omega, hlist, fun k hlo hhi => hlast k hlo (by omega)⟩

theorem queueAmong_neg_iff (lcoreList : Nat -> UInt16) (lcoreId : UInt16) (n : Nat) :
    queueAmong lcoreList lcoreId n < 0 <-> forall i, i < n -> lcoreList i ≠ lcoreId := by
  induction n with
  | zero => simp [queueAmong]
  | succ n ih =>
      rw [queueAmong_succ]
      by_cases hn : lcoreList n = lcoreId
      · rw [if_pos hn]
        constructor
        · intro hneg
          omega
        · intro hnone
          exact absurd hn (hnone n (Nat.lt_succ_self n))
      · rw [if_neg hn, ih]
        constructor
        · intro hnone i hi
          cases Nat.lt_succ_iff_lt_or_eq.mp hi with
          | inl hlt => exact hnone i hlt
          | inr heq => rwa [heq]
        · intro hnone i hi
          exact hnone i (Nat.lt_succ_of_lt hi)

/-!
## The queues of one process
-/

def owned (cfg : FfConfig) (lcoreId portid : UInt16) : Option (UInt16 × UInt16) :=
  if (cfg.port portid).queueOf lcoreId < 0 then
    none
  else
    some (portid, UInt16.ofInt ((cfg.port portid).queueOf lcoreId))

variable {cfg : FfConfig} {portid lcoreId queue : UInt16}

theorem port_eq {pc : Nat -> PortCfg} (hpc : cfg.portCfgs = some pc) (portid : UInt16) :
    cfg.port portid = pc portid.toNat := by
  simp [FfConfig.port, hpc]

theorem filterMap_owned_cons (cfg : FfConfig) (lcoreId portid : UInt16) (ports : List UInt16) :
    (portid :: ports).filterMap (owned cfg lcoreId) =
      (owned cfg lcoreId portid).toList ++ ports.filterMap (owned cfg lcoreId) := by
  cases howned : owned cfg lcoreId portid with
  | none => simp [howned]
  | some queue => simp [howned]

section

variable {cfg : FfConfig} (h : Accepted cfg) (lcoreId : UInt16) {p : Nat}

include h

theorem addPort_of_room {portid : UInt16} (hport : portid ∈ cfg.portidList) (conf : LcoreConf)
    (hroom : conf.rxQueueList.length + (owned cfg lcoreId portid).toList.length ≤
      maxRxQueuePerLcore) : exists conf', addPort cfg.portCfgs lcoreId portid conf = .ok conf' ∧
      conf'.rxQueueList = conf.rxQueueList ++ (owned cfg lcoreId portid).toList := by
  rcases h.checked portid hport with ⟨pc, hpc, hmax, _⟩
  by_cases hneg : (pc portid.toNat).queueOf lcoreId < 0
  · simp [addPort, owned, port_eq hpc, hpc, hmax, hneg]
  · simp [owned, port_eq hpc, hneg] at hroom
    have hfree : ¬ maxRxQueuePerLcore ≤ conf.rxQueueList.length := by omega
    simp [addPort, owned, port_eq hpc, hpc, hmax, hneg, hfree]

theorem addPort_of_full {portid : UInt16} (hport : portid ∈ cfg.portidList) (conf : LcoreConf)
    (hfull : maxRxQueuePerLcore ≤ conf.rxQueueList.length)
    (howned : owned cfg lcoreId portid ≠ none) :
    addPort cfg.portCfgs lcoreId portid conf = .error .undefined := by
  rcases h.checked portid hport with ⟨pc, hpc, hmax, _⟩
  have hpos : ¬ (pc portid.toNat).queueOf lcoreId < 0 := by
    intro hneg
    exact howned (by simp [owned, port_eq hpc, hneg])
  simp [addPort, hpc, hmax, hpos, hfull]

theorem addPorts_of_room {ports : List UInt16} (hports : forall portid, portid ∈ ports ->
      portid ∈ cfg.portidList) (conf : LcoreConf)
    (hroom : conf.rxQueueList.length + (ports.filterMap (owned cfg lcoreId)).length ≤
      maxRxQueuePerLcore) : exists conf', addPorts cfg.portCfgs lcoreId ports conf = .ok conf' ∧
      conf'.rxQueueList = conf.rxQueueList ++ ports.filterMap (owned cfg lcoreId) := by
  induction ports generalizing conf with
  | nil => exact ⟨conf, rfl, by simp⟩
  | cons portid ports ih =>
      rcases List.forall_mem_cons.mp hports with ⟨hport, hrest⟩
      rw [filterMap_owned_cons, List.length_append] at hroom
      rcases addPort_of_room h lcoreId hport conf (by omega) with ⟨next, hnext, hlist⟩
      rcases ih hrest next (by rw [hlist, List.length_append]; omega) with
        ⟨conf', hconf', hlist'⟩
      refine ⟨conf', ?_, ?_⟩
      · simp only [addPorts, hnext, hconf']
      · rw [hlist', hlist, filterMap_owned_cons, List.append_assoc]

theorem addPorts_of_full {ports : List UInt16} (hports : forall portid, portid ∈ ports ->
      portid ∈ cfg.portidList) (conf : LcoreConf)
    (hconf : conf.rxQueueList.length ≤ maxRxQueuePerLcore)
    (hfull : maxRxQueuePerLcore < conf.rxQueueList.length +
      (ports.filterMap (owned cfg lcoreId)).length) :
    addPorts cfg.portCfgs lcoreId ports conf = .error .undefined := by
  induction ports generalizing conf with
  | nil =>
      simp at hfull
      omega
  | cons portid ports ih =>
      rcases List.forall_mem_cons.mp hports with ⟨hport, hrest⟩
      rw [filterMap_owned_cons, List.length_append] at hfull
      cases Decidable.em (conf.rxQueueList.length + (owned cfg lcoreId portid).toList.length ≤
          maxRxQueuePerLcore) with
      | inl hroom =>
          rcases addPort_of_room h lcoreId hport conf hroom with ⟨next, hnext, hlist⟩
          simp only [addPorts, hnext]
          exact ih hrest next (by rw [hlist, List.length_append]; omega)
            (by rw [hlist, List.length_append]; omega)
      | inr hnoroom =>
          have howned : owned cfg lcoreId portid ≠ none := by
            intro hnone
            simp [hnone] at hnoroom
            omega
          have hlength : (owned cfg lcoreId portid).toList.length ≤ 1 := by
            cases owned cfg lcoreId portid with
            | none => simp
            | some queue => simp
          simp only [addPorts, addPort_of_full h lcoreId hport conf (by omega) howned]

theorem procLcore_index (hp : cfg.procLcore[p]? = some lcoreId) : p ≤ lcoreId.toNat := by
  have hincreasing := List.pairwise_iff_getElem.mp h.increasing
  induction p generalizing lcoreId with
  | zero => exact Nat.zero_le _
  | succ p ih =>
      rcases List.getElem?_eq_some_iff.mp hp with ⟨hlt, heq⟩
      have hlast : p < cfg.procLcore.length := by omega
      have hbelow := ih _ (List.getElem?_eq_getElem hlast)
      have hless := hincreasing p (p + 1) hlast hlt (Nat.lt_succ_self p)
      rw [heq, UInt16.lt_iff_toNat_lt] at hless
      omega

theorem toNat_ofInt_procId (hp : cfg.procLcore[p]? = some lcoreId) :
    (UInt16.ofInt (p : Int)).toNat = p := by
  have hbound := procLcore_index h lcoreId hp
  have hmax := lcoreId.toNat_lt
  rw [ofInt_natCast, UInt16.toNat_ofNat']
  omega

theorem rxQueues_of_ready {m : Machine} (hhas : m.Has cfg) (hp : cfg.procLcore[p]? = some lcoreId)
    (hroom : (cfg.portidList.filterMap (owned cfg lcoreId)).length ≤ maxRxQueuePerLcore) :
    rxQueues m cfg p = cfg.portidList.filterMap (owned cfg lcoreId) := by
  rcases hhas with ⟨hdevices, hports, hdetected⟩
  rcases addPorts_of_room h lcoreId (fun portid hport => hport)
    ⟨UInt16.ofInt p, if cfg.numaOn ≠ 0 then m.socketOf p else 0, [], [], fun _ => 0, fun _ => none,
      fun _ => 0⟩ (by simpa using hroom) with ⟨conf, hconf, hlist⟩
  have hall : cfg.procLcore.all m.detected = true := by
    simpa using hdetected
  simp only [rxQueues, initLcoreConf, hdevices, Nat.not_le.mpr hports, if_false, hall, if_true,
    toNat_ofInt_procId h lcoreId hp, hp, hconf]
  by_cases hnil : conf.rxQueueList = []
  · rw [if_pos hnil, <- List.nil_append (List.filterMap _ _)]
    exact hnil.symm.trans hlist
  · rw [if_neg hnil]
    exact hlist

theorem ready_of_mem_rxQueues {m : Machine} (hp : cfg.procLcore[p]? = some lcoreId)
    {queue : UInt16 × UInt16} (hmem : queue ∈ rxQueues m cfg p) :
    m.Has cfg ∧ (cfg.portidList.filterMap (owned cfg lcoreId)).length ≤ maxRxQueuePerLcore := by
  simp only [rxQueues, initLcoreConf] at hmem
  by_cases hnone : m.devCount % 256 = 0
  · simp [hnone] at hmem
  · by_cases hfew : m.devCount % 256 ≤ cfg.maxPortid.toNat
    · simp [hnone, hfew] at hmem
    · cases hall : cfg.procLcore.all m.detected with
      | false => simp [hnone, hfew, hall] at hmem
      | true =>
          refine ⟨⟨hnone, Nat.not_le.mp hfew, by simpa using hall⟩, ?_⟩
          apply Nat.le_of_not_lt
          intro hfull
          simp only [hnone, hfew, if_false, hall, if_true, toNat_ofInt_procId h lcoreId hp,
            hp] at hmem
          rw [addPorts_of_full h lcoreId (fun portid hport => hport) _ (Nat.zero_le _)
            (by simpa using hfull)] at hmem
          contradiction

end

theorem owned_isSome_iff (cfg : FfConfig) (lcoreId portid : UInt16) :
    (owned cfg lcoreId portid).isSome = true <-> (cfg.port portid).Lists lcoreId := by
  have hneg := queueAmong_neg_iff (cfg.port portid).lcoreList lcoreId (cfg.port portid).nbLcores
  by_cases hnone : (cfg.port portid).queueOf lcoreId < 0
  · have hno := hneg.mp hnone
    simp only [owned, if_pos hnone, Option.isSome_none, Bool.false_eq_true, false_iff]
    rintro ⟨i, hi, heq⟩
    exact hno i hi heq
  · simp only [owned, if_neg hnone, Option.isSome_some, true_iff]
    apply Classical.byContradiction
    intro hno
    exact hnone (hneg.mpr (fun i hi heq => hno ⟨i, hi, heq⟩))

theorem length_owned (cfg : FfConfig) (lcoreId : UInt16) :
    (cfg.portidList.filterMap (owned cfg lcoreId)).length =
      (cfg.portidList.filter fun portid => (cfg.port portid).Lists lcoreId).length := by
  rw [List.length_filterMap_eq_countP, <- List.countP_eq_length_filter]
  apply List.countP_congr
  intro portid _
  rw [owned_isSome_iff, decide_eq_true_eq]

theorem owned_eq_some_iff (lcoreId : UInt16) (hcount : (cfg.port portid).nbLcores ≤ dpdkMaxLcore)
    {q : Nat} (hq : q < (cfg.port portid).nbLcores) :
    owned cfg lcoreId portid = some (portid, UInt16.ofNat q) <->
      (cfg.port portid).queueOf lcoreId = q := by
  by_cases hneg : (cfg.port portid).queueOf lcoreId < 0
  · simp only [owned, if_pos hneg, reduceCtorEq, false_iff]
    omega
  · rcases Int.eq_ofNat_of_zero_le (Int.not_lt.mp hneg) with ⟨k, hk⟩
    have hlt : k < (cfg.port portid).nbLcores := ((queueAmong_eq_iff _ _ _ _).mp hk).1
    rw [owned, if_neg hneg, hk, ofInt_natCast]
    constructor
    · intro heq
      injection heq with heq
      have hnat := congrArg (fun queue : UInt16 × UInt16 => queue.2.toNat) heq
      simp only [UInt16.toNat_ofNat'] at hnat
      have hmax : dpdkMaxLcore = 128 := rfl
      omega
    · intro heq
      rw [Int.ofNat_inj.mp heq]

theorem owned_port {portid' : UInt16} (h : owned cfg lcoreId portid' = some (portid, queue)) :
    portid' = portid := by
  unfold owned at h
  split at h
  · contradiction
  · injection h with h
    exact congrArg Prod.fst h

theorem count_owned (h : owned cfg lcoreId portid = some (portid, queue)) :
    (cfg.portidList.filterMap (owned cfg lcoreId)).count (portid, queue) =
      cfg.portidList.count portid := by
  rw [List.count_filterMap, List.count_eq_countP]
  apply List.countP_congr
  intro portid' _
  simp only [beq_iff_eq]
  constructor
  · exact owned_port
  · intro heq
    rwa [heq]

theorem owned_of_mem (h : (portid, queue) ∈ cfg.portidList.filterMap (owned cfg lcoreId)) :
    owned cfg lcoreId portid = some (portid, queue) := by
  rcases List.mem_filterMap.mp h with ⟨portid', _, howned⟩
  rwa [owned_port howned] at howned

/-!
## All processes
-/

section

variable {m : Machine} {cfg : FfConfig} (h : Accepted cfg) {portid : UInt16}

include h

theorem procLcore_inj {p p' : Nat} {lcoreId : UInt16} (hp : cfg.procLcore[p]? = some lcoreId)
    (hp' : cfg.procLcore[p']? = some lcoreId) : p = p' := by
  have hnodup : cfg.procLcore.Nodup := h.increasing.imp (fun hlt heq => by
    rw [heq] at hlt
    exact UInt16.lt_irrefl _ hlt)
  rcases List.getElem?_eq_some_iff.mp hp with ⟨hlt, _⟩
  exact (List.getElem?_inj hlt hnodup).mp (hp.trans hp'.symm)

theorem nbLcores_le (hport : portid ∈ cfg.portidList) :
    (cfg.port portid).nbLcores ≤ dpdkMaxLcore := by
  rcases h.checked portid hport with ⟨pc, hpc, _, hchecked⟩
  rw [port_eq hpc]
  exact hchecked.count

/-- A queue that a process has is the last place of its core, on a machine with all it needs. -/
theorem queueOf_of_mem (hport : portid ∈ cfg.portidList) {q : Nat}
    (hq : q < (cfg.port portid).nbLcores) {p : Nat} {lcoreId : UInt16}
    (hp : cfg.procLcore[p]? = some lcoreId) (hmem : (portid, UInt16.ofNat q) ∈ rxQueues m cfg p) :
    (cfg.port portid).queueOf lcoreId = q := by
  rcases ready_of_mem_rxQueues h lcoreId hp hmem with ⟨hhas, hroom⟩
  rw [rxQueues_of_ready h lcoreId hhas hp hroom] at hmem
  exact (owned_eq_some_iff lcoreId (nbLcores_le h hport) hq).mp (owned_of_mem hmem)

theorem Covered.process (hcovered : Covered m cfg) (hport : portid ∈ cfg.portidList) {q : Nat}
    (hq : q < (cfg.port portid).nbLcores) : exists p lcoreId, cfg.procLcore[p]? = some lcoreId ∧
      (rxQueues m cfg p).count (portid, UInt16.ofNat q) = 1 ∧
      (portid, UInt16.ofNat q) ∈ rxQueues m cfg p ∧ (cfg.port portid).queueOf lcoreId = q := by
  rcases hcovered portid hport q hq with ⟨p, hp, hcount, _⟩
  have hlcore := List.getElem?_eq_getElem hp
  have hmem : (portid, UInt16.ofNat q) ∈ rxQueues m cfg p := by
    apply List.count_pos_iff.mp
    omega
  exact ⟨p, _, hlcore, hcount, hmem, queueOf_of_mem h hport hq hlcore hmem⟩

theorem shareable_of_covered (hcovered : Covered m cfg) (hport : portid ∈ cfg.portidList)
    (hlcores : (cfg.port portid).nbLcores ≠ 0) : Shareable m cfg := by
  have hready : forall {portid}, portid ∈ cfg.portidList -> forall {q},
      q < (cfg.port portid).nbLcores -> exists p lcoreId, cfg.procLcore[p]? = some lcoreId ∧
        m.Has cfg ∧ rxQueues m cfg p = cfg.portidList.filterMap (owned cfg lcoreId) ∧
        (rxQueues m cfg p).count (portid, UInt16.ofNat q) = 1 ∧
        (cfg.port portid).queueOf lcoreId = q := by
    intro portid hport q hq
    rcases hcovered.process h hport hq with ⟨p, lcoreId, hp, hcount, hmem, hqueue⟩
    rcases ready_of_mem_rxQueues h lcoreId hp hmem with ⟨hhas, hroom⟩
    exact ⟨p, lcoreId, hp, hhas, rxQueues_of_ready h lcoreId hhas hp hroom, hcount, hqueue⟩
  constructor
  · rcases hready hport (Nat.pos_of_ne_zero hlcores) with ⟨_, _, _, hhas, _⟩
    exact hhas
  · intro portid hport i k hik hk heq
    rcases hready hport (Nat.lt_trans hik hk) with ⟨_, lcoreId, _, _, _, _, hqueue⟩
    rcases (queueAmong_eq_iff _ _ _ _).mp hqueue with ⟨_, hplace, hlast⟩
    exact hlast k hik hk (heq ▸ hplace)
  · intro portid hport hlcores
    have hfirst := Nat.pos_of_ne_zero hlcores
    rcases hready hport hfirst with ⟨_, lcoreId, _, _, hlist, hcount, hqueue⟩
    rw [hlist, count_owned ((owned_eq_some_iff lcoreId (nbLcores_le h hport) hfirst).mpr hqueue)]
      at hcount
    exact hcount
  · intro lcoreId hlcore
    rw [<- length_owned]
    apply Nat.le_of_not_lt
    intro hfull
    -- a queue that the process on this core would take must be another's
    rcases List.exists_mem_of_length_pos (Nat.zero_lt_of_lt hfull) with ⟨queue, hqueue⟩
    rcases List.mem_filterMap.mp hqueue with ⟨portid, hport, howned⟩
    have hlists : (cfg.port portid).Lists lcoreId :=
      (owned_isSome_iff cfg lcoreId portid).mp (by rw [howned]; rfl)
    rcases hlists with ⟨i, hi, hplace⟩
    rcases hcovered.process h hport hi with ⟨p, lcoreId', hp, _, hmem, hqueue'⟩
    have hsame : lcoreId' = lcoreId :=
      ((queueAmong_eq_iff _ _ _ _).mp hqueue').2.1.symm.trans hplace
    rw [hsame] at hp
    have hroom := (ready_of_mem_rxQueues h lcoreId hp hmem).2
    omega

theorem covered_of_shareable (hshare : Shareable m cfg) : Covered m cfg := by
  intro portid hport q hq
  rcases h.checked portid hport with ⟨pc, hpc, _, hchecked⟩
  have henabled := hchecked.enabled q (by rwa [port_eq hpc] at hq)
  rw [<- port_eq hpc] at henabled
  rcases List.mem_iff_getElem.mp henabled with ⟨p, hp, hplace⟩
  have hlcore : cfg.procLcore[p]? = some ((cfg.port portid).lcoreList q) := by
    rw [List.getElem?_eq_getElem hp, hplace]
  have hqueue : (cfg.port portid).queueOf ((cfg.port portid).lcoreList q) = q := by
    apply (queueAmong_eq_iff _ _ _ _).mpr
    refine ⟨hq, rfl, fun k hlo hhi heq => ?_⟩
    exact hshare.distinct portid hport q k hlo hhi heq.symm
  have howned := (owned_eq_some_iff _ (nbLcores_le h hport) hq).mpr hqueue
  have hroom := hshare.room _ henabled
  rw [<- length_owned] at hroom
  refine ⟨p, hp, ?_, ?_⟩
  · rw [rxQueues_of_ready h _ hshare.machine hlcore hroom, count_owned howned]
    exact hshare.once portid hport (by omega)
  · intro p' hp' hmem
    have hlcore' := List.getElem?_eq_getElem hp'
    have hqueue' := queueOf_of_mem h hport hq hlcore' hmem
    have hsame := ((queueAmong_eq_iff _ _ _ _).mp hqueue').2.1
    rw [<- hsame] at hlcore'
    exact procLcore_inj h hlcore' hlcore

end

def onePortFile (lcoreList : Text) : List Text :=
  ["[dpdk]".toList, "lcore_mask=3".toList, "port_list=0".toList, "[port0]".toList,
    "addr=10.0.0.2".toList, "netmask=255.0.0.0".toList, "broadcast=10.255.255.255".toList,
    "gateway=10.0.0.1".toList, "lcore_list=".toList ++ lcoreList]

def loadOnePort (lcoreList : Text) : Except Fault FfConfig :=
  ffLoadConfig splitFirst (fun _ _ => 0) (fun _ => some (onePortFile lcoreList)) []

def onePortMachine : Machine :=
  ⟨1, fun _ => true, fun _ => 0⟩

def FfConfig.outline (cfg : FfConfig) :
    List UInt16 × UInt16 × List UInt16 × Nat × UInt16 × UInt16 :=
  (cfg.procLcore, cfg.maxPortid, cfg.portidList, (cfg.port 0).nbLcores,
    (cfg.port 0).lcoreList 0, (cfg.port 0).lcoreList 1)

/--
The queues of a configuration that is loaded are shared out among the processes if and
only if no port has any, or the machine has what the configuration needs, every port
lists different cores, every port with cores is listed once, and no core serves more
ports than a process has room for.
-/
theorem queue_coverage (m : Machine) {split : Splitter} {frames : Nat -> Nat -> UInt16}
    {files : Text -> Option (List Text)} {opts : List Opt} {cfg : FfConfig}
    (hload : ffLoadConfig split frames files opts = .ok cfg) : Covered m cfg <->
      (forall portid, portid ∈ cfg.portidList -> (cfg.port portid).nbLcores = 0) ∨
        Shareable m cfg := by
  have h := ffLoadConfig_accepted hload
  constructor
  · intro hcovered
    apply Classical.byContradiction
    intro hno
    apply hno
    left
    intro portid hport
    apply Classical.byContradiction
    intro hlcores
    exact hno (Or.inr (shareable_of_covered h hcovered hport hlcores))
  · rintro (hnone | hshare)
    · intro portid hport q hq
      rw [hnone portid hport] at hq
      contradiction
    · exact covered_of_shareable h hshare

theorem queue_coverage_two_cores :
    exists cfg, loadOnePort "0,1".toList = .ok cfg ∧ Covered onePortMachine cfg := by
  have houtline : (loadOnePort "0,1".toList).toOption.map FfConfig.outline =
      some ([0, 1], 0, [0], 2, 0, 1) := by
    decide +kernel
  rcases exists_loaded houtline with ⟨cfg, hload, hcfg⟩
  simp only [FfConfig.outline, Prod.mk.injEq] at hcfg
  rcases hcfg with ⟨hprocs, hmax, hports, hcount, hfirst, hsecond⟩
  refine ⟨cfg, hload, (queue_coverage onePortMachine hload).mpr (Or.inr ?_)⟩
  constructor
  · exact ⟨by decide, by rw [hmax]; decide, fun _ _ => rfl⟩
  · intro portid hport i k hik hk
    rw [hports, List.mem_singleton] at hport
    rw [hport] at hk ⊢
    rw [hcount] at hk
    have hi : i = 0 := by omega
    have hk' : k = 1 := by omega
    rw [hi, hk', hfirst, hsecond]
    decide
  · intro portid hport _
    rw [hports, List.mem_singleton] at hport
    rw [hport, hports]
    decide
  · intro lcoreId _
    have hroom : cfg.portidList.length ≤ maxRxQueuePerLcore := by
      rw [hports]
      decide
    exact Nat.le_trans (List.length_filter_le _ _) hroom

/-- With a core listed twice, the first queue is no process's. -/
theorem queue_uncovered_listed_twice :
    exists cfg, loadOnePort "0,0,1".toList = .ok cfg ∧ ¬ Covered onePortMachine cfg := by
  have houtline : (loadOnePort "0,0,1".toList).toOption.map FfConfig.outline =
      some ([0, 1], 0, [0], 3, 0, 0) := by
    decide +kernel
  rcases exists_loaded houtline with ⟨cfg, hload, hcfg⟩
  simp only [FfConfig.outline, Prod.mk.injEq] at hcfg
  rcases hcfg with ⟨_, _, hports, hcount, hfirst, hsecond⟩
  refine ⟨cfg, hload, fun hcovered => ?_⟩
  have hport : (0 : UInt16) ∈ cfg.portidList := by
    rw [hports]
    exact List.mem_singleton.mpr rfl
  have hshare := shareable_of_covered (ffLoadConfig_accepted hload) hcovered hport (by omega)
  exact hshare.distinct 0 hport 0 1 (by omega) (by omega) (hfirst.trans hsecond.symm)

end Config
end FStackLite
