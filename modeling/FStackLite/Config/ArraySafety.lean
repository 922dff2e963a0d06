import FStackLite.Config.Accesses
import FStackLite.Config.NumberList

/-!
# Safe configurations

The elements of `port_cfgs` and `vdev_cfgs` that the handlers use are inside the arrays when the
lines are safe by their text, which is an invariant of the ports along the lines.
-/

namespace FStackLite
namespace Config

/-!
## Lines that are safe by their text

A list of ports is well formed, not empty, and names elements of the array only; the number of
a section is not negative, that of a device is also an element; and with a list of ports there
is a section of a port.
-/

def Line.IsPortList (line : Line) : Prop :=
  line.sect = "dpdk".toList ∧ line.name = "port_list".toList

def Line.InPort (line : Line) : Prop :=
  "port".toList.isPrefixOf line.sect = true

structure NamesPorts (value : Text) : Prop where
  length : value.length < 4096
  wellFormed : WellFormed value
  nonempty : expansion value ≠ []
  count : (expansion value).length ≤ rteMaxEthports
  below : forall n, n ∈ expansion value -> n < rteMaxEthports

structure Line.Ordinary (line : Line) : Prop where
  ports : line.IsPortList -> NamesPorts line.value
  port : forall n, scanNumbered "port".toList line.sect = some n -> 0 ≤ n
  vdev : forall n, scanNumbered "vdev".toList line.sect = some n -> 0 ≤ n ∧ n < rteMaxEthports

structure Ordinary (lines : List Line) : Prop where
  each : forall line, line ∈ lines -> line.Ordinary
  described : (exists line, line ∈ lines ∧ line.IsPortList) ->
    exists line, line ∈ lines ∧ line.InPort

structure PortsBelow (cfg : FfConfig) : Prop where
  listed : forall portid, portid ∈ cfg.portidList -> portid.toNat < rteMaxEthports
  last : cfg.maxPortid.toNat < rteMaxEthports

variable {split : Splitter} {value : Text} {cfg cfg' : FfConfig} {line : Line} {lines : List Line}

theorem parseInto_ok {capacity : Nat} {arr : List UInt16} {sz : Nat}
    (h : parseInto split capacity value = .ok (arr, sz)) :
    parseConfigList split capacity value = .ok (arr, sz) := by
  unfold parseInto at h
  split at h
  · next hparse =>
      split at h
      · contradiction
      · injection h with h
        rw [hparse, h]
  · split at h
    · contradiction
    · contradiction
  · contradiction

theorem parsePortList_below (hdoc : StrsplitDocumented split) {frame : Nat -> UInt16}
    (hnames : NamesPorts value) (h : parsePortList split frame cfg value = .ok cfg') :
    PortsBelow cfg' := by
  unfold parsePortList at h
  split at h
  · next arr sz hinto =>
      rcases parseConfigList_wellFormed hdoc hnames.length hnames.wellFormed hnames.nonempty
        hnames.count (parseInto_ok hinto) with ⟨hsz, hperm⟩
      have hlength : arr.length = sz := by
        rw [hsz, <- hperm.length_eq, List.length_map]
      have helement : forall k, k < sz -> (overlay arr frame k).toNat < rteMaxEthports := by
        intro k hk
        rw [<- hlength] at hk
        rw [overlay, List.getD_eq_getElem _ _ hk]
        exact hnames.below _ (hperm.mem_iff.mp (List.mem_map_of_mem (List.getElem_mem hk)))
      have hpos : 0 < sz := by
        rw [hsz]
        exact List.length_pos_iff.mpr hnames.nonempty
      injection h with h
      rw [<- h]
      constructor
      · intro portid hport
        rcases List.mem_map.mp hport with ⟨k, hk, heq⟩
        rw [<- heq]
        exact helement k (List.mem_range.mp hk)
      · exact helement (sz - 1) (Nat.sub_lt hpos Nat.one_pos)
  · contradiction

def portState (cfg : FfConfig) : List UInt16 × UInt16 × Option (Nat -> PortCfg) :=
  (cfg.portidList, cfg.maxPortid, cfg.portCfgs)

theorem setDpdk_portState (cfg : FfConfig) (name value : Text) :
    portState (setDpdk cfg name value) = portState cfg := by
  simp only [setDpdk, apply_ite portState]
  simp only [portState, ite_self]

theorem setKni_portState (cfg : FfConfig) (name value : Text) :
    portState (setKni cfg name value) = portState cfg := by
  simp only [setKni, apply_ite portState]
  simp only [portState, ite_self]

theorem setBoot_portState (cfg : FfConfig) (name value : Text) :
    portState (setBoot cfg name value) = portState cfg := by
  simp only [setBoot, apply_ite portState]
  simp only [portState, ite_self]

theorem lcoreMaskHandler_portState (h : lcoreMaskHandler cfg value = .ok cfg') :
    portState cfg' = portState cfg := by
  unfold lcoreMaskHandler at h
  split at h
  · injection h with h
    rw [<- h]
    rfl
  · contradiction

theorem parsePortList_portCfgs {frame : Nat -> UInt16}
    (h : parsePortList split frame cfg value = .ok cfg') : cfg'.portCfgs = cfg.portCfgs := by
  unfold parsePortList at h
  split at h
  · injection h with h
    rw [<- h]
  · contradiction

theorem portCfgHandler_ports {sect name : Text}
    (h : portCfgHandler split cfg sect name value = .ok cfg') :
    cfg'.portidList = cfg.portidList ∧ cfg'.maxPortid = cfg.maxPortid ∧
      cfg'.portCfgs.isSome = true := by
  simp only [portCfgHandler] at h
  split at h
  · contradiction
  · split at h
    · contradiction
    · split at h
      · injection h with h
        rw [<- h]
        exact ⟨rfl, rfl, rfl⟩
      · contradiction

theorem vdevCfgHandler_portState {sect name : Text}
    (h : vdevCfgHandler cfg sect name value = .ok cfg') : portState cfg' = portState cfg := by
  simp only [vdevCfgHandler] at h
  split at h
  · contradiction
  · split at h
    · contradiction
    · split at h
      · injection h with h
        rw [<- h]
        rfl
      · split at h
        · contradiction
        · injection h with h
          rw [<- h]
          rfl

theorem handle_ports (h : handle split cfg line = .ok cfg') :
    line.IsPortList ∧ parsePortList split line.frame cfg line.value = .ok cfg' ∨
    line.InPort ∧ portCfgHandler split cfg line.sect line.name line.value = .ok cfg' ∨
    ¬ line.IsPortList ∧ ¬ line.InPort ∧ portState cfg' = portState cfg := by
  by_cases hport : "port".toList.isPrefixOf line.sect = true
  · rw [handle_port hport] at h
    exact Or.inr (Or.inl ⟨hport, h⟩)
  · have hother : ¬ line.IsPortList -> portState cfg' = portState cfg ->
        ¬ line.IsPortList ∧ ¬ line.InPort ∧ portState cfg' = portState cfg :=
      fun hlist hsame => ⟨hlist, hport, hsame⟩
    have hplain : forall next : FfConfig, portState next = portState cfg ->
        (Except.ok next : Except Fault FfConfig) = .ok cfg' ->
        portState cfg' = portState cfg := by
      intro next hnext heq
      injection heq with heq
      rw [<- heq, hnext]
    simp only [handle, iniParseHandler] at h
    split at h
    · next hdpdk =>
        split at h
        · next hmask =>
            refine Or.inr (Or.inr (hother ?_ (lcoreMaskHandler_portState h)))
            intro hlist
            rw [hlist.2] at hmask
            exact absurd hmask (by decide)
        · split at h
          · next hlist =>
              exact Or.inl ⟨⟨hdpdk, hlist⟩, h⟩
          · next hlist =>
              exact Or.inr (Or.inr (hother (fun hl => hlist hl.2)
                (hplain _ (setDpdk_portState ..) h)))
    · next hdpdk =>
        refine Or.inr (Or.inr (hother (fun hl => hdpdk hl.1) ?_))
        split at h
        · exact hplain _ (setKni_portState ..) h
        · split at h
          · exact hplain _ (setBoot_portState ..) h
          · split at h
            · exact hplain _ (by rfl) h
            · split at h
              · exact vdevCfgHandler_portState h
              · exact hplain _ rfl h

theorem PortsBelow.of_portState (h : PortsBelow cfg) (hsame : portState cfg' = portState cfg) :
    PortsBelow cfg' := by
  injection hsame with hlist hrest
  injection hrest with hlast _
  exact ⟨by rw [hlist]; exact h.listed, by rw [hlast]; exact h.last⟩

theorem PortsBelow.handle (hdoc : StrsplitDocumented split) (h : PortsBelow cfg)
    (hordinary : line.Ordinary) (hline : handle split cfg line = .ok cfg') : PortsBelow cfg' := by
  rcases handle_ports hline with ⟨hlist, hparse⟩ | ⟨_, hport⟩ | ⟨_, _, hsame⟩
  · exact parsePortList_below hdoc (hordinary.ports hlist) hparse
  · rcases portCfgHandler_ports hport with ⟨hlisted, hlast, _⟩
    exact ⟨by rw [hlisted]; exact h.listed, by rw [hlast]; exact h.last⟩
  · exact h.of_portState hsame

theorem PortsBelow.lineSafe (h : PortsBelow cfg) (hordinary : line.Ordinary) :
    LineSafe cfg line := by
  constructor
  · intro _ _
    refine ⟨fun _ => h.listed, fun n hn => ?_⟩
    have hlast : (cfg.maxPortid.toNat : Int) < rteMaxEthports := Int.ofNat_lt.mpr h.last
    by_cases hbehind : (cfg.maxPortid.toNat : Int) < n
    · exact Or.inl hbehind
    · exact Or.inr ⟨hordinary.port n hn, Int.lt_of_le_of_lt (Int.not_lt.mp hbehind) hlast⟩
  · intro _ _ n hn
    exact Or.inr (hordinary.vdev n hn)

/-- The ports have their array, or a section that is still to come allocates it. -/
def Described (lines : List Line) (cfg : FfConfig) : Prop :=
  (cfg.portidList ≠ [] ∨ exists line, line ∈ lines ∧ line.IsPortList) ->
    cfg.portCfgs.isSome = true ∨ exists line, line ∈ lines ∧ line.InPort

theorem Described.handle (h : Described (line :: lines) cfg)
    (hline : handle split cfg line = .ok cfg') : Described lines cfg' := by
  have hlater : ¬ line.InPort -> (cfg.portCfgs.isSome = true ∨
      exists l, l ∈ line :: lines ∧ l.InPort) ->
      cfg.portCfgs.isSome = true ∨ exists l, l ∈ lines ∧ l.InPort := by
    intro hnot hor
    rcases hor with hsome | ⟨l, hl, hin⟩
    · exact Or.inl hsome
    · rcases List.mem_cons.mp hl with rfl | hl
      · exact absurd hin hnot
      · exact Or.inr ⟨l, hl, hin⟩
  rcases handle_ports hline with ⟨hlist, hparse⟩ | ⟨_, hport⟩ | ⟨_, hnot, hsame⟩
  · intro _
    rw [parsePortList_portCfgs hparse]
    apply hlater
    · rw [Line.InPort, hlist.1]
      decide
    · exact h (Or.inr ⟨line, List.mem_cons_self, hlist⟩)
  · intro _
    exact Or.inl (portCfgHandler_ports hport).2.2
  · injection hsame with hlist hrest
    injection hrest with _ hcfgs
    intro hor
    rw [hcfgs]
    apply hlater hnot
    apply h
    rcases hor with hne | ⟨l, hl, hin⟩
    · exact Or.inl (by rwa [<- hlist])
    · exact Or.inr ⟨l, List.mem_cons_of_mem line hl, hin⟩

theorem Described.checkSafe (h : Described [] cfg) (hbelow : PortsBelow cfg) : CheckSafe cfg := by
  intro _ front portid rest hsplit _
  have hport : portid ∈ cfg.portidList := by
    rw [hsplit]
    exact List.mem_append_right front List.mem_cons_self
  refine ⟨?_, hbelow.listed portid hport⟩
  rcases h (Or.inl (List.ne_nil_of_mem hport)) with hsome | ⟨_, hin, _⟩
  · exact hsome
  · contradiction

theorem PortsBelow.loadSafe (hdoc : StrsplitDocumented split) (h : PortsBelow cfg)
    (hdescribed : Described lines cfg) (heach : forall line, line ∈ lines -> line.Ordinary) :
    LoadSafe split lines cfg := by
  induction lines generalizing cfg with
  | nil => exact hdescribed.checkSafe h
  | cons line lines ih =>
      have hline := heach line List.mem_cons_self
      refine ⟨h.lineSafe hline, fun cfg' hhandled => ?_⟩
      exact ih (h.handle hdoc hline hhandled) (hdescribed.handle hhandled)
        fun l hl => heach l (List.mem_cons_of_mem line hl)

/-!
## From the command line on
-/

theorem portsBelow_default : PortsBelow ffDefaultConfig :=
  ⟨fun _ hport => absurd hport List.not_mem_nil, by decide⟩

theorem Ordinary.loadSafe (hdoc : StrsplitDocumented split) {opts : List Opt} {given : FfConfig}
    (hgiven : ffParseArgs opts ffDefaultConfig = .ok given) (h : Ordinary lines) :
    LoadSafe split lines given := by
  have hsame := ffParseArgs_member portState (fun _ _ _ _ => rfl) hgiven
  apply (portsBelow_default.of_portState hsame).loadSafe hdoc _ h.each
  injection hsame with hlist _
  intro hor
  rcases hor with hne | hlisted
  · exact absurd hlist hne
  · exact Or.inr (h.described hlisted)

/--
No element outside of the arrays is used exactly when, at every line that is reached and at the
check, the condition holds in the state before it, and a fault names an element that is not
there; and from the command line on the condition holds for lines that are safe by their text.
-/
theorem config_arrays_iff (split : Splitter) (lines : List Line) (cfg : FfConfig) :
    ((forall a, handleLines split lines cfg ≠ .error (.outside a)) <-> LoadSafe split lines cfg) ∧
    (forall a, handleLines split lines cfg = .error (.outside a) -> ¬ a.Inside) ∧
    (StrsplitDocumented split -> Ordinary lines ->
      forall opts, ffParseArgs opts ffDefaultConfig = .ok cfg ->
        forall a, handleLines split lines cfg ≠ .error (.outside a)) := by
  have hiff := handleLines_insideIff split lines cfg
  refine ⟨hiff.iff, hiff.outside, ?_⟩
  intro hdoc hordinary opts hgiven
  exact hiff.iff.mpr (hordinary.loadSafe hdoc hgiven)

theorem scanNumbered_other {word s : Text} (h : word.isPrefixOf s = false) (n : Int) :
    scanNumbered word s ≠ some n := by
  rw [scanNumbered, h]
  exact (Option.some_ne_none n).symm

def noOptions : FfConfig :=
  { ffDefaultConfig with procType := some "auto".toList, procId := 0 }

def pair (sect name value : String) : Line :=
  ⟨fun _ => 0, sect.toList, name.toList, value.toList⟩

def onePort : List Line :=
  [pair "dpdk" "port_list" "0", pair "port0" "addr" "10.0.0.2", pair "port0" "netmask" "255.0.0.0",
    pair "port0" "broadcast" "10.255.255.255", pair "port0" "gateway" "10.0.0.1"]

theorem ordinary_portList : (pair "dpdk" "port_list" "0").Ordinary := by
  constructor
  · intro _
    refine ⟨by decide, ?_, by decide +kernel, by decide +kernel, by decide +kernel⟩
    unfold WellFormed
    decide +kernel
  · intro n hn
    exact absurd hn (scanNumbered_other (by decide +kernel) n)
  · intro n hn
    exact absurd hn (scanNumbered_other (by decide +kernel) n)

theorem ordinary_port0 (name value : String) : (pair "port0" name value).Ordinary := by
  constructor
  · intro hlist
    have hsect : "port0".toList ≠ "dpdk".toList := by decide +kernel
    exact absurd hlist.1 hsect
  · intro n hn
    have hscan : scanNumbered "port".toList "port0".toList = some 0 := by decide +kernel
    injection hscan.symm.trans hn with hn
    exact Int.le_of_eq hn
  · intro n hn
    have hword : "vdev".toList.isPrefixOf "port0".toList = false := by decide +kernel
    exact absurd hn (scanNumbered_other hword n)

/-- One port with a section is initialised, set four times and checked. -/
theorem config_arrays_one_port : handleLines splitFirst onePort noOptions = .ok () ∧
    forall a, handleLines splitFirst onePort noOptions ≠ .error (.outside a) := by
  refine ⟨by decide +kernel, ?_⟩
  refine (config_arrays_iff splitFirst onePort noOptions).2.2 splitFirst_documented ?_ [] rfl
  constructor
  · simp only [onePort, List.forall_mem_cons]
    exact ⟨ordinary_portList, ordinary_port0 _ _, ordinary_port0 _ _, ordinary_port0 _ _,
      ordinary_port0 _ _, fun _ hline => absurd hline List.not_mem_nil⟩
  · intro _
    exact ⟨pair "port0" "addr" "10.0.0.2", List.mem_cons_of_mem _ List.mem_cons_self,
      by unfold Line.InPort; decide +kernel⟩

/-!
A port behind the array, a negative number of a port, the device after the last element of the
array, and the check of a port without a section.
-/
theorem config_arrays_outside :
    (handleLines splitFirst [pair "dpdk" "port_list" "40", pair "port0" "addr" "10.0.0.1"]
      noOptions = .error (.outside ⟨.portCfgs, 40, true⟩) ∧
    handleLines splitFirst [pair "dpdk" "port_list" "0", pair "port-1" "addr" "10.0.0.1"]
      noOptions = .error (.outside ⟨.portCfgs, -1, true⟩) ∧
    handleLines splitFirst [pair "dpdk" "nb_vdev" "32", pair "vdev32" "iface" "eth0"]
      noOptions = .error (.outside ⟨.vdevCfgs, 32, true⟩) ∧
    handleLines splitFirst [pair "dpdk" "port_list" "0"] noOptions =
      .error (.outside ⟨.portCfgs, 0, false⟩)) ∧
    ¬ (Access.mk .portCfgs 40 true).Inside ∧ ¬ (Access.mk .portCfgs (-1) true).Inside ∧
    ¬ (Access.mk .vdevCfgs 32 true).Inside ∧ ¬ (Access.mk .portCfgs 0 false).Inside := by
  constructor
  · decide +kernel
  · decide

end Config
end FStackLite
