import FStackLite.Config.Load

/-!
# The elements of `port_cfgs` and `vdev_cfgs`

Both arrays have `RTE_MAX_ETHPORTS` elements, and the handlers compute an index from the list
of ports, from `nb_vdev` or from the name of a section.  A handler or the check that uses an
element which is not there stops with the fault `outside`, which names the element.
-/

namespace FStackLite
namespace Config

def Access.Inside (a : Access) : Prop :=
  a.allocated = true ∧ 0 ≤ a.index ∧ a.index < rteMaxEthports

instance (a : Access) : Decidable a.Inside :=
  inferInstanceAs (Decidable (_ ∧ _ ∧ _))

/-- A pair that is delivered to the handler, with what the stack holds then. -/
structure Line where
  frame : Nat -> UInt16
  sect : Text
  name : Text
  value : Text

def handle (split : Splitter) (cfg : FfConfig) (line : Line) : Except Fault FfConfig :=
  iniParseHandler split line.frame cfg line.sect line.name line.value

/-- All lines are handled and then the whole is checked, unless a line ends it. -/
def handleLines (split : Splitter) : List Line -> FfConfig -> Except Fault Unit
  | [], cfg => ffCheckConfig cfg
  | line :: lines, cfg =>
      match handle split cfg line with
      | .error e => .error e
      | .ok cfg' => handleLines split lines cfg'

/-!
## The condition

A line of a port section needs, when the array is not there yet, that all listed ports are
elements of it, and a number that is one or lies behind the last port.
-/

structure PortSafe (cfg : FfConfig) (sect : Text) : Prop where
  listed : cfg.portCfgs = none ->
    forall portid, portid ∈ cfg.portidList -> portid.toNat < rteMaxEthports
  numbered : forall n, scanNumbered "port".toList sect = some n ->
    (cfg.maxPortid.toNat : Int) < n ∨ 0 ≤ n ∧ n < rteMaxEthports

def VdevSafe (cfg : FfConfig) (sect : Text) : Prop :=
  forall n, scanNumbered "vdev".toList sect = some n ->
    cfg.nbVdev < n ∨ 0 ≤ n ∧ n < rteMaxEthports

structure LineSafe (cfg : FfConfig) (line : Line) : Prop where
  port : "port".toList.isPrefixOf line.sect = true -> cfg.nbPorts ≠ 0 -> PortSafe cfg line.sect
  vdev : "vdev".toList.isPrefixOf line.sect = true -> cfg.nbVdev ≠ 0 -> VdevSafe cfg line.sect

def passes (cfg : FfConfig) (portid : UInt16) : Bool :=
  cfg.portCfgs.elim false fun pc =>
    portid.toNat < rteMaxEthports && (checkPort cfg (pc portid.toNat)).isOk

def ChecksInside (cfg : FfConfig) (ports : List UInt16) : Prop :=
  forall front portid rest, ports = front ++ portid :: rest ->
    (forall other, other ∈ front -> passes cfg other = true) ->
    cfg.portCfgs.isSome = true ∧ portid.toNat < rteMaxEthports

def CheckSafe (cfg : FfConfig) : Prop :=
  checkKni cfg = true -> ChecksInside cfg cfg.portidList

def LoadSafe (split : Splitter) : List Line -> FfConfig -> Prop
  | [], cfg => CheckSafe cfg
  | line :: lines, cfg =>
      LineSafe cfg line ∧
        forall cfg', handle split cfg line = .ok cfg' -> LoadSafe split lines cfg'

/-!
## Results whose faults are known
-/

/--
No element outside of the arrays is used, exactly under the condition; and the element that a
fault names is not there.
-/
structure InsideIff {α : Type} (r : Except Fault α) (safe : Prop) : Prop where
  iff : (forall a, r ≠ .error (.outside a)) <-> safe
  outside : forall a, r = .error (.outside a) -> ¬ a.Inside

namespace InsideIff

variable {α β : Type} {r : Except Fault α} {k : Except Fault β} {safe safe' : Prop}

theorem of_safe (hsafe : safe) (h : forall a, r ≠ .error (.outside a)) : InsideIff r safe :=
  ⟨⟨fun _ => hsafe, fun _ => h⟩, fun a ha => absurd ha (h a)⟩

theorem of_outside {a : Access} (ha : ¬ a.Inside) (hsafe : ¬ safe) :
    InsideIff (.error (.outside a) : Except Fault α) safe := by
  constructor
  · exact ⟨fun h => absurd rfl (h a), fun h => absurd h hsafe⟩
  · intro b hb
    injection hb with hb
    injection hb with hb
    rwa [<- hb]

theorem congr (h : InsideIff r safe) (hiff : safe <-> safe') : InsideIff r safe' :=
  ⟨h.iff.trans hiff, h.outside⟩

/-- The second result is had only if the first one is. -/
theorem andThen (h : InsideIff r safe)
    (herror : forall e, r = .error e -> k = .error e ∧ (safe <-> safe'))
    (hok : forall x, r = .ok x -> InsideIff k safe') : InsideIff k safe' := by
  cases r with
  | ok x => exact hok x rfl
  | error e =>
      rcases herror e rfl with ⟨hk, hiff⟩
      have hsame : forall a, k = .error (.outside a) <->
          (.error e : Except Fault α) = .error (.outside a) := by
        intro a
        rw [hk, Except.error.injEq, Except.error.injEq]
      constructor
      · rw [<- hiff, <- h.iff]
        exact forall_congr' fun a => not_congr (hsame a)
      · exact fun a ha => h.outside a ((hsame a).mp ha)

end InsideIff

theorem not_inside_port {portid : UInt16} (h : ¬ portid.toNat < rteMaxEthports)
    (allocated : Bool) : ¬ (Access.mk .portCfgs portid.toNat allocated).Inside :=
  fun ha => h (Int.ofNat_lt.mp ha.2.2)

variable {n : Int} {cfg : FfConfig} {split : Splitter} {line : Line}

theorem not_inside_numbered {array : CfgArray} (h : n < 0 ∨ (rteMaxEthports : Int) ≤ n) :
    ¬ (Access.mk array n true).Inside := by
  intro ha
  rcases h with hneg | hlarge
  · exact Int.not_lt.mpr ha.2.1 hneg
  · exact Int.not_lt.mpr hlarge ha.2.2

/-- The number of a section, compared with the last one there is. -/
theorem not_numbered {scanned : Option Int} {last : Int} (hscan : scanned = some n)
    (hlast : ¬ last < n) (h : n < 0 ∨ (rteMaxEthports : Int) ≤ n) :
    ¬ forall m, scanned = some m -> last < m ∨ 0 ≤ m ∧ m < rteMaxEthports := by
  intro hall
  rcases hall n hscan with hlt | ⟨hpos, hsmall⟩
  · exact hlast hlt
  · omega

theorem numbered_of_some {scanned : Option Int} {last : Int} (hscan : scanned = some n)
    (h : last < n ∨ 0 ≤ n ∧ n < rteMaxEthports) :
    forall m, scanned = some m -> last < m ∨ 0 ≤ m ∧ m < rteMaxEthports := by
  intro m hm
  rw [hscan] at hm
  injection hm with hm
  rwa [<- hm]

/-!
## The handlers
-/

theorem initPortCfgs_cases (procLcore ports : List UInt16) (pc : Nat -> PortCfg) :
    (forall portid, portid ∈ ports -> portid.toNat < rteMaxEthports) ∧
      (exists pc', initPortCfgs procLcore ports pc = .ok pc') ∨
    exists portid, portid ∈ ports ∧ ¬ portid.toNat < rteMaxEthports ∧
      initPortCfgs procLcore ports pc = .error (.outside ⟨.portCfgs, portid.toNat, true⟩) := by
  induction ports generalizing pc with
  | nil => exact Or.inl ⟨fun _ hport => absurd hport List.not_mem_nil, pc, rfl⟩
  | cons first ports ih =>
      unfold initPortCfgs
      split
      · next hfirst =>
          rcases ih (Function.update pc first.toNat _) with ⟨hall, hok⟩ | ⟨portid, hmem, hrest⟩
          · exact Or.inl ⟨List.forall_mem_cons.mpr ⟨hfirst, hall⟩, hok⟩
          · exact Or.inr ⟨portid, List.mem_cons_of_mem first hmem, hrest⟩
      · next hfirst =>
          exact Or.inr ⟨first, List.mem_cons_self, hfirst, rfl⟩

theorem parseInto_ne_outside (split : Splitter) (capacity : Nat) (value : Text) (a : Access) :
    parseInto split capacity value ≠ .error (.outside a) := by
  unfold parseInto
  split
  · split <;> simp
  · split <;> simp
  · simp

theorem setPort_ne_outside (split : Splitter) (cur : PortCfg) (name value : Text) (a : Access) :
    setPort split cur name value ≠ .error (.outside a) := by
  have hlist : parsePortLcoreList split cur value ≠ .error (.outside a) := by
    unfold parsePortLcoreList
    split
    · simp
    · next e he =>
        intro h
        injection h with h
        exact parseInto_ne_outside split _ _ a (h ▸ he)
  unfold setPort
  repeat' split
  all_goals first | exact hlist | simp

theorem setPortOf_insideIff (split : Splitter) (maxPortid : UInt16) (sect name value : Text)
    (pc : Nat -> PortCfg) : InsideIff (setPortOf split maxPortid sect name value pc)
      (forall n, scanNumbered "port".toList sect = some n ->
        (maxPortid.toNat : Int) < n ∨ 0 ≤ n ∧ n < rteMaxEthports) := by
  unfold setPortOf
  split
  · next hscan =>
      apply InsideIff.of_safe
      · intro n hn
        exact absurd (hscan.symm.trans hn) (Option.some_ne_none n).symm
      · simp
  · next portid hscan =>
      split
      · next hbehind =>
          exact InsideIff.of_safe (numbered_of_some hscan (Or.inl hbehind)) (by simp)
      · next hbehind =>
          split
          · next hout =>
              exact InsideIff.of_outside (not_inside_numbered hout)
                (not_numbered hscan hbehind hout)
          · next hin =>
              apply InsideIff.of_safe (numbered_of_some hscan (Or.inr (by omega)))
              intro a
              simp only
              split
              · simp
              · next e he =>
                  intro h
                  injection h with h
                  exact setPort_ne_outside split _ _ _ a (h ▸ he)

theorem portCfgHandler_insideIff (split : Splitter) (cfg : FfConfig) (sect name value : Text) :
    InsideIff (portCfgHandler split cfg sect name value)
      (cfg.nbPorts ≠ 0 -> PortSafe cfg sect) := by
  simp only [portCfgHandler]
  split
  · next hports =>
      exact InsideIff.of_safe (fun hne => absurd hports hne) (by simp)
  · next hports =>
      -- with the array there, what is left is the number of the section
      have hset : forall pc (r : Except Fault FfConfig), (cfg.portCfgs = none ->
          forall portid, portid ∈ cfg.portidList -> portid.toNat < rteMaxEthports) ->
          (forall e, setPortOf split cfg.maxPortid sect name value pc = .error e ->
            r = .error e) ->
          (forall pc', setPortOf split cfg.maxPortid sect name value pc = .ok pc' ->
            r = .ok { cfg with portCfgs := some pc' }) ->
          InsideIff r (cfg.nbPorts ≠ 0 -> PortSafe cfg sect) := by
        intro pc r hlisted herror hok
        have hiff : (forall n, scanNumbered "port".toList sect = some n ->
            (cfg.maxPortid.toNat : Int) < n ∨ 0 ≤ n ∧ n < rteMaxEthports) <->
            (cfg.nbPorts ≠ 0 -> PortSafe cfg sect) :=
          ⟨fun h _ => ⟨hlisted, h⟩, fun h => (h hports).numbered⟩
        have hof := (setPortOf_insideIff split cfg.maxPortid sect name value pc).congr hiff
        apply hof.andThen
        · intro e he
          exact ⟨herror e he, Iff.rfl⟩
        · intro pc' hpc'
          rw [hok pc' hpc']
          rw [hpc'] at hof
          exact InsideIff.of_safe (hof.iff.mp (by simp)) (by simp)
      cases hcfgs : cfg.portCfgs with
      | some pc =>
          simp only
          refine hset pc _ (fun hnone => absurd (hcfgs.symm.trans hnone) (Option.some_ne_none pc)) ?_ ?_
          · exact fun e he => by rw [he]
          · exact fun pc' hpc' => by rw [hpc']
      | none =>
          simp only
          rcases initPortCfgs_cases cfg.procLcore cfg.portidList (fun _ => .zero) with
            ⟨hall, pc, hpc⟩ | ⟨portid, hmem, hout, herror⟩
          · simp only [hpc]
            refine hset pc _ (fun _ => hall) ?_ ?_
            · exact fun e he => by rw [he]
            · exact fun pc' hpc' => by rw [hpc']
          · rw [herror]
            refine InsideIff.of_outside (not_inside_port hout true) ?_
            intro hsafe
            exact hout ((hsafe hports).listed hcfgs portid hmem)

theorem vdevCfgHandler_insideIff (cfg : FfConfig) (sect name value : Text) :
    InsideIff (vdevCfgHandler cfg sect name value) (cfg.nbVdev ≠ 0 -> VdevSafe cfg sect) := by
  simp only [vdevCfgHandler]
  split
  · next hvdevs =>
      exact InsideIff.of_safe (fun hne => absurd hvdevs hne) (by simp)
  · next hvdevs =>
      split
      · next hscan =>
          apply InsideIff.of_safe
          · intro _ n hn
            exact absurd (hscan.symm.trans hn) (Option.some_ne_none n).symm
          · simp
      · next vdevid hscan =>
          split
          · next hbehind =>
              exact InsideIff.of_safe (fun _ => numbered_of_some hscan (Or.inl hbehind)) (by simp)
          · next hbehind =>
              split
              · next hout =>
                  exact InsideIff.of_outside (not_inside_numbered hout)
                    fun hsafe => not_numbered hscan hbehind hout (hsafe hvdevs)
              · next hin =>
                  exact InsideIff.of_safe
                    (fun _ => numbered_of_some hscan (Or.inr (by omega))) (by simp)

/-- Behind the handlers of the `dpdk`, `kni` and `freebsd` sections. -/
theorem handle_port (hport : "port".toList.isPrefixOf line.sect = true) :
    handle split cfg line = portCfgHandler split cfg line.sect line.name line.value := by
  have hother : forall word : Text, "port".toList.isPrefixOf word = false -> line.sect ≠ word := by
    intro word hword heq
    rw [heq, hword] at hport
    contradiction
  simp only [handle, iniParseHandler]
  rw [if_neg (hother _ (by decide)), if_neg (hother _ (by decide)),
    if_neg (hother _ (by decide)), if_neg (hother _ (by decide)), if_pos hport]

theorem not_port_of_vdev {sect : Text} (hvdev : "vdev".toList.isPrefixOf sect = true) :
    ¬ "port".toList.isPrefixOf sect = true := by
  cases sect with
  | nil => contradiction
  | cons c rest =>
      intro hport
      simp [List.isPrefixOf] at hvdev hport
      rw [<- hvdev.1] at hport
      exact absurd hport.1 (by decide)

theorem handle_vdev (hvdev : "vdev".toList.isPrefixOf line.sect = true) :
    handle split cfg line = vdevCfgHandler cfg line.sect line.name line.value := by
  have hother : forall word : Text, "vdev".toList.isPrefixOf word = false -> line.sect ≠ word := by
    intro word hword heq
    rw [heq, hword] at hvdev
    contradiction
  simp only [handle, iniParseHandler]
  rw [if_neg (hother _ (by decide)), if_neg (hother _ (by decide)),
    if_neg (hother _ (by decide)), if_neg (hother _ (by decide)),
    if_neg (not_port_of_vdev hvdev), if_pos hvdev]

theorem handle_ne_outside (hport : ¬ "port".toList.isPrefixOf line.sect = true)
    (hvdev : ¬ "vdev".toList.isPrefixOf line.sect = true) (a : Access) :
    handle split cfg line ≠ .error (.outside a) := by
  have hmask : lcoreMaskHandler cfg line.value ≠ .error (.outside a) := by
    unfold lcoreMaskHandler
    split <;> simp
  have hlist : parsePortList split line.frame cfg line.value ≠ .error (.outside a) := by
    unfold parsePortList
    split
    · simp
    · next e he =>
        intro h
        injection h with h
        exact parseInto_ne_outside split _ _ a (h ▸ he)
  simp only [handle, iniParseHandler, if_neg hport, if_neg hvdev]
  repeat' split
  all_goals first | exact hmask | exact hlist | simp

theorem handle_insideIff (split : Splitter) (cfg : FfConfig) (line : Line) :
    InsideIff (handle split cfg line) (LineSafe cfg line) := by
  by_cases hport : "port".toList.isPrefixOf line.sect = true
  · rw [handle_port hport]
    apply (portCfgHandler_insideIff split cfg line.sect line.name line.value).congr
    exact ⟨fun h => ⟨fun _ => h, fun hvdev => absurd hport (not_port_of_vdev hvdev)⟩,
      fun h => h.port hport⟩
  · by_cases hvdev : "vdev".toList.isPrefixOf line.sect = true
    · rw [handle_vdev hvdev]
      apply (vdevCfgHandler_insideIff cfg line.sect line.name line.value).congr
      exact ⟨fun h => ⟨fun hp => absurd hp hport, fun _ => h⟩, fun h => h.vdev hvdev⟩
    · exact InsideIff.of_safe
        ⟨fun hp => absurd hp hport, fun hv => absurd hv hvdev⟩
        (handle_ne_outside hport hvdev)

/-!
## The check
-/

theorem checkLcores_ne_outside (procLcore : List UInt16) (pc : PortCfg) (ks : List Nat)
    (a : Access) : checkLcores procLcore pc ks ≠ .error (.outside a) := by
  induction ks with
  | nil => simp [checkLcores]
  | cons k ks ih =>
      unfold checkLcores
      split
      · simp
      · split
        · simp
        · exact ih

theorem checkPort_ne_outside (cfg : FfConfig) (pc : PortCfg) (a : Access) :
    checkPort cfg pc ≠ .error (.outside a) := by
  have hprimary : checkPrimary cfg pc ≠ .error (.outside a) := by
    unfold checkPrimary
    repeat' split
    all_goals simp
  unfold checkPort
  split
  · simp
  · split
    · next e he =>
        intro h
        injection h with h
        exact checkLcores_ne_outside _ _ _ a (h ▸ he)
    · exact hprimary

theorem ChecksInside.first {cfg : FfConfig} {first : UInt16} {ports : List UInt16}
    (h : ChecksInside cfg (first :: ports)) :
    cfg.portCfgs.isSome = true ∧ first.toNat < rteMaxEthports :=
  h [] first ports rfl fun _ hother => absurd hother List.not_mem_nil

theorem checksInside_cons {first : UInt16} {ports : List UInt16}
    (hfirst : cfg.portCfgs.isSome = true ∧ first.toNat < rteMaxEthports) :
    ChecksInside cfg (first :: ports) <-> (passes cfg first = true -> ChecksInside cfg ports) := by
  constructor
  · intro h hpass front portid rest hsplit hpasses
    apply h (first :: front) portid rest
    · rw [hsplit]
      rfl
    · exact List.forall_mem_cons.mpr ⟨hpass, hpasses⟩
  · intro h front portid rest hsplit hpasses
    cases front with
    | nil =>
        injection hsplit with heq _
        rwa [<- heq]
    | cons other front =>
        injection hsplit with heq hrest
        rw [<- heq] at hpasses
        exact h (hpasses first List.mem_cons_self) front portid rest hrest
          fun q hq => hpasses q (List.mem_cons_of_mem first hq)

theorem checkPorts_insideIff (cfg : FfConfig) (ports : List UInt16) :
    InsideIff (checkPorts cfg ports) (ChecksInside cfg ports) := by
  induction ports with
  | nil =>
      apply InsideIff.of_safe
      · intro front portid rest h
        exact absurd h (List.append_ne_nil_of_right_ne_nil front (List.cons_ne_nil _ _)).symm
      · simp [checkPorts]
  | cons first ports ih =>
      unfold checkPorts
      split
      · next hnone =>
          apply InsideIff.of_outside
          · exact fun ha => Bool.false_ne_true ha.1
          · intro h
            have hsome := h.first.1
            rw [hnone] at hsome
            contradiction
      · next pc hpc =>
          split
          · next hmax =>
              have hcons : ChecksInside cfg (first :: ports) <->
                  (passes cfg first = true -> ChecksInside cfg ports) :=
                checksInside_cons ⟨by rw [hpc]; rfl, hmax⟩
              have hpasses : passes cfg first = (checkPort cfg (pc first.toNat)).isOk := by
                rw [passes, hpc, Option.elim_some, decide_eq_true hmax, Bool.true_and]
              split
              · next e he =>
                  apply InsideIff.of_safe
                  · apply hcons.mpr
                    intro hpass
                    rw [hpasses, he] at hpass
                    contradiction
                  · intro a h
                    injection h with h
                    exact checkPort_ne_outside cfg _ a (h ▸ he)
              · next hok =>
                  apply ih.congr
                  rw [hcons, hpasses, hok]
                  exact ⟨fun h _ => h, fun h => h rfl⟩
          · next hmax =>
              exact InsideIff.of_outside (not_inside_port hmax true) fun h => hmax h.first.2

theorem ffCheckConfig_insideIff (cfg : FfConfig) :
    InsideIff (ffCheckConfig cfg) (CheckSafe cfg) := by
  unfold ffCheckConfig
  split
  · next hkni =>
      exact (checkPorts_insideIff cfg cfg.portidList).congr ⟨fun h _ => h, fun h => h hkni⟩
  · next hkni =>
      exact InsideIff.of_safe (fun hok => absurd hok hkni) (by simp)

/-- Over the lines: what is used up to a state is inside, and what is used from it on. -/
theorem handleLines_insideIff (split : Splitter) (lines : List Line) (cfg : FfConfig) :
    InsideIff (handleLines split lines cfg) (LoadSafe split lines cfg) := by
  induction lines generalizing cfg with
  | nil => exact ffCheckConfig_insideIff cfg
  | cons line lines ih =>
      have hline := handle_insideIff split cfg line
      apply hline.andThen
      · intro e he
        refine ⟨by rw [handleLines, he], fun h => ⟨h, fun cfg' hok => ?_⟩, fun h => h.1⟩
        rw [he] at hok
        contradiction
      · intro cfg' hok
        rw [handleLines, hok]
        apply (ih cfg').congr
        have hsafe : LineSafe cfg line := hline.iff.mp fun a ha => by
          rw [hok] at ha
          contradiction
        constructor
        · intro h
          refine ⟨hsafe, fun next hnext => ?_⟩
          rw [hok] at hnext
          injection hnext with hnext
          rwa [<- hnext]
        · exact fun h => h.2 cfg' hok

end Config
end FStackLite
