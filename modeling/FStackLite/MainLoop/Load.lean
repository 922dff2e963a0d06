import Mathlib.Tactic.Ring

/-!
# Load accounting

Every iteration of `main_loop` divides the cycles it takes into those of the system, those of the
user's loop function and the idle rest, and adds them up in `ff_top_status`.
-/

namespace FStackLite
namespace MainLoop

variable {ω : Type}

/-- `struct ff_top_args` -/
structure TopArgs where
  loops : UInt64
  idleTsc : UInt64
  workTsc : UInt64
  sysTsc : UInt64
  usrTsc : UInt64

/-- `ff_top_status` at the start. -/
def TopArgs.zero : TopArgs :=
  ⟨0, 0, 0, 0, 0⟩

/--
What the loop calls, with whatever else there is as a state.  Only the messages see
`ff_top_status`, and they do not change it.
-/
structure Env (ω : Type) where
  rteRdtsc : ω -> UInt64 × ω
  rteGetTscHz : UInt64
  pktTxDelay : UInt32
  idleSleep : UInt32
  clockExpire : ω -> UInt64
  rteTimerManage : ω -> ω
  txPorts : List Nat
  txLen : ω -> Nat -> Nat
  sendBurst : Nat -> ω -> ω
  clearTx : Nat -> ω -> ω
  rxQueues : List (Nat × Nat)
  runsKni : Bool
  ffKniProcess : Nat × Nat -> ω -> ω
  processDispatchRing : Nat × Nat -> ω -> ω
  rteEthRxBurst : Nat × Nat -> ω -> Nat × ω
  processPacket : Nat × Nat -> Nat -> ω -> ω
  processMsgRing : TopArgs -> ω -> ω
  loop : Option (ω -> ω)
  usleep : UInt32 -> ω -> ω

def Env.drainTsc (env : Env ω) : UInt64 :=
  if env.pktTxDelay = 0 then
    0
  else
    (env.rteGetTscHz + 1000000 - 1) / 1000000 * env.pktTxDelay.toUInt64

/-- The ports that have packets to send; the flag is `idle`. -/
def drainPorts (env : Env ω) : List Nat -> Bool × ω -> Bool × ω
  | [], s => s
  | port :: ports, (idle, w) =>
      if env.txLen w port = 0 then
        drainPorts env ports (idle, w)
      else
        drainPorts env ports (false, env.clearTx port (env.sendBurst port w))

def readQueues (env : Env ω) : List (Nat × Nat) -> Bool × ω -> Bool × ω
  | [], s => s
  | queue :: queues, (idle, w) =>
      let w1 := env.processDispatchRing queue (if env.runsKni then env.ffKniProcess queue w else w)
      let burst := env.rteEthRxBurst queue w1
      if burst.1 = 0 then
        readQueues env queues (idle, burst.2)
      else
        readQueues env queues
          (false, (List.range burst.1).foldl (fun w j => env.processPacket queue j w) burst.2)

structure Readings where
  cur : UInt64
  div : UInt64
  idleSleep : UInt64
  fin : UInt64

def Readings.toList (r : Readings) : List UInt64 :=
  [r.cur, r.div, r.idleSleep, r.fin]

/-- `usr_tsc` -/
def Readings.usr (r : Readings) (usch : UInt64) : UInt64 :=
  if usch = r.cur then r.idleSleep - r.div else 0

/-- `sys_tsc` -/
def Readings.sys (r : Readings) (idle : Bool) : UInt64 :=
  if idle then 0 else r.div - r.cur

def account (top : TopArgs) (idle : Bool) (usch : UInt64) (r : Readings) : TopArgs where
  sysTsc := if idle then top.sysTsc else top.sysTsc + r.sys idle
  usrTsc := top.usrTsc + r.usr usch
  workTsc := top.workTsc + (r.fin - r.cur)
  idleTsc := top.idleTsc + (r.fin - r.cur - r.usr usch - r.sys idle)
  loops := top.loops + 1

structure LoopState (ω : Type) where
  world : ω
  prevTsc : UInt64
  uschTsc : UInt64
  top : TopArgs

def iteration (env : Env ω) (s : LoopState ω) : Readings × LoopState ω :=
  let (cur, w) := env.rteRdtsc s.world
  let w := if env.clockExpire w < cur then env.rteTimerManage w else w
  let drains : Bool := env.drainTsc ≤ cur - s.prevTsc
  let drained := if drains then drainPorts env env.txPorts (true, w) else (true, w)
  let (idle, w) := readQueues env env.rxQueues drained
  let (div, w) := env.rteRdtsc (env.processMsgRing s.top w)
  let due : Bool := !idle || env.drainTsc ≤ cur - s.uschTsc
  let (usch, w) := match env.loop with
    | none => (s.uschTsc, w)
    | some loop => if due then (cur, loop w) else (s.uschTsc, w)
  let (idleSleep, w) := env.rteRdtsc w
  let (fin, w) :=
    if idle && env.idleSleep != 0 then
      env.rteRdtsc (env.usleep env.idleSleep w)
    else
      (idleSleep, w)
  let r : Readings := ⟨cur, div, idleSleep, fin⟩
  (r, ⟨w, if drains then cur else s.prevTsc, usch, account s.top idle usch r⟩)

/-- `main_loop` before its first iteration. -/
def LoopState.start (w : ω) : LoopState ω :=
  ⟨w, 0, 0, .zero⟩

def stateAfter (env : Env ω) (w : ω) : Nat -> LoopState ω
  | 0 => .start w
  | n + 1 => (iteration env (stateAfter env w n)).2

def readingsOf (env : Env ω) (w : ω) (k : Nat) : Readings :=
  (iteration env (stateAfter env w k)).1

def readings (env : Env ω) (w : ω) (n : Nat) : List UInt64 :=
  (List.range n).flatMap fun k => (readingsOf env w k).toList

/-!
## One iteration
-/

structure Readings.Ordered (r : Readings) : Prop where
  div : r.cur ≤ r.div
  idleSleep : r.div ≤ r.idleSleep
  fin : r.idleSleep ≤ r.fin

def TopArgs.Balanced (top : TopArgs) : Prop :=
  top.workTsc = top.sysTsc + top.usrTsc + top.idleTsc

/-- The three parts add up to what an iteration takes without going over 64 bits. -/
structure Divides (r : Readings) (top top' : TopArgs) : Prop where
  sum : (top'.sysTsc - top.sysTsc).toNat + (top'.usrTsc - top.usrTsc).toNat +
    (top'.idleTsc - top.idleTsc).toNat = (r.fin - r.cur).toNat
  sys : top'.sysTsc - top.sysTsc ≤ r.fin - r.cur
  usr : top'.usrTsc - top.usrTsc ≤ r.fin - r.cur
  idle : top'.idleTsc - top.idleTsc ≤ r.fin - r.cur

theorem iteration_top (env : Env ω) (s : LoopState ω) :
    exists idle usch, (iteration env s).2.top = account s.top idle usch (iteration env s).1 :=
  ⟨_, _, rfl⟩

theorem add_sub_self (a b : UInt64) : a + b - a = b := by
  rw [UInt64.add_comm, UInt64.add_sub_cancel]

section Accounting

variable {top : TopArgs} {idle : Bool} {usch : UInt64} {r : Readings}

theorem account_sysTsc (top : TopArgs) (idle : Bool) (usch : UInt64) (r : Readings) :
    (account top idle usch r).sysTsc = top.sysTsc + r.sys idle := by
  cases idle with
  | false => rfl
  | true => exact (UInt64.add_zero _).symm

theorem TopArgs.Balanced.account (h : top.Balanced) (idle : Bool) (usch : UInt64) (r : Readings) :
    (account top idle usch r).Balanced := by
  rw [Balanced] at h ⊢
  rw [account_sysTsc]
  simp only [MainLoop.account]
  grind

theorem Readings.Ordered.parts_le (h : r.Ordered) (idle : Bool) (usch : UInt64) :
    (r.sys idle).toNat + (r.usr usch).toNat ≤ (r.fin - r.cur).toNat := by
  have hdiv := UInt64.le_iff_toNat_le.mp h.div
  have hsleep := UInt64.le_iff_toNat_le.mp h.idleSleep
  have hfin := UInt64.le_iff_toNat_le.mp h.fin
  have hsys : (r.sys idle).toNat ≤ r.div.toNat - r.cur.toNat := by
    rw [Readings.sys]
    split
    · exact Nat.zero_le _
    · rw [UInt64.toNat_sub_of_le _ _ h.div]
  have husr : (r.usr usch).toNat ≤ r.idleSleep.toNat - r.div.toNat := by
    rw [Readings.usr]
    split
    · rw [UInt64.toNat_sub_of_le _ _ h.idleSleep]
    · exact Nat.zero_le _
  have htotal : r.cur ≤ r.fin := by
    rw [UInt64.le_iff_toNat_le]
    omega
  rw [UInt64.toNat_sub_of_le _ _ htotal]
  omega

theorem Readings.Ordered.idle_toNat (h : r.Ordered) (idle : Bool) (usch : UInt64) :
    (r.fin - r.cur - r.usr usch - r.sys idle).toNat =
      (r.fin - r.cur).toNat - (r.usr usch).toNat - (r.sys idle).toNat := by
  have hparts := h.parts_le idle usch
  have husr : r.usr usch ≤ r.fin - r.cur := by
    rw [UInt64.le_iff_toNat_le]
    omega
  have hsys : r.sys idle ≤ r.fin - r.cur - r.usr usch := by
    rw [UInt64.le_iff_toNat_le, UInt64.toNat_sub_of_le _ _ husr]
    omega
  rw [UInt64.toNat_sub_of_le _ _ hsys, UInt64.toNat_sub_of_le _ _ husr]

theorem Readings.Ordered.divides (h : r.Ordered) (top : TopArgs) (idle : Bool) (usch : UInt64) :
    Divides r top (account top idle usch r) := by
  have hparts := h.parts_le idle usch
  have hidle := h.idle_toNat idle usch
  have hsysPart : (account top idle usch r).sysTsc - top.sysTsc = r.sys idle := by
    rw [account_sysTsc, add_sub_self]
  have husrPart : (account top idle usch r).usrTsc - top.usrTsc = r.usr usch := add_sub_self ..
  have hidlePart : (account top idle usch r).idleTsc - top.idleTsc =
      r.fin - r.cur - r.usr usch - r.sys idle :=
    add_sub_self ..
  constructor
  · rw [hsysPart, husrPart, hidlePart, hidle]
    omega
  · rw [hsysPart, UInt64.le_iff_toNat_le]
    omega
  · rw [husrPart, UInt64.le_iff_toNat_le]
    omega
  · rw [hidlePart, UInt64.le_iff_toNat_le, hidle]
    omega

end Accounting

/-!
## Runs
-/

theorem ordered_of_readings {env : Env ω} {w : ω} {n k : Nat}
    (hmono : (readings env w n).Pairwise (· ≤ ·)) (hk : k < n) : (readingsOf env w k).Ordered := by
  have hsub : (readingsOf env w k).toList.Pairwise (· ≤ ·) := by
    rw [readings, List.pairwise_flatMap] at hmono
    exact hmono.1 k (List.mem_range.mpr hk)
  simp only [Readings.toList, List.pairwise_cons, List.mem_cons, forall_eq_or_imp] at hsub
  exact ⟨hsub.1.1, hsub.2.1.1, hsub.2.2.1.1⟩

theorem balanced_stateAfter (env : Env ω) (w : ω) (n : Nat) :
    (stateAfter env w n).top.Balanced := by
  induction n with
  | zero => rfl
  | succ n ih =>
      rcases iteration_top env (stateAfter env w n) with ⟨idle, usch, htop⟩
      rw [stateAfter, htop]
      exact ih.account idle usch _

/--
Whatever the iterations do, the parts add up after each of them.  If the readings of the cycle
counter do not decrease, each iteration divides the cycles it takes.
-/
theorem load_accounting (env : Env ω) (w : ω) (n : Nat)
    (hmono : (readings env w n).Pairwise (· ≤ ·)) :
    (forall k, k ≤ n -> (stateAfter env w k).top.Balanced) ∧ forall k, k < n ->
        Divides (readingsOf env w k) (stateAfter env w k).top (stateAfter env w (k + 1)).top := by
  constructor
  · intro k _
    exact balanced_stateAfter env w k
  · intro k hk
    rcases iteration_top env (stateAfter env w k) with ⟨idle, usch, htop⟩
    rw [stateAfter, htop]
    exact (ordered_of_readings hmono hk).divides _ idle usch

/-- A system whose counter goes on by ten with every reading, and where nothing arrives. -/
def quietEnv : Env Nat where
  rteRdtsc w := (UInt64.ofNat w, w + 10)
  rteGetTscHz := 2000000
  pktTxDelay := 100
  idleSleep := 20
  clockExpire _ := 0
  rteTimerManage w := w
  txPorts := [0]
  txLen _ _ := 0
  sendBurst _ w := w
  clearTx _ w := w
  rxQueues := [(0, 0)]
  runsKni := false
  ffKniProcess _ w := w
  processDispatchRing _ w := w
  rteEthRxBurst _ w := (0, w)
  processPacket _ _ w := w
  processMsgRing _ w := w
  loop := some fun w => w + 100
  usleep _ w := w + 40

theorem load_accounting_quiet : (stateAfter quietEnv 500 2).top.Balanced ∧
      Divides (readingsOf quietEnv 500 1) (stateAfter quietEnv 500 1).top
        (stateAfter quietEnv 500 2).top := by
  have h := load_accounting quietEnv 500 2 (by decide +kernel)
  exact ⟨h.1 2 (by decide), h.2 1 (by decide)⟩

end MainLoop
end FStackLite
