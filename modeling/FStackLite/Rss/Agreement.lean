import FStackLite.Rss.Toeplitz
import Mathlib.Tactic.Ring

/-!
# The software's and the hardware's choice of a queue

`init_port_start` programs every port with a hash key and an indirection table.
`ff_rss_check` computes the queue of a connection in software, with the key that a
flag selects for all ports.
-/

namespace FStackLite
namespace Rss

open Foundation

def defaultRsskey40bytes : List UInt8 :=
  [0xd1, 0x81, 0xc6, 0x2c, 0xf7, 0xf4, 0xdb, 0x5b,
   0x19, 0x83, 0xa2, 0xfc, 0x94, 0x3e, 0x1a, 0xdb,
   0xd9, 0x38, 0x9e, 0x6b, 0xd1, 0x03, 0x9c, 0x2c,
   0xa7, 0x44, 0x99, 0xad, 0x59, 0x3d, 0x56, 0xd9,
   0xf3, 0x25, 0x3c, 0x06, 0x2a, 0xdc, 0x1f, 0xfc]

def defaultRsskey52bytes : List UInt8 :=
  [0x44, 0x39, 0x79, 0x6b, 0xb5, 0x4c, 0x50, 0x23,
   0xb6, 0x75, 0xea, 0x5b, 0x12, 0x4f, 0x9f, 0x30,
   0xb8, 0xa2, 0xc0, 0x3d, 0xdf, 0xdc, 0x4d, 0x02,
   0xa0, 0x8c, 0x9b, 0x33, 0x4a, 0xf6, 0x4a, 0x4c,
   0x05, 0xc6, 0xfa, 0x34, 0x39, 0x58, 0xd8, 0x55,
   0x7d, 0x99, 0x58, 0x3a, 0xe1, 0x38, 0xc9, 0x2e,
   0x81, 0x15, 0x03, 0x66]

def rssKey (use52 : Bool) : List UInt8 :=
  if use52 then defaultRsskey52bytes else defaultRsskey40bytes

theorem toeplitzHash_rssKey (use52 : Bool) {data : List UInt8} (hdata : data.length ≤ 2 ^ 32 - 4) :
    toeplitzHash (rssKey use52) data = toeplitz (rssKey use52) data := by
  apply toeplitzHash_eq _ hdata
  cases use52 with
  | false => decide
  | true => decide

/-!
## The indirection table
-/

/-- `RTE_RETA_GROUP_SIZE` -/
def groupSize : Nat := 64

/-- One group of the table: `n` entries, and the counter behind them. -/
def retaGroup (nbQueues : Nat) : Nat -> Nat -> List Nat × Nat
  | 0, hash => ([], hash)
  | n + 1, hash =>
      let rest := retaGroup nbQueues n (hash + 1)
      (hash % nbQueues :: rest.1, rest.2)

def retaGroups (nbQueues : Nat) : Nat -> Nat -> List (List Nat)
  | 0, _ => []
  | n + 1, hash =>
      let group := retaGroup nbQueues groupSize hash
      group.1 :: retaGroups nbQueues n group.2

/-- The `reta_conf` that `set_rss_table` fills. -/
def retaConf (retaSize nbQueues : Nat) : List (List Nat) :=
  retaGroups nbQueues (max 1 (retaSize / groupSize)) 0

def retaAt (conf : List (List Nat)) (i : Nat) : Option Nat :=
  conf[i / groupSize]?.bind fun group => group[i % groupSize]?

theorem retaGroup_snd (nbQueues n hash : Nat) : (retaGroup nbQueues n hash).2 = hash + n := by
  induction n generalizing hash with
  | zero => rfl
  | succ n ih =>
      rw [retaGroup, ih]
      omega

theorem retaGroup_getElem? (nbQueues n hash j : Nat) (hj : j < n) :
    (retaGroup nbQueues n hash).1[j]? = some ((hash + j) % nbQueues) := by
  induction n generalizing hash j with
  | zero => contradiction
  | succ n ih =>
      cases j with
      | zero => rfl
      | succ j =>
          rw [retaGroup, List.getElem?_cons_succ, ih (hash + 1) j (Nat.lt_of_succ_lt_succ hj),
            Nat.add_assoc, Nat.add_comm 1 j]

theorem retaGroups_getElem? (nbQueues n hash i : Nat) (hi : i < n) :
    (retaGroups nbQueues n hash)[i]? =
      some (retaGroup nbQueues groupSize (hash + groupSize * i)).1 := by
  induction n generalizing hash i with
  | zero => contradiction
  | succ n ih =>
      cases i with
      | zero => rfl
      | succ i =>
          rw [retaGroups, List.getElem?_cons_succ, ih _ i (Nat.lt_of_succ_lt_succ hi),
            retaGroup_snd, Nat.mul_succ, Nat.add_assoc, Nat.add_comm groupSize]

theorem retaAt_retaConf {retaSize nbQueues i : Nat} (hi : i < retaSize)
    (hsize : retaSize ≤ groupSize * max 1 (retaSize / groupSize)) :
    retaAt (retaConf retaSize nbQueues) i = some (i % nbQueues) := by
  have hgroup : i / groupSize < max 1 (retaSize / groupSize) :=
    Nat.div_lt_of_lt_mul (Nat.lt_of_lt_of_le hi hsize)
  have hentry : i % groupSize < groupSize := Nat.mod_lt i (by decide)
  rw [retaAt, retaConf, retaGroups_getElem? nbQueues _ 0 _ hgroup, Option.bind_some,
    retaGroup_getElem? nbQueues _ _ _ hentry, Nat.zero_add, Nat.div_add_mod]

theorem retaSize_le_groups (k : Nat) : 2 ^ k ≤ groupSize * max 1 (2 ^ k / groupSize) := by
  cases Nat.lt_or_ge k 6 with
  | inl hlt =>
      have hle : 2 ^ k ≤ groupSize := Nat.pow_le_pow_right (by decide) (Nat.le_of_lt hlt)
      exact Nat.le_trans hle (Nat.le_mul_of_pos_right groupSize (Nat.le_max_left 1 _))
  | inr hge =>
      have hdvd : groupSize ∣ 2 ^ k := Nat.pow_dvd_pow 2 hge
      have hmul : groupSize * (2 ^ k / groupSize) = 2 ^ k := Nat.mul_div_cancel' hdvd
      calc 2 ^ k = groupSize * (2 ^ k / groupSize) := hmul.symm
        _ ≤ groupSize * max 1 (2 ^ k / groupSize) :=
            Nat.mul_le_mul_left groupSize (Nat.le_max_right 1 _)

/-!
## Ports
-/

/-- What the driver says about a configured port, and the number of its queues. -/
structure Port where
  hashKeySize : Nat
  retaSize : Nat
  nbQueues : Nat
  power : exists k, k < 16 ∧ retaSize = 2 ^ k
  queues : 2 ≤ nbQueues

structure Programmed where
  rssKey : List UInt8
  retaSize : Nat
  nbQueues : Nat
  reta : List (List Nat)

/-- The loop of `init_port_start`; the flag is `use_rsskey_52bytes`. -/
def initPortStart : List Port -> Bool -> List Programmed × Bool
  | [], use52 => ([], use52)
  | port :: ports, use52 =>
      let has52 : Bool := port.hashKeySize = 52
      let rest := initPortStart ports (use52 || has52)
      ({ rssKey := rssKey has52
         retaSize := port.retaSize
         nbQueues := port.nbQueues
         reta := retaConf port.retaSize port.nbQueues } :: rest.1, rest.2)

structure Tuple where
  saddr : UInt32
  daddr : UInt32
  sport : UInt16
  dport : UInt16

/-- The `n` bytes of a number in memory, the low one first. -/
def memoryBytes : Nat -> Nat -> List UInt8
  | 0, _ => []
  | n + 1, x => UInt8.ofNat x :: memoryBytes n (x / 256)

def Tuple.bytes (t : Tuple) : List UInt8 :=
  memoryBytes 4 t.saddr.toNat ++ memoryBytes 4 t.daddr.toNat ++ memoryBytes 2 t.sport.toNat ++
    memoryBytes 2 t.dport.toNat

theorem Tuple.length_bytes (t : Tuple) : t.bytes.length ≤ 2 ^ 32 - 4 := by
  have hlength : t.bytes.length = 12 := rfl
  rw [hlength]
  decide

def ffRssCheck (use52 : Bool) (retaSize nbQueues queueid : Nat) (t : Tuple) : Nat :=
  if nbQueues ≤ 1 then
    1
  else
    let hash := toeplitzHash (rssKey use52) t.bytes
    if (hash.toNat &&& (retaSize - 1)) % nbQueues = queueid then 1 else 0

/--
Exactly one queue of the port passes `ff_rss_check`, and it is the one that the
indirection table holds for the hash under the port's key.
-/
def Programmed.Agrees (use52 : Bool) (port : Programmed) (t : Tuple) : Prop :=
  exists q, q < port.nbQueues ∧
    (forall q', q' < port.nbQueues ->
      (ffRssCheck use52 port.retaSize port.nbQueues q' t = 1 <-> q' = q)) ∧
    retaAt port.reta ((toeplitz port.rssKey t.bytes).toNat % port.retaSize) = some q

def Port.program (port : Port) : Programmed :=
  { rssKey := rssKey (decide (port.hashKeySize = 52))
    retaSize := port.retaSize
    nbQueues := port.nbQueues
    reta := retaConf port.retaSize port.nbQueues }

theorem initPortStart_fst (ports : List Port) (use52 : Bool) :
    (initPortStart ports use52).1 = ports.map Port.program := by
  induction ports generalizing use52 with
  | nil => rfl
  | cons port ports ih =>
      rw [initPortStart, List.map_cons, ih]
      rfl

theorem initPortStart_snd (ports : List Port) (use52 : Bool) :
    (initPortStart ports use52).2 = true <->
      use52 = true ∨ exists port, port ∈ ports ∧ port.hashKeySize = 52 := by
  induction ports generalizing use52 with
  | nil => simp [initPortStart]
  | cons port ports ih =>
      rw [initPortStart, ih]
      simp [or_assoc]

theorem ffRssCheck_eq_one_iff {use52 : Bool} {port : Port} {q : Nat} {t : Tuple} :
    ffRssCheck use52 port.retaSize port.nbQueues q t = 1 <->
      q = (toeplitz (rssKey use52) t.bytes).toNat % port.retaSize % port.nbQueues := by
  rcases port.power with ⟨k, _, hsize⟩
  have hqueues : ¬ port.nbQueues ≤ 1 := Nat.not_le.mpr port.queues
  rw [ffRssCheck, if_neg hqueues, toeplitzHash_rssKey use52 t.length_bytes, hsize]
  dsimp only
  rw [Nat.and_two_pow_sub_one_eq_mod]
  split
  · rename_i heq
    exact iff_of_true rfl heq.symm
  · rename_i hne
    exact iff_of_false Nat.zero_ne_one (fun h => hne h.symm)

/-- The software agrees with a port for a tuple if their hashes lead to the same queue. -/
theorem agrees_iff {use52 : Bool} (port : Port) (t : Tuple) : port.program.Agrees use52 t <->
      (toeplitz (rssKey use52) t.bytes).toNat % port.retaSize % port.nbQueues =
        (toeplitz (rssKey (decide (port.hashKeySize = 52))) t.bytes).toNat % port.retaSize %
          port.nbQueues := by
  rcases port.power with ⟨k, _, hsize⟩
  have hpos : 0 < port.retaSize := by
    rw [hsize]
    exact Nat.two_pow_pos k
  have hqueues : 0 < port.nbQueues := Nat.lt_of_lt_of_le Nat.zero_lt_two port.queues
  have hgroups : port.retaSize ≤ groupSize * max 1 (port.retaSize / groupSize) := by
    rw [hsize]
    exact retaSize_le_groups k
  have htable : forall key : List UInt8,
      retaAt port.program.reta ((toeplitz key t.bytes).toNat % port.retaSize) =
        some ((toeplitz key t.bytes).toNat % port.retaSize % port.nbQueues) :=
    fun key => retaAt_retaConf (Nat.mod_lt _ hpos) hgroups
  constructor
  · rintro ⟨q, hq, honly, hentry⟩
    have hcheck := (honly q hq).mpr rfl
    have hstored := hentry.symm.trans (htable _)
    injection hstored with hstored
    exact (ffRssCheck_eq_one_iff.mp hcheck).symm.trans hstored
  · intro heq
    refine ⟨_, Nat.mod_lt _ hqueues, ?_, htable _⟩
    intro q' _
    show ffRssCheck use52 port.retaSize port.nbQueues q' t = 1 <-> q' =
      (toeplitz (rssKey (decide (port.hashKeySize = 52))) t.bytes).toNat % port.retaSize %
        port.nbQueues
    rw [<- heq]
    exact ffRssCheck_eq_one_iff

/-!
## Ports with different keys
-/

def splitTuple : Tuple := ⟨0, 0, 0xea33, 0x3289⟩

theorem splitTuple_hash (use52 : Bool) :
    (toeplitz (rssKey use52) splitTuple.bytes).toNat % 2 ^ 15 = use52.toNat := by
  rw [<- toeplitzHash_rssKey use52 splitTuple.length_bytes]
  cases use52 with
  | false => decide +kernel
  | true => decide +kernel

/-- Under the two keys this tuple belongs to two queues of every port whose table is not trivial. -/
theorem splitTuple_queue (use52 : Bool) (port : Port) (hsize : 2 ≤ port.retaSize) :
    (toeplitz (rssKey use52) splitTuple.bytes).toNat % port.retaSize % port.nbQueues =
      use52.toNat := by
  rcases port.power with ⟨k, hk, hpow⟩
  have hdvd : port.retaSize ∣ 2 ^ 15 := by
    rw [hpow]
    exact Nat.pow_dvd_pow 2 (Nat.le_of_lt_succ hk)
  have hbit : use52.toNat < 2 := Bool.toNat_lt use52
  rw [<- Nat.mod_mod_of_dvd _ hdvd, splitTuple_hash,
    Nat.mod_eq_of_lt (Nat.lt_of_lt_of_le hbit hsize),
    Nat.mod_eq_of_lt (Nat.lt_of_lt_of_le hbit port.queues)]

/--
For all tuples the software agrees with every configured port if and only if, as soon
as one port has a key of 52 bytes, every port has one whose table has more than one
entry.
-/
theorem rss_agreement (ports : List Port) :
    (forall port, port ∈ (initPortStart ports false).1 -> forall t,
        port.Agrees (initPortStart ports false).2 t) <->
      ((exists q, q ∈ ports ∧ q.hashKeySize = 52) ->
        forall p, p ∈ ports -> 2 ≤ p.retaSize -> p.hashKeySize = 52) := by
  have hflag := initPortStart_snd ports false
  rw [initPortStart_fst, List.forall_mem_map]
  constructor
  · intro h hsome p hp hsize
    have huse : (initPortStart ports false).2 = true := hflag.mpr (Or.inr hsome)
    have hagree := (agrees_iff p splitTuple).mp (h p hp splitTuple)
    rw [splitTuple_queue _ p hsize, splitTuple_queue _ p hsize, huse] at hagree
    simpa using hagree.symm
  · intro h p hp t
    rw [agrees_iff]
    cases Nat.lt_or_ge p.retaSize 2 with
    | inl hone =>
        rcases p.power with ⟨k, _, hpow⟩
        have hsize : p.retaSize = 1 :=
          Nat.le_antisymm (Nat.le_of_lt_succ hone) (hpow ▸ Nat.two_pow_pos k)
        rw [hsize, Nat.mod_one, Nat.mod_one]
    | inr hsize =>
        have hsame : (initPortStart ports false).2 = decide (p.hashKeySize = 52) := by
          rw [Bool.eq_iff_iff, hflag, decide_eq_true_iff]
          constructor
          · rintro (hfalse | hsome)
            · contradiction
            · exact h hsome p hp hsize
          · intro h52
            exact Or.inr ⟨p, hp, h52⟩
        rw [hsame]

/-- A port with a key of 40 bytes and one with a key of 52 bytes, two queues each. -/
def mixedPorts : List Port :=
  [⟨40, 128, 2, ⟨7, by decide, rfl⟩, by decide⟩, ⟨52, 512, 2, ⟨9, by decide, rfl⟩, by decide⟩]

theorem rss_disagreement_mixed_keys : ¬ forall port, port ∈ (initPortStart mixedPorts false).1 ->
        port.Agrees (initPortStart mixedPorts false).2 splitTuple := by
  intro h
  have hagree := (agrees_iff _ splitTuple).mp (h _ List.mem_cons_self)
  rw [splitTuple_queue _ _ (by decide), splitTuple_queue _ _ (by decide)] at hagree
  contradiction

end Rss
end FStackLite
