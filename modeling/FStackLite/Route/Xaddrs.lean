import FStackLite.Foundation.Bytes
import FStackLite.Foundation.Span
import Mathlib.Logic.Function.Basic

/-!
# The addresses of a routing message

A routing message is a header and then socket addresses, one behind the other, each
rounded up to a multiple of eight bytes.  `rt_xaddrs` finds the addresses of a request
in the message.  What it reads of the message is recorded.
-/

namespace FStackLite
namespace Route

open Foundation (Bytes Span)

def rtaxMax : Nat := 8

def rtaxDst : Nat := 0

def rtaxGateway : Nat := 1

def rtaxNetmask : Nat := 2

def rtaxGenmask : Nat := 3

def rtaxIfp : Nat := 4

def rtaxIfa : Nat := 5

def rtaxAuthor : Nat := 6

def rtaxBrd : Nat := 7

def afInet : UInt8 := 2

def afLink : UInt8 := 18

def afInet6 : UInt8 := 28

def afMax : UInt8 := 42

/-- `sizeof(struct rt_msghdr)` -/
def headerSize : Nat := 152

/-- `sizeof(struct sockaddr_in6)` -/
def in6Size : Nat := 28

/-- `SA_SIZE` of an address with the given `sa_len`. -/
def saSize (saLen : UInt8) : Nat :=
  if saLen = 0 then 8 else 1 + ((saLen.toNat - 1) ||| 7)

theorem saSize_eq (saLen : UInt8) : saSize saLen = 8 * max 1 ((saLen.toNat + 7) / 8) := by
  have hall : forall n : Fin 256, n.val ≠ 0 ->
      1 + ((n.val - 1) ||| 7) = 8 * max 1 ((n.val + 7) / 8) := by
    decide +kernel
  unfold saSize
  split
  · next hzero =>
      rw [hzero]
      rfl
  · next hpos =>
      apply hall ⟨saLen.toNat, saLen.toNat_lt⟩
      intro hzero
      exact hpos (UInt8.toNat_inj.mp hzero)

theorem saSize_bounds (saLen : UInt8) :
    8 ≤ saSize saLen ∧ saLen.toNat ≤ saSize saLen ∧ saSize saLen ≤ 256 ∧ saSize saLen % 8 = 0 := by
  have hlt := saLen.toNat_lt
  rw [saSize_eq]
  omega

/-!
## Scopes of IPv6 addresses
-/

structure Zones where
  /-- `V_ip6_use_defzone` -/
  useDefzone : Bool
  /-- `scope6_addr2default` -/
  addr2default : Bytes -> Nat
  /-- There is an interface with the number of the zone. -/
  known : Nat -> Bool
  /-- `V_if_index` -/
  ifIndex : Nat
  /-- `V_deembed_scopeid` -/
  deembed : Bool

/-- `IN6_IS_SCOPE_LINKLOCAL` or `IN6_IS_ADDR_MC_INTFACELOCAL` -/
def isScoped (addr : Bytes) : Bool :=
  (addr 0 == 0xfe && addr 1 &&& 0xc0 == 0x80) ||
    (addr 0 == 0xff && (addr 1 &&& 0x0f == 2 || addr 1 &&& 0x0f == 1))

/-- `sa6_embedscope`, which reads the scope at the end of the address first. -/
def sa6Embedscope (zones : Zones) (sin6 : Bytes) : Bytes :=
  let scopeId := sin6.num 24 4
  let zoneid := if scopeId = 0 ∧ zones.useDefzone then zones.addr2default (sin6.drop 8) else scopeId
  if zoneid ≠ 0 ∧ isScoped (sin6.drop 8) ∧ zones.known zoneid then
    (sin6.store 10 2 fun k => UInt8.ofNat (zoneid / 256 ^ (1 - k))).putNum 24 4 0
  else
    sin6

/-- `sa6_recoverscope`, unless it fails. -/
def sa6Recoverscope (zones : Zones) (sin6 : Bytes) : Option Bytes :=
  let zoneid := 256 * (sin6 10).toNat + (sin6 11).toNat
  if isScoped (sin6.drop 8) ∧ zoneid ≠ 0 then
    if zones.ifIndex < zoneid then
      none
    else
      some ((sin6.putNum 10 2 0).putNum 24 4 zoneid)
  else
    some sin6

/-!
## The addresses of a request
-/

/-- A pointer to an address: `NULL`, or into the message, or to memory elsewhere. -/
inductive Slot where
  | absent
  | inside (off : Nat)
  | elsewhere (sa : Bytes)

/-- `rti_info` -/
abbrev Info := Nat -> Slot

/-- `sa_zero` -/
def saZero : Bytes :=
  fun k => if k = 0 then 16 else if k = 1 then afInet else 0

/-- What `rt_xaddrs` leaves behind; `inet6` are the addresses given to `sa6_embedscope`. -/
structure Xaddrs where
  accepted : Bool
  mem : Bytes
  info : Info
  reads : List Span
  inet6 : List Nat

/-- The loop of `rt_xaddrs`, over the numbers of the slots that are left. -/
def rtXaddrs (zones : Zones) (addrs cplim : Nat) : List Nat -> Nat -> Bytes -> Xaddrs
  | [], _, mem => ⟨true, mem, fun _ => .absent, [], []⟩
  | i :: rest, cp, mem =>
      if cplim ≤ cp then
        ⟨true, mem, fun _ => .absent, [], []⟩
      else if addrs.testBit i then
        if cplim < cp + (mem cp).toNat then
          ⟨false, mem, fun _ => .absent, [⟨cp, 1⟩], []⟩
        else if mem cp = 0 then
          ⟨true, mem, Function.update (fun _ => .absent) i (.elsewhere saZero), [⟨cp, 1⟩], []⟩
        else if mem (cp + 1) = afInet6 then
          let later := rtXaddrs zones addrs cplim rest (cp + saSize (mem cp))
            (mem.store cp in6Size (sa6Embedscope zones (mem.drop cp)))
          { later with
            info := Function.update later.info i (.inside cp)
            reads := ⟨cp, 1⟩ :: ⟨cp + 1, 1⟩ :: ⟨cp, in6Size⟩ :: later.reads
            inet6 := cp :: later.inet6 }
        else
          let later := rtXaddrs zones addrs cplim rest (cp + saSize (mem cp)) mem
          { later with
            info := Function.update later.info i (.inside cp)
            reads := ⟨cp, 1⟩ :: ⟨cp + 1, 1⟩ :: later.reads }
      else
        rtXaddrs zones addrs cplim rest cp mem

section

variable (zones : Zones) (addrs : Nat) {cplim cp : Nat} {mem : Bytes} {slots : List Nat}

theorem rtXaddrs_inside (hcp : cp % 8 = 0) {i off : Nat}
    (h : (rtXaddrs zones addrs cplim slots cp mem).info i = .inside off) :
    cp ≤ off ∧ off % 8 = 0 ∧ off < cplim := by
  induction slots generalizing cp mem with
  | nil => contradiction
  | cons j rest ih =>
      have hsize := saSize_bounds (mem cp)
      have hfound : forall {mem' : Bytes}, cp < cplim -> Function.update
          (rtXaddrs zones addrs cplim rest (cp + saSize (mem cp)) mem').info j (.inside cp) i =
            .inside off -> cp ≤ off ∧ off % 8 = 0 ∧ off < cplim := by
        intro mem' hlt hupdate
        by_cases heq : i = j
        · rw [heq, Function.update_self] at hupdate
          injection hupdate with hoff
          omega
        · rw [Function.update_of_ne heq] at hupdate
          have hlater := ih (by omega) hupdate
          omega
      unfold rtXaddrs at h
      split at h
      · contradiction
      · next hlim =>
          split at h
          · split at h
            · contradiction
            · split at h
              · by_cases heq : i = j
                · rw [heq] at h
                  simp at h
                · simp [Function.update_of_ne heq] at h
              · split at h
                · exact hfound (Nat.not_le.mp hlim) h
                · exact hfound (Nat.not_le.mp hlim) h
          · exact ih hcp h

theorem rtXaddrs_mem {k : Nat} (hk : k < cp) :
    (rtXaddrs zones addrs cplim slots cp mem).mem k = mem k := by
  induction slots generalizing cp mem with
  | nil => rfl
  | cons j rest ih =>
      have hsize := saSize_bounds (mem cp)
      unfold rtXaddrs
      split
      · rfl
      · split
        · split
          · rfl
          · split
            · rfl
            · split
              · exact (ih (by omega)).trans (Bytes.store_outside (Or.inl hk))
              · exact ih (by omega)
        · exact ih hk

/-- All that is read of the message is there if the whole of each IPv6 address is. -/
theorem rtXaddrs_reads_iff {size : Nat} (hsize : size % 8 = 0) (hlim : cplim ≤ size)
    (hcp : cp % 8 = 0) :
    (forall s, s ∈ (rtXaddrs zones addrs cplim slots cp mem).reads -> s.Within 0 size) <->
      forall off, off ∈ (rtXaddrs zones addrs cplim slots cp mem).inet6 ->
        off + in6Size ≤ size := by
  induction slots generalizing cp mem with
  | nil => simp [rtXaddrs]
  | cons j rest ih =>
      have hstep := saSize_bounds (mem cp)
      unfold rtXaddrs
      split
      · simp
      · next hbefore =>
          have hlen : Span.Within ⟨cp, 1⟩ 0 size := Span.within_of_le (Nat.zero_le _) (by
            show cp + 1 ≤ 0 + size
            omega)
          have hfamily : Span.Within ⟨cp + 1, 1⟩ 0 size := Span.within_of_le (Nat.zero_le _) (by
            show cp + 1 + 1 ≤ 0 + size
            omega)
          split
          · split
            · simp [hlen]
            · split
              · simp [hlen]
              · split
                · have hwhole : Span.Within ⟨cp, in6Size⟩ 0 size <-> cp + in6Size ≤ size := by
                    simp [Span.within_iff, in6Size]
                  simp only [List.forall_mem_cons, hlen, hfamily, hwhole, true_and]
                  rw [ih (by omega)]
                · simp only [List.forall_mem_cons, hlen, hfamily, true_and]
                  exact ih (by omega)
          · exact ih hcp

end

end Route
end FStackLite
