import FStackLite.Foundation.Span
import Mathlib.Logic.Function.Basic

/-!
# Socket addresses that the application passes in

`ff_bind`, `ff_connect` and `ff_sendto` take an address in the layout of Linux (a
family of two bytes, then data) and translate it into a `struct sockaddr_storage` on
the stack (length, family of one byte, then data).  The length of the copy is the
difference of the caller's 32-bit length and 2, taken in 64 bits.
-/

namespace FStackLite
namespace Sockaddr

open Foundation (Span)

abbrev Bytes := Nat -> UInt8

/-- `sizeof(struct sockaddr_storage)` -/
def storageSize : Nat := 128

/-- `len - sizeof(linux->sa_family)` as a `size_t`. -/
def dataLen (len : Nat) : Nat :=
  (len + 2 ^ 64 - 2) % 2 ^ 64

theorem dataLen_of_le {len : Nat} (hlo : 2 ≤ len) (hhi : len < 2 ^ 64) : dataLen len = len - 2 := by
  unfold dataLen
  omega

theorem dataLen_of_lt {len : Nat} (h : len < 2) : dataLen len = len + (2 ^ 64 - 2) := by
  unfold dataLen
  omega

/-- What a translation reads of the caller's address, writes to the storage and leaves there. -/
structure ToFreebsd where
  reads : List Span
  writes : List Span
  storage : Bytes

def linux2freebsdSockaddr (linux : Option Bytes) (addrlen : UInt32) (freebsd : Bytes) : ToFreebsd :=
  match linux with
  | none => ⟨[], [], freebsd⟩
  | some linux =>
      let n := dataLen addrlen.toNat
      { reads := [⟨0, 2⟩, ⟨2, n⟩]
        writes := [⟨1, 1⟩, ⟨0, 1⟩, ⟨2, n⟩]
        storage := fun i =>
          if i = 0 then
            UInt8.ofNat addrlen.toNat
          else if i = 1 then
            linux 0
          else if i < 2 + n then
            linux i
          else
            freebsd i }

theorem linux2freebsdSockaddr_within_iff (linux : Bytes) (addrlen : UInt32) (freebsd : Bytes) :
    ((forall s, s ∈ (linux2freebsdSockaddr (some linux) addrlen freebsd).reads ->
          s.Within 0 addrlen.toNat) ∧
        forall s, s ∈ (linux2freebsdSockaddr (some linux) addrlen freebsd).writes ->
          s.Within 0 storageSize) <-> 2 ≤ addrlen.toNat ∧ addrlen.toNat ≤ storageSize := by
  have hbound : addrlen.toNat < 2 ^ 32 := addrlen.toNat_lt
  simp only [linux2freebsdSockaddr, List.forall_mem_cons, List.not_mem_nil, false_implies,
    forall_true_iff, and_true, Span.within_iff, storageSize]
  by_cases hlo : 2 ≤ addrlen.toNat
  · rw [dataLen_of_le hlo (by omega)]
    omega
  · rw [dataLen_of_lt (by omega)]
    omega

theorem linux2freebsdSockaddr_saLen (linux : Bytes) (addrlen : UInt32) (freebsd : Bytes) :
    (linux2freebsdSockaddr (some linux) addrlen freebsd).storage 0 = UInt8.ofNat addrlen.toNat := by
  rfl

/-!
## The entry points

What the kernel does with the translated address is a parameter: 0 or an error number.
-/

abbrev Kernel := Bytes -> Int

/-- What an entry point does with the address; `saLen` is set if the call is accepted. -/
structure Input where
  reads : List Span
  writes : List Span
  saLen : Option Nat

/-- The common body of `ff_bind` and `ff_connect`. -/
def nameCall (kern : Kernel) (addr : Option Bytes) (addrlen : UInt32) (stack : Bytes) : Input :=
  let bsdaddr := linux2freebsdSockaddr addr addrlen stack
  { reads := bsdaddr.reads
    writes := bsdaddr.writes
    saLen := if kern bsdaddr.storage = 0 then some (bsdaddr.storage 0).toNat else none }

def ffBind (kernBindat : Kernel) (addr : Option Bytes) (addrlen : UInt32) (stack : Bytes) : Input :=
  nameCall kernBindat addr addrlen stack

def ffConnect (kernConnectat : Kernel) (name : Option Bytes) (namelen : UInt32) (stack : Bytes) :
    Input :=
  nameCall kernConnectat name namelen stack

def sockMaxaddrlen : Nat := 255

/-- The copy that `getsockaddr` makes of an address of the caller, if it accepts the length. -/
def getsockaddr (uaddr : Bytes) (len : Nat) : Option Bytes :=
  if sockMaxaddrlen < len then
    none
  else if len < 2 then
    none
  else
    some (Function.update uaddr 0 (UInt8.ofNat len))

def ffSendto (kernSendit : Option Bytes -> Int) (dest : Option Bytes) (tolen : UInt32)
    (stack : Bytes) : Input :=
  match dest with
  | none => ⟨[], [], none⟩
  | some addr =>
      let bsdaddr := linux2freebsdSockaddr (some addr) tolen stack
      { reads := bsdaddr.reads
        writes := bsdaddr.writes
        saLen :=
          match getsockaddr bsdaddr.storage tolen.toNat with
          | none => none
          | some sa => if kernSendit (some sa) = 0 then some (sa 0).toNat else none }

inductive InputCall where
  | bind (kernBindat : Kernel)
  | connect (kernConnectat : Kernel)
  | sendto (kernSendit : Option Bytes -> Int)

def InputCall.run (addr : Option Bytes) (addrlen : UInt32) (stack : Bytes) : InputCall -> Input
  | .bind kern => ffBind kern addr addrlen stack
  | .connect kern => ffConnect kern addr addrlen stack
  | .sendto kern => ffSendto kern addr addrlen stack

/--
Only `addrlen` bytes of the caller's address are read, only the storage is written,
and an accepted address has the length that the caller passed.
-/
structure Input.Bounded (r : Input) (addrlen : UInt32) : Prop where
  reads : forall s, s ∈ r.reads -> s.Within 0 addrlen.toNat
  writes : forall s, s ∈ r.writes -> s.Within 0 storageSize
  saLen : forall n, r.saLen = some n -> n = addrlen.toNat

variable {n : Nat}

theorem toNat_ofNat_of_le (h : n ≤ storageSize) : (UInt8.ofNat n).toNat = n := by
  rw [UInt8.toNat_ofNat', Nat.mod_eq_of_lt]
  exact Nat.lt_of_le_of_lt h (by decide)

theorem InputCall.run_reads (call : InputCall) (addr : Bytes) (addrlen : UInt32) (stack : Bytes) :
    (call.run (some addr) addrlen stack).reads =
      (linux2freebsdSockaddr (some addr) addrlen stack).reads := by
  cases call <;> rfl

theorem InputCall.run_writes (call : InputCall) (addr : Bytes) (addrlen : UInt32) (stack : Bytes) :
    (call.run (some addr) addrlen stack).writes =
      (linux2freebsdSockaddr (some addr) addrlen stack).writes := by
  cases call <;> rfl

theorem nameCall_saLen {kern : Kernel} {addr : Bytes} {addrlen : UInt32} {stack : Bytes}
    (hlen : addrlen.toNat ≤ storageSize)
    (h : (nameCall kern (some addr) addrlen stack).saLen = some n) : n = addrlen.toNat := by
  simp only [nameCall] at h
  split at h
  · injection h with h
    rw [← h, linux2freebsdSockaddr_saLen, toNat_ofNat_of_le hlen]
  · contradiction

theorem ffSendto_saLen {kern : Option Bytes -> Int} {addr : Bytes} {addrlen : UInt32}
    {stack : Bytes} (hlen : addrlen.toNat ≤ storageSize)
    (h : (ffSendto kern (some addr) addrlen stack).saLen = some n) : n = addrlen.toNat := by
  simp only [ffSendto, getsockaddr] at h
  split at h
  · contradiction
  · rename_i sa hsa
    split at h
    · injection h with h
      split at hsa
      · contradiction
      · split at hsa
        · contradiction
        · injection hsa with hsa
          rw [← h, ← hsa, Function.update_self, toNat_ofNat_of_le hlen]
    · contradiction

/--
For a given address, every entry point stays inside the caller's address and the
storage, and passes on the caller's length, if and only if that length is at least
the size of the family and at most the size of the storage.
-/
theorem socket_address_input_bound (call : InputCall) (addr : Bytes) (addrlen : UInt32)
    (stack : Bytes) : (call.run (some addr) addrlen stack).Bounded addrlen <->
      2 ≤ addrlen.toNat ∧ addrlen.toNat ≤ storageSize := by
  constructor
  · rintro ⟨hreads, hwrites, _⟩
    rw [call.run_reads] at hreads
    rw [call.run_writes] at hwrites
    exact (linux2freebsdSockaddr_within_iff addr addrlen stack).mp ⟨hreads, hwrites⟩
  · intro hlen
    rcases (linux2freebsdSockaddr_within_iff addr addrlen stack).mpr hlen with ⟨hreads, hwrites⟩
    constructor
    · rwa [call.run_reads]
    · rwa [call.run_writes]
    · intro n hn
      cases call with
      | bind kern => exact nameCall_saLen hlen.2 hn
      | connect kern => exact nameCall_saLen hlen.2 hn
      | sendto kern => exact ffSendto_saLen hlen.2 hn

/-- An address length of 129 writes one byte past the storage. -/
theorem socket_address_input_overrun :
    exists s, s ∈ (ffBind (fun _ => 0) (some fun _ => 0) 129 fun _ => 0).writes ∧
      ¬ s.Within 0 storageSize := by
  refine ⟨⟨2, 127⟩, ?_, ?_⟩
  · decide
  · decide

end Sockaddr
end FStackLite
