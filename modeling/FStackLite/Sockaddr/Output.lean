import FStackLite.Sockaddr.Input

/-!
# Socket addresses that the application gets back

`ff_recvfrom`, `ff_recvmsg`, `ff_accept` and `ff_getpeername` translate the address
that the stack returns into the layout of Linux, in the caller's buffer.  The length
of that copy is the `sa_len` of the source.  In `ff_recvmsg` source and destination
are the same buffer.

A byte of memory has a value also when nothing was stored there, so every byte comes
with a mark that says whether it was initialised.
-/

namespace FStackLite
namespace Sockaddr

open Foundation (Span)

structure Cell where
  val : UInt8
  init : Bool
deriving DecidableEq, Repr

abbrev Cells := Nat -> Cell

def uninitialised (bytes : Bytes) : Cells :=
  fun i => ⟨bytes i, false⟩

/-- An address of the stack: its first byte is its length, its second one the family. -/
structure Address where
  bytes : List UInt8
  header : 2 ≤ bytes.length
  saLen : (bytes.getD 0 0).toNat = bytes.length

namespace Address

def size (a : Address) : Nat := a.bytes.length

def family (a : Address) : UInt8 := a.bytes.getD 1 0

def cells (a : Address) : Cells :=
  fun i => ⟨a.bytes.getD i 0, decide (i < a.bytes.length)⟩

theorem cells_init_iff (a : Address) (i : Nat) : (a.cells i).init = true <-> i < a.size := by
  simp [cells, size]

@[simp] theorem cells_zero_val (a : Address) : (a.cells 0).val.toNat = a.size :=
  a.saLen

@[simp] theorem cells_one_val (a : Address) : (a.cells 1).val = a.family := rfl

end Address

def returnedSize : Option Address -> Nat
  | none => 0
  | some a => a.size

/-!
## The translation
-/

structure Source where
  cells : Cells
  span : Span

def Source.Initialised (s : Source) : Prop :=
  forall i, s.span.Covers i -> (s.cells i).init = true

/-- What a translation writes to the caller's buffer, and where it takes it from. -/
structure ToLinux where
  writes : List Span
  sources : List Source

def storeFamily (buf : Cells) : Cells :=
  fun i => if i = 0 then buf 1 else if i = 1 then ⟨0, true⟩ else buf i

/-- `aliased` says that source and destination are the same buffer. -/
def freebsd2linuxSockaddr (aliased : Bool) (freebsd : Cells) : ToLinux :=
  let source := if aliased then storeFamily freebsd else freebsd
  let n := dataLen (source 0).val.toNat
  { writes := [⟨0, 2⟩, ⟨2, n⟩]
    sources := [⟨freebsd, ⟨1, 1⟩⟩, ⟨source, ⟨2, n⟩⟩] }

variable {room namelen : Nat} {sa : Option Address} {name : Cells}

/-- Writing an address of length `len` stays inside a buffer of `room` bytes. -/
theorem address_within_iff {len : UInt8} (hroom : room < 2 ^ 32) :
    (forall s, s ∈ [(⟨0, 2⟩ : Span), ⟨2, dataLen len.toNat⟩] -> s.Within 0 room) <->
      2 ≤ len.toNat ∧ len.toNat ≤ room := by
  have hlen : len.toNat < 256 := len.toNat_lt
  simp only [List.forall_mem_cons, List.not_mem_nil, false_implies, forall_true_iff, and_true,
    Span.within_iff]
  by_cases hlo : 2 ≤ len.toNat
  · rw [dataLen_of_le hlo (by omega)]
    omega
  · rw [dataLen_of_lt (by omega)]
    omega

theorem data_initialised_iff {cells : Cells} {len : UInt8} (hlo : 2 ≤ len.toNat) :
    (⟨cells, ⟨2, dataLen len.toNat⟩⟩ : Source).Initialised <->
      forall i, 2 ≤ i -> i < len.toNat -> (cells i).init = true := by
  have hlen : len.toNat < 256 := len.toNat_lt
  have hend : 2 + (len.toNat - 2) = len.toNat := Nat.add_sub_cancel' hlo
  rw [dataLen_of_le hlo (by omega)]
  simp only [Source.Initialised, Span.Covers, hend, and_imp]

theorem family_initialised_iff {cells : Cells} :
    (⟨cells, ⟨1, 1⟩⟩ : Source).Initialised <-> (cells 1).init = true := by
  constructor
  · intro h
    exact h 1 ⟨Nat.le_refl 1, Nat.lt_succ_self 1⟩
  · intro h i hi
    have hone : i = 1 := Nat.le_antisymm (Nat.le_of_lt_succ hi.2) hi.1
    rw [hone]
    exact h

/-- The byte that is taken for `sa_len`: behind the store of an aliased family it is the family. -/
def lengthByte (aliased : Bool) (freebsd : Cells) : UInt8 :=
  (if aliased then freebsd 1 else freebsd 0).val

theorem freebsd2linuxSockaddr_bounded_iff (aliased : Bool) (freebsd : Cells)
    (hroom : room < 2 ^ 32) :
    ((forall s, s ∈ (freebsd2linuxSockaddr aliased freebsd).writes -> s.Within 0 room) ∧
        forall s, s ∈ (freebsd2linuxSockaddr aliased freebsd).sources -> s.Initialised) <->
      (2 ≤ (lengthByte aliased freebsd).toNat ∧ (lengthByte aliased freebsd).toNat ≤ room) ∧
        (freebsd 1).init = true ∧
          forall i, 2 ≤ i -> i < (lengthByte aliased freebsd).toNat -> (freebsd i).init = true := by
  have hdata : forall i, 2 ≤ i ->
      (if aliased then storeFamily freebsd else freebsd) i = freebsd i := by
    intro i hi
    cases aliased with
    | false => rfl
    | true => simp [storeFamily, show i ≠ 0 by omega, show i ≠ 1 by omega]
  have hbyte : ((if aliased then storeFamily freebsd else freebsd) 0).val =
      lengthByte aliased freebsd := by
    cases aliased <;> rfl
  simp only [freebsd2linuxSockaddr, hbyte, address_within_iff hroom]
  apply and_congr_right
  intro hlen
  rw [List.forall_mem_cons, List.forall_mem_singleton, family_initialised_iff,
    data_initialised_iff hlen.1]
  apply and_congr_right
  intro _
  constructor
  · intro h i hlo hhi
    rw [← hdata i hlo]
    exact h i hlo hhi
  · intro h i hlo hhi
    rw [hdata i hlo]
    exact h i hlo hhi

theorem address_copy_bounded_iff (a : Address) (hroom : room < 2 ^ 32) :
    ((forall s, s ∈ (freebsd2linuxSockaddr false a.cells).writes -> s.Within 0 room) ∧
        forall s, s ∈ (freebsd2linuxSockaddr false a.cells).sources -> s.Initialised) <->
      a.size ≤ room := by
  have hbyte : (lengthByte false a.cells).toNat = a.size := a.cells_zero_val
  have hheader : 2 ≤ a.size := a.header
  rw [freebsd2linuxSockaddr_bounded_iff false a.cells hroom, hbyte]
  constructor
  · rintro ⟨⟨_, hle⟩, _⟩
    exact hle
  · intro hle
    refine ⟨⟨hheader, hle⟩, (a.cells_init_iff 1).mpr hheader, ?_⟩
    intro i _ hi
    exact (a.cells_init_iff i).mpr hi

/-!
## The entry points
-/

/--
What a successful call does: its writes to the caller's address buffer, the sources of
these writes, and the length it reports, if there is a place for it.
-/
structure Output where
  writes : List Span
  sources : List Source
  reported : Option Nat

def Output.nothing (reported : Option Nat) : Output :=
  ⟨[], [], reported⟩

/-- The number of bytes of the address that `kern_recvit` copies. -/
def recvLen (namelen : Nat) : Option Address -> Nat
  | none => 0
  | some fromsa => min namelen fromsa.size

/-- The name buffer after `kern_recvit`. -/
def recvName (name : Cells) (namelen : Nat) (fromsa : Option Address) : Cells :=
  fun i =>
    match fromsa with
    | none => name i
    | some a => if i < min namelen a.size then a.cells i else name i

def lenOf (len : Option UInt32) : Nat :=
  match len with
  | none => 0
  | some n => n.toNat

/-- `wanted` says that `from` is not `NULL`; `stack` is what the stack frame holds. -/
def ffRecvfrom (wanted : Bool) (fromlen : Option UInt32) (stack : Bytes)
    (fromsa : Option Address) : Output :=
  let namelen := lenOf fromlen
  let bsdaddr := recvName (uninitialised stack) namelen fromsa
  let reported := fromlen.map fun _ => recvLen namelen fromsa
  if wanted then
    let copy := freebsd2linuxSockaddr false bsdaddr
    ⟨copy.writes, copy.sources, reported⟩
  else
    Output.nothing reported

/-- `name` is the caller's buffer as it is before the call. -/
def ffRecvmsg (name : Option Cells) (namelen : UInt32) (fromsa : Option Address) : Output :=
  match name with
  | none => Output.nothing none
  | some name =>
      let len := recvLen namelen.toNat fromsa
      let copy := freebsd2linuxSockaddr true (recvName name namelen.toNat fromsa)
      ⟨⟨0, len⟩ :: copy.writes, copy.sources, some len⟩

/--
The address has the type `struct sockaddr *`, and its length is read without a test:
the call faults if there is no address but a place for its length.
-/
def ffAccept (addr : Bool) (addrlen : Option UInt32) (pf : Option Address) : Option Output :=
  match pf with
  | none => if addrlen.isSome then none else some (Output.nothing none)
  | some pf =>
      let reported := addrlen.map fun _ => (pf.cells 0).val.toNat
      if addr then
        let copy := freebsd2linuxSockaddr false pf.cells
        some ⟨copy.writes, copy.sources, reported⟩
      else
        some (Output.nothing reported)

/-- `kern_getpeername` stores the length without a test. -/
def ffGetpeername (name : Bool) (namelen : Option UInt32) (pf : Option Address) : Option Output :=
  match namelen with
  | none => none
  | some alen =>
      match pf with
      | none => some (Output.nothing (some 0))
      | some pf =>
          let reported := some (min alen.toNat pf.size)
          if name then
            let copy := freebsd2linuxSockaddr false pf.cells
            some ⟨copy.writes, copy.sources, reported⟩
          else
            some (Output.nothing reported)

inductive OutputCall where
  | recvfrom (wanted : Bool) (fromlen : Option UInt32) (stack : Bytes)
  | recvmsg (name : Option Cells) (namelen : UInt32)
  | accept (addr : Bool) (addrlen : Option UInt32)
  | getpeername (name : Bool) (namelen : Option UInt32)

namespace OutputCall

def run (sa : Option Address) : OutputCall -> Option Output
  | .recvfrom wanted fromlen stack => some (ffRecvfrom wanted fromlen stack sa)
  | .recvmsg name namelen => some (ffRecvmsg name namelen sa)
  | .accept addr addrlen => ffAccept addr addrlen sa
  | .getpeername name namelen => ffGetpeername name namelen sa

def supplied : OutputCall -> Nat
  | .recvfrom _ fromlen _ => lenOf fromlen
  | .recvmsg _ namelen => namelen.toNat
  | .accept _ addrlen => lenOf addrlen
  | .getpeername _ namelen => lenOf namelen

end OutputCall

/--
The caller's buffer is not overrun, no uninitialised byte is copied to it, and the
length reported is that of the address.
-/
structure Output.Bounded (o : Output) (room : Nat) (sa : Option Address) : Prop where
  writes : forall s, s ∈ o.writes -> s.Within 0 room
  sources : forall s, s ∈ o.sources -> s.Initialised
  reported : forall n, o.reported = some n -> n = returnedSize sa

/-- The family that `ff_recvmsg` finds in the name buffer. -/
def recvmsgFamily (name : Cells) : Option Address -> UInt8
  | none => (name 1).val
  | some a => a.family

/--
The address fits the name buffer, and so does the number that the family is; what
lies behind the address and below that number is initialised by the caller.
-/
structure RecvmsgFits (name : Cells) (namelen : Nat) (sa : Option Address) : Prop where
  size : returnedSize sa ≤ namelen
  family_ge : 2 ≤ (recvmsgFamily name sa).toNat
  family_le : (recvmsgFamily name sa).toNat ≤ namelen
  known : forall i, returnedSize sa ≤ i ->
    i = 1 ∨ (2 ≤ i ∧ i < (recvmsgFamily name sa).toNat) -> (name i).init = true

def OutputCall.Fits (sa : Option Address) : OutputCall -> Prop
  | .recvfrom wanted fromlen _ =>
      (wanted = true -> sa ≠ none) ∧
        (wanted = true ∨ fromlen ≠ none -> returnedSize sa ≤ lenOf fromlen)
  | .recvmsg none _ => True
  | .recvmsg (some name) namelen => RecvmsgFits name namelen.toNat sa
  | .accept addr addrlen =>
      (sa = none -> addrlen = none) ∧ (addr = true -> returnedSize sa ≤ lenOf addrlen)
  | .getpeername _ namelen => namelen ≠ none ∧ returnedSize sa ≤ lenOf namelen

theorem lenOf_lt (len : Option UInt32) : lenOf len < 2 ^ 32 := by
  cases len with
  | none => decide
  | some n => exact n.toNat_lt

theorem Output.bounded_iff {o : Output} : o.Bounded room sa <->
      ((forall s, s ∈ o.writes -> s.Within 0 room) ∧ forall s, s ∈ o.sources -> s.Initialised) ∧
        forall n, o.reported = some n -> n = returnedSize sa :=
  ⟨fun h => ⟨⟨h.writes, h.sources⟩, h.reported⟩, fun h => ⟨h.1.1, h.1.2, h.2⟩⟩

theorem Output.nothing_bounded_iff {reported : Option Nat} :
    (Output.nothing reported).Bounded room sa <->
      forall n, reported = some n -> n = returnedSize sa := by
  simp [Output.bounded_iff, Output.nothing]

theorem ffAccept_bounded_iff (addr : Bool) (addrlen : Option UInt32) (sa : Option Address) :
    (exists o, ffAccept addr addrlen sa = some o ∧ o.Bounded (lenOf addrlen) sa) <->
      OutputCall.Fits sa (.accept addr addrlen) := by
  cases sa with
  | none =>
      cases addrlen with
      | none =>
          simp [ffAccept, OutputCall.Fits, Output.nothing_bounded_iff, returnedSize]
      | some n => simp [ffAccept, OutputCall.Fits]
  | some a =>
      have hreported : forall n, addrlen.map (fun _ => (a.cells 0).val.toNat) = some n ->
          n = returnedSize (some a) := by
        intro n hn
        cases addrlen with
        | none => contradiction
        | some len =>
            injection hn with hn
            exact hn.symm.trans a.cells_zero_val
      cases addr with
      | false =>
          simpa [ffAccept, OutputCall.Fits, Output.nothing_bounded_iff] using hreported
      | true =>
          simp only [ffAccept, if_true, Option.some.injEq, exists_eq_left', Output.bounded_iff,
            address_copy_bounded_iff a (lenOf_lt addrlen), and_iff_left hreported, OutputCall.Fits]
          simp [returnedSize]

theorem ffGetpeername_bounded_iff (name : Bool) (namelen : Option UInt32) (sa : Option Address) :
    (exists o, ffGetpeername name namelen sa = some o ∧ o.Bounded (lenOf namelen) sa) <->
      OutputCall.Fits sa (.getpeername name namelen) := by
  cases namelen with
  | none => simp [ffGetpeername, OutputCall.Fits]
  | some len =>
      cases sa with
      | none =>
          simp [ffGetpeername, OutputCall.Fits, Output.nothing_bounded_iff, returnedSize]
      | some a =>
          cases name with
          | false =>
              simp only [ffGetpeername, Bool.false_eq_true, if_false, Option.some.injEq,
                exists_eq_left', Output.nothing_bounded_iff, OutputCall.Fits]
              simp [returnedSize, lenOf]
          | true =>
              simp only [ffGetpeername, if_true, Option.some.injEq, exists_eq_left',
                Output.bounded_iff, address_copy_bounded_iff a (lenOf_lt (some len)), OutputCall.Fits]
              simp [returnedSize, lenOf]

theorem recvLen_eq (namelen : Nat) (sa : Option Address) :
    recvLen namelen sa = min namelen (returnedSize sa) := by
  cases sa with
  | none => exact (Nat.min_zero namelen).symm
  | some a => rfl

theorem recvName_of_lt {a : Address} {i : Nat} (h : i < min namelen a.size) :
    recvName name namelen (some a) i = a.cells i := by
  simp only [recvName, h, if_true]

theorem recvName_of_le {i : Nat} (h : recvLen namelen sa ≤ i) :
    recvName name namelen sa i = name i := by
  cases sa with
  | none => rfl
  | some a => exact if_neg (Nat.not_lt.mpr h)

/-- Behind `kern_recvit` the storage holds a whole address if there is one that fits. -/
theorem recvfrom_copy_iff (stack : Bytes) (sa : Option Address) (hroom : namelen < 2 ^ 32) :
    ((forall s, s ∈ (freebsd2linuxSockaddr false (recvName (uninitialised stack) namelen sa)).writes ->
          s.Within 0 namelen) ∧
        forall s, s ∈ (freebsd2linuxSockaddr false (recvName (uninitialised stack) namelen sa)).sources ->
          s.Initialised) <-> sa ≠ none ∧ returnedSize sa ≤ namelen := by
  rw [freebsd2linuxSockaddr_bounded_iff false _ hroom]
  cases sa with
  | none => simp [recvName, uninitialised]
  | some a =>
      have hheader : 2 ≤ a.size := a.header
      constructor
      · rintro ⟨⟨_, hle⟩, hfamily, _⟩
        refine ⟨Option.some_ne_none a, ?_⟩
        by_cases hlt : 1 < min namelen a.size
        · have hfirst : recvName (uninitialised stack) namelen (some a) 0 = a.cells 0 :=
            recvName_of_lt (Nat.lt_trans Nat.zero_lt_one hlt)
          have hbyte : (lengthByte false (recvName (uninitialised stack) namelen (some a))).toNat =
              a.size := by
            show (recvName (uninitialised stack) namelen (some a) 0).val.toNat = a.size
            rw [hfirst]
            exact a.cells_zero_val
          rw [hbyte] at hle
          exact hle
        · rw [recvName_of_le (Nat.le_of_not_lt hlt)] at hfamily
          contradiction
      · rintro ⟨_, hle⟩
        have hcells : forall i, i < a.size ->
            recvName (uninitialised stack) namelen (some a) i = a.cells i := by
          intro i hi
          exact recvName_of_lt (Nat.lt_min.mpr ⟨Nat.lt_of_lt_of_le hi hle, hi⟩)
        have hbyte : (lengthByte false (recvName (uninitialised stack) namelen (some a))).toNat =
            a.size := by
          show (recvName (uninitialised stack) namelen (some a) 0).val.toNat = a.size
          rw [hcells 0 (Nat.lt_of_lt_of_le Nat.zero_lt_two hheader)]
          exact a.cells_zero_val
        rw [hbyte, hcells 1 hheader]
        refine ⟨⟨hheader, hle⟩, (a.cells_init_iff 1).mpr hheader, ?_⟩
        intro i _ hi
        rw [hcells i hi]
        exact (a.cells_init_iff i).mpr hi

theorem recvfrom_reported_iff (fromlen : Option UInt32) (sa : Option Address) :
    (forall n, fromlen.map (fun _ => recvLen (lenOf fromlen) sa) = some n -> n = returnedSize sa) <->
      (fromlen ≠ none -> returnedSize sa ≤ lenOf fromlen) := by
  cases fromlen with
  | none => simp
  | some len => simp [recvLen_eq]

theorem ffRecvfrom_bounded_iff (wanted : Bool) (fromlen : Option UInt32) (stack : Bytes)
    (sa : Option Address) : (ffRecvfrom wanted fromlen stack sa).Bounded (lenOf fromlen) sa <->
      OutputCall.Fits sa (.recvfrom wanted fromlen stack) := by
  cases wanted with
  | false =>
      simp only [ffRecvfrom, Bool.false_eq_true, if_false, Output.nothing_bounded_iff,
        recvfrom_reported_iff, OutputCall.Fits]
      simp
  | true =>
      simp only [ffRecvfrom, if_true, Output.bounded_iff, recvfrom_reported_iff,
        recvfrom_copy_iff stack sa (lenOf_lt fromlen), OutputCall.Fits]
      tauto

/-- Of a buffer that the address fits, the part behind the address is as the caller left it. -/
theorem recvName_init_iff (hle : returnedSize sa ≤ namelen) (i : Nat) :
    (recvName name namelen sa i).init = true <-> (returnedSize sa ≤ i -> (name i).init = true) := by
  have hlen : recvLen namelen sa = returnedSize sa := by
    rw [recvLen_eq, Nat.min_eq_right hle]
  by_cases hbehind : returnedSize sa ≤ i
  · rw [recvName_of_le (hlen.trans_le hbehind)]
    exact ⟨fun h _ => h, fun h => h hbehind⟩
  · cases sa with
    | none => exact absurd (Nat.zero_le i) hbehind
    | some a =>
        have hi : i < a.size := Nat.lt_of_not_le hbehind
        rw [recvName_of_lt (Nat.lt_min.mpr ⟨Nat.lt_of_lt_of_le hi hle, hi⟩), a.cells_init_iff]
        exact ⟨fun _ h => absurd h hbehind, fun _ => hi⟩

theorem recvName_family (hle : returnedSize sa ≤ namelen) :
    lengthByte true (recvName name namelen sa) = recvmsgFamily name sa := by
  cases sa with
  | none => rfl
  | some a =>
      have hone : 1 < a.size := a.header
      show (recvName name namelen (some a) 1).val = a.family
      rw [recvName_of_lt (Nat.lt_min.mpr ⟨Nat.lt_of_lt_of_le hone hle, hone⟩), a.cells_one_val]

theorem ffRecvmsg_bounded_iff (name : Cells) (namelen : UInt32) (sa : Option Address) :
    (ffRecvmsg (some name) namelen sa).Bounded namelen.toNat sa <->
      RecvmsgFits name namelen.toNat sa := by
  have hfirst : (⟨0, recvLen namelen.toNat sa⟩ : Span).Within 0 namelen.toNat := by
    apply Span.within_of_le (Nat.le_refl 0)
    rw [recvLen_eq, Nat.zero_add, Nat.zero_add]
    exact Nat.min_le_left _ _
  have hreported : (forall n, some (recvLen namelen.toNat sa) = some n -> n = returnedSize sa) <->
      returnedSize sa ≤ namelen.toNat := by
    simp [recvLen_eq]
  simp only [ffRecvmsg, Output.bounded_iff, List.forall_mem_cons, hfirst, true_and, hreported,
    freebsd2linuxSockaddr_bounded_iff true _ namelen.toNat_lt]
  constructor
  · rintro ⟨⟨⟨hge, hle⟩, hfamily, hdata⟩, hsize⟩
    rw [recvName_family hsize] at hge hle hdata
    refine ⟨hsize, hge, hle, ?_⟩
    intro i hbehind hi
    rcases hi with rfl | ⟨hlo, hhi⟩
    · exact (recvName_init_iff hsize 1).mp hfamily hbehind
    · exact (recvName_init_iff hsize i).mp (hdata i hlo hhi) hbehind
  · rintro ⟨hsize, hge, hle, hknown⟩
    rw [recvName_family hsize]
    refine ⟨⟨⟨hge, hle⟩, ?_, ?_⟩, hsize⟩
    · exact (recvName_init_iff hsize 1).mpr fun hbehind => hknown 1 hbehind (Or.inl rfl)
    · intro i hlo hhi
      exact (recvName_init_iff hsize i).mpr fun hbehind => hknown i hbehind (Or.inr ⟨hlo, hhi⟩)

/--
Each of the four calls returns, stays inside the caller's buffer, copies only
initialised bytes and reports the size of the address, if and only if the address is
there where the call takes it for granted and fits the caller's buffer.
-/
theorem socket_address_output_bound (call : OutputCall) (sa : Option Address) :
    (exists o, call.run sa = some o ∧ o.Bounded call.supplied sa) <-> call.Fits sa := by
  cases call with
  | recvfrom wanted fromlen stack =>
      simpa [OutputCall.run, OutputCall.supplied] using
        ffRecvfrom_bounded_iff wanted fromlen stack sa
  | recvmsg name namelen =>
      cases name with
      | none =>
          simp [OutputCall.run, OutputCall.Fits, ffRecvmsg, Output.nothing_bounded_iff]
      | some name =>
          simpa [OutputCall.run, OutputCall.supplied, OutputCall.Fits] using
            ffRecvmsg_bounded_iff name namelen sa
  | accept addr addrlen => exact ffAccept_bounded_iff addr addrlen sa
  | getpeername name namelen => exact ffGetpeername_bounded_iff name namelen sa

/-- `ff_accept` writes an IPv4 address of 16 bytes into a buffer of 8 bytes. -/
theorem socket_address_output_overrun : exists o, OutputCall.run
        (some ⟨[16, 2, 0, 80, 127, 0, 0, 1, 0, 0, 0, 0, 0, 0, 0, 0], by decide, by decide⟩)
        (.accept true (some 8)) = some o ∧ exists s, s ∈ o.writes ∧ ¬ s.Within 0 8 := by
  refine ⟨_, rfl, ⟨2, 14⟩, ?_, ?_⟩
  · decide
  · decide

end Sockaddr
end FStackLite
