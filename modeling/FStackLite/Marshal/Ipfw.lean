import FStackLite.Marshal.Request

/-!
# Requests of the firewall tool

`ipfw_ctl` copies the value of an option and its length into a message.  The size of the
request is computed as a `size_t`, kept in an `int` and compared with the size of the
buffer as a `size_t` again.
-/

namespace FStackLite
namespace Marshal

open Foundation (Span)

/-- `sizeof(struct ff_ipfw_args)` -/
def sizeofIpfwArgs : Nat := 32

inductive IpfwCmd where
  | get
  | set
  /-- Any other value of the argument. -/
  | other
deriving DecidableEq, Repr

structure IpfwArgs where
  cmd : IpfwCmd
  level : Int
  optname : Int
  optval : Nat
  optlen : Nat
deriving DecidableEq, Repr

/-- `int len`; the length that the caller passes is a `socklen_t`. -/
def ipfwLen (optlen : UInt32) : Int :=
  (((sizeofIpfwArgs + optlen.toNat + 4) % sizeMod : Nat) : Int).bmod (2 ^ 32)

/-- An `int` that is compared with a `size_t`. -/
def asSize (n : Int) : Nat :=
  (n % sizeMod).toNat

/-- How the exchange ends; the reply has a result and a length of the option. -/
inductive IpfwExchange where
  | sendFailed
  | recvFailed
  | reply (result : Int) (optlen : UInt32)
deriving DecidableEq, Repr

/--
The arguments that go into the message, what is written to it, the number of bytes that
are copied back to `optval`, the length stored in `*optlen`, the result and `errno`.
-/
structure IpfwEffect where
  args : Option IpfwArgs
  writes : List Span
  copied : Nat
  optlen : Option UInt32
  ret : Int
  errno : Option Int
deriving DecidableEq, Repr

def IpfwEffect.refuse (ret : Int) (errno : Option Int) : IpfwEffect :=
  ⟨none, [], 0, none, ret, errno⟩

def ipfwWrites (data : Nat) (optlen : UInt32) : List Span :=
  [⟨data, optlen.toNat⟩, ⟨data + optlen.toNat, 4⟩]

/-- `given` says that `optval` and the pointer to its length are not `NULL`. -/
def ipfwCtl (cmd : IpfwCmd) (level optname : Int) (given : Bool) (optlen : UInt32)
    (msg : Option Msg) (exchange : IpfwExchange) : IpfwEffect :=
  if cmd = .other ∨ (cmd = .get ∧ given = false) then
    .refuse einval none
  else
    match msg with
    | none => .refuse (-1) (some enomem)
    | some msg =>
        if msg.bufLen < asSize (ipfwLen optlen) then
          .refuse (-1) (some einval)
        else
          let args : IpfwArgs := ⟨cmd, level, optname, msg.bufAddr, msg.bufAddr + optlen.toNat⟩
          let writes := ipfwWrites msg.bufAddr optlen
          match exchange with
          | .sendFailed => ⟨some args, writes, 0, none, -1, some epipe⟩
          | .recvFailed => ⟨some args, writes, 0, none, -1, some epipe⟩
          | .reply result reported =>
              if result ≠ 0 then
                ⟨some args, writes, 0, none, -1, some result⟩
              else if cmd = .get then
                ⟨some args, writes, reported.toNat, some reported, 0, none⟩
              else
                ⟨some args, writes, 0, none, 0, none⟩

/-!
## Bounds
-/

def IpfwFits (optlen : UInt32) (msg : Msg) : Prop :=
  asSize (ipfwLen optlen) ≤ msg.bufLen

variable {optlen : UInt32}

theorem ipfwFits_iff {msg : Msg} (hbuf : msg.bufLen = maxMsgBufSize - sizeofMsg) :
    IpfwFits optlen msg <-> sizeofIpfwArgs + optlen.toNat + 4 ≤ msg.bufLen ∨
        2 ^ 32 ≤ sizeofIpfwArgs + optlen.toNat + 4 := by
  have hlt : optlen.toNat < 2 ^ 32 := optlen.toNat_lt
  have hroom : msg.bufLen = 10112 := hbuf
  have hsum : (sizeofIpfwArgs + optlen.toNat + 4) % sizeMod = 36 + optlen.toNat := by
    unfold sizeofIpfwArgs sizeMod
    omega
  unfold IpfwFits asSize ipfwLen
  rw [hsum, Int.bmod_def, hroom]
  unfold sizeofIpfwArgs sizeMod
  split
  · omega
  · omega

theorem ipfwCtl_writes {cmd : IpfwCmd} {given : Bool} {msg : Msg}
    (hcmd : ¬ (cmd = .other ∨ (cmd = .get ∧ given = false))) (hfits : IpfwFits optlen msg)
    (level optname : Int) (exchange : IpfwExchange) :
    (ipfwCtl cmd level optname given optlen (some msg) exchange).writes =
      ipfwWrites msg.bufAddr optlen := by
  simp only [ipfwCtl, if_neg hcmd, if_neg (Nat.not_lt.mpr hfits)]
  cases exchange with
  | sendFailed => rfl
  | recvFailed => rfl
  | reply result reported =>
      simp only
      split
      · rfl
      · split
        · rfl
        · rfl

def IpfwExchange.Modest (optlen : UInt32) : IpfwExchange -> Prop
  | .reply _ reported => reported ≤ optlen
  | _ => True

theorem ipfwCtl_copied_le {exchange : IpfwExchange} (h : exchange.Modest optlen) (cmd : IpfwCmd)
    (level optname : Int) (given : Bool) (msg : Option Msg) :
    (ipfwCtl cmd level optname given optlen msg exchange).copied ≤ optlen.toNat := by
  unfold ipfwCtl
  split
  · exact Nat.zero_le _
  · split
    · exact Nat.zero_le _
    · split
      · exact Nat.zero_le _
      · cases exchange with
        | sendFailed => exact Nat.zero_le _
        | recvFailed => exact Nat.zero_le _
        | reply result reported =>
            simp only
            split
            · exact Nat.zero_le _
            · split
              · exact UInt32.le_iff_toNat_le.mp h
              · exact Nat.zero_le _

section

variable {cmd : IpfwCmd} {given : Bool} {optlen : UInt32} {msg : Msg} {exchange : IpfwExchange}

/--
The value of an option and its length are written into the buffer, and no more is copied
back than the caller has room for, if and only if the size of the request is not one that
an `int` of 32 bits takes for a small number.
-/
theorem ipfw_marshalling_bound (hbuf : msg.bufLen = maxMsgBufSize - sizeofMsg)
    (hcmd : ¬ (cmd = .other ∨ (cmd = .get ∧ given = false))) (hfits : IpfwFits optlen msg)
    (hmodest : exchange.Modest optlen) (level optname : Int) :
    ((forall r, r ∈ (ipfwCtl cmd level optname given optlen (some msg) exchange).writes ->
          r.Within msg.bufAddr msg.bufLen) ∧
        (ipfwCtl cmd level optname given optlen (some msg) exchange).copied ≤ optlen.toNat) <->
      optlen.toNat < 2 ^ 32 - 36 := by
  have hcopied := ipfwCtl_copied_le hmodest cmd level optname given (some msg)
  have hroom : msg.bufLen = 10112 := hbuf
  have hargs : sizeofIpfwArgs = 32 := rfl
  rw [and_iff_left hcopied, ipfwCtl_writes hcmd hfits]
  rw [ipfwFits_iff hbuf] at hfits
  simp only [ipfwWrites, List.forall_mem_cons, List.not_mem_nil, false_implies, implies_true,
    and_true, Span.within_iff]
  omega

end

/-- An option of 256 bytes. -/
theorem ipfw_marshalling_bound_short : IpfwFits 256 ⟨.unknown, 0, 10112, 128, .blank⟩ ∧
      (ipfwCtl .get 0 0 true 256 (some ⟨.unknown, 0, 10112, 128, .blank⟩) (.reply 0 200)).copied ≤
        256 := by
  have hfits : IpfwFits 256 ⟨.unknown, 0, 10112, 128, .blank⟩ := by
    unfold IpfwFits
    decide
  exact ⟨hfits, ((ipfw_marshalling_bound rfl (by decide) hfits
    (show IpfwExchange.Modest 256 (.reply 0 200) by unfold IpfwExchange.Modest; decide) 0 0).mpr
      (by decide)).2⟩

/-- A length of `2 ^ 32 - 1` passes the check, and is copied. -/
theorem ipfw_marshalling_overrun : IpfwFits 0xffffffff ⟨.unknown, 0, 10112, 128, .blank⟩ ∧
      ¬ (⟨128, 0xffffffff⟩ : Span).Within 128 10112 ∧ (⟨128, 0xffffffff⟩ : Span) ∈
        (ipfwCtl .set 0 0 true 0xffffffff (some ⟨.unknown, 0, 10112, 128, .blank⟩)
          .sendFailed).writes := by
  refine ⟨?_, by decide, by decide⟩
  unfold IpfwFits
  decide

end Marshal
end FStackLite
