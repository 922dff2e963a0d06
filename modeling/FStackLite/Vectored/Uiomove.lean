import FStackLite.Constants
import FStackLite.Foundation.Copies

/-!
# Moving bytes between a buffer and a vector

`uiomove` moves bytes between a buffer of the kernel and the buffers that an array of
iovecs describes.  The array is used up on the way: every iovec is left with the part
that is still to be moved.  The kernel's buffers and those of the caller are different
memory, and the array is in neither.
-/

namespace FStackLite
namespace Vectored

open Foundation (Bytes)

structure Iovec where
  iovBase : Nat
  iovLen : UInt64
deriving DecidableEq, Repr

/-- `UIO_READ` is into the vector, `UIO_WRITE` is out of it. -/
inductive UioRw where
  | read
  | write
deriving DecidableEq, Repr

inductive UioSeg where
  | userspace
  | sysspace
  | nocopy
deriving DecidableEq, Repr

/-- `struct uio`; the array is what `uio_iov` has passed and what it points to. -/
structure Uio where
  passed : List Iovec
  iov : List Iovec
  iovcnt : Int
  offset : Int
  resid : Int
  segflg : UioSeg
  rw : UioRw

/-- `beyond` is set when an iovec behind the array is looked at. -/
structure State where
  kernel : Bytes
  user : Bytes
  uio : Uio
  beyond : Bool

def State.array (s : State) : List Iovec :=
  s.uio.passed ++ s.uio.iov

def State.skip (iov : Iovec) (rest : List Iovec) (s : State) : State :=
  { s with uio := { s.uio with
      passed := s.uio.passed ++ [iov]
      iov := rest
      iovcnt := s.uio.iovcnt - 1 } }

/-- The `switch`: `copyin` and `copyout` are `memcpy` and do not fail. -/
def State.copy (cp : Nat) (base cnt : Nat) (s : State) : State :=
  match s.uio.segflg, s.uio.rw with
  | .nocopy, _ => s
  | _, .read => { s with user := s.user.store base cnt (s.kernel.drop cp) }
  | _, .write => { s with kernel := s.kernel.store cp cnt (s.user.drop base) }

def Iovec.advance (cnt : Nat) (iov : Iovec) : Iovec :=
  ⟨iov.iovBase + cnt, iov.iovLen - UInt64.ofNat cnt⟩

/-- `cnt` bytes of the first iovec, at which `uio_iov` stays. -/
def State.move (cp : Nat) (iov : Iovec) (rest : List Iovec) (cnt : Nat) (s : State) : State :=
  { s.copy cp iov.iovBase cnt with uio := { s.uio with
      iov := iov.advance cnt :: rest
      offset := s.uio.offset + cnt
      resid := s.uio.resid - cnt } }

/-- `cnt` is a `u_int`. -/
def Iovec.cnt (iov : Iovec) : Nat :=
  iov.iovLen.toNat % 2 ^ 32

def uiomove (cp : Nat) (n : Int) (s : State) : State :=
  if 0 < n ∧ s.uio.resid ≠ 0 then
    match _hiov : s.uio.iov with
    | [] => { s with beyond := true }
    | iov :: rest =>
        if iov.cnt = 0 then
          uiomove cp n (s.skip iov rest)
        else
          let cnt := if n < iov.cnt then n.toNat else iov.cnt
          uiomove (cp + cnt) (n - cnt) (s.move cp iov rest cnt)
  else
    s
termination_by n.toNat + s.uio.iov.length
decreasing_by
  · simp only [State.skip, _hiov, List.length_cons]
    omega
  · simp only [State.move, _hiov, List.length_cons]
    split <;> omega

/-!
## What is left of a vector
-/

/-- The sum of the `iov_len` fields. -/
def total (iovs : List Iovec) : Nat :=
  (iovs.map fun iov => iov.iovLen.toNat).sum

def Iovec.addrs (iov : Iovec) : List Nat :=
  List.range' iov.iovBase iov.iovLen.toNat

def addrs (iovs : List Iovec) : List Nat :=
  iovs.flatMap Iovec.addrs

structure Uio.Valid (uio : Uio) : Prop where
  resid : uio.resid = total uio.iov
  small : uio.resid ≤ intMax

@[simp] theorem total_nil : total [] = 0 := rfl

@[simp] theorem total_cons (iov : Iovec) (rest : List Iovec) :
    total (iov :: rest) = iov.iovLen.toNat + total rest := by
  simp [total]

theorem total_append (iovs iovs' : List Iovec) : total (iovs ++ iovs') = total iovs + total iovs' := by
  simp [total]

theorem length_addrs (iovs : List Iovec) : (addrs iovs).length = total iovs := by
  induction iovs with
  | nil => rfl
  | cons iov rest ih =>
      rw [total_cons, <- ih]
      simp [addrs, Iovec.addrs]

theorem cnt_le (iov : Iovec) : iov.cnt ≤ iov.iovLen.toNat :=
  Nat.mod_le _ _

theorem advance_iovLen {iov : Iovec} {cnt : Nat} (h : cnt ≤ iov.cnt) :
    (iov.advance cnt).iovLen.toNat = iov.iovLen.toNat - cnt := by
  have hle := Nat.le_trans h (cnt_le iov)
  have hlt : iov.iovLen.toNat < 2 ^ 64 := iov.iovLen.toNat_lt
  have hcnt : (UInt64.ofNat cnt).toNat = cnt := by
    rw [UInt64.toNat_ofNat']
    exact Nat.mod_eq_of_lt (by omega)
  rw [Iovec.advance, UInt64.toNat_sub_of_le, hcnt]
  rw [UInt64.le_iff_toNat_le, hcnt]
  exact hle

theorem addrs_advance {iov : Iovec} {cnt : Nat} (h : cnt ≤ iov.cnt) (rest : List Iovec) :
    addrs (iov :: rest) = List.range' iov.iovBase cnt ++ addrs (iov.advance cnt :: rest) := by
  have hle := Nat.le_trans h (cnt_le iov)
  have hsplit : List.range' iov.iovBase iov.iovLen.toNat =
      List.range' iov.iovBase cnt ++ List.range' (iov.iovBase + cnt) (iov.iovLen.toNat - cnt) := by
    rw [List.range'_append_1]
    congr 1
    omega
  have hleft : (iov.advance cnt).addrs =
      List.range' (iov.iovBase + cnt) (iov.iovLen.toNat - cnt) := by
    rw [Iovec.addrs, advance_iovLen h]
    rfl
  rw [addrs, addrs, List.flatMap_cons, List.flatMap_cons, hleft, Iovec.addrs, hsplit,
    List.append_assoc]

section

variable {s : State} {iov : Iovec} {rest : List Iovec}

theorem Uio.Valid.cnt_eq (h : s.uio.Valid) (hiov : s.uio.iov = iov :: rest) :
    iov.cnt = iov.iovLen.toNat := by
  have hresid := h.resid
  have hsmall := h.small
  rw [hiov, total_cons] at hresid
  unfold intMax at hsmall
  exact Nat.mod_eq_of_lt (by omega)

theorem Uio.Valid.iov_ne_nil (h : s.uio.Valid) (hresid : s.uio.resid ≠ 0) : s.uio.iov ≠ [] := by
  intro hnil
  have htotal := h.resid
  rw [hnil] at htotal
  exact hresid htotal

end

/-!
## What is moved
-/

/-- `k` bytes are moved between the buffer and the first bytes of the vector. -/
structure Moved (cp k : Nat) (s s' : State) : Prop where
  enough : k ≤ total s.uio.iov
  read : s.uio.rw = .read ->
    s'.user = Bytes.copyEach s.kernel
        ((List.range' cp k).zip ((addrs s.uio.iov).take k)) s.user ∧
      s'.kernel = s.kernel
  write : s.uio.rw = .write ->
    s'.kernel = Bytes.copyEach s.user
        (((addrs s.uio.iov).take k).zip (List.range' cp k)) s.kernel ∧
      s'.user = s.user
  left : addrs s'.uio.iov = (addrs s.uio.iov).drop k
  offset : s'.uio.offset = s.uio.offset + k
  resid : s'.uio.resid = s.uio.resid - k
  beyond : s'.beyond = s.beyond
  rw : s'.uio.rw = s.uio.rw
  segflg : s'.uio.segflg = s.uio.segflg

namespace Moved

variable {cp k k' : Nat} {s s' s'' : State}

theorem refl (cp : Nat) (s : State) : Moved cp 0 s s := by
  refine ⟨Nat.zero_le _, ?_, ?_, rfl, ?_, ?_, rfl, rfl, rfl⟩
  · intro _
    exact ⟨rfl, rfl⟩
  · intro _
    exact ⟨rfl, rfl⟩
  · simp
  · simp

theorem total_eq (h : Moved cp k s s') : total s'.uio.iov = total s.uio.iov - k := by
  rw [<- length_addrs, h.left, List.length_drop, length_addrs]

theorem valid (h : Moved cp k s s') (hvalid : s.uio.Valid) : s'.uio.Valid := by
  have hresid := h.resid
  have henough := h.enough
  have hold := hvalid.resid
  have hsmall := hvalid.small
  constructor
  · rw [h.total_eq]
    omega
  · omega

theorem trans (h : Moved cp k s s') (h' : Moved (cp + k) k' s' s'') : Moved cp (k + k') s s'' := by
  have henough := h.enough
  have henough' := h'.enough
  rw [h.total_eq] at henough'
  have haddrs : (addrs s.uio.iov).take (k + k') =
      (addrs s.uio.iov).take k ++ (addrs s'.uio.iov).take k' := by
    rw [List.take_add, h.left]
  have hrange : List.range' cp (k + k') = List.range' cp k ++ List.range' (cp + k) k' :=
    List.range'_append_1.symm
  have hlength : ((addrs s.uio.iov).take k).length = (List.range' cp k).length := by
    rw [List.length_take, length_addrs, List.length_range']
    omega
  constructor
  · omega
  · intro hread
    rcases h.read hread with ⟨huser, hkernel⟩
    rcases h'.read (h.rw.trans hread) with ⟨huser', hkernel'⟩
    rw [haddrs, hrange, List.zip_append hlength.symm, Bytes.copyEach_append, <- huser, <- hkernel]
    exact ⟨huser', hkernel'⟩
  · intro hwrite
    rcases h.write hwrite with ⟨hkernel, huser⟩
    rcases h'.write (h.rw.trans hwrite) with ⟨hkernel', huser'⟩
    rw [haddrs, hrange, List.zip_append hlength, Bytes.copyEach_append, <- hkernel, <- huser]
    exact ⟨hkernel', huser'⟩
  · rw [h'.left, h.left, List.drop_drop]
  · rw [h'.offset, h.offset]
    omega
  · rw [h'.resid, h.resid]
    omega
  · exact h'.beyond.trans h.beyond
  · exact h'.rw.trans h.rw
  · exact h'.segflg.trans h.segflg

end Moved

section

variable {s : State} {iov : Iovec} {rest : List Iovec} (cp : Nat)

theorem skip_moved (hiov : s.uio.iov = iov :: rest) (hlen : iov.iovLen.toNat = 0) :
    Moved cp 0 s (s.skip iov rest) := by
  have haddrs : addrs s.uio.iov = addrs rest := by
    rw [hiov]
    simp [addrs, Iovec.addrs, hlen]
  refine ⟨Nat.zero_le _, ?_, ?_, ?_, ?_, ?_, rfl, rfl, rfl⟩
  · intro _
    exact ⟨rfl, rfl⟩
  · intro _
    exact ⟨rfl, rfl⟩
  · exact haddrs.symm
  · simp [State.skip]
  · simp [State.skip]

theorem move_moved (hiov : s.uio.iov = iov :: rest) (hseg : s.uio.segflg = .sysspace) {cnt : Nat}
    (hcnt : cnt ≤ iov.cnt) : Moved cp cnt s (s.move cp iov rest cnt) := by
  have haddrs : addrs s.uio.iov =
      List.range' iov.iovBase cnt ++ addrs (iov.advance cnt :: rest) := by
    rw [hiov]
    exact addrs_advance hcnt rest
  have hfirst : (addrs s.uio.iov).take cnt = List.range' iov.iovBase cnt := by
    rw [haddrs]
    exact List.take_left' List.length_range'
  have hle := Nat.le_trans hcnt (cnt_le iov)
  refine ⟨?_, ?_, ?_, ?_, rfl, rfl, ?_, rfl, rfl⟩
  · rw [hiov, total_cons]
    omega
  · intro hread
    rw [hfirst, Bytes.copyEach_range]
    simp only [State.move, State.copy, hseg, hread, and_self]
  · intro hwrite
    rw [hfirst, Bytes.copyEach_range]
    simp only [State.move, State.copy, hseg, hwrite, and_self]
  · rw [haddrs]
    exact (List.drop_left' List.length_range').symm
  · simp only [State.move, State.copy, hseg]
    cases s.uio.rw with
    | read => rfl
    | write => rfl

end

/-!
## Whole calls
-/

section

variable (cp : Nat) {n : Int} {s : State}

theorem uiomove_done (h : n ≤ 0 ∨ s.uio.resid = 0) : uiomove cp n s = s := by
  have hstop : ¬ (0 < n ∧ s.uio.resid ≠ 0) := by omega
  rw [uiomove, if_neg hstop]

variable (hpos : 0 < n) (hresid : s.uio.resid ≠ 0)

include hpos hresid

theorem uiomove_nil (hiov : s.uio.iov = []) : uiomove cp n s = { s with beyond := true } := by
  rw [uiomove, if_pos ⟨hpos, hresid⟩]
  split
  · rfl
  · next heq =>
      rw [hiov] at heq
      contradiction

variable {iov : Iovec} {rest : List Iovec} (hiov : s.uio.iov = iov :: rest)

include hiov

theorem uiomove_skip (hcnt : iov.cnt = 0) : uiomove cp n s = uiomove cp n (s.skip iov rest) := by
  rw [uiomove, if_pos ⟨hpos, hresid⟩]
  split
  · next heq =>
      rw [hiov] at heq
      contradiction
  · next iov' rest' heq =>
      rw [hiov] at heq
      injection heq with hhead htail
      subst hhead htail
      rw [if_pos hcnt]

theorem uiomove_move (hcnt : iov.cnt ≠ 0) : uiomove cp n s =
      uiomove (cp + min iov.cnt n.toNat) (n - (min iov.cnt n.toNat : Nat))
        (s.move cp iov rest (min iov.cnt n.toNat)) := by
  have hmin : (if n < iov.cnt then n.toNat else iov.cnt) = min iov.cnt n.toNat := by
    split <;> omega
  rw [uiomove, if_pos ⟨hpos, hresid⟩]
  split
  · next heq =>
      rw [hiov] at heq
      contradiction
  · next iov' rest' heq =>
      rw [hiov] at heq
      injection heq with hhead htail
      subst hhead htail
      rw [if_neg hcnt]
      simp only [hmin]

end

theorem uiomove_moved (cp : Nat) (n : Int) {s : State} (hvalid : s.uio.Valid)
    (hseg : s.uio.segflg = .sysspace) :
    Moved cp (min n.toNat (total s.uio.iov)) s (uiomove cp n s) := by
  induction cp, n, s using uiomove.induct with
  | case1 cp n s hgo hnil => exact absurd hnil (hvalid.iov_ne_nil hgo.2)
  | case2 cp n s hgo iov rest hiov hcnt ih =>
      rw [uiomove_skip cp hgo.1 hgo.2 hiov hcnt]
      rw [hvalid.cnt_eq hiov] at hcnt
      have hskip := skip_moved cp hiov hcnt
      have hrest := ih (hskip.valid hvalid) hseg
      have htotal := hskip.total_eq
      rw [htotal] at hrest
      have hboth := hskip.trans hrest
      rwa [Nat.zero_add] at hboth
  | case3 cp n s hgo iov rest hiov hcnt cnt ih =>
      have hmin : cnt = min iov.cnt n.toNat := by
        unfold cnt
        split <;> omega
      rw [hmin] at ih
      rw [uiomove_move cp hgo.1 hgo.2 hiov hcnt]
      have hmove := move_moved cp hiov hseg (Nat.min_le_left iov.cnt n.toNat)
      have hrest := ih (hmove.valid hvalid) (hmove.segflg.trans hseg)
      have htotal := hmove.total_eq
      have hall : min n.toNat (total s.uio.iov) = min iov.cnt n.toNat +
          min (n - (min iov.cnt n.toNat : Nat)).toNat
            (total (s.move cp iov rest (min iov.cnt n.toNat)).uio.iov) := by
        have henough := hmove.enough
        rw [htotal]
        omega
      rw [hall]
      exact hmove.trans hrest
  | case4 cp n s hstop =>
      have hdone : n ≤ 0 ∨ s.uio.resid = 0 := by omega
      have hnone : min n.toNat (total s.uio.iov) = 0 := by
        have hresid := hvalid.resid
        omega
      rw [uiomove_done cp hdone, hnone]
      exact Moved.refl cp s

/-!
## Two calls in a row
-/

theorem advance_advance (iov : Iovec) (m k : Nat) :
    (iov.advance m).advance k = iov.advance (m + k) := by
  simp only [Iovec.advance, Iovec.mk.injEq]
  constructor
  · exact Nat.add_assoc _ _ _
  · rw [UInt64.ofNat_add]
    grind

theorem move_add (cp : Nat) (iov : Iovec) (rest : List Iovec) (m k : Nat) (s : State) :
    (s.move cp iov rest m).move (cp + m) (iov.advance m) rest k = s.move cp iov rest (m + k) := by
  have hread := Bytes.store_store_add s.user (s.kernel.drop cp) iov.iovBase m k
  have hwrite := Bytes.store_store_add s.kernel (s.user.drop iov.iovBase) cp m k
  rw [Bytes.drop_drop] at hread hwrite
  have huio : (s.uio.offset + m + k = s.uio.offset + (m + k : Nat)) ∧
      (s.uio.resid - m - k = s.uio.resid - (m + k : Nat)) := by
    omega
  have hbase : (iov.advance m).iovBase = iov.iovBase + m := rfl
  unfold State.move State.copy
  rw [advance_advance, hbase]
  cases hseg : s.uio.segflg with
  | nocopy => simp only [huio]
  | _ =>
      cases hrw : s.uio.rw with
      | read => simp only [huio, hread]
      | write => simp only [huio, hwrite]

section

variable {s : State} {iov : Iovec} {rest : List Iovec} (cp : Nat)

theorem move_valid (hiov : s.uio.iov = iov :: rest) {cnt : Nat} (hcnt : cnt ≤ iov.cnt)
    (hvalid : s.uio.Valid) : (s.move cp iov rest cnt).uio.Valid := by
  have hresid := hvalid.resid
  have hsmall := hvalid.small
  have hlen := hvalid.cnt_eq hiov
  rw [hiov, total_cons] at hresid
  constructor
  · show s.uio.resid - cnt = total (iov.advance cnt :: rest)
    rw [total_cons, advance_iovLen hcnt]
    omega
  · show s.uio.resid - cnt ≤ intMax
    omega

theorem uiomove_part (hvalid : s.uio.Valid) (hiov : s.uio.iov = iov :: rest) {n n' : Int}
    (hpos : 0 < n) (hresid : s.uio.resid ≠ 0) (hpart : n.toNat < iov.cnt) (hn' : 0 ≤ n') :
    uiomove (cp + n.toNat) n' (uiomove cp n s) = uiomove cp (n + n') s := by
  have hcnt : iov.cnt ≠ 0 := by omega
  have hmin : min iov.cnt n.toNat = n.toNat := Nat.min_eq_right (Nat.le_of_lt hpart)
  have hzero : n - n.toNat ≤ 0 := by omega
  have hvalid' := move_valid cp hiov (Nat.le_of_lt hpart) hvalid
  have hadvance := advance_iovLen (Nat.le_of_lt hpart)
  have hlen := hvalid.cnt_eq hiov
  have hlen' : (iov.advance n.toNat).cnt = iov.cnt - n.toNat := by
    rw [hvalid'.cnt_eq rfl, hadvance, hlen]
  rw [uiomove_move cp hpos hresid hiov hcnt, hmin, uiomove_done _ (Or.inl hzero),
    uiomove_move cp (show 0 < n + n' by omega) hresid hiov hcnt]
  by_cases hnone : n' = 0
  · have hmin' : min iov.cnt (n + n').toNat = n.toNat := by omega
    rw [hmin', uiomove_done _ (Or.inl (by omega)), uiomove_done _ (Or.inl (by omega))]
  · have hleft : (s.move cp iov rest n.toNat).uio.resid ≠ 0 := by
      have htotal := hvalid'.resid
      have hfirst : total (s.move cp iov rest n.toNat).uio.iov =
          (iov.advance n.toNat).iovLen.toNat + total rest := total_cons _ _
      omega
    have hmin' : min iov.cnt (n + n').toNat = n.toNat + min (iov.cnt - n.toNat) n'.toNat := by
      omega
    have hcp : cp + (n.toNat + min (iov.cnt - n.toNat) n'.toNat) =
        cp + n.toNat + min (iov.cnt - n.toNat) n'.toNat := (Nat.add_assoc _ _ _).symm
    have hrest : n + n' - (n.toNat + min (iov.cnt - n.toNat) n'.toNat : Nat) =
        n' - (min (iov.cnt - n.toNat) n'.toNat : Nat) := by
      omega
    rw [uiomove_move _ (by omega) hleft rfl (by omega), hlen', hmin', move_add, hcp, hrest]

end

theorem uiomove_uiomove (cp : Nat) (n n' : Int) {s : State} (hn : 0 ≤ n) (hn' : 0 ≤ n')
    (hvalid : s.uio.Valid) :
    uiomove (cp + n.toNat) n' (uiomove cp n s) = uiomove cp (n + n') s := by
  induction cp, n, s using uiomove.induct with
  | case1 cp n s hgo hnil => exact absurd hnil (hvalid.iov_ne_nil hgo.2)
  | case2 cp n s hgo iov rest hiov hcnt ih =>
      have hlen := hcnt
      rw [hvalid.cnt_eq hiov] at hlen
      rw [uiomove_skip cp hgo.1 hgo.2 hiov hcnt, uiomove_skip cp (by omega) hgo.2 hiov hcnt]
      exact ih hn ((skip_moved cp hiov hlen).valid hvalid)
  | case3 cp n s hgo iov rest hiov hcnt cnt ih =>
      have hresid := hvalid.resid
      have hlen := hvalid.cnt_eq hiov
      rw [hiov, total_cons, <- hlen] at hresid
      cases Nat.lt_or_ge n.toNat iov.cnt with
      | inr hall =>
          have hcntEq : cnt = iov.cnt := if_neg (by omega)
          have hmin : min iov.cnt n.toNat = iov.cnt := Nat.min_eq_left hall
          have hmin' : min iov.cnt (n + n').toNat = iov.cnt := Nat.min_eq_left (by omega)
          rw [hcntEq] at ih
          rw [uiomove_move cp hgo.1 hgo.2 hiov hcnt, uiomove_move cp (by omega) hgo.2 hiov hcnt,
            hmin, hmin']
          have hrest := ih (by omega) ((move_valid cp hiov (Nat.le_refl _) hvalid))
          have hcp : cp + iov.cnt + (n - iov.cnt).toNat = cp + n.toNat := by omega
          have hleft : n - iov.cnt + n' = n + n' - iov.cnt := by omega
          rwa [hcp, hleft] at hrest
      | inl hpart => exact uiomove_part cp hvalid hiov hgo.1 hgo.2 hpart hn'
  | case4 cp n s hstop =>
      by_cases hresid : s.uio.resid = 0
      · rw [uiomove_done cp (Or.inr hresid), uiomove_done _ (Or.inr hresid),
          uiomove_done _ (Or.inr hresid)]
      · have hzero : n = 0 := by omega
        subst hzero
        rw [uiomove_done cp (Or.inl (Int.le_refl 0)), Int.zero_add]
        rfl

/--
A call moves `min n uio_resid` bytes between the buffer and the first bytes of the
vector, and a call behind it goes on as if both were one call.
-/
theorem uiomove_correct (cp n n' : Nat) {s : State} (hvalid : s.uio.Valid)
    (hseg : s.uio.segflg = .sysspace) (hbeyond : s.beyond = false) :
    Moved cp (min n s.uio.resid.toNat) s (uiomove cp n s) ∧
      (uiomove cp n s).uio.resid = total (uiomove cp n s).uio.iov ∧
      (uiomove cp n s).beyond = false ∧
      uiomove (cp + n) n' (uiomove cp n s) = uiomove cp (n + n' : Nat) s := by
  have hmoved := uiomove_moved cp n hvalid hseg
  have hall : min (n : Int).toNat (total s.uio.iov) = min n s.uio.resid.toNat := by
    have hresid := hvalid.resid
    omega
  rw [hall] at hmoved
  refine ⟨hmoved, (hmoved.valid hvalid).resid, hmoved.beyond.trans hbeyond, ?_⟩
  have htwo := uiomove_uiomove cp n n' (Int.natCast_nonneg n) (Int.natCast_nonneg n') hvalid
  rw [Int.toNat_natCast] at htwo
  rw [htwo]
  rfl

def readThree : State where
  kernel := fun k => UInt8.ofNat k
  user := fun _ => 0
  uio := ⟨[], [⟨100, 2⟩, ⟨200, 0⟩, ⟨300, 3⟩], 3, 0, 5, .sysspace, .read⟩
  beyond := false

theorem uiomove_correct_three :
    readThree.uio.Valid ∧ Moved 10 (min 4 5) readThree (uiomove 10 (4 : Nat) readThree) := by
  have hvalid : readThree.uio.Valid := ⟨by decide, by decide⟩
  exact ⟨hvalid, (uiomove_correct 10 4 0 hvalid rfl rfl).1⟩

end Vectored
end FStackLite
