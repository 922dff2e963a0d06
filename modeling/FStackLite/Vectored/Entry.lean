import FStackLite.Vectored.Uiomove
import Mathlib.Algebra.Order.Ring.Nat

/-!
# Vectors that the application passes in

`ff_readv` and `ff_writev` add the lengths up in an `int` and hand the caller's own
array to the kernel, on an open socket.  `copyinuio`, which the system calls use, checks
every addition and makes a copy of the array.
-/

namespace FStackLite
namespace Vectored

open Foundation (Bytes)

/-- `UIO_MAXIOV` -/
def uioMaxiov : Nat := 1024

/-- `len += iov[i].iov_len` -/
def addLen (len : Int) (iov : Iovec) : Int :=
  (len + iov.iovLen.toNat).bmod (2 ^ 32)

def vectorLen (iovs : List Iovec) : Int :=
  iovs.foldl addLen 0

/-- The request for a call; `uio_rw` and `uio_offset` are set below `kern_readv` and `kern_writev`. -/
def auio (rw : UioRw) (iovs : List Iovec) : Uio where
  passed := []
  iov := iovs
  iovcnt := iovs.length
  offset := -1
  resid := vectorLen iovs
  segflg := .sysspace
  rw := rw

inductive Start where
  | fails (error : Int)
  | transfers (uio : Uio)

/-- `soreceive` looks at no length. -/
def soreceive (uio : Uio) : Start :=
  .transfers uio

/-- `sosend_generic` and `sosend_dgram` refuse a negative length. -/
def sosend (uio : Uio) : Start :=
  if uio.resid < 0 then .fails einval else .transfers uio

def ffReadv (iovs : List Iovec) : Start :=
  soreceive (auio .read iovs)

def ffWritev (iovs : List Iovec) : Start :=
  sosend (auio .write iovs)

/-- The loop of `copyinuio` over the iovecs. -/
def copyinLens : List Iovec -> Int -> Option Int
  | [], resid => some resid
  | iov :: rest, resid =>
      if intMax - resid < iov.iovLen.toNat then
        none
      else
        copyinLens rest (resid + iov.iovLen.toNat)

/-- `alloc` says that there is memory; `rw` is not set. -/
def copyinuio (alloc : Bool) (rw : UioRw) (iovp : List Iovec) : Except Int Uio :=
  if uioMaxiov < iovp.length then
    .error einval
  else if !alloc then
    .error enomem
  else
    match copyinLens iovp 0 with
    | none => .error einval
    | some resid =>
        .ok
          { passed := []
            iov := iovp
            iovcnt := iovp.length
            offset := -1
            resid := resid
            segflg := .userspace
            rw := rw }

/-!
## The length of a vector
-/

theorem foldl_addLen (iovs : List Iovec) (len : Int) :
    iovs.foldl addLen (len.bmod (2 ^ 32)) = (len + total iovs).bmod (2 ^ 32) := by
  induction iovs generalizing len with
  | nil => simp
  | cons iov rest ih =>
      rw [List.foldl_cons, addLen, Int.bmod_add_bmod, ih, total_cons]
      push_cast
      rw [Int.add_assoc]

theorem vectorLen_eq (iovs : List Iovec) : vectorLen iovs = (total iovs : Int).bmod (2 ^ 32) := by
  have hfold := foldl_addLen iovs 0
  rw [Int.zero_bmod, Int.zero_add] at hfold
  exact hfold

theorem vectorLen_small {iovs : List Iovec} (h : (total iovs : Int) ≤ intMax) :
    vectorLen iovs = total iovs := by
  unfold intMax at h
  rw [vectorLen_eq]
  exact Int.bmod_eq_of_le (by omega) (by omega)

theorem copyinLens_eq (iovs : List Iovec) {resid : Int} (h : resid ≤ intMax) :
    copyinLens iovs resid =
      if resid + total iovs ≤ intMax then some (resid + total iovs) else none := by
  induction iovs generalizing resid with
  | nil => simp [copyinLens, h]
  | cons iov rest ih =>
      rw [copyinLens, total_cons]
      push_cast
      split
      · next hbig =>
          rw [if_neg (by omega)]
      · next hfits =>
          rw [ih (by omega), Int.add_assoc]

/-- The vectors that `copyinuio` takes. -/
theorem copyinuio_eq (rw : UioRw) (iovs : List Iovec) : (copyinuio true rw iovs = .error einval ∧
        ¬ ((total iovs : Int) ≤ intMax ∧ iovs.length ≤ uioMaxiov)) ∨
      exists uio, copyinuio true rw iovs = .ok uio ∧ uio.resid = total iovs ∧
        (total iovs : Int) ≤ intMax ∧ iovs.length ≤ uioMaxiov := by
  have hlens := copyinLens_eq iovs (show (0 : Int) ≤ intMax by decide)
  rw [Int.zero_add] at hlens
  unfold copyinuio
  rw [hlens]
  cases Nat.lt_or_ge uioMaxiov iovs.length with
  | inl hmany =>
      rw [if_pos hmany]
      exact Or.inl ⟨rfl, by omega⟩
  | inr hfew =>
      rw [if_neg (Nat.not_lt.mpr hfew)]
      by_cases hsmall : (total iovs : Int) ≤ intMax
      · rw [if_pos hsmall]
        exact Or.inr ⟨_, rfl, rfl, hsmall, hfew⟩
      · rw [if_neg hsmall]
        exact Or.inl ⟨rfl, fun h => hsmall h.1⟩

/--
A call and `copyinuio` both take the vector with the sum of its lengths, or both refuse
it because the sum is too large.
-/
def DecidesAs (iovs : List Iovec) (start : Start) (copied : Except Int Uio) : Prop :=
  (exists uio copy, start = .transfers uio ∧ uio.resid = total iovs ∧
      copied = .ok copy ∧ copy.resid = total iovs) ∨
    (start = .fails einval ∧ copied = .error einval ∧ intMax < total iovs)

/--
The two calls decide as `copyinuio` does if and only if the lengths add up to no more
than `INT_MAX` and there are not too many of them.
-/
theorem vector_length (rw : UioRw) (iovs : List Iovec) :
    (DecidesAs iovs (ffReadv iovs) (copyinuio true rw iovs) ∧
        DecidesAs iovs (ffWritev iovs) (copyinuio true rw iovs)) <->
      (total iovs : Int) ≤ intMax ∧ iovs.length ≤ uioMaxiov := by
  constructor
  · rintro ⟨hread, _⟩
    rcases hread with ⟨_, copy, _, _, hcopied, _⟩ | ⟨hfails, _⟩
    · rcases copyinuio_eq rw iovs with ⟨hrefused, _⟩ | ⟨_, _, _, hcond⟩
      · rw [hrefused] at hcopied
        contradiction
      · exact hcond
    · contradiction
  · intro hcond
    have hlen := vectorLen_small hcond.1
    rcases copyinuio_eq rw iovs with ⟨_, hnot⟩ | ⟨copy, hcopied, hresid, _⟩
    · exact absurd hcond hnot
    · have hwrite : ffWritev iovs = .transfers (auio .write iovs) := by
        apply if_neg
        show ¬ vectorLen iovs < 0
        omega
      exact ⟨Or.inl ⟨auio .read iovs, copy, rfl, hlen, hcopied, hresid⟩,
        Or.inl ⟨auio .write iovs, copy, hwrite, hlen, hcopied, hresid⟩⟩

/-- Lengths that add up to `2 ^ 32 + 5` are taken for five bytes. -/
theorem vector_length_wraps :
    total [⟨0, 0x100000000⟩, ⟨0, 5⟩] = 2 ^ 32 + 5 ∧ vectorLen [⟨0, 0x100000000⟩, ⟨0, 5⟩] = 5 ∧
      ¬ DecidesAs [⟨0, 0x100000000⟩, ⟨0, 5⟩] (ffReadv [⟨0, 0x100000000⟩, ⟨0, 5⟩])
        (copyinuio true .read [⟨0, 0x100000000⟩, ⟨0, 5⟩]) := by
  refine ⟨by decide, by decide, ?_⟩
  rintro (⟨_, copy, _, _, hcopied, _⟩ | ⟨hfails, _⟩)
  · contradiction
  · contradiction

/-!
## The caller's array

A transfer is a number of calls of `uiomove`, each with a buffer of the kernel.
-/

structure Call where
  kernel : Bytes
  cp : Nat
  n : Int

def State.call (s : State) (c : Call) : State :=
  uiomove c.cp c.n { s with kernel := c.kernel }

/-- The caller's array after a transfer; `user` is the memory of the buffers. -/
def Start.arrayAfter (iovs : List Iovec) (user : Bytes) (calls : List Call) : Start -> List Iovec
  | .fails _ => iovs
  | .transfers uio => (calls.foldl State.call ⟨fun _ => 0, user, uio, false⟩).array

section

variable {s : State} {iov : Iovec} {rest : List Iovec}

theorem skip_array (hiov : s.uio.iov = iov :: rest) : (s.skip iov rest).array = s.array := by
  simp [State.array, State.skip, hiov]

theorem move_array_total (cp : Nat) (hiov : s.uio.iov = iov :: rest) {cnt : Nat}
    (hcnt : cnt ≤ iov.cnt) : total (s.move cp iov rest cnt).array + cnt = total s.array := by
  have hle := Nat.le_trans hcnt (cnt_le iov)
  have harray : (s.move cp iov rest cnt).array = s.uio.passed ++ iov.advance cnt :: rest := rfl
  rw [harray, State.array, hiov, total_append, total_append, total_cons, total_cons,
    advance_iovLen hcnt]
  omega

end

theorem uiomove_array_total_le (cp : Nat) (n : Int) (s : State) :
    total (uiomove cp n s).array ≤ total s.array := by
  induction cp, n, s using uiomove.induct with
  | case1 cp n s hgo hnil =>
      rw [uiomove_nil cp hgo.1 hgo.2 hnil]
      exact Nat.le_refl _
  | case2 cp n s hgo iov rest hiov hcnt ih =>
      rw [uiomove_skip cp hgo.1 hgo.2 hiov hcnt]
      rwa [skip_array hiov] at ih
  | case3 cp n s hgo iov rest hiov hcnt cnt ih =>
      have hmin : cnt = min iov.cnt n.toNat := by
        unfold cnt
        split <;> omega
      rw [hmin] at ih
      have hmove := move_array_total cp hiov (Nat.min_le_left iov.cnt n.toNat)
      rw [uiomove_move cp hgo.1 hgo.2 hiov hcnt]
      omega
  | case4 cp n s hstop => rw [uiomove_done cp (by omega)]

/-- A call that is asked for bytes, and has an iovec with some, takes them from the array. -/
theorem uiomove_array_total_lt (cp : Nat) {n : Int} {s : State} (hpos : 0 < n)
    (hresid : s.uio.resid ≠ 0) (hsome : exists iov, iov ∈ s.uio.iov ∧ iov.cnt ≠ 0) :
    total (uiomove cp n s).array < total s.array := by
  generalize hiovs : s.uio.iov = iovs at hsome
  induction iovs generalizing s with
  | nil =>
      rcases hsome with ⟨iov, hmem, _⟩
      contradiction
  | cons iov rest ih =>
      by_cases hzero : iov.cnt = 0
      · have hlater : exists iov', iov' ∈ rest ∧ iov'.cnt ≠ 0 := by
          rcases hsome with ⟨iov', hmem, hcnt⟩
          rcases List.mem_cons.mp hmem with hhead | htail
          · rw [hhead] at hcnt
            exact absurd hzero hcnt
          · exact ⟨iov', htail, hcnt⟩
        have hrest := ih (s := s.skip iov rest) hresid rfl hlater
        rw [uiomove_skip cp hpos hresid hiovs hzero]
        rwa [skip_array hiovs] at hrest
      · have hmove := move_array_total cp hiovs (Nat.min_le_left iov.cnt n.toNat)
        have hrest := uiomove_array_total_le (cp + min iov.cnt n.toNat)
          (n - (min iov.cnt n.toNat : Nat)) (s.move cp iov rest (min iov.cnt n.toNat))
        rw [uiomove_move cp hpos hresid hiovs hzero]
        omega

theorem calls_array_total_le (calls : List Call) (s : State) :
    total (calls.foldl State.call s).array ≤ total s.array := by
  induction calls generalizing s with
  | nil => exact Nat.le_refl _
  | cons c rest ih =>
      rw [List.foldl_cons]
      exact Nat.le_trans (ih (s.call c)) (uiomove_array_total_le c.cp c.n { s with kernel := c.kernel })

theorem calls_array_iff (calls : List Call) {s : State}
    (hsome : s.uio.resid ≠ 0 -> exists iov, iov ∈ s.uio.iov ∧ iov.cnt ≠ 0) :
    (calls.foldl State.call s).array = s.array <->
      (forall c, c ∈ calls -> c.n ≤ 0) ∨ s.uio.resid = 0 := by
  induction calls generalizing s with
  | nil => simp
  | cons c rest ih =>
      rw [List.foldl_cons, List.forall_mem_cons]
      by_cases hidle : c.n ≤ 0 ∨ s.uio.resid = 0
      · have hcall : s.call c = { s with kernel := c.kernel } := uiomove_done c.cp hidle
        have hrest := ih (s := { s with kernel := c.kernel }) hsome
        rw [hcall]
        refine hrest.trans ?_
        constructor
        · rintro (hlater | hzero)
          · exact hidle.imp_left fun hn => ⟨hn, hlater⟩
          · exact Or.inr hzero
        · rintro (⟨_, hlater⟩ | hzero)
          · exact Or.inl hlater
          · exact Or.inr hzero
      · rw [not_or] at hidle
        have hless := uiomove_array_total_lt c.cp (s := { s with kernel := c.kernel })
          (Int.not_le.mp hidle.1) hidle.2 (hsome hidle.2)
        have hafter := calls_array_total_le rest (s.call c)
        constructor
        · intro hsame
          have htotal := congrArg total hsame
          have hlt : total (s.call c).array < total s.array := hless
          omega
        · rintro (⟨hn, _⟩ | hzero)
          · exact absurd hn hidle.1
          · exact absurd hzero hidle.2

theorem vectorLen_zero_iff (iovs : List Iovec) :
    vectorLen iovs = 0 <-> total iovs % 2 ^ 32 = 0 := by
  rw [vectorLen_eq, Int.bmod_def]
  split
  · omega
  · omega

theorem vectorLen_neg_iff (iovs : List Iovec) :
    vectorLen iovs < 0 <-> 2 ^ 31 ≤ total iovs % 2 ^ 32 := by
  rw [vectorLen_eq, Int.bmod_def]
  split
  · omega
  · omega

theorem exists_cnt_of_vectorLen {iovs : List Iovec} (h : vectorLen iovs ≠ 0) :
    exists iov, iov ∈ iovs ∧ iov.cnt ≠ 0 := by
  rw [ne_eq, vectorLen_zero_iff] at h
  induction iovs with
  | nil => exact absurd rfl h
  | cons iov rest ih =>
      by_cases hzero : iov.cnt = 0
      · rw [total_cons] at h
        unfold Iovec.cnt at hzero
        rcases ih (by omega) with ⟨iov', hmem, hcnt⟩
        exact ⟨iov', List.mem_cons_of_mem _ hmem, hcnt⟩
      · exact ⟨iov, List.mem_cons_self, hzero⟩

/--
The caller's array is left as it was if and only if no byte is moved: no call asks for
any, or the lengths add up to a multiple of `2 ^ 32`, or `sosend` takes their sum for a
negative number.
-/
theorem caller_iovec_preserved (iovs : List Iovec) (user : Bytes) (calls : List Call) :
    ((ffReadv iovs).arrayAfter iovs user calls = iovs <->
        (forall c, c ∈ calls -> c.n ≤ 0) ∨ total iovs % 2 ^ 32 = 0) ∧
      ((ffWritev iovs).arrayAfter iovs user calls = iovs <->
        (forall c, c ∈ calls -> c.n ≤ 0) ∨ total iovs % 2 ^ 32 = 0 ∨
          2 ^ 31 ≤ total iovs % 2 ^ 32) := by
  have hcalls : forall rw, (Start.transfers (auio rw iovs)).arrayAfter iovs user calls = iovs <->
      (forall c, c ∈ calls -> c.n ≤ 0) ∨ total iovs % 2 ^ 32 = 0 := by
    intro rw
    rw [<- vectorLen_zero_iff]
    exact calls_array_iff calls (s := ⟨fun _ => 0, user, auio rw iovs, false⟩)
      exists_cnt_of_vectorLen
  refine ⟨hcalls .read, ?_⟩
  rw [<- vectorLen_neg_iff]
  unfold ffWritev sosend
  by_cases hneg : vectorLen iovs < 0
  · have hresid : (auio .write iovs).resid < 0 := hneg
    rw [if_pos hresid]
    exact iff_of_true rfl (Or.inr (Or.inr hneg))
  · have hresid : ¬ (auio .write iovs).resid < 0 := hneg
    rw [if_neg hresid, hcalls]
    simp only [hneg, or_false]

/-- One byte that is read into a buffer of four. -/
theorem caller_iovec_changed :
    (ffReadv [⟨100, 4⟩]).arrayAfter [⟨100, 4⟩] (fun _ => 0) [⟨fun _ => 7, 0, 1⟩] ≠ [⟨100, 4⟩] := by
  intro hsame
  have htotal := congrArg total hsame
  have hless := uiomove_array_total_lt 0 (n := 1)
    (s := ⟨fun _ => 7, fun _ => 0, auio .read [⟨100, 4⟩], false⟩) (by decide) (by decide)
    ⟨⟨100, 4⟩, List.mem_cons_self, by decide⟩
  exact absurd htotal (Nat.ne_of_lt hless)

end Vectored
end FStackLite
