import FStackLite.Route.MsgBuffer

/-!
# The size of a routing message

`rtsock_msg_buffer` is first called to count, and then with a block to write to.  When
the space runs out it goes on counting.  The two lengths are those of the same addresses
unless writing changes the length of an address that is inside the block and still to come.
-/

namespace FStackLite
namespace Route

open Foundation (Bytes Span)

/-- `SA_SIZE` of the address, with the message as it is. -/
def Slot.size (freed : Option Bytes) (mem : Bytes) : Slot -> Nat
  | .absent => 0
  | slot => saSize (slot.bytes freed mem 0)

def Scene.sizes (sc : Scene) (info : Info) (slots : List Nat) (mem : Bytes) : Nat :=
  (slots.map fun i => (info i).size sc.freed mem).sum

def Scene.placed (sc : Scene) (slot : Slot) (c : Nat) (mem : Bytes) : Bytes :=
  mem.store c (slot.size sc.freed mem) (sc.source slot mem).1

/--
The addresses are copied one behind the other, from the place `c` on: none of the copies
changes the size of the addresses that are still to come.
-/
def Scene.Steady (sc : Scene) (info : Info) : List Nat -> Nat -> Bytes -> Prop
  | [], _, _ => True
  | i :: rest, c, mem =>
      match info i with
      | .absent => sc.Steady info rest c mem
      | slot =>
          sc.sizes info rest (sc.placed slot c mem) = sc.sizes info rest mem ∧
            sc.Steady info rest (c + slot.size sc.freed mem) (sc.placed slot c mem)

/-!
## What is written
-/

def Scene.addrWrite (sc : Scene) (slot : Slot) (b : MsgBuffer) : List Span :=
  let dlen := saSize (slot.bytes sc.freed b.mem 0)
  match b.cp with
  | none => []
  | some cp => if (dlen : Int) ≤ b.buflen then [⟨cp, dlen⟩] else []

def Scene.addrWrites (sc : Scene) (info : Info) : List Nat -> MsgBuffer -> List Span
  | [], _ => []
  | i :: rest, b =>
      match info i with
      | .absent => sc.addrWrites info rest b
      | slot => sc.addrWrite slot b ++ sc.addrWrites info rest (sc.putAddr i slot b)

/-- `rtm_version`, `rtm_type` and `rtm_msglen`, if the message is complete. -/
def MsgBuffer.headerWrites (type : Nat) (b : MsgBuffer) : List Span :=
  match (b.finish type).cp with
  | none => []
  | some _ => [⟨2, 1⟩, ⟨3, 1⟩, ⟨0, 2⟩]

/-- What `rtsock_msg_buffer` writes. -/
def rtsockWrites (sc : Scene) (type : Nat) (info : Info) (w : Option Walkarg) (mem : Bytes) :
    List Span :=
  let b := MsgBuffer.start (msgHeaderSize type (w.any Walkarg.iflistl)) w mem
  sc.addrWrites info (List.range rtaxMax) b ++
    (sc.putAddrs info (List.range rtaxMax) b).headerWrites type

def Untouched (spans : List Span) (k : Nat) : Prop :=
  forall s, s ∈ spans -> ¬ s.Covers k

theorem store_uncovered {mem src : Bytes} {off n k : Nat} (h : ¬ Span.Covers ⟨off, n⟩ k) :
    mem.store off n src k = mem k := by
  apply Bytes.store_outside
  rw [Span.Covers, not_and_or, Nat.not_le, Nat.not_lt] at h
  exact h

section

variable (sc : Scene) (info : Info) {b : MsgBuffer} {i k : Nat} {rest : List Nat} {mem : Bytes}

theorem putAddrs_absent (h : info i = .absent) :
    sc.putAddrs info (i :: rest) b = sc.putAddrs info rest b := by
  simp only [Scene.putAddrs, h]

theorem putAddrs_present (h : info i ≠ .absent) :
    sc.putAddrs info (i :: rest) b = sc.putAddrs info rest (sc.putAddr i (info i) b) := by
  cases hslot : info i with
  | absent => contradiction
  | inside off => simp only [Scene.putAddrs, hslot]
  | elsewhere sa => simp only [Scene.putAddrs, hslot]

theorem addrWrites_present (h : info i ≠ .absent) : sc.addrWrites info (i :: rest) b =
      sc.addrWrite (info i) b ++ sc.addrWrites info rest (sc.putAddr i (info i) b) := by
  cases hslot : info i with
  | absent => contradiction
  | inside off => simp only [Scene.addrWrites, hslot]
  | elsewhere sa => simp only [Scene.addrWrites, hslot]

theorem addrWrites_absent (h : info i = .absent) :
    sc.addrWrites info (i :: rest) b = sc.addrWrites info rest b := by
  simp only [Scene.addrWrites, h]

theorem size_present {freed : Option Bytes} {slot : Slot} (h : slot ≠ .absent) :
    slot.size freed mem = saSize (slot.bytes freed mem 0) := by
  cases slot with
  | absent => contradiction
  | inside off => rfl
  | elsewhere sa => rfl

theorem sizes_cons (i : Nat) (rest : List Nat) (mem : Bytes) :
    sc.sizes info (i :: rest) mem = (info i).size sc.freed mem + sc.sizes info rest mem := by
  simp only [Scene.sizes, List.map_cons, List.sum_cons]

theorem steady_absent {c : Nat} (h : info i = .absent) :
    sc.Steady info (i :: rest) c mem <-> sc.Steady info rest c mem := by
  simp only [Scene.Steady, h]

theorem steady_present {c : Nat} (h : info i ≠ .absent) : sc.Steady info (i :: rest) c mem <->
      sc.sizes info rest (sc.placed (info i) c mem) = sc.sizes info rest mem ∧
        sc.Steady info rest (c + (info i).size sc.freed mem) (sc.placed (info i) c mem) := by
  cases hslot : info i with
  | absent => contradiction
  | inside off => simp only [Scene.Steady, hslot]
  | elsewhere sa => simp only [Scene.Steady, hslot]

theorem putAddr_untouched {slot : Slot} (h : Untouched (sc.addrWrite slot b) k) :
    (sc.putAddr i slot b).mem k = b.mem k := by
  unfold Scene.addrWrite at h
  simp only [Scene.putAddr]
  split
  · rfl
  · next cp hcp =>
      split
      · next hroom =>
          simp only [hcp, if_pos hroom] at h
          exact store_uncovered (h _ List.mem_cons_self)
      · rfl

theorem putAddrs_untouched {slots : List Nat} (h : Untouched (sc.addrWrites info slots b) k) :
    (sc.putAddrs info slots b).mem k = b.mem k := by
  induction slots generalizing b with
  | nil => rfl
  | cons i rest ih =>
      cases eq_or_ne (info i) .absent with
      | inl habsent =>
          rw [addrWrites_absent sc info habsent] at h
          rw [putAddrs_absent sc info habsent]
          exact ih h
      | inr hpresent =>
          rw [addrWrites_present sc info hpresent] at h
          rw [putAddrs_present sc info hpresent]
          rcases List.forall_mem_append.mp h with ⟨hfirst, hrest⟩
          exact (ih hrest).trans (putAddr_untouched sc hfirst)

theorem finish_untouched {type : Nat} (h : Untouched (b.headerWrites type) k) :
    (b.finish type).mem k = b.mem k := by
  unfold MsgBuffer.headerWrites at h
  unfold MsgBuffer.finish at h ⊢
  dsimp only at h ⊢
  split
  · rfl
  · next cp hcp =>
      simp only [hcp] at h
      split
      · rfl
      · next hroom =>
          simp only [if_neg hroom, Untouched, List.forall_mem_cons] at h
          rcases h with ⟨hversion, htype, hlen, _⟩
          simp only [Bytes.putNum]
          rw [store_uncovered hlen, store_uncovered htype, store_uncovered hversion]

end

/-!
## Writing until the space runs out
-/

/-- The space has run out, or the addresses so far are in place and the rest is free. -/
def MsgBuffer.Fits (size : Nat) (b : MsgBuffer) : Prop :=
  (b.cp = none ∧ size < b.len) ∨ (b.cp = some b.len ∧ (b.len : Int) + b.buflen = size)

section

variable (sc : Scene) (info : Info) {size : Nat} {b : MsgBuffer}

theorem start_fits (size hlen : Nat) (iflistl : Bool) (mem : Bytes) :
    (MsgBuffer.start hlen (some ⟨size, iflistl⟩) mem).Fits size := by
  refine Or.inr ⟨rfl, ?_⟩
  show (hlen : Int) + ((size : Int) - hlen) = size
  omega

theorem putAddr_fits {i : Nat} {slot : Slot} (h : b.Fits size) :
    (sc.putAddr i slot b).Fits size := by
  unfold MsgBuffer.Fits
  rw [putAddr_len]
  rcases h with ⟨hcp, hless⟩ | ⟨hcp, hend⟩
  · simp only [Scene.putAddr, hcp]
    exact Or.inl ⟨trivial, by omega⟩
  · simp only [Scene.putAddr, hcp]
    split
    · exact Or.inr ⟨rfl, by push_cast; omega⟩
    · exact Or.inl ⟨rfl, by omega⟩

theorem addrWrite_within {slot : Slot} (h : b.Fits size) :
    forall s, s ∈ sc.addrWrite slot b -> s.Within 0 size := by
  intro s hs
  unfold Scene.addrWrite at hs
  rcases h with ⟨hcp, _⟩ | ⟨hcp, hend⟩
  · simp only [hcp] at hs
    contradiction
  · simp only [hcp] at hs
    split at hs
    · next hroom =>
        rw [List.mem_singleton.mp hs]
        apply Span.within_of_le (Nat.zero_le _)
        show b.len + saSize (slot.bytes sc.freed b.mem 0) ≤ 0 + size
        omega
    · contradiction

theorem addrWrites_within {slots : List Nat} (h : b.Fits size) :
    forall s, s ∈ sc.addrWrites info slots b -> s.Within 0 size := by
  induction slots generalizing b with
  | nil =>
      intro s hs
      contradiction
  | cons i rest ih =>
      cases eq_or_ne (info i) .absent with
      | inl habsent =>
          rw [addrWrites_absent sc info habsent]
          exact ih h
      | inr hpresent =>
          rw [addrWrites_present sc info hpresent]
          exact List.forall_mem_append.mpr ⟨addrWrite_within sc h, ih (putAddr_fits sc h)⟩

theorem le_align (len : Nat) : len ≤ align len := by
  unfold align
  omega

theorem finish_complete_iff (type : Nat) (h : b.Fits size) :
    (b.finish type).cp ≠ none <-> (b.finish type).len ≤ size := by
  have halign := le_align b.len
  rcases h with ⟨hcp, hless⟩ | ⟨hcp, hend⟩
  · simp only [MsgBuffer.finish, hcp, ne_eq, not_true_eq_false, false_iff]
    omega
  · simp only [MsgBuffer.finish, hcp]
    split
    · simp only [ne_eq, not_true_eq_false, false_iff]
      omega
    · simp only [ne_eq, reduceCtorEq, not_false_eq_true, true_iff]
      omega

theorem headerWrites_within (type : Nat) (h : b.Fits size) (hlen : 4 ≤ b.len) :
    forall s, s ∈ b.headerWrites type -> s.Within 0 size := by
  intro s hs
  have hcomplete := finish_complete_iff type h
  have hfinal : 4 ≤ (b.finish type).len := by
    rw [finish_len_align]
    exact Nat.le_trans hlen (le_align b.len)
  unfold MsgBuffer.headerWrites at hs
  split at hs
  · contradiction
  · next cp hcp =>
      have hfits := hcomplete.mp (by simp [hcp])
      simp only [List.mem_cons, List.not_mem_nil, or_false] at hs
      rcases hs with rfl | rfl | rfl
      · exact Span.within_of_le (Nat.zero_le _) (by show 2 + 1 ≤ 0 + size; omega)
      · exact Span.within_of_le (Nat.zero_le _) (by show 3 + 1 ≤ 0 + size; omega)
      · exact Span.within_of_le (Nat.zero_le _) (by show 0 + 2 ≤ 0 + size; omega)

/-!
## Counting
-/

theorem putAddr_null (i : Nat) (slot : Slot) (h : b.cp = none) :
    (sc.putAddr i slot b).cp = none ∧ (sc.putAddr i slot b).mem = b.mem := by
  simp [Scene.putAddr, h]

theorem putAddrs_counted {i : Nat} {rest : List Nat} (hmem : (sc.putAddr i (info i) b).mem = b.mem)
    (hrest : forall b', b' = b ∨ b' = sc.putAddr i (info i) b ->
      (sc.putAddrs info rest b').len = b'.len + sc.sizes info rest b'.mem) :
    (sc.putAddrs info (i :: rest) b).len = b.len + sc.sizes info (i :: rest) b.mem := by
  rw [sizes_cons]
  cases eq_or_ne (info i) .absent with
  | inl habsent =>
      rw [putAddrs_absent sc info habsent, hrest b (Or.inl rfl), habsent, Slot.size, Nat.zero_add]
  | inr hpresent =>
      rw [putAddrs_present sc info hpresent, hrest _ (Or.inr rfl), hmem, putAddr_len,
        size_present hpresent, Nat.add_assoc]

theorem putAddrs_null {slots : List Nat} (h : b.cp = none) :
    (sc.putAddrs info slots b).len = b.len + sc.sizes info slots b.mem := by
  induction slots generalizing b with
  | nil => rfl
  | cons i rest ih =>
      rcases putAddr_null sc i (info i) h with ⟨hcp, hmem⟩
      apply putAddrs_counted sc info hmem
      intro b' hb'
      rcases hb' with hsame | hput
      · exact ih (hsame ▸ h)
      · exact ih (hput ▸ hcp)

theorem putAddrs_full (slots : List Nat) (h : b.buflen < 8) :
    (sc.putAddrs info slots b).len = b.len + sc.sizes info slots b.mem := by
  induction slots generalizing b with
  | nil => rfl
  | cons i rest ih =>
      have hsize := saSize_bounds ((info i).bytes sc.freed b.mem 0)
      have hput : (sc.putAddr i (info i) b).cp = none ∧
          (sc.putAddr i (info i) b).mem = b.mem := by
        simp only [Scene.putAddr]
        split
        · next hcp =>
            exact ⟨hcp, rfl⟩
        · rw [if_neg (by omega)]
          exact ⟨rfl, rfl⟩
      apply putAddrs_counted sc info hput.2
      intro b' hb'
      rcases hb' with hsame | hnull
      · exact ih (hsame ▸ h)
      · exact putAddrs_null sc info (hnull ▸ hput.1)

end

/-!
## The two lengths
-/

/-- The addresses so far end at `c`, and there is space up to `size`. -/
structure MsgBuffer.At (c size : Nat) (mem : Bytes) (b : MsgBuffer) : Prop where
  cp : b.cp = some c
  len : b.len = c
  mem : b.mem = mem
  buflen : b.buflen = (size : Int) - c

section

variable (sc : Scene) (info : Info) {size c : Nat} {mem : Bytes} {b : MsgBuffer}

theorem putAddr_at {i : Nat} (h : b.At c size mem) (hpresent : info i ≠ .absent)
    (hroom : c + (info i).size sc.freed mem ≤ size) :
    (sc.putAddr i (info i) b).At (c + (info i).size sc.freed mem) size
      (sc.placed (info i) c mem) := by
  rw [size_present hpresent] at hroom
  have hfits : (saSize ((info i).bytes sc.freed mem 0) : Int) ≤ (size : Int) - c := by omega
  unfold Scene.placed
  rw [size_present hpresent]
  constructor
  · simp only [Scene.putAddr, h.cp, h.mem, h.buflen, if_pos hfits]
  · rw [putAddr_len, h.len, h.mem]
  · simp only [Scene.putAddr, h.cp, h.mem, h.buflen, if_pos hfits]
  · simp only [Scene.putAddr, h.cp, h.mem, h.buflen, if_pos hfits]
    push_cast
    omega

theorem putAddr_full {i : Nat} (h : b.At c size mem) (hpresent : info i ≠ .absent)
    (hroom : ¬ c + (info i).size sc.freed mem ≤ size) :
    (sc.putAddr i (info i) b).cp = none ∧ (sc.putAddr i (info i) b).mem = mem := by
  rw [size_present hpresent] at hroom
  have hfull : ¬ (saSize ((info i).bytes sc.freed mem 0) : Int) ≤ (size : Int) - c := by omega
  simp only [Scene.putAddr, h.cp, h.mem, h.buflen, if_neg hfull]
  exact ⟨trivial, trivial⟩

theorem putAddrs_len_of_steady {slots : List Nat} (h : b.At c size mem)
    (hsteady : sc.Steady info slots c mem) :
    (sc.putAddrs info slots b).len = c + sc.sizes info slots mem := by
  induction slots generalizing b c mem with
  | nil => exact h.len
  | cons i rest ih =>
      rw [sizes_cons]
      cases eq_or_ne (info i) .absent with
      | inl habsent =>
          rw [steady_absent sc info habsent] at hsteady
          rw [putAddrs_absent sc info habsent, ih h hsteady, habsent, Slot.size, Nat.zero_add]
      | inr hpresent =>
          rw [steady_present sc info hpresent] at hsteady
          rcases hsteady with ⟨hsame, hrest⟩
          rw [putAddrs_present sc info hpresent, <- Nat.add_assoc]
          by_cases hroom : c + (info i).size sc.freed mem ≤ size
          · rw [ih (putAddr_at sc info h hpresent hroom) hrest, hsame]
          · rcases putAddr_full sc info h hpresent hroom with ⟨hcp, hmem⟩
            rw [putAddrs_null sc info hcp, hmem, putAddr_len, h.len, h.mem, size_present hpresent]

/-- If the length is the one that was counted for every space, then the sizes stay. -/
theorem steady_of_putAddrs_len {slots : List Nat} (b : Nat -> MsgBuffer)
    (hb : forall size, c ≤ size -> (b size).At c size mem) (hlen : forall size, c ≤ size ->
      (sc.putAddrs info slots (b size)).len = c + sc.sizes info slots mem) :
    sc.Steady info slots c mem := by
  induction slots generalizing b c mem with
  | nil => trivial
  | cons i rest ih =>
      simp only [sizes_cons] at hlen
      cases eq_or_ne (info i) .absent with
      | inl habsent =>
          rw [steady_absent sc info habsent]
          apply ih b hb
          intro size hsize
          have hskip := hlen size hsize
          rwa [putAddrs_absent sc info habsent, habsent, Slot.size, Nat.zero_add] at hskip
      | inr hpresent =>
          have hput : forall size, c + (info i).size sc.freed mem ≤ size ->
              (sc.putAddr i (info i) (b size)).At (c + (info i).size sc.freed mem) size
                (sc.placed (info i) c mem) :=
            fun size hsize => putAddr_at sc info (hb size (by omega)) hpresent hsize
          have hrest : forall size, c + (info i).size sc.freed mem ≤ size ->
              (sc.putAddrs info rest (sc.putAddr i (info i) (b size))).len =
                c + (info i).size sc.freed mem + sc.sizes info rest mem := by
            intro size hsize
            have hall := hlen size (by omega)
            rwa [putAddrs_present sc info hpresent, <- Nat.add_assoc] at hall
          -- with space for this address and no more, the others are counted behind it
          have hlast := hput _ (Nat.le_refl _)
          have hnone : (sc.putAddr i (info i) (b (c + (info i).size sc.freed mem))).buflen < 8 := by
            rw [hlast.buflen, Int.sub_self]
            decide
          have hcounted := putAddrs_full sc info rest hnone
          rw [hrest _ (Nat.le_refl _), hlast.len, hlast.mem] at hcounted
          have hsame := Nat.add_left_cancel hcounted
          rw [steady_present sc info hpresent]
          refine ⟨hsame.symm, ih (fun size => sc.putAddr i (info i) (b size)) hput ?_⟩
          intro size hsize
          rw [hrest size hsize, hsame]

end

/-!
## Writing what was counted
-/

structure Sized (sc : Scene) (type : Nat) (info : Info) (mem : Bytes) (tmemsize : Nat) : Prop where
  len : (rtsockMsgBuffer sc type info (some ⟨tmemsize, false⟩) mem).len =
    (rtsockMsgBuffer sc type info none mem).len
  succeeds : (rtsockMsgBuffer sc type info (some ⟨tmemsize, false⟩) mem).cp ≠ none <->
    (rtsockMsgBuffer sc type info none mem).len ≤ tmemsize
  writes : forall s, s ∈ rtsockWrites sc type info (some ⟨tmemsize, false⟩) mem ->
    s.Within 0 tmemsize
  mem_beyond : forall k, tmemsize ≤ k ->
    (rtsockMsgBuffer sc type info (some ⟨tmemsize, false⟩) mem).mem k = mem k

section

variable (sc : Scene) (info : Info) (type : Nat) (mem : Bytes)

theorem msgHeaderSize_ge (iflistl : Bool) : 16 ≤ msgHeaderSize type iflistl := by
  have hheader : headerSize = 152 := rfl
  unfold msgHeaderSize
  split
  · split
    · omega
    · omega
  · split
    · split
      · omega
      · omega
    · split
      · omega
      · omega

theorem start_at (hlen size : Nat) (iflistl : Bool) :
    (MsgBuffer.start hlen (some ⟨size, iflistl⟩) mem).At hlen size mem :=
  ⟨rfl, rfl, rfl, rfl⟩

theorem putAddrs_fits {size : Nat} (slots : List Nat) {b : MsgBuffer} (h : b.Fits size) :
    (sc.putAddrs info slots b).Fits size :=
  putAddrs_keeps sc info (P := MsgBuffer.Fits size) (fun _ hb => putAddr_fits sc hb) h

theorem rtsockWrites_within (tmemsize : Nat) :
    forall s, s ∈ rtsockWrites sc type info (some ⟨tmemsize, false⟩) mem -> s.Within 0 tmemsize := by
  have hstart := start_fits tmemsize (msgHeaderSize type false) false mem
  have hlen := (putAddrs_len sc info (List.range rtaxMax)
    (.start (msgHeaderSize type false) (some ⟨tmemsize, false⟩) mem)).1
  have hheader := msgHeaderSize_ge type false
  have hfour : 4 ≤ (sc.putAddrs info (List.range rtaxMax)
      (.start (msgHeaderSize type false) (some ⟨tmemsize, false⟩) mem)).len :=
    Nat.le_trans (Nat.le_trans (by decide) hheader) hlen
  exact List.forall_mem_append.mpr ⟨addrWrites_within sc info hstart,
    headerWrites_within type (putAddrs_fits sc info _ hstart) hfour⟩

theorem rtsockMsgBuffer_untouched (w : Option Walkarg) {k : Nat}
    (h : Untouched (rtsockWrites sc type info w mem) k) :
    (rtsockMsgBuffer sc type info w mem).mem k = mem k := by
  rcases List.forall_mem_append.mp h with ⟨haddrs, hheader⟩
  refine (finish_untouched hheader).trans ((putAddrs_untouched sc info haddrs).trans ?_)
  cases w with
  | none => rfl
  | some w => rfl

theorem rtsockMsgBuffer_len_eq_iff (tmemsize : Nat) :
    (rtsockMsgBuffer sc type info (some ⟨tmemsize, false⟩) mem).len =
        (rtsockMsgBuffer sc type info none mem).len <-> (sc.putAddrs info (List.range rtaxMax)
        (.start (msgHeaderSize type false) (some ⟨tmemsize, false⟩) mem)).len =
        msgHeaderSize type false + sc.sizes info (List.range rtaxMax) mem := by
  have hcounted : (sc.putAddrs info (List.range rtaxMax)
      (.start (msgHeaderSize type false) none mem)).len =
        msgHeaderSize type false + sc.sizes info (List.range rtaxMax) mem :=
    putAddrs_null sc info rfl
  have hwritten := (putAddrs_len sc info (List.range rtaxMax)
    (.start (msgHeaderSize type false) (some ⟨tmemsize, false⟩) mem)).2.2
  have hcount := (putAddrs_len sc info (List.range rtaxMax)
    (.start (msgHeaderSize type false) none mem)).2.2
  have hstart : (MsgBuffer.start (msgHeaderSize type false) (some ⟨tmemsize, false⟩) mem).len =
      (MsgBuffer.start (msgHeaderSize type false) none mem).len := rfl
  simp only [rtsockMsgBuffer, finish_len_align, Option.any_some, Option.any_none]
  rw [<- hcounted]
  constructor
  · intro heq
    unfold align at heq
    omega
  · intro heq
    rw [heq]

/--
For every size of the block, the written length is the counted one, writing succeeds
exactly if that fits, and nothing is written behind the end of the block, if and only if
no copy changes the size of the addresses that are still to come.
-/
theorem routing_message_sizing : (forall tmemsize, Sized sc type info mem tmemsize) <->
      sc.Steady info (List.range rtaxMax) (msgHeaderSize type false) mem := by
  constructor
  · intro h
    apply steady_of_putAddrs_len sc info
      (fun size => .start (msgHeaderSize type false) (some ⟨size, false⟩) mem)
      (fun size _ => start_at mem (msgHeaderSize type false) size false)
    intro size _
    exact (rtsockMsgBuffer_len_eq_iff sc info type mem size).mp (h size).len
  · intro hsteady tmemsize
    have hstart := start_at mem (msgHeaderSize type false) tmemsize false
    have hlen := (rtsockMsgBuffer_len_eq_iff sc info type mem tmemsize).mpr
      (putAddrs_len_of_steady sc info hstart hsteady)
    have hfits := putAddrs_fits sc info (List.range rtaxMax)
      (start_fits tmemsize (msgHeaderSize type false) false mem)
    have hwithin := rtsockWrites_within sc info type mem tmemsize
    refine ⟨hlen, ?_, hwithin, ?_⟩
    · rw [<- hlen]
      exact finish_complete_iff type hfits
    · intro k hk
      apply rtsockMsgBuffer_untouched
      intro s hs hcovers
      have hinside := hwithin s hs k hcovers
      omega

end

/--
The answer to a request with a destination of 16 bytes and an author of 8 behind it: the
destination and the gateway of the entry, and the author of the request.
-/
def clobberInfo : Info :=
  fun i =>
    if i = rtaxDst ∨ i = rtaxGateway then
      .elsewhere saZero
    else if i = rtaxAuthor then
      .inside 168
    else
      .absent

def clobberMem : Bytes :=
  fun k => if k = 168 then 8 else if k = 169 then afInet else 0

def clobberScene : Scene :=
  ⟨⟨false, fun _ => 0, fun _ => false, 0, false⟩, fun _ => 0, none, 1024⟩

/-- The copy of the gateway makes 16 bytes of the author: 192 are counted, and 200 are needed
to write. -/
theorem routing_message_outgrows :
    (rtsockMsgBuffer clobberScene 4 clobberInfo none clobberMem).len = 192 ∧
      ¬ Sized clobberScene 4 clobberInfo clobberMem 192 := by
  refine ⟨by decide +kernel, ?_⟩
  intro h
  have hlen := h.len
  revert hlen
  decide +kernel

end Route
end FStackLite
