import FStackLite.Route.Xaddrs

/-!
# Writing a routing message

`rtsock_msg_buffer` counts the bytes of a message with the given addresses and, if it
has a block, writes the message there.  The addresses may be inside the block itself, or
inside one that was freed.
-/

namespace FStackLite
namespace Route

open Foundation (Bytes Span)

structure Read where
  span : Span
  size : Nat

def Read.Inside (r : Read) : Prop :=
  r.span.Within 0 r.size

namespace Slot

/-- The address; one inside the message is in the block that was freed, if it was. -/
def bytes (freed : Option Bytes) (mem : Bytes) : Slot -> Bytes
  | .absent => fun _ => 0
  | .inside off => (freed.getD mem).drop off
  | .elsewhere sa => sa

/-- What is read of the message, of `size` bytes, to look at `n` bytes of the address. -/
def reads (freed : Option Bytes) (size n : Nat) : Slot -> List Read
  | .inside off => [⟨⟨off, n⟩, if freed.isSome then 0 else size⟩]
  | _ => []

end Slot

/-- What the functions of the stack and the places in memory are when a message is written. -/
structure Scene where
  zones : Zones
  /-- What the local variable `ss` holds. -/
  stack : Bytes
  /-- What the block that the message was in held, if it was freed. -/
  freed : Option Bytes
  /-- The size of the message. -/
  size : Nat

/-- The source of the copy of an address, and what is read of the message for it. -/
def Scene.source (sc : Scene) (slot : Slot) (mem : Bytes) : Bytes × List Read :=
  let sa := slot.bytes sc.freed mem
  let whole := slot.reads sc.freed sc.size (saSize (sa 0))
  if sc.zones.deembed then
    let family := slot.reads sc.freed sc.size 2
    if sa 1 = afInet6 then
      let in6 := slot.reads sc.freed sc.size in6Size
      match sa6Recoverscope sc.zones (sc.stack.store 0 in6Size sa) with
      | some sin6 => (sin6, family ++ in6)
      | none => (sa, family ++ in6 ++ whole)
    else
      (sa, family ++ whole)
  else
    (sa, whole)

/-- The state of the loop; `cp` is `NULL` when nothing is written, or no more. -/
structure MsgBuffer where
  cp : Option Nat
  buflen : Int
  len : Nat
  addrs : Nat
  mem : Bytes
  reads : List Read

def Scene.putAddr (sc : Scene) (i : Nat) (slot : Slot) (b : MsgBuffer) : MsgBuffer :=
  let dlen := saSize (slot.bytes sc.freed b.mem 0)
  let counted := { b with
    len := b.len + dlen
    addrs := b.addrs ||| 2 ^ i
    reads := b.reads ++ slot.reads sc.freed sc.size 1 }
  match b.cp with
  | none => counted
  | some cp =>
      if (dlen : Int) ≤ b.buflen then
        let source := sc.source slot b.mem
        { counted with
          cp := some (cp + dlen)
          buflen := b.buflen - dlen
          mem := b.mem.store cp dlen source.1
          reads := counted.reads ++ source.2 }
      else
        { counted with cp := none }

def Scene.putAddrs (sc : Scene) (info : Info) : List Nat -> MsgBuffer -> MsgBuffer
  | [], b => b
  | i :: rest, b =>
      match info i with
      | .absent => sc.putAddrs info rest b
      | slot => sc.putAddrs info rest (sc.putAddr i slot b)

section

variable (sc : Scene) {i : Nat} {slot : Slot} {b : MsgBuffer}

theorem putAddr_len (i : Nat) (slot : Slot) (b : MsgBuffer) :
    (sc.putAddr i slot b).len = b.len + saSize (slot.bytes sc.freed b.mem 0) := by
  simp only [Scene.putAddr]
  split
  · rfl
  · split
    · rfl
    · rfl

/-- The place to write at is the length so far, and the rest of the block is free. -/
def MsgBuffer.Placed (size : Nat) (b : MsgBuffer) : Prop :=
  forall c, b.cp = some c -> c = b.len ∧ (c : Int) + b.buflen = size ∧ 0 ≤ b.buflen

theorem putAddr_placed {size : Nat} (h : b.Placed size) : (sc.putAddr i slot b).Placed size := by
  intro c hc
  rw [putAddr_len]
  simp only [Scene.putAddr] at hc ⊢
  split at hc
  · next hnull =>
      rw [hnull] at hc
      contradiction
  · next cp hcp =>
      rcases h cp hcp with ⟨hlen, hend, _⟩
      split at hc
      · next hroom =>
          injection hc with hc
          simp only [if_pos hroom]
          omega
      · contradiction

theorem putAddr_cp_le {c : Nat} (h : (sc.putAddr i slot b).cp = some c) :
    exists c', b.cp = some c' ∧ c' ≤ c := by
  simp only [Scene.putAddr] at h
  split at h
  · next hnull =>
      rw [hnull] at h
      contradiction
  · next cp hcp =>
      split at h
      · injection h with h
        exact ⟨cp, hcp, by omega⟩
      · contradiction

theorem putAddr_mem {k : Nat} (h : forall c, b.cp = some c -> k < c) :
    (sc.putAddr i slot b).mem k = b.mem k := by
  simp only [Scene.putAddr]
  split
  · rfl
  · next cp hcp =>
      split
      · exact Bytes.store_outside (Or.inl (h cp hcp))
      · rfl

variable (info : Info)

theorem putAddrs_keeps {P : MsgBuffer -> Prop}
    (hstep : forall {i slot b}, info i = slot -> P b -> P (sc.putAddr i slot b))
    {slots : List Nat} (h : P b) : P (sc.putAddrs info slots b) := by
  induction slots generalizing b with
  | nil => exact h
  | cons i rest ih =>
      unfold Scene.putAddrs
      split
      · exact ih h
      · exact ih (hstep rfl h)

theorem putAddrs_mem {slots : List Nat} {k : Nat} (h : forall c, b.cp = some c -> k < c) :
    (sc.putAddrs info slots b).mem k = b.mem k := by
  refine (putAddrs_keeps sc info (P := fun b' => b'.mem k = b.mem k ∧
    forall c, b'.cp = some c -> k < c) ?_ ⟨rfl, h⟩).1
  rintro i slot b' _ ⟨hmem, hcp⟩
  refine ⟨(putAddr_mem sc hcp).trans hmem, fun c hc => ?_⟩
  rcases putAddr_cp_le sc hc with ⟨c', hc', hle⟩
  exact Nat.lt_of_lt_of_le (hcp c' hc') hle

theorem putAddrs_len (slots : List Nat) (b : MsgBuffer) : b.len ≤ (sc.putAddrs info slots b).len ∧
      (sc.putAddrs info slots b).len ≤ b.len + 256 * slots.length ∧
      (sc.putAddrs info slots b).len % 8 = b.len % 8 := by
  induction slots generalizing b with
  | nil => exact ⟨Nat.le_refl _, Nat.le_add_right _ _, rfl⟩
  | cons i rest ih =>
      have hskip := ih b
      unfold Scene.putAddrs
      split
      · rw [List.length_cons]
        omega
      · have hput := ih (sc.putAddr i (info i) b)
        rw [putAddr_len] at hput
        have hsize := saSize_bounds ((info i).bytes sc.freed b.mem 0)
        rw [List.length_cons]
        omega

end

/-!
### What is read to write
-/

def Info.Outside (info : Info) (slots : List Nat) : Prop :=
  forall i, i ∈ slots -> forall off, info i ≠ .inside off

def Slot.outerSize : Slot -> Nat
  | .elsewhere sa => saSize (sa 0)
  | _ => 0

def Info.outerSize (info : Info) (slots : List Nat) : Nat :=
  (slots.map fun i => (info i).outerSize).sum

theorem source_reads_nil (sc : Scene) (slot : Slot) (mem : Bytes)
    (h : forall n, slot.reads sc.freed sc.size n = []) : (sc.source slot mem).2 = [] := by
  simp only [Scene.source, h]
  split
  · split
    · split
      · rfl
      · rfl
    · rfl
  · rfl

/-- Addresses that are elsewhere take their length, and need nothing of the message. -/
theorem putAddrs_outside (sc : Scene) {info : Info} {slots : List Nat} (hout : info.Outside slots)
    (b : MsgBuffer) : (sc.putAddrs info slots b).len = b.len + info.outerSize slots ∧
      (sc.putAddrs info slots b).reads = b.reads ∧
      (b.cp ≠ none -> (info.outerSize slots : Int) ≤ b.buflen ->
        (sc.putAddrs info slots b).cp ≠ none) := by
  induction slots generalizing b with
  | nil => exact ⟨rfl, rfl, fun hcp _ => hcp⟩
  | cons i rest ih =>
      rcases List.forall_mem_cons.mp hout with ⟨hfirst, hrest⟩
      have hsum : info.outerSize (i :: rest) = (info i).outerSize + info.outerSize rest := by
        simp [Info.outerSize]
      rw [hsum]
      cases hslot : info i with
      | absent =>
          simp only [Scene.putAddrs, hslot, Slot.outerSize, Nat.zero_add]
          exact ih hrest b
      | inside off => exact absurd hslot (hfirst off)
      | elsewhere sa =>
          rcases ih hrest (sc.putAddr i (.elsewhere sa) b) with ⟨hlen, hreads, hcp⟩
          simp only [Scene.putAddrs, hslot, Slot.outerSize]
          refine ⟨?_, ?_, ?_⟩
          · rw [hlen, putAddr_len]
            simp only [Slot.bytes]
            omega
          · rw [hreads]
            simp only [Scene.putAddr, source_reads_nil sc (.elsewhere sa) b.mem (fun _ => rfl), Slot.reads]
            split
            · simp
            · split
              · simp
              · simp
          · intro hsome hroom
            rcases Option.ne_none_iff_exists'.mp hsome with ⟨c, hc⟩
            have hfits : (saSize (sa 0) : Int) ≤ b.buflen := by omega
            apply hcp
            · simp [Scene.putAddr, hc, Slot.bytes, hfits]
            · simp only [Scene.putAddr, hc, Slot.bytes, hfits, if_true]
              omega

def rtmVersion : Nat := 5

/-- The sizes of the headers, by the type of the message; `iflistl` is a field of the walk. -/
def msgHeaderSize (type : Nat) (iflistl : Bool) : Nat :=
  if type = 0xc ∨ type = 0xd then
    if iflistl then 176 else 20
  else if type = 0xe then
    if iflistl then 176 else 168
  else if type = 0xf then
    16
  else
    headerSize

/-- `struct walkarg`, whose `w_tmem` is the message. -/
structure Walkarg where
  tmemsize : Int
  iflistl : Bool

/-- `ALIGN` -/
def align (len : Nat) : Nat :=
  (len + 7) / 8 * 8

def MsgBuffer.start (hlen : Nat) (w : Option Walkarg) (mem : Bytes) : MsgBuffer :=
  match w with
  | none => ⟨none, 0, hlen, 0, mem, []⟩
  | some w => ⟨some hlen, w.tmemsize - hlen, hlen, 0, mem, []⟩

/-- The length is rounded up, and the header is written if the message is complete. -/
def MsgBuffer.finish (type : Nat) (b : MsgBuffer) : MsgBuffer :=
  let len := align b.len
  match b.cp with
  | none => { b with len := len }
  | some cp =>
      if b.buflen < (len : Int) - b.len then
        { b with cp := none, len := len }
      else
        { b with
          cp := some cp
          buflen := b.buflen - ((len : Int) - b.len)
          len := len
          mem := ((b.mem.putNum 2 1 rtmVersion).putNum 3 1 type).putNum 0 2 len }

/-- `rtsock_msg_buffer`; the message is complete if `cp` is not `NULL` at the end. -/
def rtsockMsgBuffer (sc : Scene) (type : Nat) (info : Info) (w : Option Walkarg) (mem : Bytes) :
    MsgBuffer :=
  (sc.putAddrs info (List.range rtaxMax)
    (.start (msgHeaderSize type (w.any Walkarg.iflistl)) w mem)).finish type

theorem align_eq {len : Nat} (h : len % 8 = 0) : align len = len := by
  unfold align
  omega

theorem finish_reads (type : Nat) (b : MsgBuffer) : (b.finish type).reads = b.reads := by
  simp only [MsgBuffer.finish]
  split
  · rfl
  · split
    · rfl
    · rfl

theorem finish_len_align (type : Nat) (b : MsgBuffer) : (b.finish type).len = align b.len := by
  simp only [MsgBuffer.finish]
  split
  · rfl
  · split
    · rfl
    · rfl

section

variable (type : Nat) {b : MsgBuffer} (hlen : b.len % 8 = 0)

include hlen

theorem finish_len : (b.finish type).len = b.len := by
  rw [finish_len_align, align_eq hlen]

theorem finish_complete {size : Nat} (hplaced : b.Placed size) (hmax : b.len < 2 ^ 16)
    (h : b.cp ≠ none) :
    (b.finish type).cp ≠ none ∧ (b.finish type).mem.num 0 2 = b.len ∧ b.len ≤ size := by
  rcases Option.ne_none_iff_exists'.mp h with ⟨c, hc⟩
  rcases hplaced c hc with ⟨hat, hend, hfree⟩
  have hroom : ¬ b.buflen < (b.len : Int) - b.len := by omega
  simp only [MsgBuffer.finish, align_eq hlen, hc, hroom, if_false]
  refine ⟨by simp, ?_, by omega⟩
  rw [Bytes.num_two_putNum]
  omega

end

/-- The messages that `ff_rtioctl` writes have the header of a route. -/
def IsRoute (type : Nat) : Prop :=
  forall iflistl, msgHeaderSize type iflistl = headerSize

section

variable (sc : Scene) (info : Info)

def Scene.routeAddrs (sc : Scene) (info : Info) (w : Option Walkarg) (mem : Bytes) : MsgBuffer :=
  sc.putAddrs info (List.range rtaxMax) (.start headerSize w mem)

theorem rtsockMsgBuffer_eq {type : Nat} (htype : IsRoute type) (w : Option Walkarg) (mem : Bytes) :
    rtsockMsgBuffer sc type info w mem = (sc.routeAddrs info w mem).finish type := by
  rw [rtsockMsgBuffer, htype]
  rfl

theorem routeAddrs_len (w : Option Walkarg) (mem : Bytes) :
    headerSize ≤ (sc.routeAddrs info w mem).len ∧ (sc.routeAddrs info w mem).len < 2 ^ 16 ∧
      (sc.routeAddrs info w mem).len % 8 = 0 := by
  have hlen := putAddrs_len sc info (List.range rtaxMax) (.start headerSize w mem)
  have hstart : (MsgBuffer.start headerSize w mem).len = 152 := by
    cases w with
    | none => rfl
    | some w => rfl
  have hheader : headerSize = 152 := rfl
  have hmax : rtaxMax = 8 := rfl
  rw [hstart, List.length_range] at hlen
  unfold Scene.routeAddrs
  omega

theorem routeAddrs_placed {size : Nat} (hsize : headerSize ≤ size) (mem : Bytes) :
    (sc.routeAddrs info (some ⟨size, false⟩) mem).Placed size := by
  refine putAddrs_keeps sc info (P := MsgBuffer.Placed size) (fun _ hb => putAddr_placed sc hb) ?_
  intro c hc
  injection hc with hc
  show c = headerSize ∧ (c : Int) + ((size : Int) - headerSize) = size ∧
    0 ≤ (size : Int) - headerSize
  omega

end

end Route
end FStackLite
