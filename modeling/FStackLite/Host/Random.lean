import Mathlib.Logic.Function.Iterate
import Mathlib.Tactic.Ring

/-!
# Random bytes

The kernel's `arc4rand`, `arc4random` and `read_random` are served from `srandom` and `rand` of the
C library, which share one state.
-/

namespace FStackLite
namespace Host

variable {σ : Type}

/-- `srandom` and `rand`; the former does not look at the state that it replaces. -/
structure Generator (σ : Type) where
  srandom : UInt32 -> σ
  rand : σ -> UInt32 × σ

def Generator.advance (gen : Generator σ) (state : σ) : σ :=
  (gen.rand state).2

structure World (σ : Type) where
  state : σ
  mem : Nat -> UInt8

def byteOf (v : UInt32) (k : Nat) : UInt8 :=
  UInt8.ofNat (v.toNat / 256 ^ k)

/-- `*((uint32_t *)ptr) = v` -/
def storeU32 (mem : Nat -> UInt8) (ptr : Nat) (v : UInt32) : Nat -> UInt8 :=
  fun a => if ptr ≤ a ∧ a < ptr + 4 then byteOf v (a - ptr) else mem a

def loadU32 (mem : Nat -> UInt8) (ptr : Nat) : UInt32 :=
  UInt32.ofNat ((mem ptr).toNat + 256 * (mem (ptr + 1)).toNat + 256 ^ 2 * (mem (ptr + 2)).toNat +
    256 ^ 3 * (mem (ptr + 3)).toNat)

def ffArc4rand (gen : Generator σ) (ptr : Nat) (_len reseed : UInt32) (w : World σ) : World σ :=
  let drawn := gen.rand (gen.srandom reseed)
  ⟨drawn.2, storeU32 w.mem ptr drawn.1⟩

/-- `ret` is the address of the local variable, and `tvSec` the second of the monotonic clock. -/
def ffArc4random (gen : Generator σ) (ret : Nat) (tvSec : Int) (w : World σ) : UInt32 × World σ :=
  let w' := ffArc4rand gen ret 4 (UInt32.ofInt tvSec) w
  (loadU32 w'.mem ret, w')

def arc4rand (gen : Generator σ) (ptr : Nat) (len reseed : UInt32) (w : World σ) : World σ :=
  ffArc4rand gen ptr len reseed w

def arc4random (gen : Generator σ) (ret : Nat) (tvSec : Int) (w : World σ) : UInt32 × World σ :=
  ffArc4random gen ret tvSec w

def readRandom (gen : Generator σ) (buf : Nat) (count : UInt32) (w : World σ) : UInt32 × World σ :=
  (count, arc4rand gen buf count 0 w)

/-!
## Requests
-/

inductive Request where
  | arc4rand (ptr : Nat) (len reseed : UInt32)
  | arc4random (ret : Nat) (tvSec : Int)
  | readRandom (buf : Nat) (count : UInt32)

def Request.serve (gen : Generator σ) (w : World σ) : Request -> World σ
  | arc4rand ptr len reseed => Host.arc4rand gen ptr len reseed w
  | arc4random ret tvSec => (Host.arc4random gen ret tvSec w).2
  | readRandom buf count => (Host.readRandom gen buf count w).2

def Request.buffer : Request -> Nat
  | arc4rand ptr _ _ => ptr
  | arc4random ret _ => ret
  | readRandom buf _ => buf

def Request.length : Request -> Nat
  | arc4rand _ len _ => len.toNat
  | arc4random _ _ => 4
  | readRandom _ count => count.toNat

/-- Only an argument of `arc4rand` asks for a new seed. -/
def Request.reseeds : Request -> Bool
  | arc4rand _ _ reseed => reseed != 0
  | _ => false

def Request.InBuffer (r : Request) (a : Nat) : Prop :=
  r.buffer ≤ a ∧ a < r.buffer + r.length

/--
The bytes of the buffer no longer depend on what was there, no other byte is changed, and without
a new seed the numbers go on from the state that there was.
-/
structure Request.Served (gen : Generator σ) (w : World σ) (r : Request) : Prop where
  filled : forall mem mem' a, r.InBuffer a ->
    (r.serve gen { w with mem := mem }).mem a = (r.serve gen { w with mem := mem' }).mem a
  kept : forall mem a, ¬ r.InBuffer a -> (r.serve gen { w with mem := mem }).mem a = mem a
  carried : r.reseeds = false -> exists n, (0 < r.length -> 0 < n) ∧
    (r.serve gen w).state = gen.advance^[n] w.state

def AllServed (gen : Generator σ) : List Request -> World σ -> Prop
  | [], _ => True
  | r :: rs, w => r.Served gen w ∧ AllServed gen rs (r.serve gen w)

/-!
## What is written
-/

def Request.seed : Request -> UInt32
  | arc4rand _ _ reseed => reseed
  | arc4random _ tvSec => UInt32.ofInt tvSec
  | readRandom _ _ => 0

theorem Request.serve_eq (gen : Generator σ) (w : World σ) (r : Request) :
    r.serve gen w = ⟨gen.advance (gen.srandom r.seed),
      storeU32 w.mem r.buffer (gen.rand (gen.srandom r.seed)).1⟩ := by
  cases r with
  | arc4rand ptr len reseed => rfl
  | arc4random ret tvSec => rfl
  | readRandom buf count => rfl

variable {r : Request}

theorem Request.mem_inside (gen : Generator σ) (w : World σ) {a : Nat}
    (h : r.buffer ≤ a ∧ a < r.buffer + 4) :
    (r.serve gen w).mem a = byteOf (gen.rand (gen.srandom r.seed)).1 (a - r.buffer) := by
  rw [serve_eq]
  exact if_pos h

theorem Request.mem_outside (gen : Generator σ) (w : World σ) {a : Nat}
    (h : ¬ (r.buffer ≤ a ∧ a < r.buffer + 4)) : (r.serve gen w).mem a = w.mem a := by
  rw [serve_eq]
  exact if_neg h

theorem Request.Served.of_reseeds (gen : Generator σ) (w : World σ) (hreseeds : r.reseeds = true)
    (hlength : r.length = 4) : r.Served gen w where
  filled mem mem' a ha := by
    rw [InBuffer, hlength] at ha
    rw [mem_inside _ _ ha, mem_inside _ _ ha]
  kept mem a ha := by
    rw [InBuffer, hlength] at ha
    exact mem_outside gen _ ha
  carried hno := by
    rw [hreseeds] at hno
    contradiction

theorem Request.Served.length_eq {gen : Generator σ} {w : World σ} (h : r.Served gen w) :
    r.length = 4 := by
  rcases Nat.lt_trichotomy r.length 4 with hless | heq | hmore
  · have hout : ¬ r.InBuffer (r.buffer + r.length) := fun hin => Nat.lt_irrefl _ hin.2
    have hwritten : r.buffer ≤ r.buffer + r.length ∧ r.buffer + r.length < r.buffer + 4 := by omega
    have hzero := h.kept (fun _ => 0) _ hout
    have hone := h.kept (fun _ => 1) _ hout
    rw [mem_inside _ _ hwritten] at hzero hone
    exact absurd (hzero.symm.trans hone) (by decide)
  · exact heq
  · have hin : r.InBuffer (r.buffer + 4) :=
      ⟨Nat.le_add_right _ _, Nat.add_lt_add_left hmore r.buffer⟩
    have hunwritten : ¬ (r.buffer ≤ r.buffer + 4 ∧ r.buffer + 4 < r.buffer + 4) := by omega
    have hsame := h.filled (fun _ => 0) (fun _ => 1) _ hin
    rw [mem_outside _ _ hunwritten, mem_outside _ _ hunwritten] at hsame
    exact absurd hsame (show (0 : UInt8) ≠ 1 by decide)

/-!
## The state
-/

def counter : Generator Nat where
  srandom _ := 0
  rand state := (UInt32.ofNat state, state + 1)

theorem counter_iterate (n state : Nat) : counter.advance^[n] state = state + n := by
  induction n generalizing state with
  | zero => rfl
  | succ n ih =>
      rw [Function.iterate_succ_apply, ih]
      show state + 1 + n = state + (n + 1)
      omega

theorem counter_state (w : World Nat) (r : Request) : (r.serve counter w).state = 1 := by
  rw [Request.serve_eq]
  rfl

/-- The state is always that after the first number, so that it cannot come from itself. -/
theorem Request.Served.reseeds_of_counter {w : World Nat} (hw : w.state = 1)
    (h : r.Served counter w) : r.reseeds = true := by
  cases hreseeds : r.reseeds with
  | true => rfl
  | false =>
      rcases h.carried hreseeds with ⟨n, hpos, hstate⟩
      have hn := hpos (h.length_eq ▸ Nat.succ_pos 3)
      rw [counter_state, hw, counter_iterate] at hstate
      omega

theorem AllServed.of_counter {rs : List Request} {w : World Nat} (hw : w.state = 1)
    (h : AllServed counter rs w) : forall r, r ∈ rs -> r.reseeds = true ∧ r.length = 4 := by
  induction rs generalizing w with
  | nil =>
      intro r hr
      contradiction
  | cons first rs ih =>
      intro r hr
      rcases List.mem_cons.mp hr with rfl | hr
      · exact ⟨h.1.reseeds_of_counter hw, h.1.length_eq⟩
      · exact ih (counter_state w first) h.2 r hr

theorem AllServed.of_reseeds {rs : List Request} (gen : Generator σ) (w : World σ)
    (h : forall r, r ∈ rs -> r.reseeds = true ∧ r.length = 4) : AllServed gen rs w := by
  induction rs generalizing w with
  | nil => trivial
  | cons first rs ih =>
      have hfirst := h first List.mem_cons_self
      refine ⟨Request.Served.of_reseeds gen w hfirst.1 hfirst.2, ih _ ?_⟩
      intro r hr
      exact h r (List.mem_cons_of_mem first hr)

end Host
end FStackLite
