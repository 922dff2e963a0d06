import Mathlib.Algebra.BigOperators.Group.List.Basic
import Mathlib.Tactic.Ring

/-!
# Ranges of addresses

A copy touches a range of addresses.  It stays inside a buffer when every address it
touches belongs to the buffer, so a copy of no bytes stays inside every buffer.
Ranges that are laid out one behind the other from the start of a buffer stay inside
it exactly when their lengths add up to no more than the buffer's size.
-/

namespace FStackLite
namespace Foundation

universe u

structure Span where
  start : Nat
  len : Nat
deriving DecidableEq, Repr

namespace Span

def Covers (s : Span) (x : Nat) : Prop :=
  s.start ≤ x ∧ x < s.start + s.len

/-- Every address of the range belongs to the `room` bytes from `lo` on. -/
def Within (s : Span) (lo room : Nat) : Prop :=
  forall x, s.Covers x -> lo ≤ x ∧ x < lo + room

variable {lo room : Nat} {s : Span}

theorem within_of_le (hlo : lo ≤ s.start) (hhi : s.start + s.len ≤ lo + room) :
    s.Within lo room := by
  intro x hx
  exact ⟨Nat.le_trans hlo hx.1, Nat.lt_of_lt_of_le hx.2 hhi⟩

theorem within_empty (hlen : s.len = 0) : s.Within lo room := by
  intro x hx
  rcases hx with ⟨hfrom, hto⟩
  rw [hlen] at hto
  exact absurd hfrom (Nat.not_le.mpr hto)

theorem within_iff :
    s.Within lo room <-> s.len = 0 ∨ (lo ≤ s.start ∧ s.start + s.len ≤ lo + room) := by
  constructor
  · intro h
    cases hlen : s.len with
    | zero => exact Or.inl rfl
    | succ n =>
        have hfirst := h s.start ⟨Nat.le_refl _, by omega⟩
        have hlast := h (s.start + n) ⟨Nat.le_add_right _ _, by omega⟩
        exact Or.inr ⟨hfirst.1, by omega⟩
  · intro h
    rcases h with hlen | ⟨hlo, hhi⟩
    · exact within_empty hlen
    · exact within_of_le hlo hhi

instance (s : Span) (lo room : Nat) : Decidable (s.Within lo room) :=
  decidable_of_iff _ within_iff.symm

def Disjoint (s t : Span) : Prop :=
  forall x, s.Covers x -> ¬ t.Covers x

theorem disjoint_iff {t : Span} : s.Disjoint t <->
      s.len = 0 ∨ t.len = 0 ∨ s.start + s.len ≤ t.start ∨ t.start + t.len ≤ s.start := by
  constructor
  · intro h
    have hlater := h (max s.start t.start)
    unfold Covers at hlater
    omega
  · intro h x hs ht
    unfold Covers at hs ht
    omega

instance (s t : Span) : Decidable (s.Disjoint t) :=
  decidable_of_iff _ disjoint_iff.symm

end Span

/-!
## Ranges one behind the other
-/

/-- Ranges of these lengths, the first one at `start`, without gaps. -/
def layout : Nat -> List Nat -> List Span
  | _, [] => []
  | start, n :: lens => ⟨start, n⟩ :: layout (start + n) lens

@[simp] theorem layout_nil (start : Nat) : layout start [] = [] := rfl

@[simp] theorem layout_cons (start n : Nat) (lens : List Nat) :
    layout start (n :: lens) = ⟨start, n⟩ :: layout (start + n) lens := rfl

theorem layout_append (start : Nat) (lens lens' : List Nat) :
    layout start (lens ++ lens') = layout start lens ++ layout (start + lens.sum) lens' := by
  induction lens generalizing start with
  | nil => simp
  | cons n lens ih =>
      rw [List.cons_append, layout_cons, layout_cons, ih, List.sum_cons, Nat.add_assoc,
        List.cons_append]

/-- The rule for a buffer that is partly filled: `used` bytes are taken. -/
theorem layout_within_from (lo room : Nat) (lens : List Nat) (used : Nat) (hused : used ≤ room) :
    (forall s, s ∈ layout (lo + used) lens -> s.Within lo room) <-> used + lens.sum ≤ room := by
  induction lens generalizing used with
  | nil => simp [hused]
  | cons n lens ih =>
      rw [layout_cons, List.forall_mem_cons, List.sum_cons, Span.within_iff, Nat.add_assoc lo used n]
      constructor
      · rintro ⟨hfirst, hrest⟩
        have hfits : used + n ≤ room := by
          rcases hfirst with hzero | ⟨_, hhi⟩
          · exact Nat.le_trans (Nat.le_of_eq (by rw [show n = 0 from hzero, Nat.add_zero])) hused
          · exact Nat.le_of_add_le_add_left hhi
        have htotal := (ih (used + n) hfits).mp hrest
        omega
      · intro htotal
        have hfits : used + n ≤ room := by omega
        constructor
        · right
          exact ⟨Nat.le_add_right lo used, Nat.add_le_add_left hfits lo⟩
        · apply (ih (used + n) hfits).mpr
          omega

/-- Ranges laid out from the start of a buffer stay inside it if and only if they fit. -/
theorem layout_within_iff {lo room : Nat} (lens : List Nat) :
    (forall s, s ∈ layout lo lens -> s.Within lo room) <-> lens.sum ≤ room := by
  have h := layout_within_from lo room lens 0 (Nat.zero_le room)
  rw [Nat.add_zero, Nat.zero_add] at h
  exact h

/-!
## What a computation reads
-/

structure Traced (α : Type u) where
  reads : List Span
  result : α

namespace Traced

variable {α : Type u}

def after (spans : List Span) (t : Traced α) : Traced α :=
  { t with reads := spans ++ t.reads }

@[simp] theorem after_result (spans : List Span) (t : Traced α) :
    (t.after spans).result = t.result := rfl

/-- All that was read belongs to the `room` bytes from `lo` on. -/
def Within (t : Traced α) (lo room : Nat) : Prop :=
  forall s, s ∈ t.reads -> s.Within lo room

theorem after_within_iff {spans : List Span} {t : Traced α} {lo room : Nat} :
    (t.after spans).Within lo room <->
      (forall s, s ∈ spans -> s.Within lo room) ∧ t.Within lo room :=
  List.forall_mem_append

end Traced

end Foundation
end FStackLite
