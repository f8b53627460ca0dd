import Mathlib.Algebra.BigOperators.Intervals
import Mathlib.Algebra.Order.BigOperators.Group.Finset

/-!
# Cuttlefish.Stack

Extents laid one behind the other, the first at 0.

`offset size i` is where the one at `i` begins.  `advance` goes over them with a
running total, as a loop does, and `advance_spec` says where it stops.
-/

namespace Cuttlefish

section Advance

variable {α : Type} [AddCommMonoid α]

/-- Where the extent at `i` begins. -/
def offset (size : Nat → α) (i : Nat) : α := ∑ k ∈ Finset.range i, size k

@[simp] theorem offset_zero (size : Nat → α) : offset size 0 = 0 := by
  simp [offset]

@[simp] theorem offset_succ (size : Nat → α) (i : Nat) :
    offset size (i + 1) = offset size i + size i := by
  simp [offset, Finset.sum_range_succ]

/-- Goes on from `i`, over `left` extents at most and as long as `more` says
so, and adds them to the total. -/
def advance (size : Nat → α) (more : Nat → α → Bool) : (left : Nat) → Nat → α → Nat × α
  | 0, i, total => (i, total)
  | left + 1, i, total =>
      if more i total then advance size more left (i + 1) (total + size i) else (i, total)

/-- Where a walk from `i` over `left` extents stops. -/
structure StopsAt (size : Nat → α) (more : Nat → α → Bool) (left i : Nat) (r : Nat × α) :
    Prop where
  total : r.2 = offset size r.1
  le : i ≤ r.1
  le_left : r.1 ≤ i + left
  passed : ∀ k, i ≤ k → k < r.1 → more k (offset size k) = true
  stopped : r.1 < i + left → more r.1 (offset size r.1) = false

theorem advance_spec (size : Nat → α) (more : Nat → α → Bool) (left i : Nat) :
    StopsAt size more left i (advance size more left i (offset size i)) := by
  induction left generalizing i with
  | zero =>
      refine ⟨rfl, le_rfl, le_rfl, fun k hk hlt => ?_, by simp [advance]⟩
      exact absurd hlt (by simp [advance, hk])
  | succ left ih =>
      cases hmore : more i (offset size i) with
      | false =>
          have hstop : advance size more (left + 1) i (offset size i) = (i, offset size i) := by
            simp [advance, hmore]
          rw [hstop]
          exact ⟨rfl, le_rfl, by omega, fun k hk hlt => by omega, fun _ => hmore⟩
      | true =>
          have hnext : advance size more (left + 1) i (offset size i) =
              advance size more left (i + 1) (offset size (i + 1)) := by
            simp [advance, hmore]
          obtain ⟨htotal, hle, hleft, hpassed, hstopped⟩ := ih (i + 1)
          rw [hnext]
          refine ⟨htotal, by omega, by omega, fun k hk hlt => ?_, fun hlt => hstopped (by omega)⟩
          by_cases hki : k = i
          · rw [hki, hmore]
          · exact hpassed k (by omega) hlt

end Advance

section Order

variable {α : Type} [AddCommMonoid α] [PartialOrder α] [IsOrderedCancelAddMonoid α]
  {size : Nat → α}

theorem offset_strictMono (h : ∀ i, 0 < size i) : StrictMono (offset size) :=
  strictMono_nat_of_lt_succ fun i => by
    rw [offset_succ]
    exact lt_add_of_pos_right _ (h i)

end Order

/-- A part in the middle, and what is before and behind it. -/
theorem offset_add_sum {α : Type} [AddCommMonoid α] (size : Nat → α) {i j n : Nat} (hij : i ≤ j)
    (hjn : j ≤ n) :
    offset size i + ∑ k ∈ Finset.Ico i j, size k + ∑ k ∈ Finset.Ico j n, size k =
      offset size n := by
  rw [offset, offset, Finset.range_eq_Ico, Finset.range_eq_Ico,
    Finset.sum_Ico_consecutive _ (Nat.zero_le i) hij,
    Finset.sum_Ico_consecutive _ (Nat.zero_le j) hjn]

end Cuttlefish
