import Mathlib.Algebra.BigOperators.Group.List.Basic
import Mathlib.Algebra.Ring.Int.Defs
import Mathlib.Data.List.Nodup
import Mathlib.Logic.Function.Basic

/-!
# Cuttlefish.Accumulate

Folding a stream of rows into a map, where every row updates the values at
several keys.

A map is a function into `Option`; `hit` is one entry-or-insert.
`foldl_rows` separates the keys: what ends up at one key is the fold over
the rows that hit it, whatever happens at the others.  `sum_filter_eq` adds
up group by group.
-/

namespace Cuttlefish

variable {κ ν ρ : Type*} [DecidableEq κ]

/-- Updates the entry at `k` for the row `r`, or inserts one. -/
def hit (f : Option ν → ρ → ν) (r : ρ) (m : κ → Option ν) (k : κ) : κ → Option ν :=
  Function.update m k (some (f (m k) r))

@[simp] theorem hit_self (f : Option ν → ρ → ν) (r : ρ) (m : κ → Option ν) (k : κ) :
    hit f r m k k = some (f (m k) r) := Function.update_self ..

theorem hit_of_ne (f : Option ν → ρ → ν) (r : ρ) (m : κ → Option ν) {k k' : κ} (h : k' ≠ k) :
    hit f r m k k' = m k' := Function.update_of_ne h ..

/-- One row, all its keys: each is hit once, the rest stay. -/
theorem foldl_hit {f : Option ν → ρ → ν} {r : ρ} {ks : List κ} (hks : ks.Nodup)
    (m : κ → Option ν) (k : κ) :
    (ks.foldl (hit f r) m) k = if k ∈ ks then some (f (m k) r) else m k := by
  induction ks generalizing m with
  | nil => rfl
  | cons k' ks ih =>
      rw [List.nodup_cons] at hks
      rw [List.foldl_cons, ih hks.2]
      by_cases hk : k = k'
      · subst hk
        rw [if_neg hks.1, hit_self, if_pos List.mem_cons_self]
      · simp [hit_of_ne f r m hk, hk]

/-- **Keys do not interfere**: the entry at `k` is the fold over the rows
that hit `k`. -/
theorem foldl_rows {f : Option ν → ρ → ν} {keys : ρ → List κ} {rows : List ρ}
    (hkeys : ∀ r ∈ rows, (keys r).Nodup) (m : κ → Option ν) (k : κ) :
    (rows.foldl (fun m r => (keys r).foldl (hit f r) m) m) k =
      (rows.filter fun r => k ∈ keys r).foldl (fun acc r => some (f acc r)) (m k) := by
  induction rows generalizing m with
  | nil => rfl
  | cons r rows ih =>
      rw [List.forall_mem_cons] at hkeys
      rw [List.foldl_cons, ih hkeys.2, foldl_hit hkeys.1]
      by_cases hk : k ∈ keys r
      · simp [hk]
      · simp [hk]

/-! ## adding up by groups -/

omit [DecidableEq κ] in
theorem sum_map_ite_eq (n : Int) (p : κ → Prop) [DecidablePred p] (ks : List κ) :
    (ks.map fun k => if p k then n else 0).sum = ks.countP p * n := by
  induction ks with
  | nil => simp
  | cons k ks ih =>
      rw [List.map_cons, List.sum_cons, ih, List.countP_cons]
      by_cases hk : p k
      · simp [hk, add_mul, add_comm]
      · simp [hk]

omit [DecidableEq κ] in
/-- Rows of which each lies in one group are added up group by group. -/
theorem sum_filter_eq {f : ρ → Int} {p : ρ → Prop} [DecidablePred p] {g : κ → ρ → Prop}
    [∀ k r, Decidable (g k r)] {rows : List ρ} {ks : List κ}
    (h : ∀ r ∈ rows, ks.countP (fun k => g k r) = if p r then 1 else 0) :
    ((rows.filter p).map f).sum = (ks.map fun k => ((rows.filter (g k)).map f).sum).sum := by
  induction rows with
  | nil => simp
  | cons r rows ih =>
      rw [List.forall_mem_cons] at h
      have hgroup : ∀ k, (((r :: rows).filter (g k)).map f).sum =
          (if g k r then f r else 0) + ((rows.filter (g k)).map f).sum := by
        intro k
        by_cases hk : g k r
        · simp [hk]
        · simp [hk]
      simp only [hgroup]
      rw [List.sum_map_add, sum_map_ite_eq, h.1, ← ih h.2]
      by_cases hr : p r
      · simp [hr]
      · simp [hr]

end Cuttlefish
