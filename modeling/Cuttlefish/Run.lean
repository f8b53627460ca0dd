import Mathlib.Data.List.Basic
import Mathlib.Dynamics.FixedPoints.Basic

/-!
# Cuttlefish.Run

Runs of a system that takes one action after the other, each of which the
system may refuse.

`Reachable step P s₀` are the states of runs whose steps all meet `P`.
`Reachable.invariant` is the induction rule, and `exists_reachable` finds a
reachable state by evaluating a list of actions.  `exists_isFixedPt_iterate`
is for a step that is repeated until it changes nothing.
-/

namespace Cuttlefish

variable {σ α : Type} {step : σ → α → Option σ} {P : σ → α → Prop} {s₀ : σ}

/-- The states of the runs from `s₀` whose steps all meet `P`. -/
inductive Reachable (step : σ → α → Option σ) (P : σ → α → Prop) (s₀ : σ) : σ → Prop
  | init : Reachable step P s₀ s₀
  | next {s s' : σ} {a : α} (reached : Reachable step P s₀ s) (meets : P s a)
      (h : step s a = some s') : Reachable step P s₀ s'

/-- What holds at the start and survives every step that meets `P` holds in
every reachable state. -/
theorem Reachable.invariant (inv : σ → Prop) (hinit : inv s₀)
    (hstep : ∀ {s a s'}, Reachable step P s₀ s → inv s → P s a → step s a = some s' → inv s')
    {s : σ} (h : Reachable step P s₀ s) : inv s := by
  induction h with
  | init => exact hinit
  | next reached meets h ih => exact hstep reached ih meets h

/-- A run whose steps meet a condition meets a weaker one. -/
theorem Reachable.mono {Q : σ → α → Prop} (hPQ : ∀ s a, P s a → Q s a) {s : σ}
    (h : Reachable step P s₀ s) : Reachable step Q s₀ s := by
  induction h with
  | init => exact .init
  | next reached meets h ih => exact .next ih (hPQ _ _ meets) h

/-- A run that goes on. -/
theorem Reachable.trans {s s' : σ} (h : Reachable step P s₀ s) (h' : Reachable step P s s') :
    Reachable step P s₀ s' := by
  induction h' with
  | init => exact h
  | next _ meets hstep ih => exact .next ih meets hstep

/-- Takes the actions of a list in turn, as long as each meets `P`. -/
def run (step : σ → α → Option σ) (P : σ → α → Prop) [∀ s a, Decidable (P s a)] :
    σ → List α → Option σ
  | s, [] => some s
  | s, a :: as => if P s a then (step s a).bind fun s' => run step P s' as else none

theorem reachable_of_run [∀ s a, Decidable (P s a)] {s s' : σ} {as : List α}
    (hs : Reachable step P s₀ s) (h : run step P s as = some s') : Reachable step P s₀ s' := by
  induction as generalizing s with
  | nil =>
      cases h
      exact hs
  | cons a as ih =>
      rw [run] at h
      split_ifs at h with hmeets
      obtain ⟨t, hstep, hrest⟩ := Option.bind_eq_some_iff.mp h
      exact ih (.next hs hmeets hstep) hrest

/-- A reachable state with a property, found by evaluation. -/
theorem exists_reachable (step : σ → α → Option σ) (P : σ → α → Prop) (s₀ : σ) (p : σ → Prop)
    [∀ s a, Decidable (P s a)] [DecidablePred p] (as : List α)
    (h : (run step P s₀ as).any (fun s => p s) = true) : ∃ s, Reachable step P s₀ s ∧ p s := by
  rw [Option.any_eq_true] at h
  obtain ⟨s, hrun, hp⟩ := h
  exact ⟨s, reachable_of_run .init hrun, of_decide_eq_true hp⟩

/-- A step that lowers a measure unless it changes nothing comes to rest. -/
theorem exists_isFixedPt_iterate (f : σ → σ) (measure : σ → Nat)
    (h : ∀ s, f s = s ∨ measure (f s) < measure s) (s : σ) :
    ∃ n ≤ measure s, Function.IsFixedPt f (f^[n] s) := by
  induction hn : measure s using Nat.strong_induction_on generalizing s with
  | h n ih =>
      cases h s with
      | inl hfixed => exact ⟨0, Nat.zero_le _, hfixed⟩
      | inr hlt =>
          obtain ⟨k, hk, hfixed⟩ := ih (measure (f s)) (by omega) (f s) rfl
          exact ⟨k + 1, by omega, hfixed⟩

end Cuttlefish
