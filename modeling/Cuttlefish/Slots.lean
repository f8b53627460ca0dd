import Mathlib.Logic.Function.Basic

/-!
# Cuttlefish.Slots

Processes in numbered slots, of which any number are taken.

`All`, `Others`, `Any` and `AtMostOne` are what invariants of such a system
say of the processes.  For each there is a rule for one process moving or
coming in, so that no proof has to compare slots.  `ofList` numbers the
processes of a list.
-/

namespace Cuttlefish

/-- Processes by the slot they are in. -/
abbrev Slots (ρ : Type) := Nat → Option ρ

namespace Slots

variable {ρ : Type} {s : Slots ρ} {P Q : ρ → Prop} {pid q : Nat} {r r' : ρ}

/-- No process at all. -/
def empty : Slots ρ := fun _ => none

/-- The process in one slot moves, or comes in. -/
def set (s : Slots ρ) (pid : Nat) (r : ρ) : Slots ρ := Function.update s pid (some r)

/-- Every process has `P`. -/
def All (s : Slots ρ) (P : ρ → Prop) : Prop := ∀ q r, s q = some r → P r

/-- Every process in another slot has `P`. -/
def Others (s : Slots ρ) (pid : Nat) (P : ρ → Prop) : Prop :=
  ∀ q r, s q = some r → q ≠ pid → P r

/-- Some process has `P`. -/
def Any (s : Slots ρ) (P : ρ → Prop) : Prop := ∃ q r, s q = some r ∧ P r

/-- No two processes have `P`. -/
def AtMostOne (s : Slots ρ) (P : ρ → Prop) : Prop :=
  ∀ q r q' r', s q = some r → s q' = some r' → P r → P r' → q = q'

theorem set_eq_some :
    s.set pid r q = some r' ↔ (q = pid ∧ r' = r) ∨ (q ≠ pid ∧ s q = some r') := by
  by_cases hq : q = pid
  · simp [set, hq, eq_comm]
  · simp [set, hq]

/-! ## all -/

theorem all_empty : (empty : Slots ρ).All P := by
  intro q r hr
  contradiction

theorem All.imp (h : s.All P) (hPQ : ∀ r, P r → Q r) : s.All Q :=
  fun q r hr => hPQ r (h q r hr)

theorem All.others (h : s.All P) (pid : Nat) : s.Others pid P := fun q r hr _ => h q r hr

theorem Others.imp (h : s.Others pid P) (hPQ : ∀ r, P r → Q r) : s.Others pid Q :=
  fun q r hr hq => hPQ r (h q r hr hq)

theorem all_set : (s.set pid r).All P ↔ P r ∧ s.Others pid P := by
  constructor
  · intro h
    refine ⟨h pid r (set_eq_some.mpr (Or.inl ⟨rfl, rfl⟩)), fun q r' hr' hq => ?_⟩
    exact h q r' (set_eq_some.mpr (Or.inr ⟨hq, hr'⟩))
  · intro h q r' hr'
    cases set_eq_some.mp hr' with
    | inl hself => exact hself.2 ▸ h.1
    | inr hother => exact h.2 q r' hother.2 hother.1

theorem all_iff (hr : s pid = some r) : s.All P ↔ P r ∧ s.Others pid P := by
  have hset : s.set pid r = s := by
    rw [set, ← hr, Function.update_eq_self]
  rw [← all_set, hset]

theorem others_of_none (hnew : s pid = none) : s.Others pid P ↔ s.All P := by
  constructor
  · intro h q r hr
    refine h q r hr fun hq => ?_
    rw [hq, hnew] at hr
    contradiction
  · exact fun h => h.others pid

/-- One process moves, and has `P` then. -/
theorem All.set (h : s.All P) (hr : P r) : (s.set pid r).All P :=
  all_set.mpr ⟨hr, h.others pid⟩

/-! ## some -/

theorem Any.set_self (hr : P r) : (s.set pid r).Any P :=
  ⟨pid, r, set_eq_some.mpr (Or.inl ⟨rfl, rfl⟩), hr⟩

/-- Whoever it was is the process that moves, or still there. -/
theorem Any.set (h : s.Any P) (hr : s pid = some r) : P r ∨ (s.set pid r').Any P := by
  obtain ⟨q, r₀, hr₀, hP⟩ := h
  by_cases hq : q = pid
  · have hsame : r₀ = r := Option.some.inj (hr₀.symm.trans (hq ▸ hr))
    exact Or.inl (hsame ▸ hP)
  · exact Or.inr ⟨q, r₀, set_eq_some.mpr (Or.inr ⟨hq, hr₀⟩), hP⟩

theorem Any.set_of_none (h : s.Any P) (hnew : s pid = none) : (s.set pid r).Any P := by
  obtain ⟨q, r₀, hr₀, hP⟩ := h
  refine ⟨q, r₀, set_eq_some.mpr (Or.inr ⟨fun hq => ?_, hr₀⟩), hP⟩
  rw [hq, hnew] at hr₀
  contradiction

theorem All.not_any (h : s.All fun r => ¬ P r) : ¬ s.Any P := fun ⟨q, r, hr, hP⟩ => h q r hr hP

/-! ## at most one -/

theorem atMostOne_of_all (h : s.All fun r => ¬ P r) : s.AtMostOne P :=
  fun q r _ _ hr _ hP => absurd hP (h q r hr)

theorem AtMostOne.others (h : s.AtMostOne P) (hr : s pid = some r) (hP : P r) :
    s.Others pid fun r => ¬ P r :=
  fun q r' hr' hq hP' => hq (h q r' pid r hr' hr hP' hP)

/-- The process that moves is the only one. -/
theorem Others.atMostOne_set (h : s.Others pid fun r => ¬ P r) : (s.set pid r).AtMostOne P := by
  have hself : ∀ q r', s.set pid r q = some r' → P r' → q = pid := by
    intro q r' hr' hP
    cases set_eq_some.mp hr' with
    | inl hself => exact hself.1
    | inr hother => exact absurd hP (h q r' hother.2 hother.1)
  intro q r₁ q' r₂ h₁ h₂ hP₁ hP₂
  rw [hself q r₁ h₁ hP₁, hself q' r₂ h₂ hP₂]

/-- A process that moves and has `P` then had it before. -/
theorem AtMostOne.set (h : s.AtMostOne P) (hr : s pid = some r) (hP : P r' → P r) :
    (s.set pid r').AtMostOne P := by
  have hold : ∀ q r₀, s.set pid r' q = some r₀ → P r₀ → ∃ r₁, s q = some r₁ ∧ P r₁ := by
    intro q r₀ hr₀ hP₀
    cases set_eq_some.mp hr₀ with
    | inl hself => exact ⟨r, hself.1 ▸ hr, hP (hself.2 ▸ hP₀)⟩
    | inr hother => exact ⟨r₀, hother.2, hP₀⟩
  intro q r₁ q' r₂ h₁ h₂ hP₁ hP₂
  obtain ⟨r₃, h₃, hP₃⟩ := hold q r₁ h₁ hP₁
  obtain ⟨r₄, h₄, hP₄⟩ := hold q' r₂ h₂ hP₂
  exact h q r₃ q' r₄ h₃ h₄ hP₃ hP₄

/-- A process that comes in without `P` changes nothing. -/
theorem AtMostOne.set_of_not (h : s.AtMostOne P) (hP : ¬ P r) : (s.set pid r).AtMostOne P := by
  have hold : ∀ q r', s.set pid r q = some r' → P r' → s q = some r' := by
    intro q r' hr' hP'
    cases set_eq_some.mp hr' with
    | inl hself => exact absurd (hself.2 ▸ hP') hP
    | inr hother => exact hother.2
  intro q r₁ q' r₂ h₁ h₂ hP₁ hP₂
  exact h q r₁ q' r₂ (hold q r₁ h₁ hP₁) (hold q' r₂ h₂ hP₂) hP₁ hP₂

/-! ## numbered as they came in -/

/-- The processes of a list, each in the slot of its place. -/
def ofList (l : List ρ) : Slots ρ := fun pid => l[pid]?

variable {l : List ρ}

/-- One more process comes in. -/
theorem ofList_append : ofList (l ++ [r]) = (ofList l).set l.length r := by
  funext q
  by_cases hq : q = l.length
  · simp [ofList, set, hq]
  · simp only [ofList, set, Function.update_of_ne hq, List.getElem?_append]
    split
    next => rfl
    next hge => rw [List.getElem?_eq_none (by simp; omega), List.getElem?_eq_none (by omega)]

/-- One process moves. -/
theorem ofList_set (h : ofList l pid = some r) : ofList (l.set pid r') = (ofList l).set pid r' := by
  have hlt : pid < l.length := (List.getElem?_eq_some_iff.mp h).1
  funext q
  by_cases hq : q = pid
  · simp [ofList, set, hq, hlt]
  · simp [ofList, set, hq, List.getElem?_set_ne (Ne.symm hq)]

end Slots

end Cuttlefish
