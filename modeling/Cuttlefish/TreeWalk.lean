import Mathlib.Data.List.Basic

/-!
# Cuttlefish.TreeWalk

Walks over trees that hand a flag down.  A position is the way to a node from
the root, by the number of the child; the walk comes to a node by the flags it
passes to the children on the way, and passes over a child by giving it none.

A walk that rebuilds the tree and joins up a verdict is given by what it makes
of a node.  `Rebuilds.nodeAt?_of_visit` carries what it makes of the root to every
position it comes to.
-/

namespace Cuttlefish

/-- The node at a position, of a tree whose nodes have these children. -/
def nodeAt? {ν : Type} (content : ν → List ν) : ν → List Nat → Option ν
  | n, [] => some n
  | n, i :: p => ((content n)[i]?).bind fun c => nodeAt? content c p

/-- The children of a node and the flags they are visited with. -/
structure TreeWalk (ν φ : Type) where
  content : ν → List ν
  childFlag : φ → ν → Nat → Option φ

namespace TreeWalk

variable {ν φ : Type} (w : TreeWalk ν φ)

/-- The flag the node at a position is visited with; none if it is not. -/
def visit (flag : φ) : ν → List Nat → Option φ
  | _, [] => some flag
  | n, i :: p =>
      (w.childFlag flag n i).bind fun flag => ((w.content n)[i]?).bind fun c => visit flag c p

/-- The walk comes to a node with this flag and this property. -/
def Meets (P : φ → ν → Prop) (flag : φ) (n : ν) : Prop :=
  ∃ p flag' c, w.visit flag n p = some flag' ∧ nodeAt? w.content n p = some c ∧ P flag' c

/-- What the walk makes of a node, `R flag n n' verdict`, it makes of the
children as well, and their verdicts carry over. -/
def Rebuilds (R : φ → ν → ν → Bool → Prop) : Prop :=
  ∀ ⦃flag n n' verdict i flag' c⦄, R flag n n' verdict → w.childFlag flag n i = some flag' →
    (w.content n)[i]? = some c →
    ∃ c' v, R flag' c c' v ∧ (w.content n')[i]? = some c' ∧ (v = true → verdict = true)

variable {w} {R : φ → ν → ν → Bool → Prop} {P : φ → ν → Prop} {flag flag' : φ} {n n' c : ν}
  {p : List Nat} {i : Nat} {verdict : Bool}

/-- A position the walk comes to is one of the tree. -/
theorem nodeAt?_of_visit (h : w.visit flag n p = some flag') :
    ∃ c, nodeAt? w.content n p = some c := by
  induction p generalizing n flag with
  | nil => exact ⟨n, rfl⟩
  | cons i p ih =>
      obtain ⟨flag₁, -, hvisit⟩ := Option.bind_eq_some_iff.mp h
      obtain ⟨child, hchild, hvisit⟩ := Option.bind_eq_some_iff.mp hvisit
      obtain ⟨c, hc⟩ := ih hvisit
      exact ⟨c, by rw [nodeAt?, hchild, Option.bind_some, hc]⟩

/-- **What the walk comes to**, it rebuilds where it stands. -/
theorem Rebuilds.nodeAt?_of_visit (hR : w.Rebuilds R) (h : R flag n n' verdict)
    (hvisit : w.visit flag n p = some flag') (hc : nodeAt? w.content n p = some c) :
    ∃ c' v, R flag' c c' v ∧ nodeAt? w.content n' p = some c' ∧ (v = true → verdict = true) := by
  induction p generalizing n n' flag verdict with
  | nil =>
      cases hvisit
      cases hc
      exact ⟨n', verdict, h, rfl, id⟩
  | cons i p ih =>
      obtain ⟨flag₁, hflag₁, hvisit⟩ := Option.bind_eq_some_iff.mp hvisit
      obtain ⟨child, hchild, hvisit⟩ := Option.bind_eq_some_iff.mp hvisit
      rw [nodeAt?, hchild, Option.bind_some] at hc
      obtain ⟨child', v, hmade, hchild', hverdict⟩ := hR h hflag₁ hchild
      obtain ⟨c', v', hmade', hc', hverdict'⟩ := ih hmade hvisit hc
      refine ⟨c', v', hmade', ?_, fun hv => hverdict (hverdict' hv)⟩
      rw [nodeAt?, hchild', Option.bind_some, hc']

/-- What is met under a child is met under the node. -/
theorem Meets.of_child (h : w.Meets P flag' c) (hflag : w.childFlag flag n i = some flag')
    (hc : (w.content n)[i]? = some c) : w.Meets P flag n := by
  obtain ⟨p, flag₁, c₁, hvisit, hat, hP⟩ := h
  refine ⟨i :: p, flag₁, c₁, ?_, ?_, hP⟩
  · rw [visit, hflag, Option.bind_some, hc, Option.bind_some, hvisit]
  · rw [nodeAt?, hc, Option.bind_some, hat]

/-- The node itself. -/
theorem Meets.of_self (h : P flag n) : w.Meets P flag n := ⟨[], flag, n, rfl, rfl, h⟩

end TreeWalk

end Cuttlefish
