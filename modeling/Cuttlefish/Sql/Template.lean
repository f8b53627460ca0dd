import Cuttlefish.Utf8
import Mathlib.Data.List.Basic

/-!
# Cuttlefish.Sql.Template

Parameterized statements: a text with the values left out, and the values in
order.

A template is the statement as it would read with the values in place.
`numbered` leaves a placeholder for each value and `boundValues` lifts them
out; `placeholders` reads the placeholders of any text.  The text depends on
the shape of a template only (`numbered_congr`), and its placeholders number
the values (`placeholders_numbered`).
-/

namespace Cuttlefish.Sql

variable {α : Type}

/-- A piece of a statement: its own text, or a value. -/
inductive Piece (α : Type) where
  | text (t : Text)
  | value (v : α)
  deriving DecidableEq, Repr

/-- The placeholder of the `n`-th value. -/
def placeholder (n : Nat) : Text := '$' :: Nat.toDigits 10 n

/-- The statement, its values numbered from `n`. -/
def numbered : Nat → List (Piece α) → Text
  | _, [] => []
  | n, .text t :: ps => t ++ numbered n ps
  | n, .value _ :: ps => placeholder n ++ numbered (n + 1) ps

/-- The values, in order. -/
def boundValues : List (Piece α) → List α
  | [] => []
  | .text _ :: ps => boundValues ps
  | .value v :: ps => v :: boundValues ps

@[simp] theorem boundValues_append (ps qs : List (Piece α)) :
    boundValues (ps ++ qs) = boundValues ps ++ boundValues qs := by
  induction ps with
  | nil => rfl
  | cons p ps ih => cases p <;> simp [boundValues, ih]

theorem numbered_append (n : Nat) (ps qs : List (Piece α)) :
    numbered n (ps ++ qs) = numbered n ps ++ numbered (n + (boundValues ps).length) qs := by
  induction ps generalizing n with
  | nil => rfl
  | cons p ps ih =>
      cases p with
      | text t => simp [numbered, boundValues, ih]
      | value v =>
          rw [List.cons_append, numbered, numbered, ih, boundValues, List.length_cons,
            List.append_assoc, Nat.add_right_comm, Nat.add_assoc]

/-! ## shapes -/

/-- A piece, its value forgotten. -/
def Piece.shape : Piece α → Piece Unit
  | .text t => .text t
  | .value _ => .value ()

/-- **The text does not depend on the values.** -/
theorem numbered_congr {ps qs : List (Piece α)} (h : ps.map Piece.shape = qs.map Piece.shape)
    (n : Nat) : numbered n ps = numbered n qs := by
  have hshape : ∀ (ps : List (Piece α)) n, numbered n ps = numbered n (ps.map Piece.shape) := by
    intro ps
    induction ps with
    | nil => intro n; rfl
    | cons p ps ih =>
        intro n
        cases p with
        | text t => rw [List.map_cons, Piece.shape, numbered, numbered, ih]
        | value v => rw [List.map_cons, Piece.shape, numbered, numbered, ih]
  rw [hshape, h, ← hshape]

/-! ## placeholders -/

/-- The numbers of the placeholders of a statement, from left to right. -/
def placeholders : Text → List Nat
  | [] => []
  | c :: cs =>
      if c = '$' ∧ cs.takeWhile Char.isDigit ≠ [] then
        Nat.ofDigitChars 10 (cs.takeWhile Char.isDigit) 0 :: placeholders cs
      else placeholders cs

/-- No digit of a placeholder's number can follow. -/
def NoDigit (t : Text) : Prop := ∀ c ∈ t.head?, c.isDigit = false

instance (t : Text) : Decidable (NoDigit t) :=
  match t with
  | [] => isTrue (by simp [NoDigit])
  | c :: _ => decidable_of_iff (c.isDigit = false) (by simp [NoDigit])

theorem placeholders_of_not_mem {t : Text} (ht : '$' ∉ t) (rest : Text) :
    placeholders (t ++ rest) = placeholders rest := by
  induction t with
  | nil => rfl
  | cons c t ih =>
      rw [List.mem_cons, not_or] at ht
      rw [List.cons_append, placeholders, if_neg (fun h => ht.1 h.1.symm), ih ht.2]

/-- A placeholder is read back. -/
theorem placeholders_placeholder (n : Nat) {rest : Text} (hrest : NoDigit rest) :
    placeholders (placeholder n ++ rest) = n :: placeholders rest := by
  have hdigits : ∀ c ∈ Nat.toDigits 10 n, c.isDigit = true := fun c hc =>
    Nat.isDigit_of_mem_toDigits (by decide) (by decide) hc
  have hdollar : '$' ∉ Nat.toDigits 10 n := fun h => absurd (hdigits '$' h) (by decide)
  have hstop : rest.takeWhile Char.isDigit = [] := by
    cases rest with
    | nil => rfl
    | cons c rest => simp [hrest c rfl]
  have htake : (Nat.toDigits 10 n ++ rest).takeWhile Char.isDigit = Nat.toDigits 10 n := by
    rw [List.takeWhile_append_of_pos hdigits, hstop, List.append_nil]
  rw [placeholder, List.cons_append, placeholders, htake,
    if_pos ⟨rfl, Nat.toDigits_ne_nil⟩, placeholders_of_not_mem hdollar]
  simp

/-- A text without placeholders of its own, and nothing to lengthen the number
of one in front of it. -/
def Piece.Plain : Piece α → Prop
  | .text t => '$' ∉ t ∧ NoDigit t
  | .value _ => True

instance : DecidablePred (Piece.Plain (α := α))
  | .text _ => inferInstanceAs (Decidable (_ ∧ _))
  | .value _ => isTrue trivial

theorem noDigit_numbered {ps : List (Piece α)} (h : ∀ p ∈ ps, p.Plain) (n : Nat) :
    NoDigit (numbered n ps) := by
  induction ps generalizing n with
  | nil => simp [numbered, NoDigit]
  | cons p ps ih =>
      rw [List.forall_mem_cons] at h
      cases p with
      | value v => simp [numbered, placeholder, NoDigit]
      | text t =>
          cases t with
          | nil => simpa [numbered] using ih h.2 n
          | cons c t => simpa [numbered, NoDigit] using h.1.2

/-- **The placeholders number the values**: each occurs once, in order. -/
theorem placeholders_numbered {ps : List (Piece α)} (h : ∀ p ∈ ps, p.Plain) (n : Nat) :
    placeholders (numbered n ps) = List.range' n (boundValues ps).length := by
  induction ps generalizing n with
  | nil => rfl
  | cons p ps ih =>
      rw [List.forall_mem_cons] at h
      cases p with
      | text t => rw [numbered, placeholders_of_not_mem h.1.1, ih h.2, boundValues]
      | value v =>
          rw [numbered, placeholders_placeholder n (noDigit_numbered h.2 _), ih h.2, boundValues,
            List.length_cons, List.range'_succ]

end Cuttlefish.Sql
