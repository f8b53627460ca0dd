import Cuttlefish.Utf8
import Mathlib.Data.List.Infix

/-!
# Cuttlefish.Sql.Like

SQL `LIKE` with backslash as the escape character.

A pattern is read into elements first, so that escaping is settled before
matching begins; a pattern ending in a dangling escape is an error.
`parsePattern_escapeLike` says that escaped text reads as its own literal
characters, whatever follows it.
-/

namespace Cuttlefish

/-- One element of a pattern. -/
inductive PatElem where
  | lit (c : Char)
  | anyChar
  | anyText
  deriving DecidableEq, Repr

/-- Reads a pattern: `%` is any text, `_` any character, and `\` makes the
next character literal. -/
def parsePattern : Text → Option (List PatElem)
  | [] => some []
  | ['\\'] => none
  | '\\' :: c :: p => (parsePattern p).map (.lit c :: ·)
  | '%' :: p => (parsePattern p).map (.anyText :: ·)
  | '_' :: p => (parsePattern p).map (.anyChar :: ·)
  | c :: p => (parsePattern p).map (.lit c :: ·)

/-- Does the whole text match? -/
def matchPattern : List PatElem → Text → Bool
  | [], t => t = []
  | .lit c :: p, t => match t with
    | [] => false
    | x :: t => x = c && matchPattern p t
  | .anyChar :: p, t => match t with
    | [] => false
    | _ :: t => matchPattern p t
  | .anyText :: p, t => t.tails.any fun s => matchPattern p s

/-- `t LIKE pattern`; an ill-formed pattern is an error. -/
def like (t pattern : Text) : Option Bool := (parsePattern pattern).map (matchPattern · t)

/-- Neutralizes the wildcards and the escape character. -/
def escapeLike (s : Text) : Text :=
  s.flatMap fun c => if c = '\\' ∨ c = '%' ∨ c = '_' then ['\\', c] else [c]

theorem parsePattern_cons {c : Char} (h : ¬ (c = '\\' ∨ c = '%' ∨ c = '_')) (p : Text) :
    parsePattern (c :: p) = (parsePattern p).map (.lit c :: ·) := by
  rw [parsePattern] <;> simp_all

/-- **Escaped text is literal**, in front of any pattern. -/
theorem parsePattern_escapeLike (s p : Text) :
    parsePattern (escapeLike s ++ p) = (parsePattern p).map (s.map PatElem.lit ++ ·) := by
  induction s with
  | nil => simp [escapeLike]
  | cons c s ih =>
      have hcons : parsePattern (escapeLike (c :: s) ++ p) =
          (parsePattern (escapeLike s ++ p)).map (.lit c :: ·) := by
        rw [escapeLike, List.flatMap_cons, ← escapeLike]
        split_ifs with hc
        · rcases hc with rfl | rfl | rfl <;> rfl
        · exact parsePattern_cons hc _
      rw [hcons, ih, Option.map_map]
      rfl

/-- A literal in front of `%` matches the texts it is a prefix of. -/
theorem matchPattern_lits_anyText (s t : Text) :
    matchPattern (s.map .lit ++ [.anyText]) t = true ↔ s <+: t := by
  induction s generalizing t with
  | nil =>
      simp only [List.map_nil, List.nil_append, matchPattern, List.any_eq_true, List.mem_tails,
        decide_eq_true_eq, List.nil_prefix, iff_true]
      exact ⟨[], List.nil_suffix, rfl⟩
  | cons c s ih =>
      cases t with
      | nil => simp [matchPattern]
      | cons x t =>
          rw [List.cons_prefix_cons, ← ih, eq_comm (b := x)]
          simp [matchPattern]

theorem matchPattern_lits (s t : Text) : matchPattern (s.map .lit) t = true ↔ t = s := by
  induction s generalizing t with
  | nil => simp [matchPattern]
  | cons c s ih =>
      cases t with
      | nil => simp [matchPattern]
      | cons x t => simp [matchPattern, ih]

/-- `%` skips what it likes. -/
theorem matchPattern_anyText (p : List PatElem) (t : Text) :
    matchPattern (.anyText :: p) t = true ↔ ∃ u, matchPattern p u = true ∧ u <:+ t := by
  simp [matchPattern, and_comm]

/-! ## what escaped text matches -/

theorem escapeLike_append (s t : Text) : escapeLike (s ++ t) = escapeLike s ++ escapeLike t := by
  simp [escapeLike]

theorem parsePattern_escaped (s : Text) : parsePattern (escapeLike s) = some (s.map .lit) := by
  simpa [parsePattern] using parsePattern_escapeLike s []

/-- `t LIKE escapeLike s`: the text itself. -/
theorem like_escapeLike (s t : Text) : like t (escapeLike s) = some (decide (t = s)) := by
  rw [like, parsePattern_escaped, Option.map_some, Option.some.injEq, Bool.eq_iff_iff,
    decide_eq_true_eq]
  exact matchPattern_lits s t

/-- `t LIKE escapeLike s || '%'`: a prefix. -/
theorem like_escapeLike_anyText (s t : Text) :
    like t (escapeLike s ++ ['%']) = some (decide (s <+: t)) := by
  rw [like, parsePattern_escapeLike]
  simp only [parsePattern, Option.map_some, Option.some.injEq]
  rw [Bool.eq_iff_iff, decide_eq_true_eq]
  exact matchPattern_lits_anyText s t

/-- `t LIKE '%' || escapeLike s`: a suffix. -/
theorem like_anyText_escapeLike (s t : Text) :
    like t ('%' :: escapeLike s) = some (decide (s <:+ t)) := by
  rw [like, parsePattern, parsePattern_escaped]
  simp only [Option.map_some, Option.some.injEq]
  rw [Bool.eq_iff_iff, decide_eq_true_eq, matchPattern_anyText]
  simp [matchPattern_lits]

/-- `t LIKE '%' || escapeLike s || '%'`: anywhere in the text. -/
theorem like_anyText_escapeLike_anyText (s t : Text) :
    like t ('%' :: escapeLike s ++ ['%']) = some (decide (s <:+: t)) := by
  rw [like, List.cons_append, parsePattern, parsePattern_escapeLike]
  simp only [parsePattern, Option.map_some, Option.some.injEq]
  rw [Bool.eq_iff_iff, decide_eq_true_eq, matchPattern_anyText, List.infix_iff_prefix_suffix]
  simp only [matchPattern_lits_anyText]

/-- `t LIKE escapeLike s || '/%'`: `s` with the separator is a prefix. -/
theorem like_escapeLike_prefix (s t suffix : Text) (hs : escapeLike suffix = suffix) :
    like t (escapeLike s ++ suffix ++ ['%']) = some (decide (s ++ suffix <+: t)) := by
  have happend : escapeLike s ++ suffix = escapeLike (s ++ suffix) := by
    rw [escapeLike_append, hs]
  rw [happend, like_escapeLike_anyText]

/-! ## up to case -/

/-- A folding of characters that leaves the special ones to themselves. -/
structure CaseFold where
  fold : Char → Char
  special : ∀ c w, w = '\\' ∨ w = '%' ∨ w = '_' → (fold c = w ↔ c = w)

/-- `t ILIKE pattern`: `LIKE`, with both sides folded first. -/
def CaseFold.ilike (f : CaseFold) (t pattern : Text) : Option Bool :=
  like (t.map f.fold) (pattern.map f.fold)

section CaseFold

variable (f : CaseFold)

theorem CaseFold.fold_special {w : Char} (hw : w = '\\' ∨ w = '%' ∨ w = '_') : f.fold w = w :=
  (f.special w w hw).mpr rfl

/-- Folding keeps the escapes where they are. -/
theorem CaseFold.map_escapeLike (s : Text) :
    (escapeLike s).map f.fold = escapeLike (s.map f.fold) := by
  induction s with
  | nil => rfl
  | cons c s ih =>
      have hcons : ∀ (c : Char) (s : Text), escapeLike (c :: s) = escapeLike [c] ++ escapeLike s :=
        fun c s => escapeLike_append [c] s
      have hchar : (escapeLike [c]).map f.fold = escapeLike [f.fold c] := by
        have hiff : (f.fold c = '\\' ∨ f.fold c = '%' ∨ f.fold c = '_') ↔
            (c = '\\' ∨ c = '%' ∨ c = '_') := by
          rw [f.special c '\\' (by simp), f.special c '%' (by simp), f.special c '_' (by simp)]
        have hescape : f.fold '\\' = '\\' := f.fold_special (by simp)
        simp only [escapeLike, List.flatMap_cons, List.flatMap_nil, List.append_nil, hiff]
        split_ifs <;> simp [hescape]
      rw [hcons, List.map_append, ih, hchar, List.map_cons,
        hcons (f.fold c) (s.map f.fold)]

end CaseFold

/-- The folding of ASCII letters. -/
def CaseFold.ascii : CaseFold where
  fold := Char.toLower
  special c w hw := by
    delta Char.toLower
    simp only [Char.ext_iff]
    obtain rfl | rfl | rfl := hw <;> split <;> grind [UInt32.toNat_add, Char.toNat_val]

end Cuttlefish
