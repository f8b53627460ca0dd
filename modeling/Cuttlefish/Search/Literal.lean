import Cuttlefish.Search.Meaning

/-!
# Cuttlefish.Search.Literal

What `contains`, `starts_with` and `ends_with` select.

The value is escaped and set between wildcards, so that the rows are those
whose column has the text itself there, up to case (`escapeLike_literal`).
-/

namespace Cuttlefish

open Sql

/-- The matching operators, with `ILIKE` up to a folding of case. -/
def Sql.Matchers.foldCase (m : Matchers) (f : CaseFold) : Matchers :=
  { m with ilike := fun t pattern => (f.ilike t pattern).getD false }

/-- The operators that are bound as patterns, and what they are to say of the
value and the column's text. -/
def patternOperators : List (Text × (Text → Text → Prop)) :=
  [("contains".toList, (· <:+: ·)), ("starts_with".toList, (· <+: ·)),
    ("ends_with".toList, (· <:+ ·))]

section Operators

variable {f : CaseFold} {s t : Text}

/-! ## the patterns, folded -/

theorem ilike_contains :
    f.ilike t ('%' :: escapeLike s ++ ['%']) =
      some (decide (s.map f.fold <:+: t.map f.fold)) := by
  have hpercent : f.fold '%' = '%' := f.fold_special (by simp)
  have hlike := like_anyText_escapeLike_anyText (s.map f.fold) (t.map f.fold)
  simpa [CaseFold.ilike, f.map_escapeLike, hpercent] using hlike

theorem ilike_startsWith :
    f.ilike t (escapeLike s ++ ['%']) = some (decide (s.map f.fold <+: t.map f.fold)) := by
  have hpercent : f.fold '%' = '%' := f.fold_special (by simp)
  have hlike := like_escapeLike_anyText (s.map f.fold) (t.map f.fold)
  simpa [CaseFold.ilike, f.map_escapeLike, hpercent] using hlike

theorem ilike_endsWith :
    f.ilike t ('%' :: escapeLike s) = some (decide (s.map f.fold <:+ t.map f.fold)) := by
  have hpercent : f.fold '%' = '%' := f.fold_special (by simp)
  have hlike := like_anyText_escapeLike (s.map f.fold) (t.map f.fold)
  simpa [CaseFold.ilike, f.map_escapeLike, hpercent] using hlike

/-- What is bound for an operator matches what the operator is to say. -/
theorem exists_textOp {p : Text × (Text → Text → Prop)} (hp : p ∈ patternOperators) (s : Text) :
    ∃ bound, textOp p.1 s = some (.ilike, bound) ∧
      ∀ t, f.ilike t bound = some true ↔ p.2 (s.map f.fold) (t.map f.fold) := by
  simp only [patternOperators, List.mem_cons, List.not_mem_nil, or_false] at hp
  obtain rfl | rfl | rfl := hp
  · exact ⟨'%' :: escapeLike s ++ ['%'], rfl, fun t => by rw [ilike_contains]; simp⟩
  · exact ⟨escapeLike s ++ ['%'], rfl, fun t => by rw [ilike_startsWith]; simp⟩
  · exact ⟨'%' :: escapeLike s, rfl, fun t => by rw [ilike_endsWith]; simp⟩

end Operators

/-! ## what is selected -/

/-- A rule on a text column, compared by one of these operators. -/
theorem comparison_patternOperator (f : CaseFold) (float : Float64) (m : Matchers)
    {p : Text × (Text → Text → Prop)} (hp : p ∈ patternOperators) {row : Text → Value}
    {rule : SearchRule} {field : SearchField} {t : Text}
    (hfield : searchFields.lookup rule.field = some field) (htext : field.numeric = false)
    (hoperator : rule.operator = p.1) (hrow : row field.column = .text t) :
    (rule.bound float).isSome ∧
      (rule.comparison float (m.foldCase f) row = some true ↔
        p.2 (rule.value.map f.fold) (t.map f.fold)) := by
  obtain ⟨bound, hop, hmatch⟩ := exists_textOp (f := f) hp rule.value
  have hbound : rule.bound float = some (field.column, .ilike, .text bound) := by
    simp [SearchRule.bound, hfield, boundCondition, htext, hoperator, hop]
  constructor
  · simp [hbound]
  · rw [← hmatch t, SearchRule.comparison, hbound, Option.bind_some]
    dsimp only
    rw [hrow]
    cases hlike : f.ilike t bound <;> simp [CmpOp.apply, Matchers.foldCase, hlike]

/-- **Escaped text is matched literally**, by `LIKE` and by the operators
that are bound as patterns. -/
theorem escapeLike_literal (s t : Text) :
    (like t (escapeLike s) = some (decide (t = s)) ∧
      like t (escapeLike s ++ "%".toList) = some (decide (s <+: t)) ∧
      like t ("%".toList ++ escapeLike s) = some (decide (s <:+ t)) ∧
      like t ("%".toList ++ escapeLike s ++ "%".toList) = some (decide (s <:+: t))) ∧
    ∀ (f : CaseFold) (float : Float64) (m : Matchers) (row : Text → Value) (rule : SearchRule),
      ∀ field, searchFields.lookup rule.field = some field → field.numeric = false →
        row field.column = .text t → rule.value = s →
          ∀ p ∈ patternOperators, rule.operator = p.1 →
            ∃ clause args, buildSearchWhere float [rule] = .ok (clause, args) ∧
              (selects (m.foldCase f) row clause args = true ↔
                if rule.negate then ¬ p.2 (s.map f.fold) (t.map f.fold)
                else p.2 (s.map f.fold) (t.map f.fold)) := by
  constructor
  · exact ⟨like_escapeLike s t, like_escapeLike_anyText s t, like_anyText_escapeLike s t,
      like_anyText_escapeLike_anyText s t⟩
  · intro f float m row rule field hfield htext hrow hvalue p hp hoperator
    obtain ⟨hbound, hcomparison⟩ :=
      comparison_patternOperator f float m hp hfield htext hoperator hrow
    obtain ⟨⟨clause, args⟩, hbuild⟩ := exists_buildSearchWhere_singleton rule hbound
    rw [hvalue] at hcomparison
    refine ⟨clause, args, hbuild, ?_⟩
    rw [selects_iff_rulesHold (by simp) hbuild, rulesHold_singleton, SearchRule.Holds, ne_eq,
      hcomparison]

/-- A name with every special character, in a path that has it in capitals. -/
theorem escapeLike_literal_sample :
    ∃ clause args, buildSearchWhere sampleFloat
        [⟨"path".toList, "contains".toList, "a_b\\%".toList, [], false⟩] = .ok (clause, args) ∧
      selects (sampleMatchers.foldCase .ascii) (fun _ => .text "/A_B\\%/c".toList) clause args =
        true := by
  obtain ⟨clause, args, hbuild, hselects⟩ :=
    (escapeLike_literal "a_b\\%".toList "/A_B\\%/c".toList).2 .ascii sampleFloat sampleMatchers
      (fun _ => .text "/A_B\\%/c".toList)
      ⟨"path".toList, "contains".toList, "a_b\\%".toList, [], false⟩
      ⟨"f.path".toList, false, false⟩ (by decide) rfl rfl rfl ("contains".toList, (· <:+: ·))
      List.mem_cons_self rfl
  exact ⟨clause, args, hbuild, hselects.mpr (by decide)⟩

end Cuttlefish
