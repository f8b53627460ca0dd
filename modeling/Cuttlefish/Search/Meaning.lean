import Cuttlefish.Search.Scope

/-!
# Cuttlefish.Search.Meaning

What the clause of a rule list selects.

SQL reads the clause with its own precedence and in three-valued logic;
`buildSearchWhere_meaning` says that neither shows: a row is selected exactly
if some maximal run of rules joined by AND holds entirely, each rule being
true or false of the row.  Connectors count up to their case and the first one
not at all, and negating a rule selects the other rows.
-/

namespace Cuttlefish

open Sql

/-- A rule with its connector spelled out. -/
def SearchRule.normalize (rule : SearchRule) : SearchRule :=
  { rule with connector := if saysOr rule.connector then "OR".toList else "AND".toList }

/-- A rule list up to the spelling of its connectors; the first rule has
nothing to connect to. -/
def normalizeRules : List SearchRule → List SearchRule
  | [] => []
  | rule :: rules => { rule with connector := [] } :: rules.map SearchRule.normalize

theorem isOr_normalize (rule : SearchRule) :
    isOr rule.normalize.connector = isOr rule.connector := by
  have hor : saysOr "OR".toList = true := by decide
  have hand : saysOr "AND".toList = false := by decide
  rw [isOr_eq, isOr_eq, SearchRule.normalize]
  cases saysOr rule.connector with
  | true => exact hor
  | false => exact hand

theorem appendRules_normalize (float : Float64) (rules : List SearchRule)
    (s : Text × List Value) :
    appendRules float (rules.map SearchRule.normalize) s = appendRules float rules s := by
  induction rules generalizing s with
  | nil => rfl
  | cons rule rules ih =>
      -- a predicate does not depend on the connector in front of it
      have hcond : ruleCondition float rule.normalize s.2 = ruleCondition float rule s.2 := rfl
      rw [List.map_cons, appendRules, appendRules, hcond]
      cases ruleCondition float rule s.2 with
      | error e => rfl
      | ok r => simp only [isOr_normalize, ih]

/-- **Connectors count up to their case**, and the first not at all. -/
theorem buildSearchWhere_normalizeRules (float : Float64) (rules : List SearchRule) :
    buildSearchWhere float (normalizeRules rules) = buildSearchWhere float rules := by
  cases rules with
  | nil => rfl
  | cons rule rules =>
      have hcond : ruleCondition float { rule with connector := [] } [] =
          ruleCondition float rule [] := rfl
      rw [normalizeRules, buildSearchWhere, buildSearchWhere, hcond]
      cases ruleCondition float rule [] with
      | error e => rfl
      | ok s => exact appendRules_normalize float rules s

/-- Every rule of an accepted list is accepted. -/
theorem isSome_bound_of_appendRules {float : Float64} {rules : List SearchRule}
    {s s' : Text × List Value} (h : appendRules float rules s = .ok s') :
    ∀ rule ∈ rules, (rule.bound float).isSome := by
  induction rules generalizing s with
  | nil => simp
  | cons rule rules ih =>
      obtain ⟨cond, args, hcond, h⟩ := appendRules_cons_eq_ok h
      obtain ⟨column, op, v, hbound, -⟩ := ruleCondition_eq_ok.mp hcond
      simpa [hbound] using ih h

theorem isSome_bound_of_buildSearchWhere {float : Float64} {rules : List SearchRule}
    {s : Text × List Value} (h : buildSearchWhere float rules = .ok s) :
    ∀ rule ∈ rules, (rule.bound float).isSome := by
  cases rules with
  | nil => simp
  | cons rule rules =>
      obtain ⟨cond, args, hcond, h⟩ := buildSearchWhere_cons_eq_ok h
      obtain ⟨column, op, v, hbound, -⟩ := ruleCondition_eq_ok.mp hcond
      simpa [hbound] using isSome_bound_of_appendRules h

/-- A rule alone, plain or negated. -/
def SearchRule.withNegate (rule : SearchRule) (negate : Bool) : SearchRule :=
  { rule with negate := negate }

theorem exists_buildSearchWhere_singleton {float : Float64} (rule : SearchRule)
    (h : (rule.bound float).isSome) : ∃ s, buildSearchWhere float [rule] = .ok s := by
  obtain ⟨⟨column, op, v⟩, hbound⟩ := Option.isSome_iff_exists.mp h
  refine ⟨(ruleText rule.negate column op 1, [v]), ?_⟩
  have hcond : ruleCondition float rule [] = .ok (ruleText rule.negate column op 1, [v]) :=
    ruleCondition_eq_ok.mpr ⟨column, op, v, hbound, rfl, rfl⟩
  rw [buildSearchWhere, hcond]
  rfl

/-- **What a clause selects**, in two-valued terms. -/
theorem selects_iff_rulesHold {float : Float64} {rules : List SearchRule} {clause : Text}
    {args : List Value} (hne : rules ≠ [])
    (h : buildSearchWhere float rules = .ok (clause, args)) (m : Matchers) (row : Text → Value) :
    selects m row clause args = true ↔ RulesHold float m row (andRuns rules) := by
  obtain ⟨e, he, hmeans⟩ := buildSearchWhere_text hne h
  have hrow := hmeans m row []
  rw [List.append_nil] at hrow
  rw [he.selects_iff, hrow]

theorem rulesHold_singleton {float : Float64} {m : Matchers} {row : Text → Value}
    {rule : SearchRule} :
    RulesHold float m row (andRuns [rule]) ↔ rule.Holds float m row := by
  rw [andRuns, List.splitBy_of_isChain (by simp) (by simp)]
  simp [RulesHold]

/-- **Negating a rule** selects the rows it does not select alone. -/
theorem selects_withNegate {float : Float64} {rule : SearchRule} {plain negated : Text}
    {args args' : List Value}
    (hplain : buildSearchWhere float [rule.withNegate false] = .ok (plain, args))
    (hnegated : buildSearchWhere float [rule.withNegate true] = .ok (negated, args'))
    (m : Matchers) (row : Text → Value) :
    selects m row negated args' = true ↔ ¬ selects m row plain args = true := by
  rw [selects_iff_rulesHold (by simp) hplain, selects_iff_rulesHold (by simp) hnegated,
    rulesHold_singleton, rulesHold_singleton]
  exact Iff.rfl

/-- **The meaning of an accepted rule list**: a row is selected exactly if
some run of rules joined by AND holds entirely; any other spelling of the
connectors builds the same clause; and each rule alone selects the rows its
negation does not. -/
theorem buildSearchWhere_meaning {float : Float64} {rules : List SearchRule} {clause : Text}
    {args : List Value} (hne : rules ≠ [])
    (h : buildSearchWhere float rules = .ok (clause, args)) :
    (∀ m row, selects m row clause args = true ↔ RulesHold float m row (andRuns rules)) ∧
      (∀ rules', normalizeRules rules' = normalizeRules rules →
        buildSearchWhere float rules' = .ok (clause, args)) ∧
      ∀ rule ∈ rules, ∃ plain args₀ negated args₁,
        buildSearchWhere float [rule.withNegate false] = .ok (plain, args₀) ∧
        buildSearchWhere float [rule.withNegate true] = .ok (negated, args₁) ∧
        ∀ m row, selects m row negated args₁ = true ↔ ¬ selects m row plain args₀ = true := by
  refine ⟨selects_iff_rulesHold hne h, fun rules' heq => ?_, fun rule hrule => ?_⟩
  · rw [← buildSearchWhere_normalizeRules, heq, buildSearchWhere_normalizeRules, h]
  · have hbound := isSome_bound_of_buildSearchWhere h rule hrule
    obtain ⟨⟨plain, args₀⟩, hplain⟩ :=
      exists_buildSearchWhere_singleton (rule.withNegate false) hbound
    obtain ⟨⟨negated, args₁⟩, hnegated⟩ :=
      exists_buildSearchWhere_singleton (rule.withNegate true) hbound
    exact ⟨plain, args₀, negated, args₁, hplain, hnegated, selects_withNegate hplain hnegated⟩

theorem buildSearchWhere_meaning_bob :
    (∀ m row, selects m row sampleClause [.text "%x%".toList, .text "bob".toList] = true ↔
        RulesHold sampleFloat m row (andRuns sampleRules)) ∧
      (∀ rules', normalizeRules rules' = normalizeRules sampleRules →
        buildSearchWhere sampleFloat rules' =
          .ok (sampleClause, [.text "%x%".toList, .text "bob".toList])) ∧
      ∀ rule ∈ sampleRules, ∃ plain args₀ negated args₁,
        buildSearchWhere sampleFloat [rule.withNegate false] = .ok (plain, args₀) ∧
        buildSearchWhere sampleFloat [rule.withNegate true] = .ok (negated, args₁) ∧
        ∀ m row, selects m row negated args₁ = true ↔ ¬ selects m row plain args₀ = true :=
  buildSearchWhere_meaning (by decide) (by decide +kernel)

end Cuttlefish
