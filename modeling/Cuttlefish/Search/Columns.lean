import Cuttlefish.Handlers
import Cuttlefish.Search.Meaning

/-!
# Cuttlefish.Search.Columns

The types of the columns a search compares, and the server's refusal to bind
a value that the type cannot hold.

`buildSearchWhere` checks numbers as 64-bit integers and texts not at all.
`argumentsFit_iff` says which rule lists get through both checks: those whose
numbers for the three 32-bit columns fit, and whose texts have no NUL.
-/

namespace Cuttlefish

open Sql

/-! ## the schema -/

inductive ColumnType where
  | integer
  | bigint
  | text
  deriving DecidableEq, Repr

/-- The columns of `filesystem_index`, `identity_map` and `dir_stats` that a
search can compare. -/
def columnTypes : List (Text × ColumnType) :=
  [("f.path".toList, .text), ("f.size_bytes".toList, .bigint), ("f.file_type".toList, .integer),
    ("f.uid".toList, .integer), ("f.gid".toList, .integer), ("f.atime".toList, .bigint),
    ("f.mtime".toList, .bigint), ("f.ctime".toList, .bigint), ("u.name".toList, .text),
    ("g.name".toList, .text), ("s.total_size_bytes".toList, .bigint),
    ("s.mtime_first".toList, .bigint), ("s.mtime_last".toList, .bigint),
    ("s.atime_first".toList, .bigint), ("s.atime_last".toList, .bigint),
    ("s.ctime_first".toList, .bigint), ("s.ctime_last".toList, .bigint),
    ("s.file_count".toList, .bigint)]

/-- A number an `int64` holds. -/
def FitsInt64 (n : Int) : Prop := -2 ^ 63 ≤ n ∧ n ≤ 2 ^ 63 - 1

instance : DecidablePred FitsInt64 := fun _ => inferInstanceAs (Decidable (_ ∧ _))

/-- A value the type can hold; no text contains a NUL. -/
def ColumnType.Holds : ColumnType → Value → Prop
  | _, .null => True
  | .integer, .int n => FitsInt32 n
  | .bigint, .int n => FitsInt64 n
  | .text, .text t => '\x00' ∉ t
  | _, _ => False

instance : (t : ColumnType) → (v : Value) → Decidable (t.Holds v)
  | .integer, .null | .bigint, .null | .text, .null => isTrue trivial
  | .integer, .int n => inferInstanceAs (Decidable (FitsInt32 n))
  | .bigint, .int n => inferInstanceAs (Decidable (FitsInt64 n))
  | .text, .int _ | .integer, .text _ | .bigint, .text _ => isFalse id
  | .text, .text t => inferInstanceAs (Decidable ('\x00' ∉ t))

/-- A value the column can hold. -/
def ColumnFits (column : Text) (v : Value) : Prop :=
  ∀ t ∈ columnTypes.lookup column, t.Holds v

/-! ## binding -/

/-- The SQLSTATE a value is refused with: a number out of range, or a NUL. -/
def ColumnType.bindError (t : ColumnType) (v : Value) : Option Text :=
  if t.Holds v then none
  else
    match v with
    | .text _ => some "22021".toList
    | _ => some "22003".toList

/-- A parameter has the type of the column it is compared with. -/
def comparisonError (args : List Value) : Operand → Operand → Option Text
  | .column name, .param n =>
      (columnTypes.lookup name).bind fun t => t.bindError (args.getD (n - 1) .null)
  | _, _ => none

/-- The first refusal, if there is one. -/
def Expr.bindError (args : List Value) : Expr → Option Text
  | .const _ => none
  | .cmp l _ r => comparisonError args l r
  | .not e => bindError args e
  | .and l r => (bindError args l).or (bindError args r)
  | .or l r => (bindError args l).or (bindError args r)
  | .paren e => bindError args e
  | .coalesce l r => (bindError args l).or (bindError args r)

/-- The error with which the server refuses the arguments of a clause. -/
def bindError (clause : Text) (args : List Value) : Option Text :=
  (parseSql clause).bind (Expr.bindError args)

/-- `rule.Operator == "regex" || rule.Operator == "regex_i"`, for some rule. -/
def hasRegex (rules : List SearchRule) : Bool :=
  rules.any fun rule => rule.operator = "regex".toList || rule.operator = "regex_i".toList

/-- The status of a search whose query succeeds or fails with a SQLSTATE: a
bad regular expression is the client's error. -/
def searchStatus (rules : List SearchRule) : Option Text → Nat
  | none => 200
  | some code =>
      if hasRegex rules ∧ (code = "2201B".toList ∨ code = "54000".toList) then 400 else 500

/-! ## what is compared with what -/

/-- Every parameter of an expression is bound to a value its column can hold. -/
def ParamsFit (args : List Value) : Expr → Prop
  | .const _ => True
  | .cmp (.column name) _ (.param n) => ColumnFits name (args.getD (n - 1) .null)
  | .cmp _ _ _ => True
  | .not e => ParamsFit args e
  | .and l r => ParamsFit args l ∧ ParamsFit args r
  | .or l r => ParamsFit args l ∧ ParamsFit args r
  | .paren e => ParamsFit args e
  | .coalesce l r => ParamsFit args l ∧ ParamsFit args r

/-- Every argument of a clause is a value the compared column can hold. -/
def ArgumentsFit (clause : Text) (args : List Value) : Prop :=
  ∀ e ∈ parseSql clause, ParamsFit args e

theorem ColumnType.bindError_eq_none {t : ColumnType} {v : Value} :
    t.bindError v = none ↔ t.Holds v := by
  unfold ColumnType.bindError
  by_cases hfits : t.Holds v
  · simp [hfits]
  · rw [if_neg hfits]
    cases v <;> simp [hfits]

/-- The server refuses exactly what does not fit. -/
theorem expr_bindError_eq_none {args : List Value} {e : Expr} :
    Expr.bindError args e = none ↔ ParamsFit args e := by
  induction e with
  | const b => simp [Expr.bindError, ParamsFit]
  | cmp l op r =>
      cases l with
      | param k => simp [Expr.bindError, comparisonError, ParamsFit]
      | column name =>
          cases r with
          | column name' => simp [Expr.bindError, comparisonError, ParamsFit]
          | param n =>
              rw [Expr.bindError, comparisonError, Option.bind_eq_none_iff]
              exact forall_congr' fun t => imp_congr_right fun _ => ColumnType.bindError_eq_none
  | not e ih => exact ih
  | and l r ihl ihr => rw [Expr.bindError, ParamsFit, Option.or_eq_none_iff, ihl, ihr]
  | or l r ihl ihr => rw [Expr.bindError, ParamsFit, Option.or_eq_none_iff, ihl, ihr]
  | paren e ih => exact ih
  | coalesce l r ihl ihr => rw [Expr.bindError, ParamsFit, Option.or_eq_none_iff, ihl, ihr]

/-- None of its codes is that of a regular expression. -/
theorem code_of_expr_bindError {args : List Value} {e : Expr} {code : Text}
    (h : Expr.bindError args e = some code) : code = "22003".toList ∨ code = "22021".toList := by
  induction e with
  | const b => cases h
  | cmp l op r =>
      cases l with
      | param k => cases h
      | column name =>
          cases r with
          | column name' => cases h
          | param n =>
              rw [Expr.bindError, comparisonError, Option.bind_eq_some_iff] at h
              obtain ⟨t, _, ht⟩ := h
              unfold ColumnType.bindError at ht
              split_ifs at ht
              split at ht <;> simp_all
  | not e ih => exact ih h
  | and l r ihl ihr => exact (Option.or_eq_some_iff.mp h).elim ihl fun hr => ihr hr.2
  | or l r ihl ihr => exact (Option.or_eq_some_iff.mp h).elim ihl fun hr => ihr hr.2
  | paren e ih => exact ih h
  | coalesce l r ihl ihr => exact (Option.or_eq_some_iff.mp h).elim ihl fun hr => ihr hr.2

theorem bindError_eq_none {clause : Text} {args : List Value} :
    bindError clause args = none ↔ ArgumentsFit clause args := by
  simp only [bindError, ArgumentsFit, Option.bind_eq_none_iff, expr_bindError_eq_none,
    Option.mem_def]

/-- **A value that does not fit is answered with 500.** -/
theorem searchStatus_bindError {rules : List SearchRule} {clause : Text} {args : List Value} :
    searchStatus rules (bindError clause args) ≠ 500 ↔ ArgumentsFit clause args := by
  rw [← bindError_eq_none]
  cases herror : bindError clause args with
  | none => simp [searchStatus]
  | some code =>
      obtain ⟨e, _, he⟩ := Option.bind_eq_some_iff.mp herror
      have hcode : ¬ (code = "2201B".toList ∨ code = "54000".toList) := by
        cases code_of_expr_bindError he with
        | inl h => rw [h]; decide
        | inr h => rw [h]; decide
      rw [searchStatus, if_neg fun h => hcode h.2]
      simp

/-! ## rule lists -/

/-- The value of a rule fits the column it is compared with. -/
def SearchRule.BoundFits (float : Float64) (rule : SearchRule) : Prop :=
  ∀ column op v, rule.bound float = some (column, op, v) → ColumnFits column v

/-- A rule's predicate fits exactly if its value does. -/
theorem ruleCondition_fits {float : Float64} {rule : SearchRule} {args args' : List Value}
    {cond : Text} (h : ruleCondition float rule args = .ok (cond, args')) :
    ∃ e, StandsFor cond args' e ∧ e.IsFactor ∧ (∃ v, args' = args ++ [v]) ∧
      ∀ more, ParamsFit (args' ++ more) e ↔ rule.BoundFits float := by
  obtain ⟨column, op, v, hbound, rfl, rfl⟩ := ruleCondition_eq_ok.mp h
  obtain ⟨field, hfield, hpair⟩ := Option.bind_eq_some_iff.mp hbound
  obtain ⟨c, -, hcolumn⟩ := Option.map_eq_some_iff.mp hpair
  cases hcolumn
  have hparam : 0 < args.length + 1 ∧ args.length + 1 ≤ (args ++ [v]).length := by simp
  have hstands := condText_standsFor (valid_column hfield) op hparam
  have hfits : ∀ more, ParamsFit (args ++ [v] ++ more)
      (.paren (.cmp (.column field.column) op (.param (args.length + 1)))) ↔
        rule.BoundFits float := by
    intro more
    simp [ParamsFit, SearchRule.BoundFits, hbound]
  cases hnegate : rule.negate with
  | true =>
      refine ⟨_, hstands.negate, trivial, ⟨v, rfl⟩, fun more => ?_⟩
      simpa only [ParamsFit, and_true] using hfits more
  | false => exact ⟨_, hstands, trivial, ⟨v, rfl⟩, hfits⟩

/-- Appending rules to a clause that fits if `P` holds. -/
theorem appendRules_fits {float : Float64} {rules : List SearchRule} {sb clause : Text}
    {args args' : List Value} (disj : Option Expr) (conj : Expr) {P : Prop}
    (hstands : StandsFor sb args (join .or disj conj)) (hterm : conj.IsTerm)
    (hfits : ∀ more, ParamsFit (args ++ more) (join .or disj conj) ↔ P)
    (h : appendRules float rules (sb, args) = .ok (clause, args')) :
    ∃ e, StandsFor clause args' e ∧
      (ParamsFit args' e ↔ P ∧ ∀ rule ∈ rules, rule.BoundFits float) := by
  induction rules generalizing sb args disj conj P with
  | nil =>
      cases h
      have hall := hfits []
      rw [List.append_nil] at hall
      exact ⟨_, hstands, by simpa using hall⟩
  | cons rule rules ih =>
      obtain ⟨cond, args'', hcond, h⟩ := appendRules_cons_eq_ok h
      obtain ⟨c, hc, hfactor, ⟨v, rfl⟩, hrule⟩ := ruleCondition_fits hcond
      have hmore : args.length ≤ (args ++ [v]).length := by simp
      have hold : ∀ more, ParamsFit (args ++ [v] ++ more) (join .or disj conj) ↔ P := by
        intro more
        rw [List.append_assoc]
        exact hfits _
      have hboth : ∃ e, StandsFor clause args' e ∧ (ParamsFit args' e ↔
          (P ∧ rule.BoundFits float) ∧ ∀ rule ∈ rules, rule.BoundFits float) := by
        by_cases hor : isOr rule.connector = true
        · rw [if_pos hor] at h
          refine ih (some (join .or disj conj)) c (hstands.or hmore hc hfactor)
            (by cases c <;> trivial) (fun more => ?_) h
          rw [join, ParamsFit, hold, hrule]
        · rw [if_neg hor] at h
          refine ih disj (.and conj c) (hstands.and hterm hmore hc hfactor) trivial
            (fun more => ?_) h
          rw [← hold more, ← hrule more]
          cases disj with
          | none => exact Iff.rfl
          | some l => simp only [join, ParamsFit, and_assoc]
      obtain ⟨e, he, hiff⟩ := hboth
      exact ⟨e, he, by rw [hiff, List.forall_mem_cons, and_assoc]⟩

/-- **A clause fits rule by rule.** -/
theorem argumentsFit_iff_boundFits {float : Float64} {rules : List SearchRule} {clause : Text}
    {args : List Value} (h : buildSearchWhere float rules = .ok (clause, args)) :
    ArgumentsFit clause args ↔ ∀ rule ∈ rules, rule.BoundFits float := by
  cases rules with
  | nil =>
      cases h
      have hnone : parseSql [] = none := by decide
      simp [ArgumentsFit, hnone]
  | cons rule rules =>
      obtain ⟨cond, args', hcond, h⟩ := buildSearchWhere_cons_eq_ok h
      obtain ⟨c, hc, hfactor, -, hrule⟩ := ruleCondition_fits hcond
      obtain ⟨e, he, hiff⟩ := appendRules_fits none c hc (by cases c <;> trivial) hrule h
      simp only [ArgumentsFit, he.parseSql_eq, Option.mem_def, Option.some.injEq, forall_eq',
        hiff, List.forall_mem_cons]

/-! ## values that fit -/

/-- The fields of the 32-bit columns. -/
def int32Fields : List Text := ["uid".toList, "gid".toList, "file_type".toList]

/-- The fields of the text columns. -/
def textFields : List Text := ["path".toList, "user".toList, "group".toList]

/-- A number for a 32-bit column fits, a text has no NUL. -/
def SearchRule.Representable (rule : SearchRule) : Prop :=
  (rule.field ∈ int32Fields → ∀ n ∈ parseInt64 (trimSpace rule.value), FitsInt32 n) ∧
    (rule.field ∈ textFields → '\x00' ∉ rule.value)

/-- The type of an allowlisted field's column. -/
theorem columnType_of_field {name : Text} {field : SearchField}
    (h : searchFields.lookup name = some field) :
    columnTypes.lookup field.column =
        some (if name ∈ textFields then .text else if name ∈ int32Fields then .integer
          else .bigint) ∧
      (field.numeric = true ↔ name ∉ textFields) ∧
      (field.sizeHuman = true → name ∉ int32Fields) := by
  have hall : ∀ f ∈ searchFields,
      columnTypes.lookup f.2.column =
          some (if f.1 ∈ textFields then .text else if f.1 ∈ int32Fields then .integer
            else .bigint) ∧
        (f.2.numeric = true ↔ f.1 ∉ textFields) ∧
        (f.2.sizeHuman = true → f.1 ∉ int32Fields) := by decide +kernel
  rw [List.lookup_eq_some_iff] at h
  obtain ⟨before, after, hfields, _⟩ := h
  exact hall (name, field) (by simp [hfields])

theorem fitsInt64_of_parseInt64 {s : Text} {n : Int} (h : parseInt64 s = some n) :
    FitsInt64 n := by
  unfold parseInt64 at h
  dsimp only at h
  split at h
  all_goals
    simp only [if_true, Bool.false_eq_true, if_false] at h
    split_ifs at h with hdigits hrange
    cases h
    exact hrange

/-- Go's conversion yields some `int64`. -/
def Float64.ConvertsToInt64 (float : Float64) : Prop :=
  ∀ f mult, FitsInt64 (float.scaleToInt64 f mult)

theorem fitsInt64_of_parseHumanSize {float : Float64} (hfloat : float.ConvertsToInt64) {s : Text}
    {n : Int} (h : parseHumanSize float s = some n) : FitsInt64 n := by
  unfold parseHumanSize at h
  dsimp only at h
  split_ifs at h
  split at h
  · obtain ⟨f, _, rfl⟩ := Option.map_eq_some_iff.mp h
    exact hfloat f _
  · exact fitsInt64_of_parseInt64 h

theorem nul_mem_escapeLike {s : Text} : '\x00' ∈ escapeLike s ↔ '\x00' ∈ s := by
  unfold escapeLike
  rw [List.mem_flatMap]
  constructor
  · intro h
    obtain ⟨c, hc, hmem⟩ := h
    split_ifs at hmem
    · simp only [List.mem_cons, List.not_mem_nil, or_false] at hmem
      cases hmem with
      | inl hback => exact absurd hback (by decide)
      | inr heq => exact heq ▸ hc
    · exact List.mem_singleton.mp hmem ▸ hc
  · intro h
    refine ⟨_, h, ?_⟩
    split_ifs <;> simp

/-- What is bound for a text has a NUL if the text has one. -/
theorem nul_mem_of_textOp {operator value bound : Text} {op : CmpOp}
    (h : textOp operator value = some (op, bound)) : '\x00' ∈ bound ↔ '\x00' ∈ value := by
  have hpercent : '\x00' ∉ "%".toList := by decide
  unfold textOp at h
  split_ifs at h <;> cases h <;> simp [nul_mem_escapeLike]

/-- **A rule's value fits** exactly if it is representable. -/
theorem boundFits_iff {float : Float64} (hfloat : float.ConvertsToInt64) {rule : SearchRule}
    (hbound : (rule.bound float).isSome) : rule.BoundFits float ↔ rule.Representable := by
  obtain ⟨⟨column, op, v⟩, hbound⟩ := Option.isSome_iff_exists.mp hbound
  have hself : rule.BoundFits float ↔ ColumnFits column v := by
    simp [SearchRule.BoundFits, hbound]
  obtain ⟨field, hfield, hpair⟩ := Option.bind_eq_some_iff.mp hbound
  obtain ⟨c, hcondition, hcolumn⟩ := Option.map_eq_some_iff.mp hpair
  cases hcolumn
  obtain ⟨htype, hnumeric, hhuman⟩ := columnType_of_field hfield
  rw [hself, ColumnFits, htype, SearchRule.Representable]
  simp only [Option.mem_def, Option.some.injEq, forall_eq']
  unfold boundCondition at hcondition
  by_cases htext : rule.field ∈ textFields
  · have hint : rule.field ∉ int32Fields := by
      revert htext
      simp only [textFields, int32Fields, List.mem_cons, List.not_mem_nil, or_false]
      rintro (h | h | h) <;> rw [h] <;> decide
    rw [if_neg fun hnum => hnumeric.mp hnum htext, Option.map_eq_some_iff] at hcondition
    obtain ⟨⟨op', bound⟩, hop, hvalue⟩ := hcondition
    cases hvalue
    simp only [htext, hint, if_true, false_imp_iff, true_imp_iff, true_and, ColumnType.Holds,
      nul_mem_of_textOp hop]
  · rw [if_pos (hnumeric.mpr htext), Option.bind_eq_some_iff] at hcondition
    obtain ⟨n, hn, hop⟩ := hcondition
    obtain ⟨op', _, hvalue⟩ := Option.map_eq_some_iff.mp hop
    cases hvalue
    by_cases hint : rule.field ∈ int32Fields
    · have hplain : ¬ field.sizeHuman = true := fun h => hhuman h hint
      rw [if_neg hplain] at hn
      simp [htext, hint, ColumnType.Holds, hn]
    · have hfits : FitsInt64 n := by
        split_ifs at hn
        · exact fitsInt64_of_parseHumanSize hfloat hn
        · exact fitsInt64_of_parseInt64 hn
      simp [htext, hint, ColumnType.Holds, hfits]

theorem argumentsFit_iff_representable {float : Float64} (hfloat : float.ConvertsToInt64)
    {rules : List SearchRule} {clause : Text} {args : List Value}
    (h : buildSearchWhere float rules = .ok (clause, args)) :
    ArgumentsFit clause args ↔ ∀ rule ∈ rules, rule.Representable := by
  rw [argumentsFit_iff_boundFits h]
  refine forall₂_congr fun rule hrule => ?_
  exact boundFits_iff hfloat (isSome_bound_of_buildSearchWhere h rule hrule)

/-- **When accepted values can be bound**: every argument of an accepted
rule list fits its column, and the search is not answered with 500 for it,
exactly if the numbers for 32-bit columns fit and the texts have no NUL. -/
theorem argumentsFit_iff {float : Float64} (hfloat : float.ConvertsToInt64)
    {rules : List SearchRule} {clause : Text} {args : List Value}
    (h : buildSearchWhere float rules = .ok (clause, args)) :
    (ArgumentsFit clause args ∧ searchStatus rules (bindError clause args) ≠ 500) ↔
      ∀ rule ∈ rules, rule.Representable := by
  rw [searchStatus_bindError, and_self]
  exact argumentsFit_iff_representable hfloat h

/-- Everything converts to 0. -/
theorem convertsToInt64_sampleFloat : sampleFloat.ConvertsToInt64 := by
  intro f mult
  have hzero : FitsInt64 0 := by decide
  exact hzero

def sampleUid (value : Text) : List SearchRule :=
  [⟨"uid".toList, "equals".toList, value, [], false⟩]

theorem argumentsFit_iff_small :
    ArgumentsFit "(f.uid = $1)".toList [.int 1000] ∧
      searchStatus (sampleUid "1000".toList)
        (bindError "(f.uid = $1)".toList [.int 1000]) ≠ 500 := by
  have hok : buildSearchWhere sampleFloat (sampleUid "1000".toList) =
      .ok ("(f.uid = $1)".toList, [.int 1000]) := by decide
  rw [argumentsFit_iff convertsToInt64_sampleFloat hok]
  intro rule hrule
  rw [List.mem_singleton.mp hrule]
  exact ⟨fun _ => by decide, fun h => absurd h (by decide)⟩

/-- The uid 3000000000 passes the check and does not fit the column; a NUL in
a path does the same. -/
theorem large_uid_refused :
    (∃ clause args, buildSearchWhere sampleFloat (sampleUid "3000000000".toList) =
        .ok (clause, args) ∧ ¬ ArgumentsFit clause args ∧
          searchStatus (sampleUid "3000000000".toList) (bindError clause args) = 500) ∧
      ∃ clause args, buildSearchWhere sampleFloat
          [⟨"path".toList, "contains".toList, ['\x00'], [], false⟩] = .ok (clause, args) ∧
        ¬ ArgumentsFit clause args := by
  refine ⟨⟨"(f.uid = $1)".toList, [.int 3000000000], by decide, ?_, by decide⟩,
    ⟨"(f.path ILIKE $1)".toList, [.text ['%', '\x00', '%']], by decide, ?_⟩⟩
  · rw [← bindError_eq_none]
    decide
  · rw [← bindError_eq_none]
    decide

end Cuttlefish
