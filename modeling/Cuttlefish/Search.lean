import Cuttlefish.Access
import Cuttlefish.Sql.Eval
import Mathlib.Algebra.Group.Int.Defs
import Mathlib.Data.List.SplitBy

/-!
# Cuttlefish.Search

The search filter of `fs_api`: the rule list turned into a parameterized
WHERE clause, and the clause that limits a restricted user to the granted
prefixes.

The clauses are texts, as the source builds them.  `buildSearchWhere_text`
names the expression the text of a rule list stands for, so that everything
about its meaning is about expressions.

Go's floating-point parsing is a parameter of `parseHumanSize`.
-/

namespace Cuttlefish

open Sql

/-! ## fields and sizes -/

/-- An allowlisted search field. -/
structure SearchField where
  column : Text
  numeric : Bool
  sizeHuman : Bool
  deriving DecidableEq, Repr

def searchFields : List (Text × SearchField) :=
  [("path".toList, ⟨"f.path".toList, false, false⟩),
    ("uid".toList, ⟨"f.uid".toList, true, false⟩),
    ("gid".toList, ⟨"f.gid".toList, true, false⟩),
    ("user".toList, ⟨"u.name".toList, false, false⟩),
    ("group".toList, ⟨"g.name".toList, false, false⟩),
    ("file_type".toList, ⟨"f.file_type".toList, true, false⟩),
    ("size_bytes".toList, ⟨"f.size_bytes".toList, true, true⟩),
    ("mtime".toList, ⟨"f.mtime".toList, true, false⟩),
    ("atime".toList, ⟨"f.atime".toList, true, false⟩),
    ("ctime".toList, ⟨"f.ctime".toList, true, false⟩),
    ("dir_total_size".toList, ⟨"s.total_size_bytes".toList, true, true⟩),
    ("dir_file_count".toList, ⟨"s.file_count".toList, true, false⟩),
    ("dir_mtime_first".toList, ⟨"s.mtime_first".toList, true, false⟩),
    ("dir_mtime_last".toList, ⟨"s.mtime_last".toList, true, false⟩),
    ("dir_atime_first".toList, ⟨"s.atime_first".toList, true, false⟩),
    ("dir_atime_last".toList, ⟨"s.atime_last".toList, true, false⟩),
    ("dir_ctime_first".toList, ⟨"s.ctime_first".toList, true, false⟩),
    ("dir_ctime_last".toList, ⟨"s.ctime_last".toList, true, false⟩)]

/-- `unicode.IsSpace`. -/
def isSpace (c : Char) : Bool :=
  (9 ≤ c.toNat && c.toNat ≤ 13) || c.toNat ∈ [0x20, 0x85, 0xA0, 0x1680, 0x2028, 0x2029, 0x202F,
    0x205F, 0x3000] || (0x2000 ≤ c.toNat && c.toNat ≤ 0x200A)

/-- `strings.TrimSpace`. -/
def trimSpace (s : Text) : Text := (s.dropWhile isSpace).rdropWhile isSpace

/-- `strconv.ParseInt(s, 10, 64)`. -/
def parseInt64 (s : Text) : Option Int :=
  let (negative, digits) : Bool × Text :=
    match s with
    | '-' :: ds => (true, ds)
    | '+' :: ds => (false, ds)
    | ds => (false, ds)
  if digits = [] ∨ ¬ digits.all Char.isDigit then none
  else
    let n : Int := Nat.ofDigitChars 10 digits 0
    let n := if negative then -n else n
    if -2 ^ 63 ≤ n ∧ n ≤ 2 ^ 63 - 1 then some n else none

/-- Go's `float64`: parsing, and `int64(f * float64(mult))`. -/
structure Float64 where
  carrier : Type
  parseFloat : Text → Option carrier
  scaleToInt64 : carrier → Int → Int

/-- The unit suffixes, longest first. -/
def sizeUnits : List (Text × Int) :=
  [("PB".toList, 2 ^ 50), ("TB".toList, 2 ^ 40), ("GB".toList, 2 ^ 30), ("MB".toList, 2 ^ 20),
    ("KB".toList, 2 ^ 10), ("P".toList, 2 ^ 50), ("T".toList, 2 ^ 40), ("G".toList, 2 ^ 30),
    ("M".toList, 2 ^ 20), ("K".toList, 2 ^ 10)]

/-- A size with an optional unit suffix, in bytes.  Only ASCII letters
upper-case into a suffix. -/
def parseHumanSize (float : Float64) (s : Text) : Option Int :=
  let s := trimSpace s
  if s = [] then none
  else
    match sizeUnits.find? fun u => u.1 <:+ s.map Char.toUpper with
    | some (suffix, mult) =>
        (float.parseFloat (trimSpace (s.take (s.length - suffix.length)))).map
          (float.scaleToInt64 · mult)
    | none => parseInt64 s

/-! ## the user's clause -/

/-- One rule of a search request. -/
structure SearchRule where
  field : Text
  operator : Text
  value : Text
  connector : Text
  negate : Bool
  deriving DecidableEq, Repr

/-- Why a search is refused. -/
inductive SearchError where
  /-- `At least one search rule is required` -/
  | noRules
  /-- `unknown search field: …` -/
  | unknownField (field : Text)
  /-- `invalid value for …` -/
  | invalidValue (column : Text)
  /-- `operator … is not valid for numeric fields` -/
  | numericOperator (operator : Text)
  /-- `operator … is not valid for text fields` -/
  | textOperator (operator : Text)
  deriving DecidableEq, Repr

/-- The comparison a numeric operator stands for. -/
def numericOp (operator : Text) : Option CmpOp :=
  if operator = "equals".toList then some .eq
  else if operator = "not_equals".toList then some .ne
  else if operator = "gt".toList then some .gt
  else if operator = "lt".toList then some .lt
  else none

/-- The comparison a text operator stands for, and what is bound for it. -/
def textOp (operator value : Text) : Option (CmpOp × Text) :=
  if operator = "equals".toList then some (.eq, value)
  else if operator = "contains".toList then
    some (.ilike, "%".toList ++ escapeLike value ++ "%".toList)
  else if operator = "starts_with".toList then some (.ilike, escapeLike value ++ "%".toList)
  else if operator = "ends_with".toList then some (.ilike, "%".toList ++ escapeLike value)
  else if operator = "regex".toList then some (.regex, value)
  else if operator = "regex_i".toList then some (.regexI, value)
  else none

/-- `(column op $n)`. -/
def condText (column : Text) (op : CmpOp) (n : Nat) : Text :=
  "(".toList ++ column ++ " ".toList ++ op.text ++ " $".toList ++ Nat.toDigits 10 n ++ ")".toList

/-- Appends the rule's value to the arguments and returns a predicate that
refers to it by position. -/
def buildCondition (float : Float64) (field : SearchField) (operator value : Text)
    (args : List Value) : Except SearchError (Text × List Value) :=
  if field.numeric then
    match if field.sizeHuman then parseHumanSize float value else parseInt64 (trimSpace value) with
    | none => .error (.invalidValue field.column)
    | some n =>
        match numericOp operator with
        | none => .error (.numericOperator operator)
        | some op => .ok (condText field.column op (args.length + 1), args ++ [.int n])
  else
    match textOp operator value with
    | none => .error (.textOperator operator)
    | some (op, bound) => .ok (condText field.column op (args.length + 1), args ++ [.text bound])

/-- A rule's predicate, negated if the rule says so; NULL then counts as no
match. -/
def ruleCondition (float : Float64) (rule : SearchRule) (args : List Value) :
    Except SearchError (Text × List Value) :=
  match searchFields.lookup rule.field with
  | none => .error (.unknownField rule.field)
  | some field =>
      match buildCondition float field rule.operator rule.value args with
      | .error e => .error e
      | .ok (cond, args) =>
          .ok (if rule.negate then "(NOT COALESCE(".toList ++ cond ++ ", FALSE))".toList else cond,
            args)

/-- `strings.EqualFold(rule.Connector, "OR")`. -/
def isOr (connector : Text) : Bool := connector.map Char.toUpper = "OR".toList

/-- The rules behind the first, each with its connector in front. -/
def appendRules (float : Float64) : List SearchRule → Text × List Value →
    Except SearchError (Text × List Value)
  | [], s => .ok s
  | rule :: rules, (sb, args) =>
      match ruleCondition float rule args with
      | .error e => .error e
      | .ok (cond, args) =>
          let connector := if isOr rule.connector then "OR".toList else "AND".toList
          appendRules float rules (sb ++ " ".toList ++ connector ++ " ".toList ++ cond, args)

/-- Turns the rule list into a WHERE clause and its arguments. -/
def buildSearchWhere (float : Float64) : List SearchRule → Except SearchError (Text × List Value)
  | [] => .ok ([], [])
  | rule :: rules =>
      match ruleCondition float rule [] with
      | .error e => .error e
      | .ok s => appendRules float rules s

/-! ## the scope clause -/

/-- `f.path = $n OR f.path LIKE $m`. -/
def scopeCond (n m : Nat) : Text :=
  "f.path = $".toList ++ Nat.toDigits 10 n ++ " OR f.path LIKE $".toList ++ Nat.toDigits 10 m

/-- The prefix loop; it stops at `/`, and what was bound before stays. -/
def scopeLoop : List Text → List Text → List Value → Text × List Value
  | [], conds, args => ("(".toList ++ " OR ".toList.intercalate conds ++ ")".toList, args)
  | p :: ps, conds, args =>
      if p = ['/'] then ("TRUE".toList, args)
      else
        let args := args ++ [.text p, .text (escapeLike p ++ "/%".toList)]
        scopeLoop ps (conds ++ [scopeCond (args.length - 1) args.length]) args

/-- Limits results to the given path prefixes: the prefix itself or anything
below it. -/
def scopeClause (prefixes : List Text) (args : List Value) : Text × List Value :=
  if prefixes = [] then ("FALSE".toList, args) else scopeLoop prefixes [] args

/-- The WHERE clause `SearchFiles` sends for a request of a caller. -/
def searchFilter (float : Float64) (a : Access) (rules : List SearchRule) :
    Except SearchError (Text × List Value) :=
  if rules = [] then .error .noRules
  else
    match buildSearchWhere float rules with
    | .error e => .error e
    | .ok (clause, args) =>
        if a.role = .restricted then
          let (scope, args) := scopeClause a.prefixes args
          .ok ("(".toList ++ clause ++ ") AND ".toList ++ scope, args)
        else .ok (clause, args)

/-! ## what a rule list means -/

/-- How a field is compared, and what with. -/
def boundCondition (float : Float64) (field : SearchField) (operator value : Text) :
    Option (CmpOp × Value) :=
  if field.numeric then
    (if field.sizeHuman then parseHumanSize float value else parseInt64 (trimSpace value)).bind
      fun n => (numericOp operator).map fun op => (op, .int n)
  else (textOp operator value).map fun (op, bound) => (op, .text bound)

/-- The column a rule is about, how it is compared, and what with. -/
def SearchRule.bound (float : Float64) (rule : SearchRule) : Option (Text × CmpOp × Value) :=
  (searchFields.lookup rule.field).bind fun field =>
    (boundCondition float field rule.operator rule.value).map fun c => (field.column, c)

/-- The comparison of a rule, on one row. -/
def SearchRule.comparison (float : Float64) (m : Matchers) (row : Text → Value)
    (rule : SearchRule) : Truth :=
  (rule.bound float).bind fun (column, op, v) => op.apply m (row column) v

/-- A plain rule holds iff its comparison is TRUE, a negated one iff it is
not. -/
def SearchRule.Holds (float : Float64) (m : Matchers) (row : Text → Value) (rule : SearchRule) :
    Prop :=
  if rule.negate then rule.comparison float m row ≠ some true
  else rule.comparison float m row = some true

/-- Does a connector read OR, in any case? -/
def saysOr (connector : Text) : Bool :=
  connector ∈ [['O', 'R'], ['O', 'r'], ['o', 'R'], ['o', 'r']]

/-- The maximal runs of rules joined by AND. -/
def andRuns (rules : List SearchRule) : List (List SearchRule) :=
  rules.splitBy fun _ next => !saysOr next.connector

/-- Some run of rules joined by AND holds entirely. -/
def RulesHold (float : Float64) (m : Matchers) (row : Text → Value)
    (runs : List (List SearchRule)) : Prop :=
  ∃ run ∈ runs, ∀ rule ∈ run, rule.Holds float m row

theorem rulesHold_concat {float : Float64} {m : Matchers} {row : Text → Value}
    {done : List (List SearchRule)} {run : List SearchRule} :
    RulesHold float m row (done ++ [run]) ↔
      RulesHold float m row done ∨ ∀ rule ∈ run, rule.Holds float m row := by
  simp [RulesHold, or_and_right, exists_or]

theorem toUpper_eq_iff {c u l : Char} (hl : 97 ≤ l.val ∧ l.val ≤ 122)
    (hu : u.val = l.val - 32) : c.toUpper = u ↔ c = u ∨ c = l := by
  delta Char.toUpper
  simp only [Char.ext_iff]
  split <;> grind [UInt32.toNat_add, Char.toNat_val]

theorem isOr_eq (connector : Text) : isOr connector = saysOr connector := by
  have hO (c : Char) : c.toUpper = 'O' ↔ c = 'O' ∨ c = 'o' := toUpper_eq_iff (by decide) (by decide)
  have hR (c : Char) : c.toUpper = 'R' ↔ c = 'R' ∨ c = 'r' := toUpper_eq_iff (by decide) (by decide)
  have htext : "OR".toList = ['O', 'R'] := by decide
  rw [isOr, saysOr, htext, decide_eq_decide]
  cases connector with
  | nil => simp
  | cons c connector =>
      cases connector with
      | nil => simp
      | cons c' connector =>
          simp only [List.map_cons, List.cons.injEq, List.map_eq_nil_iff, hO, hR, List.mem_cons,
            List.not_mem_nil, or_false]
          constructor
          · intro h
            obtain ⟨hc | hc, hc' | hc', htail⟩ := h <;> simp [hc, hc', htail]
          · intro h
            obtain ⟨hc, hr, htail⟩ | ⟨hc, hr, htail⟩ | ⟨hc, hr, htail⟩ | ⟨hc, hr, htail⟩ := h <;>
              simp [hc, hr, htail]

/-- The text of a rule, its value being the `n`-th argument. -/
def ruleText (negate : Bool) (column : Text) (op : CmpOp) (n : Nat) : Text :=
  if negate then "(NOT COALESCE(".toList ++ condText column op n ++ ", FALSE))".toList
  else condText column op n

theorem buildCondition_eq_ok {float : Float64} {field : SearchField} {operator value : Text}
    {args args' : List Value} {cond : Text} :
    buildCondition float field operator value args = .ok (cond, args') ↔
      ∃ op v, boundCondition float field operator value = some (op, v) ∧
        cond = condText field.column op (args.length + 1) ∧ args' = args ++ [v] := by
  unfold buildCondition boundCondition
  by_cases hnumeric : field.numeric = true
  · rw [if_pos hnumeric, if_pos hnumeric]
    generalize (if field.sizeHuman then parseHumanSize float value
      else parseInt64 (trimSpace value)) = parsed
    cases parsed with
    | none => simp
    | some n =>
        cases numericOp operator with
        | none => simp
        | some op => simp [and_comm, eq_comm]
  · rw [if_neg hnumeric, if_neg hnumeric]
    cases textOp operator value with
    | none => simp
    | some r => simp [and_comm, eq_comm]

/-- **What an accepted rule adds** to the clause and to the arguments. -/
theorem ruleCondition_eq_ok {float : Float64} {rule : SearchRule} {args args' : List Value}
    {cond : Text} :
    ruleCondition float rule args = .ok (cond, args') ↔
      ∃ column op v, rule.bound float = some (column, op, v) ∧
        cond = ruleText rule.negate column op (args.length + 1) ∧ args' = args ++ [v] := by
  unfold ruleCondition SearchRule.bound
  cases searchFields.lookup rule.field with
  | none => simp
  | some field =>
      rw [Option.bind_some]
      dsimp only
      constructor
      · intro h
        cases hcond : buildCondition float field rule.operator rule.value args with
        | error e =>
            rw [hcond] at h
            cases h
        | ok r =>
            obtain ⟨op, v, hbound, htext, hargs⟩ := buildCondition_eq_ok.mp hcond
            rw [hcond] at h
            cases h
            exact ⟨field.column, op, v, by rw [hbound, Option.map_some], by rw [htext, ruleText],
              hargs⟩
      · intro h
        obtain ⟨column, op, v, hbound, htext, hargs⟩ := h
        obtain ⟨c, hc, hpair⟩ := Option.map_eq_some_iff.mp hbound
        cases hpair
        have hcond := buildCondition_eq_ok.mpr ⟨op, v, hc, rfl, hargs⟩
        rw [hcond, htext]
        rfl

/-! ## the expressions the clauses stand for -/

/-- `clause` is the text of `e`, with all its parameters bound by `args`. -/
structure StandsFor (clause : Text) (args : List Value) (e : Expr) : Prop where
  text_eq : clause = e.text
  layered : e.Layered
  params : e.ParamsLe args.length

/-- Every allowlisted column is a name the lexer reads back. -/
theorem valid_column {name : Text} {field : SearchField}
    (h : searchFields.lookup name = some field) : (Operand.column field.column).Valid := by
  have hall : ∀ f ∈ searchFields, (Operand.column f.2.column).Valid := by decide +kernel
  rw [List.lookup_eq_some_iff] at h
  obtain ⟨before, after, hfields, _⟩ := h
  exact hall (name, field) (by simp [hfields])

theorem condText_standsFor {column : Text} (hcolumn : (Operand.column column).Valid) (op : CmpOp)
    {args : List Value} {n : Nat} (hn : 0 < n ∧ n ≤ args.length) :
    StandsFor (condText column op n) args (.paren (.cmp (.column column) op (.param n))) where
  text_eq := by
    simp only [condText, Expr.text, Operand.text, String.reduceToList, List.append_assoc,
      List.cons_append, List.nil_append]
  layered := ⟨hcolumn, valid_param n⟩
  params := ⟨trivial, hn⟩

theorem StandsFor.negate {clause : Text} {args : List Value} {e : Expr}
    (h : StandsFor clause args e) :
    StandsFor ("(NOT COALESCE(".toList ++ clause ++ ", FALSE))".toList) args
      (.paren (.not (.coalesce e (.const false)))) where
  text_eq := by
    simp only [h.text_eq, Expr.text, String.reduceToList, List.append_assoc, List.cons_append,
      List.nil_append]
  layered := ⟨trivial, h.layered, trivial⟩
  params := ⟨h.params, trivial⟩

/-- An accepted rule is followed by the rest. -/
theorem appendRules_cons_eq_ok {float : Float64} {rule : SearchRule} {rules : List SearchRule}
    {sb : Text} {args : List Value} {s : Text × List Value}
    (h : appendRules float (rule :: rules) (sb, args) = .ok s) :
    ∃ cond args', ruleCondition float rule args = .ok (cond, args') ∧
      appendRules float rules (sb ++ " ".toList ++
        (if isOr rule.connector then "OR".toList else "AND".toList) ++ " ".toList ++ cond,
          args') = .ok s := by
  rw [appendRules] at h
  cases hcond : ruleCondition float rule args with
  | error e =>
      rw [hcond] at h
      cases h
  | ok r =>
      rw [hcond] at h
      exact ⟨r.1, r.2, rfl, h⟩

theorem buildSearchWhere_cons_eq_ok {float : Float64} {rule : SearchRule}
    {rules : List SearchRule} {s : Text × List Value}
    (h : buildSearchWhere float (rule :: rules) = .ok s) :
    ∃ cond args', ruleCondition float rule [] = .ok (cond, args') ∧
      appendRules float rules (cond, args') = .ok s := by
  rw [buildSearchWhere] at h
  cases hcond : ruleCondition float rule [] with
  | error e =>
      rw [hcond] at h
      cases h
  | ok r =>
      rw [hcond] at h
      exact ⟨r.1, r.2, rfl, h⟩

/-- OR ends a run. -/
theorem andRuns_append {cur rules : List SearchRule} {rule : SearchRule} (hne : cur ≠ [])
    (hcur : cur.IsChain fun _ next => (!saysOr next.connector) = true)
    (hor : saysOr rule.connector = true) :
    andRuns (cur ++ rule :: rules) = cur :: andRuns (rule :: rules) := by
  rw [andRuns, List.splitBy_append (by simp [hor]), List.splitBy_of_isChain hne hcur]
  rfl

/-- On every row, and whatever is bound behind `args`, the expression is TRUE
exactly if `P` holds. -/
def Means (e : Expr) (args : List Value) (P : Matchers → (Text → Value) → Prop) : Prop :=
  ∀ m row more, e.eval ⟨m, row, args ++ more⟩ = some true ↔ P m row

theorem Means.append {e : Expr} {args : List Value} {P : Matchers → (Text → Value) → Prop}
    (h : Means e args P) (vs : List Value) : Means e (args ++ vs) P := by
  intro m row more
  rw [List.append_assoc]
  exact h m row (vs ++ more)

/-- **A rule's predicate** is a parenthesis over an allowlisted column, TRUE
on the rows the rule holds on. -/
theorem ruleCondition_text {float : Float64} {rule : SearchRule} {args args' : List Value}
    {cond : Text} (h : ruleCondition float rule args = .ok (cond, args')) :
    ∃ e, StandsFor cond args' e ∧ e.IsFactor ∧
      Means e args' (fun m row => rule.Holds float m row) ∧ ∃ v, args' = args ++ [v] := by
  obtain ⟨column, op, v, hbound, rfl, rfl⟩ := ruleCondition_eq_ok.mp h
  obtain ⟨field, hfield, hpair⟩ := Option.bind_eq_some_iff.mp hbound
  obtain ⟨c, -, hcolumn⟩ := Option.map_eq_some_iff.mp hpair
  cases hcolumn
  have hparam : 0 < args.length + 1 ∧ args.length + 1 ≤ (args ++ [v]).length := by simp
  have hstands := condText_standsFor (valid_column hfield) op hparam
  have hcmp : ∀ m row more, (Expr.cmp (.column field.column) op (.param (args.length + 1))).eval
      ⟨m, row, args ++ [v] ++ more⟩ = rule.comparison float m row := by
    intro m row more
    simp [Expr.eval, Operand.eval, SearchRule.comparison, hbound]
  cases hnegate : rule.negate with
  | true =>
      refine ⟨_, hstands.negate, trivial, fun m row more => ?_, v, rfl⟩
      simp only [SearchRule.Holds, hnegate, if_true, Expr.eval, ← hcmp m row more]
      cases op.apply m _ _ with
      | none => simp [Truth.coalesce, Truth.not]
      | some b => simp [Truth.coalesce, Truth.not]
  | false =>
      refine ⟨_, hstands, trivial, fun m row more => ?_, v, rfl⟩
      rw [Expr.eval, hcmp]
      simp [SearchRule.Holds, hnegate]

theorem join_or_eval {disj : Option Expr} {e : Expr} {env : Env} :
    (join .or disj e).eval env = some true ↔
      (∃ d ∈ disj, d.eval env = some true) ∨ e.eval env = some true := by
  cases disj <;> simp [join, Expr.eval]

section Joined

variable {sb cond : Text} {args args' : List Value} {c : Expr}

/-- Behind OR, everything before is complete. -/
theorem StandsFor.or {e : Expr} (h : StandsFor sb args e) (hargs : args.length ≤ args'.length)
    (hc : StandsFor cond args' c) (hfactor : c.IsFactor) :
    StandsFor (sb ++ " ".toList ++ "OR".toList ++ " ".toList ++ cond) args' (.or e c) where
  text_eq := by simp [Expr.text, h.text_eq, hc.text_eq]
  layered := ⟨by cases c <;> trivial, h.layered, hc.layered⟩
  params := ⟨h.params.mono hargs, hc.params⟩

/-- Behind AND, the last operand of OR goes on. -/
theorem StandsFor.and {disj : Option Expr} {conj : Expr}
    (h : StandsFor sb args (join .or disj conj)) (hterm : conj.IsTerm)
    (hargs : args.length ≤ args'.length) (hc : StandsFor cond args' c) (hfactor : c.IsFactor) :
    StandsFor (sb ++ " ".toList ++ "AND".toList ++ " ".toList ++ cond) args'
      (join .or disj (.and conj c)) := by
  have hparams := h.params.mono hargs
  have hlayered := h.layered
  cases disj with
  | none =>
      exact ⟨by simp [join, Expr.text, h.text_eq, hc.text_eq],
        ⟨hterm, hfactor, hlayered, hc.layered⟩, ⟨hparams, hc.params⟩⟩
  | some l =>
      exact ⟨by simp [join, Expr.text, h.text_eq, hc.text_eq],
        ⟨trivial, hlayered.2.1, hterm, hfactor, hlayered.2.2, hc.layered⟩,
        ⟨hparams.1, hparams.2, hc.params⟩⟩

end Joined

/-- Appending rules to a clause that ends in the run `cur`, which the
conjunction `conj` stands for. -/
theorem appendRules_text {float : Float64} {rules : List SearchRule} {sb clause : Text}
    {args args' : List Value} (disj : Option Expr) (conj : Expr)
    (done : List (List SearchRule)) (cur : List SearchRule)
    (hstands : StandsFor sb args (join .or disj conj)) (hterm : conj.IsTerm)
    (hdone : ∀ m row more, (∃ d ∈ disj, d.eval ⟨m, row, args ++ more⟩ = some true) ↔
      RulesHold float m row done)
    (hconj : Means conj args fun m row => ∀ rule ∈ cur, rule.Holds float m row)
    (hne : cur ≠ []) (hcur : cur.IsChain fun _ next => (!saysOr next.connector) = true)
    (h : appendRules float rules (sb, args) = .ok (clause, args')) :
    ∃ e, StandsFor clause args' e ∧
      Means e args' (fun m row => RulesHold float m row (done ++ andRuns (cur ++ rules))) := by
  induction rules generalizing sb args disj conj done cur with
  | nil =>
      cases h
      refine ⟨_, hstands, fun m row more => ?_⟩
      rw [join_or_eval, hdone, hconj]
      rw [List.append_nil, andRuns, List.splitBy_of_isChain hne hcur]
      exact rulesHold_concat.symm
  | cons rule rules ih =>
      obtain ⟨cond, args'', hcond, h⟩ := appendRules_cons_eq_ok h
      obtain ⟨c, hc, hfactor, hmeans, v, rfl⟩ := ruleCondition_text hcond
      have hmore : args.length ≤ (args ++ [v]).length := by simp
      have hold : ∀ m row more,
          (∃ d ∈ disj, d.eval ⟨m, row, args ++ [v] ++ more⟩ = some true) ↔
            RulesHold float m row done := by
        intro m row more
        have hbefore := hdone m row ([v] ++ more)
        rwa [← List.append_assoc] at hbefore
      by_cases hor : isOr rule.connector = true
      · -- everything before is complete, the rule starts a new run
        have hstart : saysOr rule.connector = true := by rwa [← isOr_eq]
        rw [if_pos hor] at h
        rw [andRuns_append hne hcur hstart, List.append_cons]
        refine ih (some (join .or disj conj)) c _ [rule] (hstands.or hmore hc hfactor)
          ?_ ?_ ?_ ?_ ?_ h
        · cases c <;> trivial
        · intro m row more
          have hrun : conj.eval ⟨m, row, args ++ [v] ++ more⟩ = some true ↔
              ∀ rule ∈ cur, rule.Holds float m row := hconj.append [v] m row more
          rw [rulesHold_concat, ← hold m row more, ← hrun]
          simp [join_or_eval]
        · intro m row more
          simpa using hmeans m row more
        · simp
        · simp
      · have hjoined : saysOr rule.connector = false := by
          rw [← isOr_eq]
          simpa using hor
        have hrun : cur ++ rule :: rules = cur ++ [rule] ++ rules := by simp
        rw [if_neg hor] at h
        rw [hrun]
        refine ih disj (.and conj c) _ _ (hstands.and hterm hmore hc hfactor) trivial
          hold ?_ ?_ ?_ h
        · intro m row more
          rw [Expr.eval, Truth.and_eq_true, (hconj.append [v]) m row more, hmeans m row more]
          simp [or_imp, forall_and]
        · simp
        · rw [List.isChain_append]
          simpa [hjoined] using hcur

/-- **An accepted rule list is an expression**, whatever its rules,
connectors and negations; it is TRUE on a row exactly if one of the runs
joined by AND holds. -/
theorem buildSearchWhere_text {float : Float64} {rules : List SearchRule} {clause : Text}
    {args : List Value} (hne : rules ≠ [])
    (h : buildSearchWhere float rules = .ok (clause, args)) :
    ∃ e, StandsFor clause args e ∧
      Means e args (fun m row => RulesHold float m row (andRuns rules)) := by
  cases rules with
  | nil => exact absurd rfl hne
  | cons rule rules =>
      obtain ⟨cond, args', hcond, h⟩ := buildSearchWhere_cons_eq_ok h
      obtain ⟨c, hc, hfactor, hmeans, -⟩ := ruleCondition_text hcond
      have hfirst := appendRules_text none c [] [rule] hc
        (by cases c <;> trivial) (by simp [RulesHold])
        (fun m row more => by simpa using hmeans m row more) (by simp) (by simp) h
      simpa using hfirst

end Cuttlefish
