import Cuttlefish.Sql.Like
import Cuttlefish.Sql.Syntax

/-!
# Cuttlefish.Sql.Eval

The value of a boolean expression on a row, in three-valued logic: `none`
is NULL.

Case-insensitive and regular-expression matching are parameters of the
evaluation; a pattern or a regular expression the server rejects makes no
row match.
-/

namespace Cuttlefish.Sql

/-! ## three-valued logic -/

/-- A truth value; `none` is NULL. -/
abbrev Truth := Option Bool

def Truth.not (a : Truth) : Truth := a.map (!·)

def Truth.and : Truth → Truth → Truth
  | some false, _ => some false
  | _, some false => some false
  | some true, b => b
  | none, _ => none

def Truth.or : Truth → Truth → Truth
  | some true, _ => some true
  | _, some true => some true
  | some false, b => b
  | none, _ => none

/-- The first value that is not NULL. -/
def Truth.coalesce : Truth → Truth → Truth
  | some a, _ => some a
  | none, b => b

@[simp] theorem Truth.and_eq_true {a b : Truth} :
    a.and b = some true ↔ a = some true ∧ b = some true := by
  rcases a with _ | _ | _ <;> rcases b with _ | _ | _ <;> simp [Truth.and]

@[simp] theorem Truth.or_eq_true {a b : Truth} :
    a.or b = some true ↔ a = some true ∨ b = some true := by
  rcases a with _ | _ | _ <;> rcases b with _ | _ | _ <;> simp [Truth.or]

/-! ## values -/

inductive Value where
  | null
  | int (i : Int)
  | text (t : Text)
  deriving DecidableEq, Repr

/-- The matching operators that are not modelled further. -/
structure Matchers where
  ilike : Text → Text → Bool
  regex : Text → Text → Bool
  regexI : Text → Text → Bool

/-- A comparison.  NULL on either side gives NULL; `<` and `>` compare
numbers, the matching operators texts. -/
def CmpOp.apply (m : Matchers) : CmpOp → Value → Value → Truth
  | _, .null, _ => none
  | _, _, .null => none
  | .eq, a, b => some (a = b)
  | .ne, a, b => some (a ≠ b)
  | .lt, .int a, .int b => some (a < b)
  | .gt, .int a, .int b => some (b < a)
  | .like, .text a, .text b => Cuttlefish.like a b
  | .ilike, .text a, .text b => some (m.ilike a b)
  | .regex, .text a, .text b => some (m.regex a b)
  | .regexI, .text a, .text b => some (m.regexI a b)
  | _, _, _ => none

/-! ## evaluation -/

/-- A row and the parameters bound. -/
structure Env where
  matchers : Matchers
  column : Text → Value
  args : List Value

def Operand.eval (env : Env) : Operand → Value
  | .column name => env.column name
  | .param n => env.args.getD (n - 1) .null

def Expr.eval (env : Env) : Expr → Truth
  | .const b => some b
  | .cmp l op r => op.apply env.matchers (l.eval env) (r.eval env)
  | .not e => (e.eval env).not
  | .and l r => (l.eval env).and (r.eval env)
  | .or l r => (l.eval env).or (r.eval env)
  | .paren e => e.eval env
  | .coalesce l r => Truth.coalesce (l.eval env) (r.eval env)

/-! ## more arguments -/

/-- Every parameter is `$1` to `$n`. -/
def Operand.ParamsLe (n : Nat) : Operand → Prop
  | .column _ => True
  | .param k => 0 < k ∧ k ≤ n

/-- Every parameter of an expression is `$1` to `$n`. -/
def Expr.ParamsLe (n : Nat) : Expr → Prop
  | .const _ => True
  | .cmp l _ r => l.ParamsLe n ∧ r.ParamsLe n
  | .not e => e.ParamsLe n
  | .and l r => l.ParamsLe n ∧ r.ParamsLe n
  | .or l r => l.ParamsLe n ∧ r.ParamsLe n
  | .paren e => e.ParamsLe n
  | .coalesce l r => l.ParamsLe n ∧ r.ParamsLe n

theorem Operand.ParamsLe.mono {n n' : Nat} {x : Operand} (h : x.ParamsLe n) (hn : n ≤ n') :
    x.ParamsLe n' := by
  cases x with
  | column name => trivial
  | param k => exact ⟨h.1, h.2.trans hn⟩

theorem Expr.ParamsLe.mono {n n' : Nat} (hn : n ≤ n') : {e : Expr} → e.ParamsLe n → e.ParamsLe n'
  | .const _, _ => trivial
  | .cmp _ _ _, ⟨hl, hr⟩ => ⟨hl.mono hn, hr.mono hn⟩
  | .not e, h => mono (e := e) hn h
  | .and _ _, ⟨hl, hr⟩ => ⟨hl.mono hn, hr.mono hn⟩
  | .or _ _, ⟨hl, hr⟩ => ⟨hl.mono hn, hr.mono hn⟩
  | .paren e, h => mono (e := e) hn h
  | .coalesce _ _, ⟨hl, hr⟩ => ⟨hl.mono hn, hr.mono hn⟩

theorem Operand.eval_append {env : Env} {x : Operand} (h : x.ParamsLe env.args.length)
    (more : List Value) : x.eval { env with args := env.args ++ more } = x.eval env := by
  cases x with
  | column name => rfl
  | param k =>
      have hlt : k - 1 < env.args.length := by have := h.1; have := h.2; omega
      simp [Operand.eval, List.getElem?_append_left hlt]

/-- **Arguments behind the last parameter do not matter.** -/
theorem Expr.eval_append (env : Env) (more : List Value) : {e : Expr} →
    e.ParamsLe env.args.length → e.eval { env with args := env.args ++ more } = e.eval env
  | .const _, _ => rfl
  | .cmp _ _ _, ⟨hl, hr⟩ => by simp only [Expr.eval, Operand.eval_append hl, Operand.eval_append hr]
  | .not e, h => by
      have he := eval_append env more (e := e) h
      simp only [Expr.eval, he]
  | .and _ _, ⟨hl, hr⟩ => by
      simp only [Expr.eval, eval_append env more hl, eval_append env more hr]
  | .or _ _, ⟨hl, hr⟩ => by
      simp only [Expr.eval, eval_append env more hl, eval_append env more hr]
  | .paren e, h => eval_append env more (e := e) h
  | .coalesce _ _, ⟨hl, hr⟩ => by
      simp only [Expr.eval, eval_append env more hl, eval_append env more hr]

end Cuttlefish.Sql
