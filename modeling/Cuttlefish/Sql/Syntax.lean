import Cuttlefish.Utf8
import Mathlib.Data.List.Basic

/-!
# Cuttlefish.Sql.Syntax

Boolean SQL expressions: their text, a lexer and a precedence parser.

The fragment is comparisons of columns and parameters, `TRUE` and `FALSE`,
`COALESCE`, and `NOT`, `AND`, `OR` in decreasing order of binding.
Parentheses are kept in the tree, so that an expression has one text, and
`Layered` says that an operand binding looser than its operator stands in
parentheses.

`parseSql_text` is the round trip: the parser reads the text of a layered
expression back as that expression.  The parser is a machine that consumes
one token a time, so the proof runs along the tokens of a subexpression in
whatever context it stands.
-/

namespace Cuttlefish.Sql

/-! ## expressions -/

inductive CmpOp where
  | eq
  | ne
  | lt
  | gt
  | like
  | ilike
  | regex
  | regexI
  deriving DecidableEq, Repr

inductive Operand where
  | column (name : Text)
  | param (n : Nat)
  deriving DecidableEq, Repr

inductive Expr where
  | const (b : Bool)
  | cmp (l : Operand) (op : CmpOp) (r : Operand)
  | not (e : Expr)
  | and (l r : Expr)
  | or (l r : Expr)
  | paren (e : Expr)
  | coalesce (l r : Expr)
  deriving DecidableEq, Repr

def CmpOp.text : CmpOp → Text
  | .eq => ['=']
  | .ne => ['<', '>']
  | .lt => ['<']
  | .gt => ['>']
  | .like => ['L', 'I', 'K', 'E']
  | .ilike => ['I', 'L', 'I', 'K', 'E']
  | .regex => ['~']
  | .regexI => ['~', '*']

def Operand.text : Operand → Text
  | .column name => name
  | .param n => '$' :: Nat.toDigits 10 n

def Expr.text : Expr → Text
  | .const true => ['T', 'R', 'U', 'E']
  | .const false => ['F', 'A', 'L', 'S', 'E']
  | .cmp l op r => l.text ++ ' ' :: (op.text ++ ' ' :: r.text)
  | .not e => ['N', 'O', 'T'] ++ ' ' :: e.text
  | .and l r => l.text ++ ' ' :: (['A', 'N', 'D'] ++ ' ' :: r.text)
  | .or l r => l.text ++ ' ' :: (['O', 'R'] ++ ' ' :: r.text)
  | .paren e => '(' :: (e.text ++ [')'])
  | .coalesce l r =>
      ['C', 'O', 'A', 'L', 'E', 'S', 'C', 'E'] ++
        '(' :: (l.text ++ ',' :: ' ' :: (r.text ++ [')']))

/-! ## tokens -/

inductive Tok where
  | lparen
  | rparen
  | comma
  | and
  | or
  | not
  | const (b : Bool)
  | coalesce
  | op (o : CmpOp)
  | operand (x : Operand)
  deriving DecidableEq, Repr

def Expr.toks : Expr → List Tok
  | .const b => [.const b]
  | .cmp l op r => [.operand l, .op op, .operand r]
  | .not e => .not :: e.toks
  | .and l r => l.toks ++ .and :: r.toks
  | .or l r => l.toks ++ .or :: r.toks
  | .paren e => .lparen :: (e.toks ++ [.rparen])
  | .coalesce l r => .coalesce :: .lparen :: (l.toks ++ .comma :: (r.toks ++ [.rparen]))

/-! ## the lexer -/

/-- Characters that are a lexeme of their own. -/
def isDelim (c : Char) : Bool := c = '(' || c = ')' || c = ','

/-- A finished word, if there is one. -/
def flush (word : Text) : List Text := if word = [] then [] else [word]

/-- Splits a text into delimiters and the words between blanks and
delimiters; `word` is the word read so far. -/
def lexemes : Text → Text → List Text
  | word, [] => flush word
  | word, c :: cs =>
      if c = ' ' then flush word ++ lexemes [] cs
      else if isDelim c then flush word ++ [c] :: lexemes [] cs
      else lexemes (word ++ [c]) cs

/-- The words that are not operands. -/
def keywords : List (Text × Tok) :=
  [(['('], .lparen), ([')'], .rparen), ([','], .comma), (['A', 'N', 'D'], .and),
    (['O', 'R'], .or), (['N', 'O', 'T'], .not), (['T', 'R', 'U', 'E'], .const true),
    (['F', 'A', 'L', 'S', 'E'], .const false),
    (['C', 'O', 'A', 'L', 'E', 'S', 'C', 'E'], .coalesce), (['='], .op .eq),
    (['<', '>'], .op .ne), (['<'], .op .lt), (['>'], .op .gt),
    (['L', 'I', 'K', 'E'], .op .like), (['I', 'L', 'I', 'K', 'E'], .op .ilike), (['~'], .op .regex),
    (['~', '*'], .op .regexI)]

/-- Characters of a column name, its table alias included. -/
def isNameChar (c : Char) : Bool := c.isAlphanum || c = '_' || c = '.'

/-- A parameter `$n` or a column. -/
def operandOf : Text → Option Operand
  | [] => none
  | c :: cs =>
      if c = '$' then
        if cs ≠ [] ∧ cs.all Char.isDigit then some (.param (Nat.ofDigitChars 10 cs 0)) else none
      else if c.isAlpha ∧ cs.all isNameChar then some (.column (c :: cs))
      else none

/-- The token a lexeme is. -/
def tokenOf (w : Text) : Option Tok :=
  match keywords.lookup w with
  | some t => some t
  | none => (operandOf w).map .operand

def lex (s : Text) : Option (List Tok) := (lexemes [] s).mapM tokenOf

/-! ## the parser -/

/-- What stands at the current position. -/
inductive Slot where
  /-- An operand may start here. -/
  | empty
  | lhs (x : Operand)
  | lhsOp (x : Operand) (op : CmpOp)
  /-- `COALESCE`, its parenthesis still to come. -/
  | call
  /-- A complete operand of `AND` or `OR`. -/
  | full (e : Expr)
  deriving DecidableEq, Repr

/-- One level of parentheses: the disjuncts and the conjuncts already
complete, and the `NOT`s in front of the current position. -/
structure Frame where
  disj : Option Expr := none
  conj : Option Expr := none
  nots : Nat := 0
  slot : Slot := .empty
  deriving DecidableEq, Repr

/-- What the current parenthesis will become when it closes. -/
inductive Opened where
  | paren
  | firstArg
  | secondArg (first : Expr)
  deriving DecidableEq, Repr

/-- The innermost frame, and the frames it is nested in. -/
structure State where
  stack : List (Opened × Frame) := []
  frame : Frame := {}
  deriving DecidableEq, Repr

/-- Joins an operand to what is complete before it. -/
def join (op : Expr → Expr → Expr) : Option Expr → Expr → Expr
  | none, e => e
  | some l, e => op l e

/-- `n` negations of `e`. -/
def negated : Nat → Expr → Expr
  | 0, e => e
  | n + 1, e => negated n (.not e)

/-- A complete comparison, constant, call or parenthesis; its `NOT`s apply. -/
def Frame.fill (f : Frame) (e : Expr) : Frame :=
  { f with nots := 0, slot := .full (negated f.nots e) }

/-- The current conjunction. -/
def Frame.term (f : Frame) : Option Expr :=
  match f.slot with
  | .full e => some (join .and f.conj e)
  | _ => none

/-- The whole frame. -/
def Frame.total (f : Frame) : Option Expr := f.term.map (join .or f.disj)

/-- Consumes one token. -/
def step (s : State) (t : Tok) : Option State :=
  match s.frame.slot, t with
  | .empty, .lparen => some ⟨(.paren, s.frame) :: s.stack, {}⟩
  | .empty, .const b => some { s with frame := s.frame.fill (.const b) }
  | .empty, .not => some { s with frame := { s.frame with nots := s.frame.nots + 1 } }
  | .empty, .operand x => some { s with frame := { s.frame with slot := .lhs x } }
  | .empty, .coalesce => some { s with frame := { s.frame with slot := .call } }
  | .lhs x, .op o => some { s with frame := { s.frame with slot := .lhsOp x o } }
  | .lhsOp x o, .operand y => some { s with frame := s.frame.fill (.cmp x o y) }
  | .call, .lparen => some ⟨(.firstArg, { s.frame with slot := .empty }) :: s.stack, {}⟩
  | .full _, .and => some { s with frame := { s.frame with conj := s.frame.term, slot := .empty } }
  | .full _, .or => some { s with frame := { disj := s.frame.total } }
  | .full _, .comma =>
      match s.stack, s.frame.total with
      | (.firstArg, f) :: stack, some e => some ⟨(.secondArg e, f) :: stack, {}⟩
      | _, _ => none
  | .full _, .rparen =>
      match s.stack, s.frame.total with
      | (.paren, f) :: stack, some e => some ⟨stack, f.fill (.paren e)⟩
      | (.secondArg l, f) :: stack, some e => some ⟨stack, f.fill (.coalesce l e)⟩
      | _, _ => none
  | _, _ => none

/-- The expression, once every parenthesis is closed. -/
def State.finish (s : State) : Option Expr := if s.stack = [] then s.frame.total else none

def parse (ts : List Tok) : Option Expr := (ts.foldlM step {}).bind State.finish

/-- Lexes and parses a text. -/
def parseSql (s : Text) : Option Expr := (lex s).bind parse

/-! ## layered expressions -/

/-- An operand of `NOT` and right operand of `AND`. -/
def Expr.IsFactor : Expr → Prop
  | .and _ _ => False
  | .or _ _ => False
  | _ => True

/-- An operand of `OR`. -/
def Expr.IsTerm : Expr → Prop
  | .or _ _ => False
  | _ => True

/-- No blank and no delimiter. -/
def isWord (w : Text) : Bool := w.all fun c => c ≠ ' ' ∧ isDelim c = false

/-- An operand the lexer reads back. -/
def Operand.Valid (x : Operand) : Prop :=
  tokenOf x.text = some (.operand x) ∧ isWord x.text = true

instance (x : Operand) : Decidable x.Valid := inferInstanceAs (Decidable (_ ∧ _))

/-- Operands that bind looser than their operator stand in parentheses. -/
def Expr.Layered : Expr → Prop
  | .const _ => True
  | .cmp l _ r => l.Valid ∧ r.Valid
  | .not e => e.IsFactor ∧ e.Layered
  | .and l r => l.IsTerm ∧ r.IsFactor ∧ l.Layered ∧ r.Layered
  | .or l r => r.IsTerm ∧ l.Layered ∧ r.Layered
  | .paren e => e.Layered
  | .coalesce l r => l.Layered ∧ r.Layered

/-! ## the parser reads tokens back -/

/-- A frame that has read `e` and nothing else of its parenthesis. -/
def Frame.Holds (f : Frame) (e : Expr) : Prop :=
  f.nots = 0 ∧ (∃ x, f.slot = .full x) ∧ f.total = some e

/-- A frame whose current conjunction is `e`. -/
def Frame.HoldsTerm (f : Frame) (disj : Option Expr) (e : Expr) : Prop :=
  f.disj = disj ∧ f.nots = 0 ∧ (∃ x, f.slot = .full x) ∧ f.term = some e

theorem Frame.HoldsTerm.holds {f : Frame} {disj : Option Expr} {e : Expr}
    (h : f.HoldsTerm disj e) : f.Holds (join .or disj e) := by
  obtain ⟨rfl, hnots, hslot, hterm⟩ := h
  exact ⟨hnots, hslot, by rw [Frame.total, hterm, Option.map_some]⟩

theorem Frame.holdsTerm_fill {f : Frame} (e : Expr) (hnots : f.nots = 0) :
    (f.fill e).HoldsTerm f.disj (join .and f.conj e) := by
  refine ⟨rfl, rfl, ⟨_, rfl⟩, ?_⟩
  simp [Frame.term, Frame.fill, hnots, negated]

section Step

variable {s : State}

theorem step_lparen (h : s.frame.slot = .empty) :
    step s .lparen = some ⟨(.paren, s.frame) :: s.stack, {}⟩ := by
  simp only [step, h]

theorem step_not (h : s.frame.slot = .empty) :
    step s .not = some { s with frame := { s.frame with nots := s.frame.nots + 1 } } := by
  simp only [step, h]

theorem step_and {x : Expr} (h : s.frame.slot = .full x) :
    step s .and =
      some { s with frame := { s.frame with conj := s.frame.term, slot := .empty } } := by
  simp only [step, h]

theorem step_or {x : Expr} (h : s.frame.slot = .full x) :
    step s .or = some { s with frame := { disj := s.frame.total } } := by
  simp only [step, h]

theorem step_coalesce (h : s.frame.slot = .empty) :
    [Tok.coalesce, .lparen].foldlM step s = some ⟨(.firstArg, s.frame) :: s.stack, {}⟩ := by
  obtain ⟨stack, disj, conj, nots, slot⟩ := s
  dsimp only at h
  subst h
  rfl

end Step

/-- A whole subexpression, at each of the three layers: as a factor anywhere
an operand may start, as a term where a conjunction starts, and alone in its
parenthesis. -/
structure ReadsBack (e : Expr) : Prop where
  factor : e.IsFactor → ∀ s : State, s.frame.slot = .empty →
    e.toks.foldlM step s = some { s with frame := s.frame.fill e }
  term : e.IsTerm → ∀ s : State, s.frame.slot = .empty → s.frame.nots = 0 → s.frame.conj = none →
    ∃ f, e.toks.foldlM step s = some { s with frame := f } ∧ f.HoldsTerm s.frame.disj e
  alone : ∀ stack, ∃ f, e.toks.foldlM step ⟨stack, {}⟩ = some ⟨stack, f⟩ ∧ f.Holds e

theorem ReadsBack.of_term {e : Expr}
    (factor : e.IsFactor → ∀ s : State, s.frame.slot = .empty →
      e.toks.foldlM step s = some { s with frame := s.frame.fill e })
    (term : ∀ s : State, s.frame.slot = .empty → s.frame.nots = 0 → s.frame.conj = none →
      ∃ f, e.toks.foldlM step s = some { s with frame := f } ∧ f.HoldsTerm s.frame.disj e) :
    ReadsBack e where
  factor := factor
  term _ := term
  alone stack := by
    obtain ⟨f, hrun, hf⟩ := term ⟨stack, {}⟩ rfl rfl rfl
    exact ⟨f, hrun, hf.holds⟩

theorem ReadsBack.of_factor {e : Expr}
    (factor : ∀ s : State, s.frame.slot = .empty →
      e.toks.foldlM step s = some { s with frame := s.frame.fill e }) :
    ReadsBack e := by
  refine .of_term (fun _ => factor) fun s hslot hnots hconj => ?_
  refine ⟨s.frame.fill e, factor s hslot, ?_⟩
  have h := Frame.holdsTerm_fill e hnots
  rwa [hconj] at h

/-- **Layered expressions are read back**, each in the context it stands in. -/
theorem readsBack : (e : Expr) → e.Layered → ReadsBack e
  | .const b, _ => .of_factor fun s hslot => by
      simp [Expr.toks, step, hslot]
  | .cmp l op r, _ => .of_factor fun s hslot => by
      simp [Expr.toks, step, hslot, Frame.fill]
  | .not e, ⟨hfactor, he⟩ => .of_factor fun s hslot => by
      rw [Expr.toks, List.foldlM_cons, step_not hslot, Option.bind_eq_bind, Option.bind_some]
      exact (readsBack e he).factor hfactor
        { s with frame := { s.frame with nots := s.frame.nots + 1 } } hslot
  | .paren e, he => .of_factor fun s hslot => by
      obtain ⟨f, hrun, _, ⟨x, hfull⟩, htotal⟩ :=
        (readsBack e he).alone ((.paren, s.frame) :: s.stack)
      rw [Expr.toks, List.foldlM_cons, step_lparen hslot, Option.bind_eq_bind, Option.bind_some,
        List.foldlM_append, hrun]
      simp [step, hfull, htotal]
  | .coalesce l r, ⟨hl, hr⟩ => .of_factor fun s hslot => by
      obtain ⟨f, hrun, _, ⟨x, hfull⟩, htotal⟩ :=
        (readsBack l hl).alone ((.firstArg, s.frame) :: s.stack)
      obtain ⟨g, hrun', _, ⟨y, hfull'⟩, htotal'⟩ :=
        (readsBack r hr).alone ((.secondArg l, s.frame) :: s.stack)
      have hcomma : step ⟨(.firstArg, s.frame) :: s.stack, f⟩ .comma =
          some ⟨(.secondArg l, s.frame) :: s.stack, {}⟩ := by
        simp [step, hfull, htotal]
      have htoks : (Expr.coalesce l r).toks =
          [.coalesce, .lparen] ++ (l.toks ++ ([.comma] ++ (r.toks ++ [.rparen]))) := by
        simp [Expr.toks]
      rw [htoks, List.foldlM_append, step_coalesce hslot, Option.bind_eq_bind, Option.bind_some,
        List.foldlM_append, hrun, Option.bind_eq_bind, Option.bind_some, List.foldlM_append]
      simp only [List.foldlM_cons, List.foldlM_nil, hcomma, Option.bind_eq_bind, Option.bind_some,
        Option.pure_def, List.foldlM_append, hrun']
      simp [step, hfull', htotal']
  | .and l r, ⟨hterm, hfactor, hl, hr⟩ =>
      .of_term (fun h => h.elim) fun s hslot hnots hconj => by
        obtain ⟨f, hrun, hdisj, hnots', ⟨x, hfull⟩, hl'⟩ :=
          (readsBack l hl).term hterm s hslot hnots hconj
        have hright := (readsBack r hr).factor hfactor
          { s with frame := { f with conj := f.term, slot := .empty } } rfl
        refine ⟨Frame.fill { f with conj := f.term, slot := .empty } r, ?_, ?_⟩
        · rw [Expr.toks, List.foldlM_append, hrun, Option.bind_eq_bind, Option.bind_some,
            List.foldlM_cons, step_and hfull, Option.bind_eq_bind, Option.bind_some]
          exact hright
        · have h := Frame.holdsTerm_fill (f := { f with conj := f.term, slot := .empty }) r hnots'
          rw [hdisj, hl'] at h ⊢
          exact h
  | .or l r, ⟨hterm, hl, hr⟩ => {
      factor := fun h => h.elim
      term := fun h => h.elim
      alone := fun stack => by
        obtain ⟨f, hrun, _, ⟨x, hfull⟩, htotal⟩ := (readsBack l hl).alone stack
        obtain ⟨g, hrun', hg⟩ :=
          (readsBack r hr).term hterm ⟨stack, { disj := f.total }⟩ rfl rfl rfl
        refine ⟨g, ?_, ?_⟩
        · rw [Expr.toks, List.foldlM_append, hrun, Option.bind_eq_bind, Option.bind_some,
            List.foldlM_cons, step_or hfull, Option.bind_eq_bind, Option.bind_some]
          exact hrun'
        · have h := hg.holds
          rwa [htotal] at h }

/-- The parser reads the tokens of a layered expression. -/
theorem parse_toks {e : Expr} (he : e.Layered) : parse e.toks = some e := by
  obtain ⟨f, hrun, _, _, htotal⟩ := (readsBack e he).alone []
  rw [parse, hrun, Option.bind_some, State.finish, if_pos rfl, htotal]

/-! ## the lexer reads texts back -/

/-- A text in front of which a word is complete. -/
def Breaks (rest : Text) : Prop := ∀ c ∈ rest.head?, c = ' ' ∨ isDelim c = true

/-- In front of anything that breaks a word, `s` lexes as `ts`. -/
def Lexes (s : Text) (ts : List Tok) : Prop :=
  ∀ rest, Breaks rest → lex (s ++ rest) = (lex rest).map (ts ++ ·)

theorem lexemes_append {w : Text} (hw : ∀ c ∈ w, c ≠ ' ' ∧ isDelim c = false) (word : Text)
    {rest : Text} (hrest : Breaks rest) :
    lexemes word (w ++ rest) = flush (word ++ w) ++ lexemes [] rest := by
  induction w generalizing word with
  | nil =>
      cases rest with
      | nil => simp [lexemes, flush]
      | cons c cs =>
          rw [List.nil_append, List.append_nil, lexemes, lexemes]
          rcases hrest c rfl with rfl | hc
          · simp [flush]
          · split_ifs <;> simp [flush]
  | cons c w ih =>
      rw [List.forall_mem_cons] at hw
      rw [List.cons_append, lexemes, if_neg hw.1.1, if_neg (by simp [hw.1.2]), ih hw.2]
      simp

theorem lex_cons {l : List Text} {w : Text} {t : Tok} (ht : tokenOf w = some t) :
    (w :: l).mapM tokenOf = (l.mapM tokenOf).map (t :: ·) := by
  rw [List.mapM_cons, ht]
  cases l.mapM tokenOf <;> rfl

theorem isWord_iff {w : Text} : isWord w = true ↔ ∀ c ∈ w, c ≠ ' ' ∧ isDelim c = false := by
  simp [isWord]

theorem lexes_word {w : Text} {t : Tok} (hw : isWord w = true) (hne : w ≠ [])
    (ht : tokenOf w = some t) : Lexes w [t] := by
  intro rest hrest
  rw [lex, lexemes_append (isWord_iff.mp hw) [] hrest, List.nil_append, flush, if_neg hne,
    List.singleton_append, lex_cons ht]
  rfl

theorem lexes_nil : Lexes [] [] := by
  intro rest _
  simp

theorem lex_delim {c : Char} {t : Tok} (hc : isDelim c = true) (hblank : c ≠ ' ')
    (ht : tokenOf [c] = some t) (s : Text) : lex (c :: s) = (lex s).map (t :: ·) := by
  rw [lex, lexemes, if_neg hblank, if_pos hc, flush, if_pos rfl, List.nil_append, lex_cons ht]
  rfl

/-- A blank between two texts. -/
theorem Lexes.blank {s s' : Text} {ts ts' : List Tok} (h : Lexes s ts) (h' : Lexes s' ts') :
    Lexes (s ++ ' ' :: s') (ts ++ ts') := by
  intro rest hrest
  have hskip : lex (' ' :: (s' ++ rest)) = lex (s' ++ rest) := by
    rw [lex, lexemes, if_pos rfl, flush, if_pos rfl]
    rfl
  rw [List.append_assoc, List.cons_append, h _ (by simp [Breaks]), hskip, h' rest hrest,
    Option.map_map]
  simp [Function.comp_def, List.append_assoc]

/-- A delimiter between two texts. -/
theorem Lexes.delim {s s' : Text} {ts ts' : List Tok} {c : Char} {t : Tok} (h : Lexes s ts)
    (h' : Lexes s' ts') (hc : isDelim c = true) (hblank : c ≠ ' ') (ht : tokenOf [c] = some t) :
    Lexes (s ++ c :: s') (ts ++ t :: ts') := by
  intro rest hrest
  rw [List.append_assoc, List.cons_append, h _ (by simp [Breaks, hc]), lex_delim hc hblank ht,
    h' rest hrest, Option.map_map, Option.map_map]
  simp [Function.comp_def, List.append_assoc]

/-- The rest of a parenthesis. -/
theorem Lexes.close {s : Text} {ts : List Tok} (h : Lexes s ts) :
    Lexes (s ++ [')']) (ts ++ [.rparen]) := by
  refine h.delim lexes_nil ?_ ?_ ?_ <;> decide

/-- An opening parenthesis after a text. -/
theorem Lexes.open {s s' : Text} {ts ts' : List Tok} (h : Lexes s ts) (h' : Lexes s' ts') :
    Lexes (s ++ '(' :: s') (ts ++ .lparen :: ts') := by
  refine h.delim h' ?_ ?_ ?_ <;> decide

theorem lexes_operand {x : Operand} (h : x.Valid) : Lexes x.text [.operand x] := by
  refine lexes_word h.2 (fun hnil => ?_) h.1
  have hnone : tokenOf [] = none := by decide
  have hsome := h.1
  rw [hnil, hnone] at hsome
  cases hsome

theorem tokenOf_op (o : CmpOp) : tokenOf o.text = some (.op o) := by
  cases o <;> decide

theorem lexes_op (o : CmpOp) : Lexes o.text [.op o] :=
  lexes_word (by cases o <;> decide) (by cases o <;> decide) (tokenOf_op o)

theorem lexes_keyword {w : Text} {t : Tok} (h : (w, t) ∈ keywords) (hlen : 1 < w.length) :
    Lexes w [t] := by
  have hall : ∀ k ∈ keywords, 1 < k.1.length →
      isWord k.1 = true ∧ k.1 ≠ [] ∧ tokenOf k.1 = some k.2 := by decide
  obtain ⟨hw, hne, ht⟩ := hall _ h hlen
  exact lexes_word hw hne ht

theorem lexes_const (b : Bool) : Lexes (Expr.const b).text [.const b] := by
  cases b <;> exact lexes_keyword (by decide) (by decide)

theorem lexes_not : Lexes ['N', 'O', 'T'] [.not] := lexes_keyword (by decide) (by decide)

theorem lexes_and : Lexes ['A', 'N', 'D'] [.and] := lexes_keyword (by decide) (by decide)

theorem lexes_or : Lexes ['O', 'R'] [.or] := lexes_keyword (by decide) (by decide)

theorem lexes_coalesce : Lexes ['C', 'O', 'A', 'L', 'E', 'S', 'C', 'E'] [.coalesce] :=
  lexes_keyword (by decide) (by decide)

theorem Lexes.comma {s s' : Text} {ts ts' : List Tok} (h : Lexes s ts) (h' : Lexes s' ts') :
    Lexes (s ++ ',' :: ' ' :: s') (ts ++ .comma :: ts') := by
  refine h.delim (lexes_nil.blank h') ?_ ?_ ?_ <;> decide

/-- **Texts are lexed back.** -/
theorem lexes_text : (e : Expr) → e.Layered → Lexes e.text e.toks
  | .const b, _ => lexes_const b
  | .cmp _ op _, ⟨hl, hr⟩ => (lexes_operand hl).blank ((lexes_op op).blank (lexes_operand hr))
  | .not e, ⟨_, he⟩ => lexes_not.blank (lexes_text e he)
  | .and l r, ⟨_, _, hl, hr⟩ => (lexes_text l hl).blank (lexes_and.blank (lexes_text r hr))
  | .or l r, ⟨_, hl, hr⟩ => (lexes_text l hl).blank (lexes_or.blank (lexes_text r hr))
  | .paren e, he => lexes_nil.open (lexes_text e he).close
  | .coalesce l r, ⟨hl, hr⟩ =>
      lexes_coalesce.open ((lexes_text l hl).comma (lexes_text r hr).close)

/-- **The text of a layered expression parses as that expression.** -/
theorem parseSql_text {e : Expr} (he : e.Layered) : parseSql e.text = some e := by
  have hlex := lexes_text e he [] (by simp [Breaks])
  rw [List.append_nil, show lex [] = some [] from rfl, Option.map_some, List.append_nil] at hlex
  rw [parseSql, hlex, Option.bind_some, parse_toks he]

/-! ## operands -/

/-- Every parameter is read back. -/
theorem valid_param (n : Nat) : (Operand.param n).Valid := by
  have hdigits : ∀ c ∈ Nat.toDigits 10 n, c.isDigit = true := fun c hc =>
    Nat.isDigit_of_mem_toDigits (by decide) (by decide) hc
  have hkeyword : keywords.lookup ('$' :: Nat.toDigits 10 n) = none := by
    have hall : ∀ k ∈ keywords, k.1.head? ≠ some '$' := by decide
    rw [List.lookup_eq_none_iff]
    intro k hk
    rw [bne_iff_ne]
    intro heq
    exact hall k hk (by rw [← heq]; rfl)
  constructor
  · rw [Operand.text, tokenOf, hkeyword]
    simp [operandOf, Nat.toDigits_ne_nil, List.all_eq_true.mpr hdigits]
  · rw [isWord_iff]
    intro c hc
    rcases List.mem_cons.mp hc with rfl | hc
    · decide
    · have hdigit := hdigits c hc
      refine ⟨?_, ?_⟩
      · rintro rfl
        exact absurd hdigit (by decide)
      · rw [isDelim, Bool.or_eq_false_iff, Bool.or_eq_false_iff]
        simp only [decide_eq_false_iff_not]
        refine ⟨⟨?_, ?_⟩, ?_⟩ <;> rintro rfl <;> exact absurd hdigit (by decide)

end Cuttlefish.Sql
