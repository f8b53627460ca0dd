import Cuttlefish.Handlers.Lists
import Cuttlefish.Search.Columns

/-!
# Cuttlefish.Search.Answers

What a search is answered with: the entries of a page, or one of the errors.

`buildSearchWhere` refuses what it cannot read.  What is left goes to the
database, which refuses a value that its column cannot hold, and then, before
it reads a row, a regular expression that it cannot compile.
`answersSearch_files_iff` says when a search gets past both.
-/

namespace Cuttlefish

open Sql

/-! ## answers -/

/-- What is sent back. -/
inductive ReadAnswer where
  | files (files : List FileInfo)
  | file (file : FileInfo)
  | refused (error : ApiError)
  | badSearch (error : SearchError)
  | failed (status : Nat) (message : Text)

/-- The pattern a rule has the database compile, and whether case counts. -/
def SearchRule.pattern? (rule : SearchRule) : Option (Bool × Text) :=
  if rule.operator = "regex".toList then some (false, rule.value)
  else if rule.operator = "regex_i".toList then some (true, rule.value)
  else none

/-- What the database has against a rule's pattern. -/
def Server.patternErrorOf (server : Server) (rule : SearchRule) : Option PgError :=
  rule.pattern?.bind fun (caseless, pattern) => server.patternError caseless pattern

def Server.patternErrors (server : Server) (rules : List SearchRule) : List PgError :=
  rules.filterMap server.patternErrorOf

/-- `strings.TrimPrefix` -/
def trimPrefix (s start : Text) : Text :=
  if start.isPrefixOf s then s.drop start.length else s

/-- The text for a query that fails with a status: a bad regular expression is
told to the client, anything else is not. -/
def failureText (status : Nat) (e : PgError) : Text :=
  if status = 400 then
    "Invalid regular expression: ".toList ++
      trimPrefix e.message "invalid regular expression: ".toList
  else "Internal server error".toList

/-- The answer to a search whose query fails. -/
def searchFailure (rules : List SearchRule) (e : PgError) : ReadAnswer :=
  .failed (searchStatus rules (some e.code)) (failureText (searchStatus rules (some e.code)) e)

/-- The answers to a search.  The database chooses which of several bad patterns
it reports, the order of rows that sort equal, and that of the rows of the
lookup. -/
def AnswersSearch (float : Float64) (server : Server) (db : ApiDb) (a : Access)
    (req : SearchRequest) (ans : ReadAnswer) : Prop :=
  match searchFilter float a req.rules with
  | .error e => ans = .badSearch e
  | .ok (filter, args) =>
      match bindError filter args with
      | some code => ∃ message, ans = searchFailure req.rules ⟨code, message⟩
      | none =>
          (∃ e ∈ server.patternErrors req.rules, ans = searchFailure req.rules e) ∨
          (server.patternErrors req.rules = [] ∧
            ∃ page stats, SearchPage server req filter args (db.searchRows req) page ∧
              stats.Perm (db.statsFor (scanPlain page).dirHashes) ∧
                ans = .files (req.response page stats))

section Files

variable {float : Float64} {server : Server} {db : ApiDb} {a : Access} {req : SearchRequest}
  {files : List FileInfo}

/-- **What an answer with entries comes from.** -/
theorem AnswersSearch.page (h : AnswersSearch float server db a req (.files files)) :
    ∃ filter args, searchFilter float a req.rules = .ok (filter, args) ∧
      bindError filter args = none ∧ server.patternErrors req.rules = [] ∧
        ∃ page stats, SearchPage server req filter args (db.searchRows req) page ∧
          stats.Perm (db.statsFor (scanPlain page).dirHashes) ∧
            files = req.response page stats := by
  unfold AnswersSearch at h
  cases hfilter : searchFilter float a req.rules with
  | error e =>
      rw [hfilter] at h
      cases h
  | ok s =>
      obtain ⟨filter, args⟩ := s
      rw [hfilter] at h
      dsimp only at h
      cases hbind : bindError filter args with
      | some code =>
          rw [hbind] at h
          obtain ⟨message, hfailed⟩ := h
          cases hfailed
      | none =>
          rw [hbind] at h
          obtain ⟨e, -, hfailed⟩ | ⟨hpatterns, page, stats, hpage, hstats, hfiles⟩ := h
          · cases hfailed
          · cases hfiles
            exact ⟨filter, args, rfl, hbind, hpatterns, page, stats, hpage, hstats, rfl⟩

end Files

/-! ## what is answered with entries -/

/-- Arguments behind the last parameter need not fit. -/
theorem paramsFit_append {args : List Value} (more : List Value) : {e : Expr} →
    e.ParamsLe args.length → (ParamsFit (args ++ more) e ↔ ParamsFit args e)
  | .const _, _ => Iff.rfl
  | .cmp (.param _) _ _, _ => Iff.rfl
  | .cmp (.column _) _ (.column _), _ => Iff.rfl
  | .cmp (.column name) _ (.param n), ⟨_, hn⟩ => by
      have hlt : n - 1 < args.length := by have := hn.1; have := hn.2; omega
      rw [ParamsFit, ParamsFit, List.getD_eq_getElem?_getD, List.getElem?_append_left hlt,
        ← List.getD_eq_getElem?_getD]
  | .not e, h => paramsFit_append more (e := e) h
  | .and _ _, ⟨hl, hr⟩ => and_congr (paramsFit_append more hl) (paramsFit_append more hr)
  | .or _ _, ⟨hl, hr⟩ => and_congr (paramsFit_append more hl) (paramsFit_append more hr)
  | .paren e, h => paramsFit_append more (e := e) h
  | .coalesce _ _, ⟨hl, hr⟩ => and_congr (paramsFit_append more hl) (paramsFit_append more hr)

section Scope

variable {args : List Value} {p : Text}

theorem columnFits_path {t : Text} (ht : '\x00' ∉ t) : ColumnFits pathColumn (.text t) := by
  have htype : columnTypes.lookup pathColumn = some .text := by decide
  intro type hlookup
  rw [htype] at hlookup
  cases hlookup
  exact ht

theorem isPrefix_fits (hp : '\x00' ∉ p) :
    ParamsFit (bindPrefix args p) (isPrefix (args.length + 1)) := by
  have hparam : (bindPrefix args p).getD (args.length + 1 - 1) .null = .text p := by
    simp [bindPrefix]
  rw [isPrefix, ParamsFit, hparam]
  exact columnFits_path hp

theorem belowPrefix_fits (hp : '\x00' ∉ p) :
    ParamsFit (bindPrefix args p) (belowPrefix (args.length + 2)) := by
  have hparam : (bindPrefix args p).getD (args.length + 2 - 1) .null =
      .text (escapeLike p ++ ['/', '%']) := by
    simp [bindPrefix]
  rw [belowPrefix, ParamsFit, hparam]
  apply columnFits_path
  rw [List.mem_append, nul_mem_escapeLike]
  exact fun h => h.elim hp (by decide)

theorem standsFor_true (args : List Value) : StandsFor "TRUE".toList args (.const true) :=
  ⟨by decide, trivial, trivial⟩

/-- The prefix loop binds what fits, if no prefix has a NUL. -/
theorem scopeLoop_fits {ps conds done : List Text} {e : Expr} (h : ScopeDisj conds args done e)
    (hfits : ParamsFit args e) (hps : ∀ p ∈ ps, '\x00' ∉ p) :
    ∃ e', StandsFor (scopeLoop ps conds args).1 (scopeLoop ps conds args).2 e' ∧
      ParamsFit (scopeLoop ps conds args).2 e' := by
  induction ps generalizing conds done args e with
  | nil =>
      refine ⟨.paren e, ⟨?_, h.standsFor.layered, h.standsFor.params⟩, hfits⟩
      simp only [scopeLoop, h.standsFor.text_eq, Expr.text]
      simp
  | cons p ps ih =>
      rw [List.forall_mem_cons] at hps
      by_cases hroot : p = ['/']
      · subst hroot
        rw [scopeLoop_root]
        exact ⟨.const true, standsFor_true args, trivial⟩
      · rw [scopeLoop_cons hroot]
        have hold : ParamsFit (bindPrefix args p) e :=
          (paramsFit_append _ h.standsFor.params).mpr hfits
        exact ih (h.add hroot) ⟨⟨hold, isPrefix_fits hps.1⟩, belowPrefix_fits hps.1⟩ hps.2

theorem scopeClause_fits {ps : List Text} (args : List Value) (hps : ∀ p ∈ ps, '\x00' ∉ p) :
    ∃ e, StandsFor (scopeClause ps args).1 (scopeClause ps args).2 e ∧
      ParamsFit (scopeClause ps args).2 e := by
  cases ps with
  | nil => exact ⟨.const false, ⟨by simp [scopeClause, Expr.text], trivial, trivial⟩, trivial⟩
  | cons p ps =>
      rw [List.forall_mem_cons] at hps
      rw [scopeClause, if_neg (by simp)]
      by_cases hroot : p = ['/']
      · subst hroot
        rw [scopeLoop_root]
        exact ⟨.const true, standsFor_true args, trivial⟩
      · rw [scopeLoop_cons hroot, List.nil_append]
        exact scopeLoop_fits (scopeDisj_first args p hroot)
          ⟨isPrefix_fits hps.1, belowPrefix_fits hps.1⟩ hps.2

end Scope

/-- **What the scope binds always fits**: only the rules decide. -/
theorem bindError_searchFilter {float : Float64} (hfloat : float.ConvertsToInt64) {a : Access}
    (hprefixes : ∀ p ∈ a.prefixes, '\x00' ∉ p) {rules : List SearchRule} {filter : Text}
    {args : List Value} (h : searchFilter float a rules = .ok (filter, args)) :
    bindError filter args = none ↔ ∀ rule ∈ rules, rule.Representable := by
  have hne : rules ≠ [] := by
    rintro rfl
    cases h
  rw [searchFilter, if_neg hne] at h
  cases hbuild : buildSearchWhere float rules with
  | error e =>
      rw [hbuild] at h
      cases h
  | ok built =>
      obtain ⟨clause, bound⟩ := built
      rw [bindError_eq_none, ← argumentsFit_iff_representable hfloat hbuild]
      rw [hbuild] at h
      dsimp only at h
      split_ifs at h with hrole
      · cases h
        obtain ⟨e, he, -⟩ := buildSearchWhere_text hne hbuild
        obtain ⟨s, hs⟩ := scopeClause_text a.prefixes bound
        obtain ⟨s', hs', hfits⟩ := scopeClause_fits bound hprefixes
        have heq : s' = s :=
          Option.some.inj (hs'.parseSql_eq.symm.trans hs.standsFor.parseSql_eq)
        obtain ⟨more, hmore⟩ := hs.args_prefix
        have hsplit := paramsFit_append more he.params
        rw [hmore] at hsplit
        simp only [ArgumentsFit, (standsFor_filter he hs).parseSql_eq, he.parseSql_eq,
          Option.mem_def, Option.some.injEq, forall_eq', ParamsFit, hsplit, ← heq, hfits, and_true]
      · cases h
        rfl

/-- **When a search is answered with entries**: the rules can be read, their
values fit the columns, and the database takes their patterns. -/
theorem answersSearch_files_iff {float : Float64} (hfloat : float.ConvertsToInt64)
    {server : Server} {db : ApiDb} {a : Access} (hprefixes : ∀ p ∈ a.prefixes, '\x00' ∉ p)
    {req : SearchRequest} {ans : ReadAnswer} (h : AnswersSearch float server db a req ans) :
    (∃ files, ans = .files files) ↔ (∃ s, searchFilter float a req.rules = .ok s) ∧
      ∀ rule ∈ req.rules, rule.Representable ∧ server.patternErrorOf rule = none := by
  constructor
  · intro hfiles
    obtain ⟨files, rfl⟩ := hfiles
    obtain ⟨filter, args, hfilter, hbind, hpatterns, -⟩ := h.page
    have hfit := (bindError_searchFilter hfloat hprefixes hfilter).mp hbind
    rw [Server.patternErrors, List.filterMap_eq_nil_iff] at hpatterns
    exact ⟨⟨_, hfilter⟩, fun rule hrule => ⟨hfit rule hrule, hpatterns rule hrule⟩⟩
  · intro hok
    obtain ⟨⟨⟨filter, args⟩, hfilter⟩, hrules⟩ := hok
    have hbind := (bindError_searchFilter hfloat hprefixes hfilter).mpr fun rule hrule =>
      (hrules rule hrule).1
    have hpatterns : server.patternErrors req.rules = [] :=
      List.filterMap_eq_nil_iff.mpr fun rule hrule => (hrules rule hrule).2
    unfold AnswersSearch at h
    simp only [hfilter, hbind, hpatterns] at h
    obtain ⟨e, he, -⟩ | ⟨-, page, stats, -, -, hfiles⟩ := h
    · cases he
    · exact ⟨_, hfiles⟩

end Cuttlefish
