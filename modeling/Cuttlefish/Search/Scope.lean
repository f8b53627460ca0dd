import Cuttlefish.Index
import Cuttlefish.Search

/-!
# Cuttlefish.Search.Scope

Two implementations of one access rule: the prefix test of the path
endpoints (`Access.allows`, on bytes) and the scope clause of the search
(SQL, on the rendered path).

* `scopeClause_text` — the clause is an expression, and on a rendered path it
  says what `CoveredBy` says of the encoded one, whatever the prefixes
  contain.
* `searchFilter_scoped` — the filter of a restricted user selects the rows
  the user's own clause selects and `allows` lets through.
* `scopeClause_agrees_iff` — where the rendering is lossy, the two agree on a
  file exactly if no substitution turned a path above it into a prefix.
-/

namespace Cuttlefish

open Sql

/-! ## the prefix test -/

/-- Coverage of an encoded path, said of the texts. -/
theorem scanRootCovers_utf8_iff {p t : Text} (habs : [slash] <+: utf8 t) :
    scanRootCovers (utf8 p) (utf8 t) ↔ p = ['/'] ∨ t = p ∨ p ++ ['/'] <+: t := by
  have hslash : [slash] = utf8 ['/'] := by decide
  simp only [scanRootCovers, scanRootPrefix, hslash, utf8_inj, ← utf8_append]
  split_ifs with hroot
  · rw [hslash, ← hroot] at habs
    exact iff_of_true (Or.inr habs) (Or.inl hroot)
  · rw [utf8_prefix_utf8]
    simp [hroot]

/-! ## the clause -/

/-- The column the clause is about. -/
def pathColumn : Text := "f.path".toList

theorem valid_pathColumn : (Operand.column pathColumn).Valid := by decide +kernel

/-- `f.path = $n`. -/
def isPrefix (n : Nat) : Expr := .cmp (.column pathColumn) .eq (.param n)

/-- `f.path LIKE $n`. -/
def belowPrefix (n : Nat) : Expr := .cmp (.column pathColumn) .like (.param n)

/-- What the prefix loop has written for the prefixes in `done`: a
disjunction, TRUE on the paths at or below one of them. -/
structure ScopeDisj (conds : List Text) (args : List Value) (done : List Text) (e : Expr) :
    Prop where
  ne_nil : conds ≠ []
  no_root : ∀ p ∈ done, p ≠ ['/']
  standsFor : StandsFor (" OR ".toList.intercalate conds) args e
  eval : ∀ env t, env.args = args → env.column pathColumn = .text t →
    (e.eval env = some true ↔ ∃ p ∈ done, t = p ∨ p ++ ['/'] <+: t)

section Prefix

variable (args : List Value) (p : Text)

/-- What one prefix adds to the arguments. -/
def bindPrefix : List Value := args ++ [.text p, .text (escapeLike p ++ ['/', '%'])]

theorem isPrefix_eval {env : Env} {t : Text} (hargs : env.args = bindPrefix args p)
    (ht : env.column pathColumn = .text t) :
    (isPrefix (args.length + 1)).eval env = some true ↔ t = p := by
  have hparam : (Operand.param (args.length + 1)).eval env = .text p := by
    simp [Operand.eval, hargs, bindPrefix]
  rw [isPrefix, Expr.eval, hparam, Operand.eval, ht]
  simp [CmpOp.apply]

theorem belowPrefix_eval {env : Env} {t : Text} (hargs : env.args = bindPrefix args p)
    (ht : env.column pathColumn = .text t) :
    (belowPrefix (args.length + 2)).eval env = some true ↔ p ++ ['/'] <+: t := by
  have hparam : (Operand.param (args.length + 2)).eval env =
      .text (escapeLike p ++ ['/', '%']) := by
    simp [Operand.eval, hargs, bindPrefix]
  have hlike : like t (escapeLike p ++ ['/', '%']) = some (decide (p ++ ['/'] <+: t)) := by
    rw [← like_escapeLike_prefix p t ['/'] (by decide), List.append_assoc]
    rfl
  rw [belowPrefix, Expr.eval, hparam, Operand.eval, ht, CmpOp.apply, hlike]
  simp

theorem scopeCond_text (n m : Nat) :
    scopeCond n m = (Expr.or (isPrefix n) (belowPrefix m)).text := by
  unfold scopeCond
  simp only [isPrefix, belowPrefix, pathColumn, Expr.text, Operand.text, CmpOp.text,
    String.reduceToList, List.append_assoc, List.cons_append, List.nil_append]

/-- The first prefix starts the disjunction. -/
theorem scopeDisj_first (hp : p ≠ ['/']) : ScopeDisj [scopeCond (args.length + 1) (args.length + 2)]
    (bindPrefix args p) [p]
    (.or (isPrefix (args.length + 1)) (belowPrefix (args.length + 2))) where
  ne_nil := by simp
  no_root := by simpa using hp
  standsFor :=
    { text_eq := by rw [List.intercalate_singleton, scopeCond_text]
      layered := ⟨trivial, ⟨valid_pathColumn, valid_param _⟩, valid_pathColumn, valid_param _⟩
      params := by simp [isPrefix, belowPrefix, Expr.ParamsLe, Operand.ParamsLe, bindPrefix] }
  eval env t hargs ht := by
    rw [Expr.eval, Truth.or_eq_true, isPrefix_eval args p hargs ht,
      belowPrefix_eval args p hargs ht]
    simp

variable {args p}

/-- Every further prefix adds two disjuncts. -/
theorem ScopeDisj.add {conds done : List Text} {e : Expr} (h : ScopeDisj conds args done e)
    (hp : p ≠ ['/']) :
    ScopeDisj (conds ++ [scopeCond (args.length + 1) (args.length + 2)]) (bindPrefix args p)
      (done ++ [p])
      (.or (.or e (isPrefix (args.length + 1))) (belowPrefix (args.length + 2))) where
  ne_nil := by simp
  no_root := by simpa [or_imp, forall_and, hp] using h.no_root
  standsFor :=
    { text_eq := by
        rw [intercalate_concat _ h.ne_nil, scopeCond_text, h.standsFor.text_eq]
        simp only [Expr.text, String.reduceToList, List.append_assoc, List.cons_append,
          List.nil_append]
      layered := ⟨trivial, ⟨trivial, h.standsFor.layered, valid_pathColumn, valid_param _⟩,
        valid_pathColumn, valid_param _⟩
      params := by
        refine ⟨⟨h.standsFor.params.mono (by simp [bindPrefix]), ?_⟩, ?_⟩ <;>
          simp [isPrefix, belowPrefix, Expr.ParamsLe, Operand.ParamsLe, bindPrefix] }
  eval env t hargs ht := by
    -- the disjunction so far does not see the new arguments
    have hold : e.eval env = some true ↔ ∃ q ∈ done, t = q ∨ q ++ ['/'] <+: t := by
      have happend := Expr.eval_append { env with args := args }
        [.text p, .text (escapeLike p ++ ['/', '%'])] h.standsFor.params
      rw [show env = { env with args := bindPrefix args p } by rw [← hargs], bindPrefix, happend]
      exact h.eval _ t rfl ht
    rw [Expr.eval, Expr.eval, Truth.or_eq_true, Truth.or_eq_true, hold,
      isPrefix_eval args p hargs ht, belowPrefix_eval args p hargs ht, or_assoc]
    simp [or_and_right, exists_or]

end Prefix

/-- What a scope clause is: an expression that is TRUE on the paths at or
below one of the prefixes, with more arguments than there were.  Absolute or
not, the path is all it looks at. -/
structure Scopes (clause : Text) (args args' : List Value) (prefixes : List Text) (e : Expr) :
    Prop where
  standsFor : StandsFor clause args' e
  factor : e.IsFactor
  args_prefix : args <+: args'
  eval : ∀ env t, env.args = args' → env.column pathColumn = .text t → [slash] <+: utf8 t →
    (e.eval env = some true ↔ CoveredBy (prefixes.map utf8) (utf8 t))
  reads : ∃ accepted : Text → Prop, ∀ env t, env.args = args' → env.column pathColumn = .text t →
    (e.eval env = some true ↔ accepted t)

/-- Coverage by texts, on an encoded absolute path. -/
theorem coveredBy_utf8_iff {ps : List Text} {t : Text} (habs : [slash] <+: utf8 t) :
    CoveredBy (ps.map utf8) (utf8 t) ↔ ∃ p ∈ ps, p = ['/'] ∨ t = p ∨ p ++ ['/'] <+: t := by
  simp only [CoveredBy, List.mem_map, exists_exists_and_eq_and, scanRootCovers_utf8_iff habs]

/-- One round of the prefix loop. -/
theorem scopeLoop_cons {p : Text} (hp : p ≠ ['/']) (ps conds : List Text) (args : List Value) :
    scopeLoop (p :: ps) conds args =
      scopeLoop ps (conds ++ [scopeCond (args.length + 1) (args.length + 2)])
        (bindPrefix args p) := by
  rw [scopeLoop, if_neg hp]
  simp [bindPrefix]

theorem scopeLoop_root (ps conds : List Text) (args : List Value) :
    scopeLoop (['/'] :: ps) conds args = ("TRUE".toList, args) := by
  rw [scopeLoop, if_pos rfl]

/-- The clause of a prefix list with `/` in it. -/
theorem scopes_true {ps : List Text} {args args' : List Value} (hroot : ['/'] ∈ ps)
    (hargs : args <+: args') : Scopes "TRUE".toList args args' ps (.const true) where
  standsFor := ⟨by decide, trivial, trivial⟩
  factor := trivial
  args_prefix := hargs
  eval env t _ _ habs := by
    rw [coveredBy_utf8_iff habs]
    exact iff_of_true rfl ⟨['/'], hroot, Or.inl rfl⟩
  reads := ⟨fun _ => True, fun _ _ _ _ => iff_of_true rfl trivial⟩

/-- The prefix loop, once it has written something. -/
theorem scopeLoop_text {ps conds done : List Text} {args args₀ : List Value} {e : Expr}
    (h : ScopeDisj conds args done e) (hargs : args₀ <+: args) :
    ∃ e', Scopes (scopeLoop ps conds args).1 args₀ (scopeLoop ps conds args).2 (done ++ ps) e' := by
  induction ps generalizing conds done args e with
  | nil =>
      refine ⟨.paren e, ⟨?_, h.standsFor.layered, h.standsFor.params⟩, trivial, hargs, ?_,
        _, h.eval⟩
      · simp only [scopeLoop, h.standsFor.text_eq, Expr.text]
        simp
      · intro env t hargs ht habs
        rw [coveredBy_utf8_iff habs, Expr.eval, h.eval env t hargs ht, List.append_nil]
        refine exists_congr fun p => and_congr_right fun hp => ?_
        rw [or_iff_right (h.no_root p hp)]
  | cons p ps ih =>
      by_cases hroot : p = ['/']
      · subst hroot
        rw [scopeLoop_root]
        exact ⟨_, scopes_true (by simp) hargs⟩
      · rw [scopeLoop_cons hroot, List.append_cons done]
        exact ih (h.add hroot) (hargs.trans (List.prefix_append _ _))

/-- **The scope clause** is TRUE exactly on the paths the prefixes cover, for
any prefixes and whatever was bound before. -/
theorem scopeClause_text (ps : List Text) (args : List Value) :
    ∃ e, Scopes (scopeClause ps args).1 args (scopeClause ps args).2 ps e := by
  cases ps with
  | nil =>
      refine ⟨.const false, ⟨?_, trivial, trivial⟩, trivial, List.prefix_rfl, ?_,
        fun _ => False, fun _ _ _ _ => by simp [Expr.eval]⟩
      · simp [scopeClause, Expr.text]
      · intro env t _ _ _
        simp [Expr.eval, CoveredBy]
  | cons p ps =>
      rw [scopeClause, if_neg (by simp)]
      by_cases hroot : p = ['/']
      · subst hroot
        rw [scopeLoop_root]
        exact ⟨_, scopes_true (by simp) List.prefix_rfl⟩
      · rw [scopeLoop_cons hroot, List.nil_append]
        exact scopeLoop_text (scopeDisj_first args p hroot) (List.prefix_append _ _)

/-! ## the filter -/

/-- A row of the search: the columns of the index row, and those of the
tables joined to it. -/
def searchRow (r : IndexRow) (joined : Text → Value) (name : Text) : Value :=
  if name = pathColumn then .text r.path
  else if name = "f.uid".toList then .int r.uid
  else if name = "f.gid".toList then .int r.gid
  else if name = "f.file_type".toList then .int r.fileType
  else if name = "f.size_bytes".toList then .int r.sizeBytes
  else if name = "f.mtime".toList then .int r.mtime
  else if name = "f.atime".toList then .int r.atime
  else if name = "f.ctime".toList then .int r.ctime
  else joined name

/-- WHERE keeps the rows its clause is TRUE on. -/
def selects (m : Matchers) (row : Text → Value) (clause : Text) (args : List Value) : Bool :=
  (parseSql clause).bind (fun e => e.eval ⟨m, row, args⟩) = some true

theorem StandsFor.parseSql_eq {clause : Text} {args : List Value} {e : Expr}
    (h : StandsFor clause args e) : parseSql clause = some e := by
  rw [h.text_eq, parseSql_text h.layered]

theorem StandsFor.selects_iff {clause : Text} {args : List Value} {e : Expr}
    (h : StandsFor clause args e) (m : Matchers) (row : Text → Value) :
    selects m row clause args = true ↔ e.eval ⟨m, row, args⟩ = some true := by
  rw [selects, h.parseSql_eq, Option.bind_some, decide_eq_true_eq]

/-- The user's clause and the scope, joined. -/
theorem standsFor_filter {clause scope : Text} {args args' : List Value} {ps : List Text}
    {e s : Expr} (he : StandsFor clause args e) (hs : Scopes scope args args' ps s) :
    StandsFor ("(".toList ++ clause ++ ") AND ".toList ++ scope) args' (.and (.paren e) s) where
  text_eq := by
    simp only [he.text_eq, hs.standsFor.text_eq, Expr.text, String.reduceToList, List.append_assoc,
      List.cons_append, List.nil_append]
  layered := ⟨trivial, hs.factor, he.layered, hs.standsFor.layered⟩
  params := ⟨he.params.mono hs.args_prefix.length_le, hs.standsFor.params⟩

/-- **Search respects the prefixes**: on every row, whatever the rules and
the prefixes, the filter of a restricted user selects what the user's own
clause selects and `allows` lets through. -/
theorem searchFilter_scoped {float : Float64} {a : Access} {rules : List SearchRule}
    {clause : Text} {args : List Value} (hrole : a.role = .restricted) (hne : rules ≠ [])
    (h : buildSearchWhere float rules = .ok (clause, args)) :
    ∃ filter args', searchFilter float a rules = .ok (filter, args') ∧
      (parseSql clause).isSome ∧ (parseSql filter).isSome ∧
      ∀ m r joined, Canonical (utf8 r.path) →
        (selects m (searchRow r joined) filter args' = true ↔
          selects m (searchRow r joined) clause args = true ∧ a.allows (utf8 r.path) = true) := by
  obtain ⟨e, he, -⟩ := buildSearchWhere_text hne h
  obtain ⟨s, hs⟩ := scopeClause_text a.prefixes args
  have hfilter := standsFor_filter he hs
  have hparsed : (parseSql clause).isSome := by rw [he.parseSql_eq, Option.isSome_some]
  refine ⟨"(".toList ++ clause ++ ") AND ".toList ++ (scopeClause a.prefixes args).1,
    (scopeClause a.prefixes args).2, ?_, hparsed, ?_, fun m r joined hr => ?_⟩
  · rw [searchFilter, if_neg hne, h]
    simp only [hrole, if_true]
  · rw [hfilter.parseSql_eq, Option.isSome_some]
  · have hscope := hs.eval ⟨m, searchRow r joined, (scopeClause a.prefixes args).2⟩ r.path rfl
      (by simp [searchRow]) hr.1
    have huser : e.eval ⟨m, searchRow r joined, (scopeClause a.prefixes args).2⟩ =
        e.eval ⟨m, searchRow r joined, args⟩ := by
      obtain ⟨more, hmore⟩ := hs.args_prefix
      rw [← hmore]
      exact Expr.eval_append ⟨m, searchRow r joined, args⟩ more he.params
    rw [hfilter.selects_iff, he.selects_iff, allows_iff_coveredBy hrole hr, Expr.eval,
      Truth.and_eq_true, Expr.eval, huser, hscope]

/-- Go's `float64` where nothing is parsed. -/
def sampleFloat : Float64 := ⟨Unit, fun _ => none, fun _ _ => 0⟩

/-- Alice may see `/home/a_b`. -/
def sampleAccess : Access :=
  { user := "alice".toList, role := .restricted, prefixes := ["/home/a_b".toList] }

def sampleRules : List SearchRule :=
  [⟨"path".toList, "contains".toList, "x".toList, [], false⟩,
    ⟨"user".toList, "equals".toList, "bob".toList, "or".toList, true⟩]

def sampleClause : Text := "(f.path ILIKE $1) OR (NOT COALESCE((u.name = $2), FALSE))".toList

theorem searchFilter_scoped_home :
    ∃ filter args', searchFilter sampleFloat sampleAccess sampleRules = .ok (filter, args') ∧
      (parseSql sampleClause).isSome ∧ (parseSql filter).isSome ∧
      ∀ m r joined, Canonical (utf8 r.path) →
        (selects m (searchRow r joined) filter args' = true ↔
          selects m (searchRow r joined) sampleClause [.text "%x%".toList, .text "bob".toList] =
            true ∧ sampleAccess.allows (utf8 r.path) = true) :=
  searchFilter_scoped rfl (by decide) (by decide +kernel)

/-! ## files whose path is not UTF-8 -/

theorem isPrefix_fromUtf8Lossy {b : Bytes} (habs : [slash] <+: b) :
    [slash] <+: utf8 (fromUtf8Lossy b) := by
  obtain ⟨r, rfl⟩ := habs
  have hslash : utf8 ['/'] = [slash] := by decide
  refine ⟨utf8 (fromUtf8Lossy r), ?_⟩
  rw [← hslash, fromUtf8Lossy_utf8_append, utf8_append]

/-- **A rendered path lies under a text** exactly if the path lies under
something that renders as it. -/
theorem scanRootCovers_fromUtf8Lossy_iff {p : Text} {b : Bytes} (habs : [slash] <+: b) :
    scanRootCovers (utf8 p) (utf8 (fromUtf8Lossy b)) ↔
      ∃ anc, scanRootCovers anc b ∧ fromUtf8Lossy anc = p := by
  have hascii : slash < 128 := by decide
  have hchar : String.utf8EncodeChar '/' = [slash] := by decide
  rw [scanRootCovers_utf8_iff (isPrefix_fromUtf8Lossy habs)]
  constructor
  · rintro (rfl | rfl | ⟨t, ht⟩)
    · exact ⟨[slash], Or.inr habs, by decide⟩
    · exact ⟨b, scanRootCovers_self b, rfl⟩
    · rw [List.append_assoc, List.singleton_append] at ht
      obtain ⟨b₁, b₂, rfl, rfl, -⟩ := exists_split_of_fromUtf8Lossy hascii hchar ht.symm
      refine ⟨b₁, Or.inr ?_, rfl⟩
      rw [scanRootPrefix]
      split_ifs
      · exact List.prefix_append _ _
      · exact ⟨b₂, by simp⟩
  · rintro ⟨anc, hcovers, rfl⟩
    by_cases hroot : anc = [slash]
    · subst hroot
      exact Or.inl (by decide)
    · rcases hcovers with rfl | hbelow
      · exact Or.inr (Or.inl rfl)
      · rw [scanRootPrefix, if_neg hroot] at hbelow
        obtain ⟨r, rfl⟩ := hbelow
        rw [List.append_assoc, List.singleton_append,
          fromUtf8Lossy_append_ascii hascii hchar]
        exact Or.inr (Or.inr ⟨fromUtf8Lossy r, by simp⟩)

/-- What lies above a text is a text. -/
theorem isUtf8_of_scanRootCovers {anc : Bytes} {p : Text} (h : scanRootCovers anc (utf8 p)) :
    IsUtf8 anc := by
  rcases h with heq | hbelow
  · exact ⟨p, heq⟩
  · rw [scanRootPrefix] at hbelow
    split_ifs at hbelow with hroot
    · exact ⟨['/'], by rw [hroot]; decide⟩
    · obtain ⟨r, hr⟩ := hbelow
      rw [List.append_assoc, List.singleton_append] at hr
      exact isUtf8_of_append_ascii (s := slash) (by decide) (hr ▸ isUtf8_utf8 p)

/-- The row stored for a file, as the scope clause of an access sees it. -/
def scopeAccepts (m : Matchers) (a : Access) (args : List Value) (r : IndexRow)
    (joined : Text → Value) : Bool :=
  let (scope, args) := scopeClause a.prefixes args
  selects m (searchRow r joined) scope args

theorem scopeAccepts_iff {m : Matchers} {a : Access} {args : List Value} {r : IndexRow}
    {joined : Text → Value} (habs : [slash] <+: utf8 r.path) :
    scopeAccepts m a args r joined = true ↔ CoveredBy (a.prefixes.map utf8) (utf8 r.path) := by
  obtain ⟨e, he⟩ := scopeClause_text a.prefixes args
  rw [scopeAccepts, he.standsFor.selects_iff]
  exact he.eval _ r.path rfl (by simp [searchRow]) habs

/-- A path above the file that is not UTF-8 and renders as a prefix, without
lying under any prefix itself. -/
def RendersInto (prefixes : List Text) (b anc : Bytes) : Prop :=
  scanRootCovers anc b ∧ ¬ IsUtf8 anc ∧ fromUtf8Lossy anc ∈ prefixes ∧
    ¬ CoveredBy (prefixes.map utf8) anc

/-- **Search and the path endpoints agree on a file** exactly if nothing at
or above its path renders into a prefix. -/
theorem scopeClause_agrees_iff (d : Digest) (md : Metadata) (m : Matchers) (args : List Value)
    (joined : Text → Value) {a : Access} (hrole : a.role = .restricted) {b : Bytes}
    (hb : Canonical b) :
    (scopeAccepts m a args (fileRecord d b md).toRow joined = true ↔ a.allows b = true) ↔
      ∀ anc, ¬ RendersInto a.prefixes b anc := by
  have hscope : scopeAccepts m a args (fileRecord d b md).toRow joined = true ↔
      ∃ anc, scanRootCovers anc b ∧ fromUtf8Lossy anc ∈ a.prefixes := by
    rw [scopeAccepts_iff (isPrefix_fromUtf8Lossy hb.1)]
    simp only [CoveredBy, List.mem_map, exists_exists_and_eq_and, FileRecord.toRow, fileRecord,
      scanRootCovers_fromUtf8Lossy_iff hb.1]
    grind
  rw [hscope, allows_iff_coveredBy hrole hb]
  constructor
  · rintro hagree anc ⟨habove, hutf8, hmem, hnot⟩
    obtain ⟨_, hp, hcovers⟩ := hagree.mp ⟨anc, habove, hmem⟩
    obtain ⟨p, -, rfl⟩ := List.mem_map.mp hp
    rcases hcovers.total habove with h | h
    · exact hnot ⟨utf8 p, hp, h⟩
    · exact hutf8 (isUtf8_of_scanRootCovers h)
  · intro hnone
    constructor
    · rintro ⟨anc, habove, hmem⟩
      by_cases hutf8 : IsUtf8 anc
      · exact ⟨anc, List.mem_map.mpr ⟨_, hmem, (isUtf8_iff anc).mp hutf8⟩, habove⟩
      · by_contra hnot
        refine hnone anc ⟨habove, hutf8, hmem, ?_⟩
        rintro ⟨root, hroot, hcovers⟩
        exact hnot ⟨root, hroot, hcovers.trans habove⟩
    · rintro ⟨_, hp, hcovers⟩
      obtain ⟨p, hp, rfl⟩ := List.mem_map.mp hp
      exact ⟨utf8 p, hcovers, by rwa [fromUtf8Lossy_utf8]⟩

def sampleMatchers : Matchers := ⟨fun _ _ => false, fun _ _ => false, fun _ _ => false⟩

/-- Bob may see the directory whose name ends in a replacement character. -/
def replacementAccess : Access :=
  { user := "bob".toList, role := .restricted, prefixes := ["/a\uFFFD".toList] }

/-- A file with a broken name that renders as that directory. -/
def renderedFile : Bytes := utf8 "/a".toList ++ [0xFF]

theorem scopeClause_agrees_iff_home :
    (scopeAccepts sampleMatchers sampleAccess []
      (fileRecord sampleDigest renderedFile ⟨0, 0o100644, 0, 0, 0, 0, 0⟩).toRow (fun _ => .null) =
        true ↔ sampleAccess.allows renderedFile = true) ↔
      ∀ anc, ¬ RendersInto sampleAccess.prefixes renderedFile anc :=
  scopeClause_agrees_iff sampleDigest _ sampleMatchers [] _ rfl (by decide)

/-- Search shows the broken name to a user who may only see the directory. -/
theorem search_shows_rendered_file :
    Canonical renderedFile ∧ (∀ p ∈ replacementAccess.prefixes, Canonical (utf8 p)) ∧
      ¬ (scopeAccepts sampleMatchers replacementAccess []
        (fileRecord sampleDigest renderedFile ⟨0, 0o100644, 0, 0, 0, 0, 0⟩).toRow
        (fun _ => .null) = true ↔ replacementAccess.allows renderedFile = true) := by
  decide +kernel

end Cuttlefish
