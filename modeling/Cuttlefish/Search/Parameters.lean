import Cuttlefish.Admin.Template
import Cuttlefish.Search.Meaning
import Cuttlefish.Search.Query
import Cuttlefish.Sql.Template
import Mathlib.Data.List.Destutter

/-!
# Cuttlefish.Search.Parameters

What the text of a search statement depends on.

`searchPieces` is the statement as it would read with all values in place:
what the rules, the prefixes and the page ask for.  `searchQuery_emits` says
that the source sends its numbered text and its values in order, so that no
value reaches the text and no placeholder another's value.

The prefix loop of the scope clause returns early at `/`, and an argument
bound before that would stay behind.  There is none, since prefixes are
absolute and sorted.
-/

namespace Cuttlefish

open Sql

/-! ## the statement with its values in place -/

/-- A comparison, its value in place. -/
def condPieces (column : Text) (op : CmpOp) (v : Value) : List (Piece Value) :=
  [.text ("(".toList ++ column ++ " ".toList ++ op.text ++ " ".toList), .value v,
    .text ")".toList]

/-- A rule, its value in place. -/
def rulePieces (float : Float64) (rule : SearchRule) : List (Piece Value) :=
  match rule.bound float with
  | none => []
  | some (column, op, v) =>
      if rule.negate then
        .text "(NOT COALESCE(".toList :: (condPieces column op v ++ [.text ", FALSE))".toList])
      else condPieces column op v

/-- A rule with its connector in front. -/
def joinedPieces (float : Float64) (rule : SearchRule) : List (Piece Value) :=
  .text (if saysOr rule.connector then " OR ".toList else " AND ".toList) :: rulePieces float rule

/-- The user's clause. -/
def clausePieces (float : Float64) : List SearchRule → List (Piece Value)
  | [] => []
  | rule :: rules => rulePieces float rule ++ rules.flatMap (joinedPieces float)

/-- One prefix: the path itself or anything below it. -/
def prefixPieces (p : Text) : List (Piece Value) :=
  [.text "f.path = ".toList, .value (.text p), .text " OR f.path LIKE ".toList,
    .value (.text (escapeLike p ++ "/%".toList))]

/-- The scope of a caller. -/
def scopePieces (prefixes : List Text) : List (Piece Value) :=
  if prefixes = [] then [.text "FALSE".toList]
  else if ['/'] ∈ prefixes then [.text "TRUE".toList]
  else
    .text "(".toList ::
      ([.text " OR ".toList].intercalate (prefixes.map prefixPieces) ++ [.text ")".toList])

/-- The WHERE clause. -/
def filterPieces (float : Float64) (a : Access) (rules : List SearchRule) : List (Piece Value) :=
  if a.role = .restricted then
    .text "(".toList ::
      (clausePieces float rules ++ (.text ") AND ".toList :: scopePieces a.prefixes))
  else clausePieces float rules

/-- The statement: what the rules, the prefixes and the page ask for. -/
def searchPieces (float : Float64) (a : Access) (req : SearchRequest) : List (Piece Value) :=
  .text req.selectText :: (filterPieces float a req.rules ++
    [.text req.orderBy, .value (.int req.pageLimit), .text " OFFSET ".toList,
      .value (.int req.pageOffset), .text "\n\t\t".toList])

/-! ## the source sends the pieces -/

/-- What a producer returned for the arguments so far: the numbered text of
the pieces, and their values appended. -/
structure Emits (args : List Value) (t : Text) (args' : List Value) (ps : List (Piece Value)) :
    Prop where
  text_eq : t = numbered (args.length + 1) ps
  args_eq : args' = args ++ boundValues ps

theorem Emits.append {args args' args'' : List Value} {t t' : Text} {ps qs : List (Piece Value)}
    (h : Emits args t args' ps) (h' : Emits args' t' args'' qs) :
    Emits args (t ++ t') args'' (ps ++ qs) where
  text_eq := by
    rw [numbered_append, ← h.text_eq, h'.text_eq, h.args_eq, List.length_append,
      Nat.add_right_comm]
  args_eq := by rw [h'.args_eq, h.args_eq, boundValues_append, List.append_assoc]

/-- A text of the source's own. -/
theorem emits_text (args : List Value) (t : Text) : Emits args t args [.text t] where
  text_eq := by simp [numbered]
  args_eq := by simp [boundValues]

/-- A placeholder. -/
theorem emits_value (args : List Value) (v : Value) :
    Emits args (placeholder (args.length + 1)) (args ++ [v]) [.value v] where
  text_eq := by simp [numbered]
  args_eq := by simp [boundValues]

theorem condText_emits (column : Text) (op : CmpOp) (args : List Value) (v : Value) :
    Emits args (condText column op (args.length + 1)) (args ++ [v]) (condPieces column op v) := by
  have hdollar : " $".toList = " ".toList ++ ['$'] := by decide
  have hpieces := (emits_text args ("(".toList ++ column ++ " ".toList ++ op.text ++
    " ".toList)).append ((emits_value args v).append (emits_text _ ")".toList))
  rw [condText, condPieces, hdollar]
  simpa only [placeholder, List.append_assoc, List.cons_append, List.nil_append] using hpieces

theorem ruleCondition_emits {float : Float64} {rule : SearchRule} {args args' : List Value}
    {cond : Text} (h : ruleCondition float rule args = .ok (cond, args')) :
    Emits args cond args' (rulePieces float rule) := by
  obtain ⟨column, op, v, hbound, rfl, rfl⟩ := ruleCondition_eq_ok.mp h
  have hcond := condText_emits column op args v
  rw [rulePieces, hbound, ruleText]
  cases rule.negate with
  | false => exact hcond
  | true =>
      have hnegated := ((emits_text args "(NOT COALESCE(".toList).append hcond).append
        (emits_text _ ", FALSE))".toList)
      exact hnegated

theorem appendRules_emits {float : Float64} {rules : List SearchRule}
    {args args' args'' : List Value} {sb clause : Text} {ps : List (Piece Value)}
    (hsb : Emits args sb args' ps)
    (h : appendRules float rules (sb, args') = .ok (clause, args'')) :
    Emits args clause args'' (ps ++ rules.flatMap (joinedPieces float)) := by
  induction rules generalizing sb args' ps with
  | nil =>
      cases h
      simpa using hsb
  | cons rule rules ih =>
      obtain ⟨cond, out, hcond, h⟩ := appendRules_cons_eq_ok h
      have hconnector : " ".toList ++ (if isOr rule.connector then "OR".toList
          else "AND".toList) ++ " ".toList =
            if saysOr rule.connector then " OR ".toList else " AND ".toList := by
        rw [isOr_eq]
        cases saysOr rule.connector <;> decide
      have hjoined := (hsb.append (emits_text args' (if saysOr rule.connector then
        " OR ".toList else " AND ".toList))).append (ruleCondition_emits hcond)
      rw [← hconnector, ← List.append_assoc, ← List.append_assoc] at hjoined
      have hrest := ih hjoined h
      rw [hconnector] at hrest
      rw [List.flatMap_cons, joinedPieces]
      simpa only [List.append_assoc, List.singleton_append] using hrest

theorem buildSearchWhere_emits {float : Float64} {rules : List SearchRule} {clause : Text}
    {args : List Value} (h : buildSearchWhere float rules = .ok (clause, args)) :
    Emits [] clause args (clausePieces float rules) := by
  cases rules with
  | nil =>
      cases h
      exact ⟨rfl, rfl⟩
  | cons rule rules =>
      obtain ⟨cond, out, hcond, h⟩ := buildSearchWhere_cons_eq_ok h
      exact appendRules_emits (ruleCondition_emits hcond) h

theorem prefix_emits (args : List Value) (p : Text) :
    Emits args (scopeCond (args.length + 1) (args.length + 2)) (bindPrefix args p)
      (prefixPieces p) := by
  have hfirst : "f.path = $".toList = "f.path = ".toList ++ ['$'] := by decide
  have hsecond : " OR f.path LIKE $".toList = " OR f.path LIKE ".toList ++ ['$'] := by decide
  have hbelow : "/%".toList = ['/', '%'] := by decide
  have hpieces := (emits_text args "f.path = ".toList).append ((emits_value args (.text p)).append
    ((emits_text _ " OR f.path LIKE ".toList).append
      (emits_value _ (.text (escapeLike p ++ "/%".toList)))))
  rw [List.length_append, List.length_singleton] at hpieces
  unfold scopeCond prefixPieces bindPrefix
  simpa only [hfirst, hsecond, hbelow, placeholder, List.append_assoc, List.cons_append,
    List.nil_append] using hpieces

/-- The prefix loop, without a `/` to stop it. -/
theorem scopeLoop_emits {ps : List Text} (hps : ['/'] ∉ ps) {args args' : List Value}
    {conds done : List Text} (hconds : conds ≠ []) (hdone : done ≠ [])
    (h : Emits args (" OR ".toList.intercalate conds) args'
      ([.text " OR ".toList].intercalate (done.map prefixPieces))) :
    Emits args (scopeLoop ps conds args').1 (scopeLoop ps conds args').2
      (.text "(".toList ::
        ([.text " OR ".toList].intercalate ((done ++ ps).map prefixPieces) ++
          [.text ")".toList])) := by
  induction ps generalizing args' conds done with
  | nil =>
      rw [scopeLoop, List.append_nil]
      exact ((emits_text args "(".toList).append h).append (emits_text args' ")".toList)
  | cons p ps ih =>
      rw [List.mem_cons, not_or] at hps
      have hnext := (h.append (emits_text args' " OR ".toList)).append (prefix_emits args' p)
      rw [scopeLoop_cons (Ne.symm hps.1), List.append_cons done]
      refine ih hps.2 (by simp) (by simp) ?_
      rw [List.map_append, List.map_singleton, intercalate_concat _ hconds,
        intercalate_concat _ (by simpa using hdone)]
      exact hnext

/-- **The scope clause**, as long as nothing stands in front of a `/`. -/
theorem scopeClause_emits {ps : List Text} (hroot : ['/'] ∈ ps → ps.head? = some ['/'])
    (args : List Value) :
    Emits args (scopeClause ps args).1 (scopeClause ps args).2 (scopePieces ps) := by
  cases ps with
  | nil => exact emits_text args "FALSE".toList
  | cons p ps =>
      rw [scopeClause, if_neg (by simp), scopePieces, if_neg (by simp)]
      by_cases hmem : ['/'] ∈ p :: ps
      · have hp : p = ['/'] := by simpa using hroot hmem
        rw [if_pos hmem, hp, scopeLoop_root]
        exact emits_text args "TRUE".toList
      · rw [if_neg hmem]
        rw [List.mem_cons, not_or] at hmem
        rw [scopeLoop_cons (Ne.symm hmem.1), List.nil_append]
        have hfirst : Emits args (" OR ".toList.intercalate
              [scopeCond (args.length + 1) (args.length + 2)]) (bindPrefix args p)
            ([.text " OR ".toList].intercalate ([p].map prefixPieces)) := by
          simpa only [List.intercalate_singleton, List.map_singleton] using prefix_emits args p
        exact scopeLoop_emits hmem.2 (by simp) (by simp) hfirst

theorem searchFilter_emits {float : Float64} {a : Access} {rules : List SearchRule}
    {filter : Text} {args : List Value}
    (hroot : ['/'] ∈ a.prefixes → a.prefixes.head? = some ['/'])
    (h : searchFilter float a rules = .ok (filter, args)) :
    Emits [] filter args (filterPieces float a rules) := by
  unfold searchFilter at h
  by_cases hne : rules = []
  · rw [if_pos hne] at h
    cases h
  · rw [if_neg hne] at h
    cases hclause : buildSearchWhere float rules with
    | error e =>
        rw [hclause] at h
        cases h
    | ok r =>
        obtain ⟨clause, args'⟩ := r
        have huser := buildSearchWhere_emits hclause
        rw [hclause] at h
        dsimp only at h
        rw [filterPieces]
        by_cases hrole : a.role = .restricted
        · have hscoped := (emits_text [] "(".toList).append (huser.append
            ((emits_text args' ") AND ".toList).append (scopeClause_emits hroot args')))
          rw [if_pos hrole] at h ⊢
          cases h
          simpa only [List.append_assoc, List.singleton_append] using hscoped
        · rw [if_neg hrole] at h ⊢
          cases h
          exact huser

/-- **The source sends the pieces**, numbered, and their values. -/
theorem searchQuery_emits {float : Float64} {a : Access} {req : SearchRequest}
    {sql : Text} {args : List Value} (hroot : ['/'] ∈ a.prefixes → a.prefixes.head? = some ['/'])
    (h : searchQuery float a req = .ok (sql, args)) :
    Emits [] sql args (searchPieces float a req) := by
  unfold searchQuery at h
  cases hfilter : searchFilter float a req.rules with
  | error e =>
      rw [hfilter] at h
      cases h
  | ok r =>
      obtain ⟨filter, args'⟩ := r
      have hwhere := searchFilter_emits hroot hfilter
      have hpage := (emits_text args' req.orderBy).append
        ((emits_value args' (.int req.pageLimit)).append ((emits_text _ " OFFSET ".toList).append
          ((emits_value _ (.int req.pageOffset)).append (emits_text _ "\n\t\t".toList))))
      have hall := (emits_text [] req.selectText).append (hwhere.append hpage)
      have hdollar : "$".toList = ['$'] := by decide
      rw [hfilter] at h
      cases h
      rw [hdollar]
      rw [List.length_append, List.length_singleton] at hall
      rw [searchPieces]
      simpa only [placeholder, List.append_assoc, List.cons_append, List.nil_append] using hall

/-! ## who asks -/

/-- An access that comes from stored grants. -/
def Resolved (a : Access) : Prop :=
  ∃ (config : AuthConfig) (lower : Text → Text) (rules : List IdentityRule) (grants : List Grant)
    (identity : IdentityTables) (user : Text) (groups : List Text),
    GrantsReachable grants ∧ a = resolveAccess config lower rules grants identity user groups

theorem Resolved.canonical {a : Access} (h : Resolved a) :
    ∀ p ∈ a.prefixes, Canonical (utf8 p) := by
  obtain ⟨config, lower, rules, grants, identity, user, groups, hgrants, rfl⟩ := h
  intro p hp
  unfold resolveAccess at hp
  split_ifs at hp with hrole
  · simp at hp
  · have hpath := (List.destutter_sublist _ _).subset hp
    rw [List.mem_insertionSort, List.mem_filter, List.mem_map] at hpath
    obtain ⟨⟨m, hm, rfl⟩, hne⟩ := hpath
    cases filledPath_of_mem_matchingGrants (canonical_of_grantsReachable hgrants) hm with
    | inl hempty => simp [hempty] at hne
    | inr hfilled => exact hfilled.canonical

theorem Resolved.absolute {a : Access} (h : Resolved a) : ∀ p ∈ a.prefixes, ['/'] <+: p :=
  fun p hp =>
    have habs : utf8 ['/'] <+: utf8 p := (h.canonical p hp).1
    utf8_prefix_utf8.mp habs

theorem Resolved.pairwise {a : Access} (h : Resolved a) : a.prefixes.Pairwise (· ≤ ·) := by
  obtain ⟨config, lower, rules, grants, identity, user, groups, -, rfl⟩ := h
  unfold resolveAccess
  split_ifs with hrole
  · exact List.Pairwise.nil
  · exact List.Pairwise.sublist (List.destutter_sublist _ _) (List.pairwise_insertionSort _ _)

/-- `/` sorts before every other absolute path. -/
theorem Resolved.head_of_root {a : Access} (h : Resolved a) (hroot : ['/'] ∈ a.prefixes) :
    a.prefixes.head? = some ['/'] := by
  have hsorted := h.pairwise
  have habs := h.absolute
  cases hps : a.prefixes with
  | nil => simp [hps] at hroot
  | cons p ps =>
      rw [hps] at hroot hsorted habs
      obtain ⟨rest, rfl⟩ := habs p List.mem_cons_self
      have hle : ['/'] ≤ ['/'] ++ rest := by
        rw [← not_lt]
        simp
      cases List.mem_cons.mp hroot with
      | inl hhead => rw [List.head?_cons, ← hhead]
      | inr htail =>
          have hge : ['/'] ++ rest ≤ ['/'] := List.rel_of_pairwise_cons hsorted htail
          rw [List.head?_cons, le_antisymm hge hle]

/-! ## no value in the text -/

theorem plain_rulePieces (float : Float64) (rule : SearchRule) :
    ∀ p ∈ rulePieces float rule, p.Plain := by
  have hcolumns : ∀ f ∈ searchFields, '$' ∉ f.2.column := by decide +kernel
  have hops : ∀ op : CmpOp, '$' ∉ op.text := by
    intro op
    cases op <;> decide
  have hopen : (Piece.text (α := Value) "(NOT COALESCE(".toList).Plain := by decide +kernel
  have hclose : (Piece.text (α := Value) ", FALSE))".toList).Plain := by decide +kernel
  unfold rulePieces
  cases hbound : rule.bound float with
  | none => simp
  | some c =>
      obtain ⟨column, op, v⟩ := c
      obtain ⟨field, hfield, hc⟩ := Option.bind_eq_some_iff.mp hbound
      obtain ⟨c, -, hcolumn⟩ := Option.map_eq_some_iff.mp hc
      cases hcolumn
      have hdollar : '$' ∉ field.column := by
        obtain ⟨before, after, hfields, -⟩ := List.lookup_eq_some_iff.mp hfield
        exact hcolumns (rule.field, field) (by simp [hfields])
      have hcond : ∀ p ∈ condPieces field.column op v, p.Plain := by
        simp [condPieces, Piece.Plain, NoDigit, hdollar, hops op]
      dsimp only
      split_ifs
      · rw [List.forall_mem_cons, List.forall_mem_append, List.forall_mem_singleton]
        exact ⟨hopen, hcond, hclose⟩
      · exact hcond

theorem plain_clausePieces (float : Float64) (rules : List SearchRule) :
    ∀ p ∈ clausePieces float rules, p.Plain := by
  have hconnector : ∀ b : Bool, (Piece.text (α := Value)
      (if b then " OR ".toList else " AND ".toList)).Plain := by decide +kernel
  cases rules with
  | nil => simp [clausePieces]
  | cons rule rules =>
      rw [clausePieces, List.forall_mem_append]
      refine ⟨plain_rulePieces float rule, fun p hp => ?_⟩
      obtain ⟨rule', -, hp⟩ := List.mem_flatMap.mp hp
      cases List.mem_cons.mp hp with
      | inl hhead =>
          rw [hhead]
          exact hconnector _
      | inr hrule => exact plain_rulePieces float rule' p hrule

theorem mem_of_mem_intercalate {α : Type} {x : α} {sep : List α} {ls : List (List α)}
    (h : x ∈ sep.intercalate ls) : x ∈ sep ∨ ∃ l ∈ ls, x ∈ l := by
  induction ls with
  | nil => simp at h
  | cons l ls ih =>
      cases ls with
      | nil => exact Or.inr ⟨l, by simp, by simpa using h⟩
      | cons l' ls =>
          rw [List.intercalate_cons_cons, List.mem_append, List.mem_append] at h
          grind

theorem plain_scopePieces (prefixes : List Text) : ∀ p ∈ scopePieces prefixes, p.Plain := by
  have hsource : ∀ t ∈ ["FALSE".toList, "TRUE".toList, "(".toList, ")".toList, " OR ".toList,
      "f.path = ".toList, " OR f.path LIKE ".toList], (Piece.text (α := Value) t).Plain := by
    decide +kernel
  unfold scopePieces
  split_ifs
  · simpa using hsource "FALSE".toList (by simp)
  · simpa using hsource "TRUE".toList (by simp)
  · rw [List.forall_mem_cons, List.forall_mem_append, List.forall_mem_singleton]
    refine ⟨hsource "(".toList (by simp), fun p hp => ?_, hsource ")".toList (by simp)⟩
    cases mem_of_mem_intercalate hp with
    | inl hsep =>
        rw [List.mem_singleton.mp hsep]
        exact hsource " OR ".toList (by simp)
    | inr hin =>
        obtain ⟨ps, hps, hp⟩ := hin
        obtain ⟨q, -, rfl⟩ := List.mem_map.mp hps
        simp only [prefixPieces, List.mem_cons, List.not_mem_nil, or_false] at hp
        rcases hp with rfl | rfl | rfl | rfl
        · exact hsource "f.path = ".toList (by simp)
        · trivial
        · exact hsource " OR f.path LIKE ".toList (by simp)
        · trivial

theorem plain_orderBy (req : SearchRequest) : (Piece.text (α := Value) req.orderBy).Plain := by
  have hcolumns : ∀ c ∈ searchSortColumns, '$' ∉ c.2 := by decide +kernel
  have hcolumn : '$' ∉ req.sortCol := by
    unfold SearchRequest.sortCol
    cases hlookup : searchSortColumns.lookup req.sortBy with
    | none =>
        rw [Option.getD_none]
        decide
    | some column =>
        obtain ⟨before, after, hfields, -⟩ := List.lookup_eq_some_iff.mp hlookup
        exact hcolumns (req.sortBy, column) (by simp [hfields])
  have horder : '$' ∉ req.orderText := by
    unfold SearchRequest.orderText
    split_ifs <;> decide
  have hfirst : '$' ∉ "\n\t\t\tORDER BY ".toList ∧ '$' ∉ " ".toList ∧
      '$' ∉ "\n\t\t\tLIMIT ".toList := by decide +kernel
  have hdollar : '$' ∉ req.orderBy := by
    unfold SearchRequest.orderBy
    simp only [List.mem_append, not_or]
    exact ⟨⟨⟨⟨hfirst.1, hcolumn⟩, hfirst.2.1⟩, horder⟩, hfirst.2.2⟩
  have hdigit : NoDigit req.orderBy := by
    unfold SearchRequest.orderBy
    simp [NoDigit]
  exact ⟨hdollar, hdigit⟩

theorem plain_searchPieces (float : Float64) (a : Access) (req : SearchRequest) :
    ∀ p ∈ searchPieces float a req, p.Plain := by
  have hselect : ∀ b : Bool, (Piece.text (α := Value)
      (if b then selectWithStats else selectPlain)).Plain := by decide +kernel
  have hsource : ∀ t ∈ ["(".toList, ") AND ".toList, " OFFSET ".toList, "\n\t\t".toList],
      (Piece.text (α := Value) t).Plain := by decide +kernel
  have hfilter : ∀ p ∈ filterPieces float a req.rules, p.Plain := by
    unfold filterPieces
    split_ifs
    · rw [List.forall_mem_cons, List.forall_mem_append, List.forall_mem_cons]
      exact ⟨hsource _ (by simp), plain_clausePieces float req.rules, hsource _ (by simp),
        plain_scopePieces a.prefixes⟩
    · exact plain_clausePieces float req.rules
  have hpage : ∀ p ∈ ([.text req.orderBy, .value (.int req.pageLimit), .text " OFFSET ".toList,
      .value (.int req.pageOffset), .text "\n\t\t".toList] : List (Piece Value)), p.Plain := by
    simp only [List.forall_mem_cons]
    exact ⟨plain_orderBy req, trivial, hsource _ (by simp), trivial, hsource _ (by simp), by simp⟩
  unfold searchPieces
  rw [List.forall_mem_cons, List.forall_mem_append]
  exact ⟨hselect req.needsDirStats, hfilter, hpage⟩

/-! ## what the text depends on -/

/-- Two rules that differ in their values only, or in how the connector is
spelled. -/
structure SearchRule.Alike (r r' : SearchRule) : Prop where
  field : r.field = r'.field
  operator : r.operator = r'.operator
  connector : saysOr r.connector = saysOr r'.connector
  negate : r.negate = r'.negate

/-- Rules alike, and scopes of one length that agree on `/`. -/
structure AlikeRules (a : Access) (req : SearchRequest) (a' : Access) (req' : SearchRequest) :
    Prop where
  rules : List.Forall₂ SearchRule.Alike req.rules req'.rules
  length : a.prefixes.length = a'.prefixes.length
  root : ['/'] ∈ a.prefixes ↔ ['/'] ∈ a'.prefixes

/-- The same for callers that are both restricted or both not, and results
sorted alike. -/
structure AlikeRequests (a : Access) (req : SearchRequest) (a' : Access) (req' : SearchRequest) :
    Prop extends AlikeRules a req a' req' where
  restricted : a.role = .restricted ↔ a'.role = .restricted
  sortCol : req.sortCol = req'.sortCol
  descending : req.descending = req'.descending
  sortsByStats : "dir_".toList.isPrefixOf req.sortBy = "dir_".toList.isPrefixOf req'.sortBy

/-- The operator of a comparison does not depend on the value. -/
theorem boundCondition_op {float : Float64} {field : SearchField} {operator value value' : Text}
    {c c' : CmpOp × Value} (h : boundCondition float field operator value = some c)
    (h' : boundCondition float field operator value' = some c') : c.1 = c'.1 := by
  unfold boundCondition at h h'
  by_cases hnumeric : field.numeric = true
  · rw [if_pos hnumeric] at h h'
    obtain ⟨n, -, hn⟩ := Option.bind_eq_some_iff.mp h
    obtain ⟨op, hop, rfl⟩ := Option.map_eq_some_iff.mp hn
    obtain ⟨n', -, hn'⟩ := Option.bind_eq_some_iff.mp h'
    obtain ⟨op', hop', rfl⟩ := Option.map_eq_some_iff.mp hn'
    exact Option.some.inj (hop.symm.trans hop')
  · rw [if_neg hnumeric] at h h'
    obtain ⟨r, hr, rfl⟩ := Option.map_eq_some_iff.mp h
    obtain ⟨r', hr', rfl⟩ := Option.map_eq_some_iff.mp h'
    unfold textOp at hr hr'
    split_ifs at hr hr' <;> grind

theorem shape_rulePieces {float : Float64} {r r' : SearchRule} (halike : r.Alike r')
    (h : (r.bound float).isSome) (h' : (r'.bound float).isSome) :
    (rulePieces float r).map Piece.shape = (rulePieces float r').map Piece.shape := by
  obtain ⟨⟨column, op, v⟩, hbound⟩ := Option.isSome_iff_exists.mp h
  obtain ⟨⟨column', op', v'⟩, hbound'⟩ := Option.isSome_iff_exists.mp h'
  obtain ⟨field, hfield, hc⟩ := Option.bind_eq_some_iff.mp hbound
  obtain ⟨field', hfield', hc'⟩ := Option.bind_eq_some_iff.mp hbound'
  rw [← halike.field, hfield] at hfield'
  cases hfield'
  obtain ⟨c, hcond, hpair⟩ := Option.map_eq_some_iff.mp hc
  obtain ⟨c', hcond', hpair'⟩ := Option.map_eq_some_iff.mp hc'
  rw [← halike.operator] at hcond'
  have hop := boundCondition_op hcond hcond'
  cases hpair
  cases hpair'
  dsimp only at hop
  rw [rulePieces, hbound, rulePieces, hbound', ← halike.negate, hop]
  dsimp only
  split_ifs <;> rfl

theorem shape_clausePieces {float : Float64} {rules rules' : List SearchRule}
    (halike : List.Forall₂ SearchRule.Alike rules rules')
    (h : ∀ r ∈ rules, (r.bound float).isSome) (h' : ∀ r ∈ rules', (r.bound float).isSome) :
    (clausePieces float rules).map Piece.shape = (clausePieces float rules').map Piece.shape := by
  have hjoined : ∀ {rules rules' : List SearchRule}, List.Forall₂ SearchRule.Alike rules rules' →
      (∀ r ∈ rules, (r.bound float).isSome) → (∀ r ∈ rules', (r.bound float).isSome) →
      (rules.flatMap (joinedPieces float)).map Piece.shape =
        (rules'.flatMap (joinedPieces float)).map Piece.shape := by
    intro rules rules' halike h h'
    induction halike with
    | nil => rfl
    | cons hr _ ih =>
        rw [List.forall_mem_cons] at h h'
        simp only [List.flatMap_cons, List.map_append, joinedPieces, List.map_cons, hr.connector,
          shape_rulePieces hr h.1 h'.1, ih h.2 h'.2]
  cases halike with
  | nil => rfl
  | cons hr hrest =>
      rw [List.forall_mem_cons] at h h'
      rw [clausePieces, clausePieces, List.map_append, List.map_append,
        shape_rulePieces hr h.1 h'.1, hjoined hrest h.2 h'.2]

theorem map_intercalate {α β : Type} (f : α → β) (sep : List α) (ls : List (List α)) :
    (sep.intercalate ls).map f = (sep.map f).intercalate (ls.map (List.map f)) := by
  induction ls with
  | nil => rfl
  | cons l ls ih =>
      cases ls with
      | nil => simp
      | cons l' ls => simp_all [List.intercalate_cons_cons]

theorem shape_scopePieces {ps ps' : List Text} (hlen : ps.length = ps'.length)
    (hroot : ['/'] ∈ ps ↔ ['/'] ∈ ps') :
    (scopePieces ps).map Piece.shape = (scopePieces ps').map Piece.shape := by
  have hnil : ps = [] ↔ ps' = [] := by
    rw [← List.length_eq_zero_iff, hlen, List.length_eq_zero_iff]
  -- a prefix leaves the same shape, whatever it is
  have hshape : ∀ ps : List Text, (ps.map prefixPieces).map (List.map Piece.shape) =
      List.replicate ps.length ((prefixPieces []).map Piece.shape) := by
    intro ps
    induction ps with
    | nil => rfl
    | cons p ps ih =>
        rw [List.map_cons, List.map_cons, ih, List.length_cons, List.replicate_succ]
        rfl
  unfold scopePieces
  simp only [hnil, hroot]
  split_ifs
  · rfl
  · rfl
  · rw [List.map_cons, List.map_cons, List.map_append, List.map_append, map_intercalate,
      map_intercalate, hshape, hshape, hlen]

theorem isSome_bound_of_searchQuery {float : Float64} {a : Access} {req : SearchRequest}
    {out : Text × List Value} (h : searchQuery float a req = .ok out) :
    ∀ r ∈ req.rules, (r.bound float).isSome := by
  unfold searchQuery searchFilter at h
  cases hclause : buildSearchWhere float req.rules with
  | ok s => exact isSome_bound_of_buildSearchWhere hclause
  | error e =>
      rw [hclause] at h
      split_ifs at h

theorem shape_searchPieces {float : Float64} {a a' : Access} {req req' : SearchRequest}
    (halike : AlikeRequests a req a' req') (h : ∀ r ∈ req.rules, (r.bound float).isSome)
    (h' : ∀ r ∈ req'.rules, (r.bound float).isSome) :
    (searchPieces float a req).map Piece.shape = (searchPieces float a' req').map Piece.shape := by
  have hclause := shape_clausePieces halike.rules h h'
  have hscope := shape_scopePieces halike.length halike.root
  have hfilter : (filterPieces float a req.rules).map Piece.shape =
      (filterPieces float a' req'.rules).map Piece.shape := by
    unfold filterPieces
    simp only [halike.restricted]
    split_ifs
    · simp only [List.map_cons, List.map_append, hclause, hscope]
    · exact hclause
  have hstats : req.needsDirStats = req'.needsDirStats := by
    have hfields : req.rules.map (·.field) = req'.rules.map (·.field) :=
      List.forall₂_eq_eq_eq ▸ List.forall₂_map_left_iff.mpr
        (List.forall₂_map_right_iff.mpr (halike.rules.imp fun _ _ hr => hr.field))
    have hany : ∀ rules : List SearchRule, (rules.any fun r => "dir_".toList.isPrefixOf r.field) =
        (rules.map (·.field)).any fun f => "dir_".toList.isPrefixOf f := by
      intro rules
      rw [List.any_map]
      rfl
    simp only [SearchRequest.needsDirStats, hany, hfields, halike.sortsByStats]
  have hselect : req.selectText = req'.selectText := by
    simp only [SearchRequest.selectText, hstats]
  have horder : req.orderBy = req'.orderBy := by
    unfold SearchRequest.orderBy SearchRequest.orderText
    rw [halike.sortCol, halike.descending]
  unfold searchPieces
  simp only [List.map_cons, List.map_append, List.map_nil, hfilter, hselect, horder]
  rfl

/-- A statement that takes all its values as arguments: it is the numbered
text of the pieces, its placeholders are `$1` to `$n` in order, and the
`k`-th argument is the `k`-th value of the pieces. -/
structure Parameterized (sql : Text) (args : List Value) (ps : List (Piece Value)) : Prop where
  text_eq : sql = numbered 1 ps
  args_eq : args = boundValues ps
  placeholders_eq : placeholders sql = List.range' 1 args.length

/-- **Values stay out of the text.**  The statement is parameterized by what
the rules, the prefixes and the page ask for, and two requests that are alike
but for these send one text. -/
theorem searchQuery_parameterized {float : Float64} {a a' : Access} {req req' : SearchRequest}
    {sql sql' : Text} {args args' : List Value} (ha : Resolved a) (ha' : Resolved a')
    (h : searchQuery float a req = .ok (sql, args))
    (h' : searchQuery float a' req' = .ok (sql', args')) :
    (AlikeRequests a req a' req' → sql = sql') ∧
      Parameterized sql args (searchPieces float a req) := by
  have hsent := searchQuery_emits ha.head_of_root h
  have hsent' := searchQuery_emits ha'.head_of_root h'
  have hargs : args = boundValues (searchPieces float a req) := by simpa using hsent.args_eq
  refine ⟨fun halike => ?_, hsent.text_eq, hargs, ?_⟩
  · have hshape := shape_searchPieces halike (isSome_bound_of_searchQuery h)
      (isSome_bound_of_searchQuery h')
    rw [hsent.text_eq, hsent'.text_eq, numbered_congr hshape]
  · rw [hsent.text_eq, hargs]
    exact placeholders_numbered (plain_searchPieces float a req) 1

/-- Admins are told by a group. -/
def sampleOIDC : AuthConfig :=
  { oidc := { issuer := "https://idp.example.org".toList, adminGroups := ["admins".toList] } }

/-- What a member of `groups` may see when everybody is granted `paths`. -/
def sampleCaller (groups : List Text) (paths : List Text) : Access :=
  resolveAccess sampleOIDC id [] (paths.map fun p => ⟨.idp, grantEveryone, p⟩)
    ⟨Table.empty, Table.empty⟩ "alice".toList groups

def sampleRequest (value : Text) : SearchRequest :=
  { rules := [⟨"path".toList, "contains".toList, value, [], false⟩] }

theorem resolved_sampleCaller {groups paths : List Text}
    (h : run grantsNext (fun _ _ => True) []
      (paths.map fun p => .post ⟨[], grantEveryone, p⟩) =
        some (paths.map fun p => ⟨.idp, grantEveryone, p⟩)) :
    Resolved (sampleCaller groups paths) :=
  ⟨_, _, _, _, _, _, _, reachable_of_run .init h, rfl⟩

theorem exists_of_isOk {ε α : Type} {x : Except ε α} (h : x.isOk = true) : ∃ a, x = .ok a := by
  cases x with
  | error e => simp [Except.isOk, Except.toBool] at h
  | ok a => exact ⟨a, rfl⟩

theorem searchQuery_parameterized_alice : ∃ sql args args',
    searchQuery sampleFloat (sampleCaller [] ["/home/a_b".toList]) (sampleRequest "x".toList) =
        .ok (sql, args) ∧
      searchQuery sampleFloat (sampleCaller [] ["/srv/%".toList])
        (sampleRequest "') OR TRUE".toList) = .ok (sql, args') ∧
      args ≠ args' ∧
      Parameterized sql args (searchPieces sampleFloat (sampleCaller [] ["/home/a_b".toList])
        (sampleRequest "x".toList)) := by
  obtain ⟨⟨sql, args⟩, h⟩ := exists_of_isOk (x := searchQuery sampleFloat
    (sampleCaller [] ["/home/a_b".toList]) (sampleRequest "x".toList)) (by decide +kernel)
  obtain ⟨⟨sql', args'⟩, h'⟩ := exists_of_isOk (x := searchQuery sampleFloat
    (sampleCaller [] ["/srv/%".toList]) (sampleRequest "') OR TRUE".toList)) (by decide +kernel)
  obtain ⟨hsame, hparam⟩ := searchQuery_parameterized
    (resolved_sampleCaller (by decide)) (resolved_sampleCaller (by decide)) h h'
  have halike : AlikeRequests (sampleCaller [] ["/home/a_b".toList]) (sampleRequest "x".toList)
      (sampleCaller [] ["/srv/%".toList]) (sampleRequest "') OR TRUE".toList) :=
    { rules := .cons ⟨rfl, rfl, rfl, rfl⟩ .nil
      length := by decide
      root := by decide
      restricted := by decide
      sortCol := rfl
      descending := rfl
      sortsByStats := rfl }
  have hdiffer : (searchQuery sampleFloat (sampleCaller [] ["/home/a_b".toList])
      (sampleRequest "x".toList)).map Prod.snd ≠
        (searchQuery sampleFloat (sampleCaller [] ["/srv/%".toList])
          (sampleRequest "') OR TRUE".toList)).map Prod.snd := by decide +kernel
  have htext : sql = sql' := hsame halike
  subst htext
  refine ⟨sql, args, args', h, h', fun heq => hdiffer ?_, hparam⟩
  rw [h, h', heq]

/-- An admin and a user without grants both have no prefixes, and send
different texts. -/
theorem unrestricted_text_differs : ∃ sql sql' args args',
    Resolved (sampleCaller ["admins".toList] []) ∧ Resolved (sampleCaller [] []) ∧
      searchQuery sampleFloat (sampleCaller ["admins".toList] []) (sampleRequest "x".toList) =
        .ok (sql, args) ∧
      searchQuery sampleFloat (sampleCaller [] []) (sampleRequest "x".toList) = .ok (sql', args') ∧
      AlikeRules (sampleCaller ["admins".toList] []) (sampleRequest "x".toList)
        (sampleCaller [] []) (sampleRequest "x".toList) ∧ sql ≠ sql' := by
  obtain ⟨⟨sql, args⟩, h⟩ := exists_of_isOk (x := searchQuery sampleFloat
    (sampleCaller ["admins".toList] []) (sampleRequest "x".toList)) (by decide +kernel)
  obtain ⟨⟨sql', args'⟩, h'⟩ := exists_of_isOk (x := searchQuery sampleFloat
    (sampleCaller [] []) (sampleRequest "x".toList)) (by decide +kernel)
  have hdiffer : (searchQuery sampleFloat (sampleCaller ["admins".toList] [])
      (sampleRequest "x".toList)).map Prod.fst ≠
        (searchQuery sampleFloat (sampleCaller [] []) (sampleRequest "x".toList)).map Prod.fst := by
    decide +kernel
  refine ⟨sql, sql', args, args', resolved_sampleCaller rfl, resolved_sampleCaller rfl, h, h',
    ⟨.cons ⟨rfl, rfl, rfl, rfl⟩ .nil, by decide, by decide⟩, fun heq => hdiffer ?_⟩
  rw [h, h', heq]
  rfl

end Cuttlefish
