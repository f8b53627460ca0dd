import Cuttlefish.Search.Answers
import Cuttlefish.SearchPage

/-!
# Cuttlefish.SearchPage.Contract

The search page and the server it sends its queries to.

The fields, operators, sort keys and the limit stand in both programs, each
with defaults of its own.  `requests_understood` says that they fit: whatever
is clicked, typed and loaded, the server takes a request as it was meant, and
a value it cannot read is all it refuses one for.  What it can read may still
be too much for the database: a number that its column cannot hold, a NUL, or a
pattern that does not compile.
-/

namespace Cuttlefish.Ui.SearchPage

/-! ## what is sent -/

/-- A rule, as the server decodes it. -/
def SearchRule.sent (r : SearchRule) : Cuttlefish.SearchRule where
  field := r.field
  operator := r.operator
  value := r.value
  connector := r.connector.text
  negate := r.negate.getD false

/-- A request, as the server decodes it. -/
def SearchRequest.sent (q : SearchRequest) : Cuttlefish.SearchRequest where
  rules := q.rules.map SearchRule.sent
  sortBy := q.sortBy
  order := q.order.text
  limit := q.limit
  offset := q.offset

/-- The server can read the value of the rule. -/
def SearchRule.Readable (float : Float64) (r : SearchRule) : Prop :=
  match fieldKind r.field with
  | .text => True
  | .size => (parseHumanSize float r.value).isSome
  | .number | .timestamp | .fileType => (parseInt64 (trimSpace r.value)).isSome

/-- The server takes a request as it was meant: it replaces neither the sort
column nor the order nor the limit, and refuses the request only for a value
that it cannot read, naming its column.  What it sends to the database is
answered with entries unless a value or a pattern is none for the database. -/
structure SearchRequest.Understood (float : Float64) (a : Access) (q : SearchRequest) : Prop where
  sortCol : searchSortColumns.lookup q.sortBy = some q.sent.sortCol
  order : q.sent.descending = true ↔ q.order = .DESC
  limit : q.sent.pageLimit = q.limit
  offset : q.sent.pageOffset = 0
  accepted : (∃ s, searchFilter float a q.sent.rules = .ok s) ↔ ∀ r ∈ q.rules, r.Readable float
  refused : ∀ e, searchFilter float a q.sent.rules = .error e →
    ∃ r ∈ q.rules, ¬ r.Readable float ∧
      ∃ field, searchFields.lookup r.field = some field ∧ e = .invalidValue field.column
  answered : float.ConvertsToInt64 → (∀ p ∈ a.prefixes, '\x00' ∉ p) →
    ∀ (server : Server) (db : ApiDb) (ans : ReadAnswer), AnswersSearch float server db a q.sent ans →
      ((∃ files, ans = .files files) ↔ ∀ r ∈ q.rules,
        r.Readable float ∧ r.sent.Representable ∧ server.patternErrorOf r.sent = none)

/-! ## the controls -/

/-- The values of the type menu. -/
def fileTypes : List Text := ["1".toList, "2".toList, "3".toList, "0".toList]

/-- What the controls of a rule change. -/
inductive Control (r : SearchRule) : RulePatch → Prop
  | connector (connector : SearchConnector) : Control r { connector := some connector }
  | negate (negate : Bool) : Control r { negate := some negate }
  | operator {operator : Text} (h : operator ∈ operatorsFor r.field) :
      Control r { operator := some operator }
  | value {value : Text} (h : fieldKind r.field = .fileType → value ∈ fileTypes) :
      Control r { value := some value }

/-- The menus offer what is in their lists, and nothing else. -/
def Page.Offers (s : Page) : Page.Action → Prop
  | .edit (.updateRule index patch) =>
      ∃ r, s.builder.rules[index]? = some r ∧ Control r patch
  | .edit (.changeField _ field) => field ∈ fields.map Prod.fst
  | .edit (.setSortBy key) => key ∈ sortOptions
  | _ => True

/-! ## what the page builds -/

/-- A query of what the page knows, whatever its columns. -/
structure SavedQuery.Known (q : SavedQuery) : Prop where
  rules_ne : q.rules ≠ []
  rules : ∀ r ∈ q.rules, r.Valid
  sortBy : q.sortBy ∈ sortOptions
  limit : 1 ≤ q.limit ∧ q.limit ≤ maxLimit

theorem SavedQuery.Valid.known {q : SavedQuery} (h : q.Valid) : q.Known :=
  ⟨h.rules_ne, h.rules, h.sortBy, h.limit⟩

theorem valid_newRule (connector : SearchConnector) : (newRule connector).Valid := by
  have h : "path".toList ∈ fields.map Prod.fst ∧
      "contains".toList ∈ operatorsFor "path".toList := by decide
  exact h

theorem valid_pathRule (path : Text) : (Page.pathRule path).Valid := by
  have h : "path".toList ∈ fields.map Prod.fst ∧
      "equals".toList ∈ operatorsFor "path".toList := by decide
  exact h

/-- A control leaves a rule the page knows. -/
theorem Control.valid {r : SearchRule} {patch : RulePatch} (h : Control r patch) (hr : r.Valid) :
    (patch.apply r).Valid := by
  cases h with
  | connector c => exact hr
  | negate b => exact hr
  | operator ho => exact ⟨hr.1, ho⟩
  | value hv => exact hr

theorem forall_mem_modify {rules : List SearchRule} {index : Nat} {f : SearchRule → SearchRule}
    (h : ∀ r ∈ rules, r.Valid) (hf : ∀ r, rules[index]? = some r → (f r).Valid) :
    ∀ r ∈ rules.modify index f, r.Valid := by
  intro r hr
  obtain ⟨i, hi⟩ := List.mem_iff_getElem?.mp hr
  rw [List.getElem?_modify] at hi
  obtain ⟨r₀, hr₀, rfl⟩ := Option.map_eq_some_iff.mp hi
  by_cases hindex : index = i
  · rw [if_pos hindex]
    exact hf r₀ (hindex ▸ hr₀)
  · rw [if_neg hindex]
    exact h r₀ (List.mem_of_getElem? hr₀)

theorem eraseIdx_ne_nil {α : Type} {l : List α} (hne : l ≠ []) (hone : l.length ≠ 1) {i : Nat} :
    l.eraseIdx i ≠ [] := by
  intro hnil
  have hlength := congrArg List.length hnil
  have hpos := List.length_pos_iff.mpr hne
  rw [List.length_eraseIdx, List.length_nil] at hlength
  split at hlength <;> omega

namespace Builder

variable {js : Js} {b : Builder}

@[simp] theorem query_change (b' : Builder) : (b.change js b').query = b'.query := by
  unfold change
  split_ifs
  · rfl
  · exact query_echo js b'

theorem known_rules (h : b.query.Known) {rules : List SearchRule} (hne : rules ≠ [])
    (hrules : ∀ r ∈ rules, r.Valid) : ({ b with rules } : Builder).query.Known :=
  ⟨hne, hrules, h.sortBy, h.limit⟩

theorem known_updateRule (h : b.query.Known) {index : Nat} {patch : RulePatch}
    (hpatch : ∀ r, b.rules[index]? = some r → (patch.apply r).Valid) :
    (b.updateRule js index patch).query.Known := by
  rw [updateRule, query_echo]
  refine known_rules h (fun hnil => h.rules_ne ?_) (forall_mem_modify h.rules hpatch)
  rwa [List.modify_eq_nil_iff] at hnil

theorem known_applyColumnKeys (h : b.query.Known) (keys : List Text) :
    (b.applyColumnKeys js keys).query.Known := by
  unfold applyColumnKeys
  dsimp only
  split_ifs
  · exact h
  · rw [query_echo]
    exact ⟨h.rules_ne, h.rules, h.sortBy, h.limit⟩

/-- **One edit** keeps a query the page knows. -/
theorem known_edit (h : b.query.Known) {s : Page} (hs : s.builder = b) {e : Edit}
    (hoffers : s.Offers (.edit e)) : (b.edit js e).query.Known := by
  subst hs
  cases e with
  | updateRule index patch =>
      obtain ⟨r, hr, hcontrol⟩ := hoffers
      refine known_updateRule h fun r' hr' => ?_
      rw [hr] at hr'
      cases hr'
      exact hcontrol.valid (h.rules r (List.mem_of_getElem? hr))
  | changeField index field =>
      exact known_updateRule h fun r _ => ⟨hoffers, defaultOperator_mem field⟩
  | addRule =>
      rw [edit, addRule, query_echo]
      refine known_rules h (by simp) fun r hr => ?_
      cases List.mem_append.mp hr with
      | inl hold => exact h.rules r hold
      | inr hnew => exact List.mem_singleton.mp hnew ▸ valid_newRule .AND
  | removeRule index =>
      rw [edit, removeRule]
      split_ifs with hone
      · exact h
      · rw [query_echo]
        exact known_rules h (eraseIdx_ne_nil h.rules_ne hone) fun r hr =>
          h.rules r (List.mem_of_mem_eraseIdx hr)
  | setSortBy key =>
      rw [edit, query_change]
      exact ⟨h.rules_ne, h.rules, hoffers, h.limit⟩
  | setOrder order =>
      rw [edit, query_change]
      exact ⟨h.rules_ne, h.rules, h.sortBy, h.limit⟩
  | setLimit value =>
      rw [edit, query_change]
      refine ⟨h.rules_ne, h.rules, h.sortBy, ?_⟩
      cases hlimit : clampLimit js (some (.string value)) 1 with
      | none => exact h.limit
      | some n => exact clampLimit_bounds (by decide) hlimit
  | toggleColumn key => exact known_applyColumnKeys h _
  | toggleText =>
      rw [edit, query_echo]
      exact h
  | setQueryText text => exact h

end Builder

/-! ## what the page sends -/

/-- A request of what the page knows. -/
structure SearchRequest.Known (q : SearchRequest) : Prop where
  rules_ne : q.rules ≠ []
  rules : ∀ r ∈ q.rules, r.Valid
  sortBy : q.sortBy ∈ sortOptions
  limit : 1 ≤ q.limit ∧ q.limit ≤ maxLimit
  offset : q.offset = 0

/-- What is sent of a rule has its field and operator. -/
theorem valid_activeRules {c : Client} {rules : List SearchRule} (h : ∀ r ∈ rules, r.Valid) :
    ∀ r ∈ activeRules c rules, r.Valid := by
  intro r hr
  obtain ⟨r₀, hr₀, rfl⟩ := List.mem_map.mp hr
  have hvalid := h r₀ (List.mem_of_mem_filter hr₀)
  split_ifs
  · exact hvalid
  · exact hvalid

namespace Page

variable {c : Client} {s s' : Page} {a : Action}

/-- What is built and what was sent is known to the page. -/
structure Known (s : Page) : Prop where
  built : s.builder.query.Known
  sent : ∀ call ∈ s.searches, call.query.request.Known

theorem Known.executeSearch (h : s.Known) {q : SavedQuery} (hq : q.Known) {b : Builder}
    (hb : b.query.Known) (mounted : Bool) (now : ℚ) :
    ({ s with builder := b, mounted := mounted }.executeSearch c q now).Known := by
  unfold Page.executeSearch
  dsimp only
  split_ifs with hrules
  · exact ⟨hb, h.sent⟩
  · refine ⟨hb, fun call hcall => ?_⟩
    cases List.mem_cons.mp hcall with
    | inl hnew =>
        subst hnew
        exact ⟨hrules, valid_activeRules hq.rules, hq.sortBy, hq.limit, rfl⟩
    | inr hold => exact h.sent call hold

theorem Known.sent_answer (h : s.Known) {k : Nat} {reply : Arrived} :
    ∀ call ∈ answer k reply s.searches, call.query.request.Known := by
  intro call hcall
  cases mem_answer hcall with
  | inl hold => exact h.sent call hold
  | inr hanswered =>
      obtain ⟨call₀, hcall₀, rfl⟩ := hanswered
      exact h.sent call₀ (List.mem_of_getElem? hcall₀)

theorem Known.respond (h : s.Known) {k : Nat} {now : ℚ} {reply : Fetched (List Entry)}
    (hstep : s.respond k now reply = some s') : s'.Known := by
  obtain ⟨_, -, -, hanswer⟩ := respond_cases hstep
  obtain ⟨data, -, rfl⟩ | ⟨e, -, rfl⟩ := hanswer
  · exact ⟨h.built, h.sent_answer⟩
  · exact ⟨h.built, h.sent_answer⟩

/-- The headers that can be clicked have sort keys of the page. -/
theorem mem_sortOptions_of_headerKeys {key : Text} (h : key ∈ s.headerKeys) :
    key ∈ sortOptions := by
  have hall : ∀ c ∈ columns, ∀ key ∈ c.sortKey, key ∈ sortOptions := by
    decide
  obtain ⟨column, hcolumn, hkey⟩ := List.mem_filterMap.mp h
  exact hall column (List.mem_of_mem_filter hcolumn) key hkey

/-- **One step** of the page. -/
theorem Known.step (h : s.Known) (hoffers : s.Offers a) (hstep : step c s a = some s') :
    s'.Known := by
  obtain ⟨henabled, hact⟩ := enabled_of_step hstep
  cases a with
  | mount path now =>
      cases hact
      unfold mount
      split
      · exact ⟨h.built, h.sent⟩
      · exact ⟨h.built, h.sent⟩
      · next path _ =>
          let b : Builder := { s.builder with rules := [pathRule path] }
          have hb : b.query.Known := Builder.known_rules h.built (by simp) fun r hr =>
            List.mem_singleton.mp hr ▸ valid_pathRule path
          exact h.executeSearch hb (b := b.echo c.js) (by rwa [Builder.query_echo]) true now
  | run now =>
      cases hact
      exact h.executeSearch h.built h.built s.mounted now
  | sortByColumn key now =>
      cases hact
      have hkey : key ∈ s.headerKeys := by
        simp only [enabled, Bool.and_eq_true, decide_eq_true_eq] at henabled
        exact henabled.2
      let b : Builder := { s.builder with
        sortBy := key
        order := if s.builder.sortBy = key ∧ s.builder.order = .ASC then .DESC else .ASC }
      have hb : b.query.Known :=
        ⟨h.built.rules_ne, h.built.rules, mem_sortOptions_of_headerKeys hkey, h.built.limit⟩
      exact h.executeSearch hb (b := b.echo c.js) (by rwa [Builder.query_echo]) s.mounted now
  | enter index now =>
      cases hact
      exact h.executeSearch h.built h.built s.mounted now
  | load now =>
      cases hact
      unfold loadQueryText
      cases hparse : parseQuery c.js s.builder.queryText with
      | error e => exact ⟨h.built, h.sent⟩
      | ok q =>
          have hq := (valid_of_parseQuery hparse).1
          refine h.executeSearch hq.known (b := s.builder.load c.js q) ?_ s.mounted now
          rw [Builder.query_load hparse]
          exact ⟨hq.rules_ne, hq.rules, hq.sortBy, hq.limit⟩
  | respond k now reply => exact h.respond hact
  | edit e =>
      cases hact
      exact ⟨Builder.known_edit h.built rfl hoffers, h.sent⟩
  | select path =>
      cases hact
      exact ⟨h.built, h.sent⟩

theorem known_new (columnKeys : List Text) : ({ columnKeys } : Builder).query.Known where
  rules_ne := List.cons_ne_nil _ _
  rules r hr := List.mem_singleton.mp hr ▸ valid_newRule .AND
  sortBy := by
    change "path".toList ∈ sortOptions
    decide
  limit := by
    change 1 ≤ defaultLimit ∧ defaultLimit ≤ maxLimit
    decide

theorem known_of_reachable {columnKeys : List Text}
    (h : Reachable (step c) Offers { builder := { columnKeys } } s) : s.Known :=
  h.invariant Known ⟨known_new columnKeys, fun _ hcall => absurd hcall List.not_mem_nil⟩
    fun _ hknown hoffers hstep => hknown.step hoffers hstep

end Page

/-! ## what the server makes of it -/

section Server

variable {float : Float64} {a : Access}

/-- The fields of the page are the server's, and compare alike. -/
theorem lookup_of_mem_fields {name : Text} (h : name ∈ fields.map Prod.fst) :
    ∃ field, searchFields.lookup name = some field ∧
      (field.numeric = true ↔ fieldKind name ≠ .text) ∧
        (field.sizeHuman = true ↔ fieldKind name = .size) := by
  have hall : ∀ name ∈ fields.map Prod.fst, ∃ field ∈ searchFields.lookup name,
      (field.numeric = true ↔ fieldKind name ≠ .text) ∧
        (field.sizeHuman = true ↔ fieldKind name = .size) := by
    decide +kernel
  obtain ⟨field, hfield, hkinds⟩ := hall name h
  exact ⟨field, hfield, hkinds⟩

/-- The operators of the page are the server's for their field. -/
theorem isSome_numericOp {r : SearchRule} (h : r.Valid) (hkind : fieldKind r.field ≠ .text) :
    (numericOp r.operator).isSome := by
  have hall : ∀ name ∈ fields.map Prod.fst, fieldKind name ≠ .text →
      ∀ operator ∈ operatorsFor name, (numericOp operator).isSome := by decide +kernel
  exact hall r.field h.1 hkind r.operator h.2

theorem isSome_textOp {r : SearchRule} (h : r.Valid) (hkind : fieldKind r.field = .text) :
    (textOp r.operator r.value).isSome := by
  have hoperator := h.2
  rw [operatorsFor, hkind] at hoperator
  simp only [textOperators, List.mem_cons, List.not_mem_nil, or_false] at hoperator
  rcases hoperator with heq | heq | heq | heq | heq | heq <;> rw [heq] <;> rfl

/-- What the server reads out of the value of a number, a size, a time or a
type. -/
def parsed (float : Float64) (field : SearchField) (value : Text) : Option Int :=
  if field.sizeHuman then parseHumanSize float value else parseInt64 (trimSpace value)

theorem readable_iff {r : SearchRule} {field : SearchField} (hkind : fieldKind r.field ≠ .text)
    (hsize : field.sizeHuman = true ↔ fieldKind r.field = .size) :
    r.Readable float ↔ (parsed float field r.value).isSome := by
  unfold SearchRule.Readable parsed
  cases hk : fieldKind r.field with
  | text => exact absurd hk hkind
  | size => rw [if_pos (hsize.mpr hk)]
  | number | timestamp | fileType =>
      have hplain : ¬ field.sizeHuman = true := fun h => by
        rw [hsize, hk] at h
        cases h
      rw [if_neg hplain]

/-- **A rule the server refuses** has a value that it cannot read. -/
theorem refused_of_ruleCondition {r : SearchRule} (h : r.Valid) {args : List Sql.Value}
    {e : SearchError} (he : ruleCondition float r.sent args = .error e) :
    ¬ r.Readable float ∧
      ∃ field, searchFields.lookup r.field = some field ∧ e = .invalidValue field.column := by
  obtain ⟨field, hfield, hnumeric, hsize⟩ := lookup_of_mem_fields h.1
  have hcondition : buildCondition float field r.operator r.value args = .error e := by
    have hlookup : searchFields.lookup r.sent.field = some field := hfield
    rw [ruleCondition, hlookup] at he
    dsimp only at he
    cases hbuild : buildCondition float field r.sent.operator r.sent.value args with
    | error e' =>
        rw [hbuild] at he
        cases he
        exact hbuild
    | ok built =>
        rw [hbuild] at he
        cases he
  unfold buildCondition at hcondition
  by_cases hkind : fieldKind r.field = .text
  · obtain ⟨bound, hbound⟩ := Option.isSome_iff_exists.mp (isSome_textOp h hkind)
    rw [if_neg fun htrue => hnumeric.mp htrue hkind, hbound] at hcondition
    cases hcondition
  · obtain ⟨op, hop⟩ := Option.isSome_iff_exists.mp (isSome_numericOp h hkind)
    rw [if_pos (hnumeric.mpr hkind), hop] at hcondition
    rw [readable_iff hkind hsize, parsed]
    cases hparsed : (if field.sizeHuman then parseHumanSize float r.value
        else parseInt64 (trimSpace r.value)) with
    | none =>
        rw [hparsed] at hcondition
        cases hcondition
        exact ⟨by simp, field, hfield, rfl⟩
    | some n =>
        rw [hparsed] at hcondition
        cases hcondition

/-- A rule the server accepts has a value that it can read. -/
theorem readable_of_bound {r : SearchRule} (h : r.Valid) (hbound : (r.sent.bound float).isSome) :
    r.Readable float := by
  obtain ⟨field, hfield, hnumeric, hsize⟩ := lookup_of_mem_fields h.1
  by_cases hkind : fieldKind r.field = .text
  · rw [SearchRule.Readable, hkind]
    trivial
  · have hlookup : searchFields.lookup r.sent.field = some field := hfield
    rw [SearchRule.bound, hlookup, Option.bind_some, Option.isSome_map, boundCondition,
      if_pos (hnumeric.mpr hkind)] at hbound
    rw [readable_iff hkind hsize, parsed]
    exact Option.isSome_of_isSome_bind hbound

theorem exists_of_appendRules_error {rules : List Cuttlefish.SearchRule} {s : Text × List Sql.Value}
    {e : SearchError} (h : appendRules float rules s = .error e) :
    ∃ rule ∈ rules, ∃ args, ruleCondition float rule args = .error e := by
  induction rules generalizing s with
  | nil => cases h
  | cons rule rules ih =>
      rw [appendRules] at h
      cases hcond : ruleCondition float rule s.2 with
      | error e' =>
          rw [hcond] at h
          cases h
          exact ⟨rule, List.mem_cons_self, _, hcond⟩
      | ok built =>
          rw [hcond] at h
          obtain ⟨rule', hmem, hrefused⟩ := ih h
          exact ⟨rule', List.mem_cons_of_mem _ hmem, hrefused⟩

/-- A list is refused for one of its rules. -/
theorem exists_of_buildSearchWhere_error {rules : List Cuttlefish.SearchRule} {e : SearchError}
    (h : buildSearchWhere float rules = .error e) :
    ∃ rule ∈ rules, ∃ args, ruleCondition float rule args = .error e := by
  cases rules with
  | nil => cases h
  | cons rule rules =>
      rw [buildSearchWhere] at h
      cases hcond : ruleCondition float rule [] with
      | error e' =>
          rw [hcond] at h
          cases h
          exact ⟨rule, List.mem_cons_self, [], hcond⟩
      | ok built =>
          rw [hcond] at h
          obtain ⟨rule', hmem, hrefused⟩ := exists_of_appendRules_error h
          exact ⟨rule', List.mem_cons_of_mem _ hmem, hrefused⟩

/-- The sort keys of the page are the server's. -/
theorem lookup_of_mem_sortOptions {key : Text} (h : key ∈ sortOptions) :
    (searchSortColumns.lookup key).isSome := by
  have hall : ∀ key ∈ sortOptions, (searchSortColumns.lookup key).isSome := by decide +kernel
  exact hall key h

namespace SearchRequest.Known

variable {q : SearchRequest} (h : q.Known)
include h

theorem sent_ne : q.sent.rules ≠ [] := fun hnil => h.rules_ne (List.map_eq_nil_iff.mp hnil)

theorem searchFilter_error {e : SearchError}
    (he : searchFilter float a q.sent.rules = .error e) :
    ∃ r ∈ q.rules, ¬ r.Readable float ∧
      ∃ field, searchFields.lookup r.field = some field ∧ e = .invalidValue field.column := by
  rw [searchFilter, if_neg h.sent_ne] at he
  cases hbuild : buildSearchWhere float q.sent.rules with
  | ok built =>
      rw [hbuild] at he
      dsimp only at he
      split_ifs at he
  | error e' =>
      rw [hbuild] at he
      cases he
      obtain ⟨rule, hrule, args, hrefused⟩ := exists_of_buildSearchWhere_error hbuild
      obtain ⟨r, hr, rfl⟩ := List.mem_map.mp hrule
      exact ⟨r, hr, refused_of_ruleCondition (h.rules r hr) hrefused⟩

/-- **The rules are accepted** exactly if their values can be read. -/
theorem searchFilter_ok_iff :
    (∃ s, searchFilter float a q.sent.rules = .ok s) ↔ ∀ r ∈ q.rules, r.Readable float := by
  constructor
  · intro hok r hr
    obtain ⟨s, hs⟩ := hok
    rw [searchFilter, if_neg h.sent_ne] at hs
    cases hbuild : buildSearchWhere float q.sent.rules with
    | error e =>
        rw [hbuild] at hs
        cases hs
    | ok built =>
        exact readable_of_bound (h.rules r hr)
          (isSome_bound_of_buildSearchWhere hbuild r.sent (List.mem_map_of_mem hr))
  · intro hreadable
    cases hfilter : searchFilter float a q.sent.rules with
    | ok s => exact ⟨s, rfl⟩
    | error e =>
        obtain ⟨r, hr, hunreadable, -⟩ := h.searchFilter_error hfilter
        exact absurd (hreadable r hr) hunreadable

/-- **Entries come back** exactly if the values can be read and the database
takes them. -/
theorem answersSearch_sent_iff (hfloat : float.ConvertsToInt64)
    (hprefixes : ∀ p ∈ a.prefixes, '\x00' ∉ p) {server : Server} {db : ApiDb} {ans : ReadAnswer}
    (hans : AnswersSearch float server db a q.sent ans) :
    (∃ files, ans = .files files) ↔ ∀ r ∈ q.rules,
      r.Readable float ∧ r.sent.Representable ∧ server.patternErrorOf r.sent = none := by
  have hsent : q.sent.rules = q.rules.map SearchRule.sent := rfl
  rw [answersSearch_files_iff hfloat hprefixes hans, h.searchFilter_ok_iff, hsent,
    List.forall_mem_map, ← forall₂_and]

theorem understood (float : Float64) (a : Access) : q.Understood float a where
  sortCol := by
    obtain ⟨column, hcolumn⟩ := Option.isSome_iff_exists.mp (lookup_of_mem_sortOptions h.sortBy)
    have hsort : searchSortColumns.lookup q.sent.sortBy = some column := hcolumn
    rw [hcolumn, Cuttlefish.SearchRequest.sortCol, hsort, Option.getD_some]
  order := by
    have hsent : q.sent.order = q.order.text := rfl
    rw [Cuttlefish.SearchRequest.descending, hsent, decide_eq_true_eq]
    cases q.order <;> decide
  limit := by
    have hlimit := h.limit
    have hsent : q.sent.limit = q.limit := rfl
    rw [maxLimit] at hlimit
    rw [Cuttlefish.SearchRequest.pageLimit, searchMaxLimit, hsent, if_neg (by omega)]
  offset := by
    have hsent : q.sent.offset = 0 := h.offset
    rw [Cuttlefish.SearchRequest.pageOffset, hsent, if_neg (by decide)]
  accepted := h.searchFilter_ok_iff
  refused _ := h.searchFilter_error
  answered hfloat hprefixes _ _ _ := h.answersSearch_sent_iff hfloat hprefixes

end SearchRequest.Known

end Server

def newBuilder : Builder := { columnKeys := ["path".toList] }

def uidBuilder : Builder := newBuilder.changeField sampleJs 0 "uid".toList

def typedBuilder : Builder := uidBuilder.updateRule sampleJs 0 { value := some ['x'] }

def typedPage : Page :=
  { builder := typedBuilder, mounted := true : Page }.runSearch Page.sampleClient 0

theorem reachable_typedPage :
    Reachable (Page.step Page.sampleClient) Page.Offers { builder := newBuilder } typedPage := by
  have hmounted : Reachable (Page.step Page.sampleClient) Page.Offers { builder := newBuilder }
      { builder := newBuilder, mounted := true } := .next .init (a := .mount none 0) trivial rfl
  have huid : "uid".toList ∈ fields.map Prod.fst := by decide
  have hfield : Reachable (Page.step Page.sampleClient) Page.Offers { builder := newBuilder }
      { builder := uidBuilder, mounted := true } :=
    .next hmounted (a := .edit (.changeField 0 "uid".toList)) huid rfl
  have hkind : fieldKind "uid".toList ≠ .fileType := by decide
  have htyped : Reachable (Page.step Page.sampleClient) Page.Offers { builder := newBuilder }
      { builder := typedBuilder, mounted := true } :=
    .next hfield (a := .edit (.updateRule 0 { value := some ['x'] }))
      ⟨_, rfl, .value fun h => absurd h hkind⟩ rfl
  exact .next htyped (a := .run 0) trivial rfl

end Cuttlefish.Ui.SearchPage
