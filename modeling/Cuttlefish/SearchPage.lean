import Cuttlefish.SearchPage.SavedQuery
import Cuttlefish.Run

/-!
# Cuttlefish.SearchPage

The search page of `fs_ui`: a builder for queries, the text they are saved as,
and the results of the last search.

An action is the use of a control, the answer to a search, or the mounting of
the page.  Searches are neither aborted nor numbered; the controls that are
inert while one runs are all that keeps them apart.  `showsLast_of_alone` says
how far that goes.
-/

namespace Cuttlefish.Ui.SearchPage

/-! ## the builder -/

/-- What the page takes from the browser. -/
structure Client where
  js : Js
  /-- `String(Math.floor(new Date(value).getTime() / 1000))`. -/
  epochText : Text → Text
  /-- The message of a `TypeError`. -/
  typeError : Text

def newRule (connector : SearchConnector) : SearchRule where
  field := "path".toList
  operator := "contains".toList
  value := []
  connector
  negate := some false

/-- The query that is being built, and the panel with its text. -/
structure Builder where
  rules : List SearchRule := [newRule .AND]
  sortBy : Text := "path".toList
  order : SortOrder := .ASC
  limit : Int := defaultLimit
  columnKeys : List Text
  showText : Bool := false
  queryText : Text := []
  textNotice : Option Text := none
  deriving DecidableEq, Repr

/-- `Partial<SearchRule>`. -/
structure RulePatch where
  field : Option Text := none
  operator : Option Text := none
  value : Option Text := none
  connector : Option SearchConnector := none
  negate : Option Bool := none
  deriving DecidableEq, Repr

def RulePatch.apply (patch : RulePatch) (r : SearchRule) : SearchRule where
  field := patch.field.getD r.field
  operator := patch.operator.getD r.operator
  value := patch.value.getD r.value
  connector := patch.connector.getD r.connector
  negate := patch.negate <|> r.negate

namespace Builder

variable (js : Js) (b : Builder)

def query : SavedQuery := ⟨b.rules, b.sortBy, b.order, b.limit, b.columnKeys⟩

/-- The effect that follows a change of the query, or the opening of the panel. -/
def echo : Builder :=
  if b.showText then { b with queryText := serializeQuery js b.query } else b

@[simp] theorem query_echo : (b.echo js).query = b.query := by
  unfold echo
  split_ifs <;> rfl

/-- A new sort, order or limit; one that is equal is no change. -/
def change (b' : Builder) : Builder := if b'.query = b.query then b' else b'.echo js

def updateRule (index : Nat) (patch : RulePatch) : Builder :=
  { b with rules := b.rules.modify index patch.apply }.echo js

def changeField (index : Nat) (field : Text) : Builder :=
  b.updateRule js index {
    field := some field
    operator := some (defaultOperator field)
    value := some (if fieldKind field = .fileType then ['2'] else []) }

def addRule : Builder := { b with rules := b.rules ++ [newRule .AND] }.echo js

def removeRule (index : Nat) : Builder :=
  if b.rules.length = 1 then b else { b with rules := b.rules.eraseIdx index }.echo js

def applyColumnKeys (keys : List Text) : Builder :=
  let ordered := (activeColumns keys).map (·.key)
  -- never leave a headerless table
  if ordered = [] then b else { b with columnKeys := ordered }.echo js

def toggleColumn (key : Text) : Builder :=
  b.applyColumnKeys js
    (if key ∈ b.columnKeys then b.columnKeys.filter (· ≠ key) else b.columnKeys ++ [key])

inductive Edit where
  | updateRule (index : Nat) (patch : RulePatch)
  | changeField (index : Nat) (field : Text)
  | addRule
  | removeRule (index : Nat)
  | setSortBy (key : Text)
  | setOrder (order : SortOrder)
  | setLimit (value : Text)
  | toggleColumn (key : Text)
  | toggleText
  | setQueryText (text : Text)
  deriving DecidableEq, Repr

def edit : Edit → Builder
  | .updateRule index patch => b.updateRule js index patch
  | .changeField index field => b.changeField js index field
  | .addRule => b.addRule js
  | .removeRule index => b.removeRule js index
  | .setSortBy key => b.change js { b with sortBy := key }
  | .setOrder order => b.change js { b with order }
  | .setLimit value =>
      -- `Number` of a text never throws
      b.change js { b with limit := (clampLimit js (some (.string value)) 1).getD b.limit }
  | .toggleColumn key => b.toggleColumn js key
  | .toggleText => { b with showText := !b.showText, textNotice := none }.echo js
  | .setQueryText text => { b with queryText := text, textNotice := none }

/-- What `loadQueryText` makes of the builder. -/
def load (q : SavedQuery) : Builder :=
  let b := { b with
    rules := q.rules
    sortBy := q.sortBy
    order := q.order
    limit := q.limit
    textNotice := some ("Loaded ".toList ++ Nat.toDigits 10 q.rules.length ++
      (if q.rules.length = 1 then " condition.".toList else " conditions.".toList)) }
  (if q.columns = [] then b else b.applyColumnKeys js q.columns).echo js

variable {js b}

/-- **What the panel shows loads as what is built.** -/
theorem parseQuery_echo (hshow : b.showText = true) (hvalid : b.query.Valid)
    (hjson : js.parse (serializeQuery js b.query) = some b.query.toJson) :
    parseQuery js (b.echo js).queryText = .ok b.query.withNegate := by
  rw [echo, if_pos hshow]
  exact parseQuery_of_valid hvalid hjson

theorem query_applyColumnKeys {keys : List Text} (hne : keys ≠ [])
    (h : keys.Sublist (columns.map ResultColumn.key)) :
    (b.applyColumnKeys js keys).query = { b.query with columns := keys } := by
  have hordered : (activeColumns keys).map (·.key) = keys := activeColumns_of_sublist h
  unfold applyColumnKeys
  rw [hordered, if_neg hne, query_echo]
  rfl

/-- A loaded query is the one that is built, with the columns there were if it
names none. -/
theorem query_load {text : Text} {q : SavedQuery} (h : parseQuery js text = .ok q) :
    (b.load js q).query =
      { q with columns := if q.columns = [] then b.columnKeys else q.columns } := by
  rw [load, query_echo]
  by_cases hcolumns : q.columns = []
  · rw [if_pos hcolumns, if_pos hcolumns]
    rfl
  · rw [if_neg hcolumns, if_neg hcolumns,
      query_applyColumnKeys hcolumns (valid_of_parseQuery h).1.columns]
    rfl

end Builder

/-! ## requests -/

structure SearchRequest where
  rules : List SearchRule
  sortBy : Text
  order : SortOrder
  limit : Int
  offset : Int := 0
  deriving DecidableEq, Repr

/-- The rules that have a value, as they are sent. -/
def activeRules (c : Client) (rules : List SearchRule) : List SearchRule :=
  (rules.filter fun r => fieldKind r.field = .fileType || trim r.value ≠ []).map fun r =>
    if fieldKind r.field = .timestamp ∧ r.value ≠ [] then { r with value := c.epochText r.value }
    else r

/-- `fsApi.search`, which differs from `listEntries` only in its request. -/
def search (reply : Fetched (List Entry)) : Except Thrown (List Entry) := listEntries reply

/-- `err.message`. -/
def messageOf : Thrown → Option Text
  | .api message _ | .error message => some message
  | .other => none

/-- A search that was sent, and when. -/
structure Begun where
  request : SearchRequest
  begunAt : ℚ
  deriving DecidableEq, Repr

/-- What came of a search, and when. -/
structure Arrived where
  data : Except Thrown (List Entry)
  arrivedAt : ℚ
  deriving DecidableEq

/-! ## the page -/

/-- The state of `SearchPage`, and the searches sent.  `refused` says that a
trigger after the last of them had no condition to search by. -/
structure Page where
  builder : Builder
  mounted : Bool := false
  results : List Entry := []
  isLoading : Bool := false
  error : Option Text := none
  hasSearched : Bool := false
  selectedPath : Option Text := none
  elapsedMs : Option ℚ := none
  startedAt : Option ℚ := none
  searches : List (Call Begun Arrived) := []
  refused : Bool := false

namespace Page

variable (c : Client) (s : Page)

def noCondition : Text := "Enter at least one condition with a value.".toList

/-- `executeSearch`, until the answer. -/
def executeSearch (q : SavedQuery) (now : ℚ) : Page :=
  let rules := activeRules c q.rules
  if rules = [] then { s with error := some noCondition, refused := true }
  else
    { s with
      isLoading := true
      error := none
      hasSearched := true
      selectedPath := none
      elapsedMs := none
      startedAt := some now
      searches := ask
        ⟨{ rules, sortBy := q.sortBy, order := q.order, limit := q.limit }, now⟩ s.searches
      refused := false }

/-- `executeSearch`, from an answer to its request. -/
def respond (k : Nat) (now : ℚ) (reply : Fetched (List Entry)) : Option Page :=
  s.searches[k]?.bind fun call =>
    if call.Outstanding then
      let s := { s with
        searches := answer k ⟨search reply, now⟩ s.searches
        isLoading := false
        startedAt := none }
      match search reply with
      | .ok data =>
          some { s with elapsedMs := some (now - call.query.begunAt), results := data }
      | .error e => some { s with error := messageOf e, results := [], refused := false }
    else none

def runSearch (now : ℚ) : Page := s.executeSearch c s.builder.query now

/-- A click on a header, which turns the order of the column it is sorted by. -/
def sortByColumn (key : Text) (now : ℚ) : Page :=
  let b : Builder := { s.builder with
    sortBy := key
    order := if s.builder.sortBy = key ∧ s.builder.order = .ASC then .DESC else .ASC }
  { s with builder := b.echo c.js }.executeSearch c b.query now

def loadQueryText (now : ℚ) : Page :=
  match parseQuery c.js s.builder.queryText with
  | .error e =>
      let notice := "Could not load: ".toList ++ e.message c.typeError
      { s with builder := { s.builder with textNotice := some notice } }
  | .ok q => { s with builder := s.builder.load c.js q }.executeSearch c q now

/-- The search for `?path=`. -/
def pathRule (path : Text) : SearchRule where
  field := "path".toList
  operator := "equals".toList
  value := path
  connector := .AND

/-- The page appears, with the path in its URL. -/
def mount (path : Option Text) (now : ℚ) : Page :=
  match path with
  | none | some [] => { s with mounted := true }
  | some path =>
      let b : Builder := { s.builder with rules := [pathRule path] }
      { s with mounted := true, builder := b.echo c.js }.executeSearch c b.query now

inductive Action where
  | mount (path : Option Text) (now : ℚ)
  /-- The Run button. -/
  | run (now : ℚ)
  /-- The header of a column. -/
  | sortByColumn (key : Text) (now : ℚ)
  /-- Enter in the value box of a rule. -/
  | enter (index : Nat) (now : ℚ)
  /-- The Load button. -/
  | load (now : ℚ)
  | respond (k : Nat) (now : ℚ) (reply : Fetched (List Entry))
  | edit (e : Builder.Edit)
  | select (path : Option Text)

/-- The sort keys of the headers that can be clicked. -/
def headerKeys : List Text := (activeColumns s.builder.columnKeys).filterMap (·.sortKey)

/-- Whether the page offers the action. -/
def enabled : Action → Bool
  | .mount .. => !s.mounted
  | .run _ => s.mounted && !s.isLoading
  | .sortByColumn key _ => s.mounted && !s.isLoading && key ∈ s.headerKeys
  | .enter index _ =>
      s.mounted && (s.builder.rules[index]?).any fun r => fieldKind r.field ≠ .fileType
  | .load _ => s.mounted && s.builder.showText
  | .respond .. | .edit _ | .select _ => s.mounted

def act : Action → Option Page
  | .mount path now => some (s.mount c path now)
  | .run now | .enter _ now => some (s.runSearch c now)
  | .sortByColumn key now => some (s.sortByColumn c key now)
  | .load now => some (s.loadQueryText c now)
  | .respond k now reply => s.respond k now reply
  | .edit e => some { s with builder := s.builder.edit c.js e }
  | .select path => some { s with selectedPath := path }

def step (s : Page) (a : Action) : Option Page :=
  if s.enabled a then s.act c a else none

/-! ## what is shown -/

/-- No search is outstanding. -/
def Settled : Prop := ∀ call ∈ s.searches, ¬ call.Outstanding

/-- The results, the error and the time of a search. -/
structure Shown where
  results : List Entry := []
  error : Option Text := none
  elapsedMs : Option ℚ := none
  deriving DecidableEq

def shown : Shown := ⟨s.results, s.error, s.elapsedMs⟩

/-- What a search comes to. -/
def outcome (begun : Begun) (arrived : Arrived) : Shown :=
  match arrived.data with
  | .ok data => { results := data, elapsedMs := some (arrived.arrivedAt - begun.begunAt) }
  | .error e => { error := messageOf e }

/-- What the last search came to, if it was answered. -/
def lastOutcome : Option Shown :=
  match s.searches with
  | [] => some {}
  | call :: _ => call.reply.map (outcome call.query)

/-- The same with the message of a refused trigger. -/
def Shown.refuse (refused : Bool) (v : Shown) : Shown :=
  if refused then { v with error := some noCondition } else v

/-- Once no search is outstanding the page shows what the last one came to, and
before that it is not idle.  If a trigger was refused since, its message stands
in place of the error. -/
def ShowsLast (refused : Bool) : Prop :=
  (s.Settled → s.lastOutcome.map (·.refuse refused) = some s.shown) ∧
    (¬ s.Settled → s.isLoading = true)

/-- The rules of a trigger. -/
def triggered : Action → Option (List SearchRule)
  | .mount path _ => (path.filter (· ≠ [])).map fun path => [pathRule path]
  | .run _ | .enter .. | .sortByColumn .. => some s.builder.rules
  | .load _ => (parseQuery c.js s.builder.queryText).toOption.map (·.rules)
  | .respond .. | .edit _ | .select _ => none

/-- Enter and Load, which are offered while a search runs. -/
def Action.isOpen : Action → Bool
  | .enter .. | .load _ => true
  | _ => false

/-- Enter and Load start no search while one is outstanding. -/
def Alone (s : Page) (a : Action) : Prop :=
  a.isOpen → ∀ rules ∈ s.triggered c a, activeRules c rules ≠ [] → s.Settled

/-- A trigger has a condition to search by. -/
def Asks (s : Page) (a : Action) : Prop :=
  ∀ rules ∈ s.triggered c a, activeRules c rules ≠ []

instance : Decidable s.Settled := inferInstanceAs (Decidable (∀ call ∈ s.searches, _))

instance (refused : Bool) : Decidable (s.ShowsLast refused) :=
  inferInstanceAs (Decidable ((_ → _ = _) ∧ (_ → _ = _)))

instance : DecidablePred (s.Alone c) := fun a =>
  inferInstanceAs (Decidable (_ → ∀ rules ∈ s.triggered c a, _ → _))

instance : DecidablePred (s.Asks c) := fun a =>
  inferInstanceAs (Decidable (∀ rules ∈ s.triggered c a, _))

/-! ## what a step does -/

section Steps

variable {c} {s} {s' : Page} {a : Action}

/-- The page with another builder and selection. -/
def withBuilder (s : Page) (b : Builder) (selected : Option Text) : Page :=
  { s with mounted := true, builder := b, selectedPath := selected }

theorem eq_withBuilder (h : s.mounted = true) : s = s.withBuilder s.builder s.selectedPath := by
  rw [withBuilder, ← h]

theorem enabled_of_step (h : step c s a = some s') : s.enabled a = true ∧ s.act c a = some s' := by
  unfold step at h
  split_ifs at h with henabled
  exact ⟨henabled, h⟩

/-- A step is a trigger, an answer, or a change of the builder or the selection
alone.  A trigger other than Enter and Load finds the page idle, or new. -/
theorem step_cases (h : step c s a = some s') :
    (∃ q b now, q.rules ∈ s.triggered c a ∧
        (a.isOpen = false → s.isLoading = false ∨ s.mounted = false) ∧
        s' = (s.withBuilder b s.selectedPath).executeSearch c q now) ∨
      (∃ k now reply, s.respond k now reply = some s') ∨
        ∃ b selected, s' = s.withBuilder b selected := by
  obtain ⟨henabled, hact⟩ := enabled_of_step h
  cases a with
  | mount path now =>
      have hnew : s.mounted = false := by simpa [enabled] using henabled
      cases hact
      cases path with
      | none => exact Or.inr (Or.inr ⟨s.builder, s.selectedPath, rfl⟩)
      | some path =>
          cases path with
          | nil => exact Or.inr (Or.inr ⟨s.builder, s.selectedPath, rfl⟩)
          | cons ch path =>
              let b : Builder := { s.builder with rules := [pathRule (ch :: path)] }
              have hrules : b.query.rules ∈ s.triggered c (.mount (some (ch :: path)) now) := rfl
              exact Or.inl ⟨b.query, b.echo c.js, now, hrules, fun _ => Or.inr hnew, rfl⟩
  | run now =>
      obtain ⟨hmounted, hidle⟩ : s.mounted = true ∧ s.isLoading = false := by
        simpa [enabled] using henabled
      cases hact
      refine Or.inl ⟨s.builder.query, s.builder, now, rfl, fun _ => Or.inl hidle, ?_⟩
      rw [← eq_withBuilder hmounted, runSearch]
  | sortByColumn key now =>
      obtain ⟨⟨hmounted, hidle⟩, -⟩ : (s.mounted = true ∧ s.isLoading = false) ∧ _ := by
        simpa [enabled] using henabled
      cases hact
      let b : Builder := { s.builder with
        sortBy := key
        order := if s.builder.sortBy = key ∧ s.builder.order = .ASC then .DESC else .ASC }
      refine Or.inl ⟨b.query, b.echo c.js, now, rfl, fun _ => Or.inl hidle, ?_⟩
      rw [withBuilder, ← hmounted]
      rfl
  | enter index now =>
      obtain ⟨hmounted, -⟩ : s.mounted = true ∧ _ := by simpa [enabled] using henabled
      cases hact
      refine Or.inl ⟨s.builder.query, s.builder, now, rfl, ?_, ?_⟩
      · simp [Action.isOpen]
      · rw [← eq_withBuilder hmounted, runSearch]
  | load now =>
      obtain ⟨hmounted, -⟩ : s.mounted = true ∧ _ := by simpa [enabled] using henabled
      cases hact
      unfold loadQueryText
      cases hparse : parseQuery c.js s.builder.queryText with
      | error e =>
          let notice := "Could not load: ".toList ++ e.message c.typeError
          refine Or.inr (Or.inr ⟨{ s.builder with textNotice := some notice }, s.selectedPath, ?_⟩)
          rw [withBuilder, ← hmounted]
      | ok q =>
          refine Or.inl ⟨q, s.builder.load c.js q, now, ?_, ?_, ?_⟩
          · simp [triggered, hparse, Except.toOption]
          · simp [Action.isOpen]
          · rw [withBuilder, ← hmounted]
  | respond k now reply => exact Or.inr (Or.inl ⟨k, now, reply, hact⟩)
  | edit e =>
      have hmounted : s.mounted = true := henabled
      cases hact
      refine Or.inr (Or.inr ⟨s.builder.edit c.js e, s.selectedPath, ?_⟩)
      rw [withBuilder, ← hmounted]
  | select path =>
      have hmounted : s.mounted = true := henabled
      cases hact
      refine Or.inr (Or.inr ⟨s.builder, path, ?_⟩)
      rw [withBuilder, ← hmounted]

/-- An answer is to an outstanding search. -/
theorem respond_cases {k : Nat} {now : ℚ} {reply : Fetched (List Entry)}
    (h : s.respond k now reply = some s') :
    ∃ call, s.searches[k]? = some call ∧ call.Outstanding ∧
      ((∃ data, search reply = .ok data ∧
          s' = { s with
            searches := answer k ⟨.ok data, now⟩ s.searches
            isLoading := false
            startedAt := none
            elapsedMs := some (now - call.query.begunAt)
            results := data }) ∨
        ∃ e, search reply = .error e ∧
          s' = { s with
            searches := answer k ⟨.error e, now⟩ s.searches
            isLoading := false
            startedAt := none
            error := messageOf e
            results := []
            refused := false }) := by
  obtain ⟨call, hcall, hreply⟩ := Option.bind_eq_some_iff.mp h
  split_ifs at hreply with hout
  refine ⟨call, hcall, hout, ?_⟩
  cases hsearch : search reply with
  | ok data =>
      rw [hsearch] at hreply
      cases hreply
      exact Or.inl ⟨data, rfl, rfl⟩
  | error e =>
      rw [hsearch] at hreply
      cases hreply
      exact Or.inr ⟨e, rfl, rfl⟩

end Steps

/-! ## the invariant -/

@[simp] theorem refuse_false (v : Shown) : v.refuse false = v := rfl

/-- A refused trigger leaves nothing of the error before. -/
theorem refuse_true_of_refuse {v : Shown} {refused : Bool} (h : s.shown = v.refuse refused) :
    ({ s.shown with error := some noCondition } : Shown) = v.refuse true := by
  rw [h]
  cases refused <;> rfl

/-- What holds in every state of a run in which searches are alone. -/
structure Invariant : Prop where
  searches : LastOnly s.searches
  loading : s.isLoading = true ↔ ¬ s.Settled
  shown : ∀ v ∈ s.lastOutcome, s.shown = v.refuse s.refused
  begun : s.lastOutcome = none →
    s.elapsedMs = none ∧ s.error = if s.refused then some noCondition else none
  new : s.mounted = false → s.searches = []

section Invariants

variable {c} {s} {s' : Page} {a : Action}

/-- The last search is answered once none is outstanding. -/
theorem Invariant.isSome_lastOutcome (h : s.Invariant) (hsettled : s.Settled) :
    s.lastOutcome.isSome := by
  have hlast := h.searches.last
  unfold lastOutcome
  cases hsearches : s.searches with
  | nil => rfl
  | cons call calls =>
      rw [hsearches] at hlast
      have hanswered : ¬ call.Outstanding := hsettled call (by simp [hsearches])
      have hreply : call.reply.isSome := by
        simpa [Call.Outstanding, hlast call rfl, Option.ne_none_iff_isSome] using hanswered
      simpa using hreply

theorem Invariant.showsLast (h : s.Invariant) : s.ShowsLast s.refused := by
  constructor
  · intro hsettled
    obtain ⟨v, hv⟩ := Option.isSome_iff_exists.mp (h.isSome_lastOutcome hsettled)
    rw [h.shown v hv, hv]
    rfl
  · exact h.loading.mpr

theorem invariant_fresh (b : Builder) : Invariant { builder := b } := by
  constructor
  · exact lastOnly_nil
  · simp [Settled]
  · simp [lastOutcome, Page.shown, Shown.refuse]
  · simp [lastOutcome]
  · exact fun _ => rfl

theorem Invariant.withBuilder (h : s.Invariant) (b : Builder) (selected : Option Text) :
    (s.withBuilder b selected).Invariant :=
  ⟨h.searches, h.loading, h.shown, h.begun, fun hnew => by cases hnew⟩

/-- A search is sent if none is outstanding, or the trigger is refused. -/
theorem Invariant.executeSearch (h : s.Invariant) {q : SavedQuery} {now : ℚ}
    (hmounted : s.mounted = true) (halone : activeRules c q.rules ≠ [] → s.Settled) :
    (s.executeSearch c q now).Invariant := by
  unfold Page.executeSearch
  by_cases hrules : activeRules c q.rules = []
  · simp only [hrules, if_true]
    constructor
    · exact h.searches
    · exact h.loading
    · exact fun v hv => refuse_true_of_refuse s (h.shown v hv)
    · exact fun hnone => ⟨(h.begun hnone).1, rfl⟩
    · exact h.new
  · simp only [hrules, if_false]
    constructor
    · exact LastOnly.ask (halone hrules) _
    · simp [Settled, ask, Call.Outstanding]
    · simp [lastOutcome, ask]
    · exact fun _ => ⟨rfl, rfl⟩
    · simp [hmounted]

/-- The answer to a search is one to the last. -/
theorem Invariant.respond {k : Nat} {now : ℚ} {reply : Fetched (List Entry)} (h : s.Invariant)
    (hstep : s.respond k now reply = some s') : s'.Invariant := by
  obtain ⟨call, hcall, hout, hanswer⟩ := respond_cases hstep
  obtain ⟨calls, hsearches, hanswered⟩ := h.searches.exists_answer hcall hout
  have hpending : s.lastOutcome = none := by
    have hreply : call.reply = none := by simpa using hout.2
    simp [lastOutcome, hsearches, hreply]
  obtain ⟨helapsed, herror⟩ := h.begun hpending
  have hmounted : s.mounted ≠ false := by
    intro hnew
    simp [h.new hnew] at hsearches
  obtain ⟨data, -, rfl⟩ | ⟨e, -, rfl⟩ := hanswer
  · constructor
    · exact h.searches.answer hcall hout _
    · simpa [Settled] using h.searches.settled_answer hcall hout ⟨.ok data, now⟩
    · simp [lastOutcome, hanswered, outcome, Page.shown, Shown.refuse, herror]
      split_ifs <;> rfl
    · simp [lastOutcome, hanswered]
    · exact fun hnew => absurd hnew hmounted
  · constructor
    · exact h.searches.answer hcall hout _
    · simpa [Settled] using h.searches.settled_answer hcall hout ⟨.error e, now⟩
    · simp [lastOutcome, hanswered, outcome, Page.shown, helapsed]
    · simp [lastOutcome, hanswered]
    · exact fun hnew => absurd hnew hmounted

/-- One step of a run in which searches are alone. -/
theorem Invariant.step (h : s.Invariant) (halone : s.Alone c a) (hstep : step c s a = some s') :
    s'.Invariant := by
  obtain ⟨q, b, now, htriggered, hidle, rfl⟩ | ⟨k, now, reply, hrespond⟩ | ⟨b, selected, rfl⟩ :=
    step_cases hstep
  · refine (h.withBuilder b s.selectedPath).executeSearch rfl fun hrules => ?_
    cases hopen : a.isOpen with
    | true => exact halone hopen q.rules htriggered hrules
    | false =>
        cases hidle hopen with
        | inl hloading =>
            by_contra hout
            simp [h.loading.mpr hout] at hloading
        | inr hnew =>
            intro call hcall
            simp [Page.withBuilder, h.new hnew] at hcall
  · exact h.respond hrespond
  · exact h.withBuilder b selected

/-- Where every trigger has a condition, none is refused. -/
theorem refused_of_asks (hrefused : s.refused = false) (hasks : s.Asks c a)
    (hstep : step c s a = some s') : s'.refused = false := by
  obtain ⟨q, b, now, htriggered, -, rfl⟩ | ⟨k, now, reply, hrespond⟩ | ⟨b, selected, rfl⟩ :=
    step_cases hstep
  · simp [executeSearch, hasks q.rules htriggered]
  · obtain ⟨call, -, -, ⟨data, -, rfl⟩ | ⟨e, -, rfl⟩⟩ := respond_cases hrespond
    · exact hrefused
    · rfl
  · exact hrefused

end Invariants

/-! ## runs -/

/-- **The last search is the one that is shown**, in every run in which Enter
and Load start none while one is outstanding.  A trigger without a condition
starts none, and leaves its message over what is shown. -/
theorem showsLast_of_alone (c : Client) (columnKeys : List Text) (s : Page) :
    (Reachable (step c) (fun s a => s.Alone c a ∧ s.Asks c a) { builder := { columnKeys } } s →
        s.ShowsLast false) ∧
      (Reachable (step c) (Alone c) { builder := { columnKeys } } s → s.ShowsLast s.refused) := by
  have hinv : ∀ {s}, Reachable (step c) (Alone c) { builder := { columnKeys } } s → s.Invariant :=
    fun h => h.invariant Invariant (invariant_fresh { columnKeys })
      fun _ hinv halone hstep => hinv.step halone hstep
  constructor
  · intro h
    have hrefused : s.refused = false := h.invariant (·.refused = false) rfl
      fun _ hrefused hmeets hstep => refused_of_asks hrefused hmeets.2 hstep
    have hshows := (hinv (h.mono fun _ _ hmeets => hmeets.1)).showsLast
    rwa [hrefused] at hshows
  · exact fun h => (hinv h).showsLast

def sampleClient : Client where
  js := sampleJs
  epochText _ := "0".toList
  typeError := "Cannot convert object to primitive value".toList

def sampleBuilder : Builder := { columnKeys := ["path".toList, "size_bytes".toList] }

/-- A search that is answered, one by the header that fails, and one that is
refused. -/
theorem showsLast_of_alone_refused :
    (∃ s : Page, (s.searches.length = 2 ∧ s.error = some "failed".toList) ∧
        s.ShowsLast false) ∧
      ∃ s : Page, (s.Settled ∧ s.elapsedMs = some 4 ∧ s.refused = true) ∧
        s.ShowsLast s.refused := by
  constructor
  · have hrun := exists_reachable (step sampleClient)
      (fun s a => s.Alone sampleClient a ∧ s.Asks sampleClient a) { builder := sampleBuilder }
      (fun s => s.searches.length = 2 ∧ s.error = some "failed".toList)
      [.mount none 0, .edit (.updateRule 0 { value := some "a".toList }), .enter 0 1,
        .respond 0 5 (.response 200 (.value [FileBrowser.sampleEntry "/a".toList])),
        .sortByColumn "path".toList 6, .respond 0 7 (.response 500 (.error "failed".toList))]
      (by decide +kernel)
    obtain ⟨s, hreached, hrest⟩ := hrun
    exact ⟨s, hrest, (showsLast_of_alone sampleClient _ s).1 hreached⟩
  · have hrun := exists_reachable (step sampleClient) (Alone sampleClient)
      { builder := sampleBuilder }
      (fun s => s.Settled ∧ s.elapsedMs = some 4 ∧ s.refused = true)
      [.mount (some "/a".toList) 1, .edit (.updateRule 0 { value := some " ".toList }), .enter 0 2,
        .respond 0 5 (.response 200 (.value [FileBrowser.sampleEntry "/a".toList]))]
      (by decide +kernel)
    obtain ⟨s, hreached, hrest⟩ := hrun
    exact ⟨s, hrest, (showsLast_of_alone sampleClient _ s).2 hreached⟩

/-- Two searches by Enter, the second answered first: the page is idle while
the first is outstanding, and then shows its results under the second query. -/
theorem older_answer_shown :
    (∃ s, Reachable (step sampleClient) (fun _ _ => True) { builder := sampleBuilder } s ∧
        ¬ s.Settled ∧ s.isLoading = false) ∧
      ∃ s, Reachable (step sampleClient) (fun _ _ => True) { builder := sampleBuilder } s ∧
        s.Settled ∧ ¬ s.ShowsLast false ∧
          s.builder.rules.map (·.value) = ["b".toList] ∧
            s.results = [FileBrowser.sampleEntry "/a".toList] := by
  constructor
  · exact exists_reachable (step sampleClient) (fun _ _ => True) { builder := sampleBuilder } _
      [.mount none 0, .edit (.updateRule 0 { value := some "a".toList }), .enter 0 1,
        .edit (.updateRule 0 { value := some "b".toList }), .enter 0 2,
        .respond 0 3 (.response 200 (.value [FileBrowser.sampleEntry "/b".toList]))]
      (by decide +kernel)
  · exact exists_reachable (step sampleClient) (fun _ _ => True) { builder := sampleBuilder } _
      [.mount none 0, .edit (.updateRule 0 { value := some "a".toList }), .enter 0 1,
        .edit (.updateRule 0 { value := some "b".toList }), .enter 0 2,
        .respond 0 3 (.response 200 (.value [FileBrowser.sampleEntry "/b".toList])),
        .respond 1 5 (.response 200 (.value [FileBrowser.sampleEntry "/a".toList]))]
      (by decide +kernel)

end Page

end Cuttlefish.Ui.SearchPage
