import Cuttlefish.Js
import Cuttlefish.SearchPage.Columns

/-!
# Cuttlefish.SearchPage.SavedQuery

A search as a text that can be saved and loaded.

`parseQuery` takes the structure as it is or not at all, and brings single
values into what the page knows.  `parseQuery_serializeQuery` says that
nothing changes for a query that is so already, which every loaded query is.
-/

namespace Cuttlefish.Ui.SearchPage

/-! ## fields and operators -/

inductive FieldKind where
  | text
  | number
  | size
  | timestamp
  | fileType
  deriving DecidableEq, Repr

def fields : List (Text × FieldKind) :=
  [("path".toList, .text), ("uid".toList, .number), ("user".toList, .text),
    ("gid".toList, .number), ("group".toList, .text), ("file_type".toList, .fileType),
    ("size_bytes".toList, .size), ("mtime".toList, .timestamp), ("atime".toList, .timestamp),
    ("ctime".toList, .timestamp), ("dir_total_size".toList, .size),
    ("dir_file_count".toList, .number), ("dir_mtime_first".toList, .timestamp),
    ("dir_mtime_last".toList, .timestamp), ("dir_atime_first".toList, .timestamp),
    ("dir_atime_last".toList, .timestamp), ("dir_ctime_first".toList, .timestamp),
    ("dir_ctime_last".toList, .timestamp)]

def textOperators : List Text :=
  ["contains".toList, "equals".toList, "starts_with".toList, "ends_with".toList, "regex".toList,
    "regex_i".toList]

def numberOperators : List Text := ["equals".toList, "gt".toList, "lt".toList]

def timestampOperators : List Text := ["gt".toList, "lt".toList, "equals".toList]

def fileTypeOperators : List Text := ["equals".toList]

/-- The sort keys. -/
def sortOptions : List Text :=
  ["path".toList, "size_bytes".toList, "uid".toList, "gid".toList, "file_type".toList,
    "mtime".toList, "atime".toList, "ctime".toList, "dir_total_size".toList,
    "dir_file_count".toList, "dir_mtime_first".toList, "dir_mtime_last".toList,
    "dir_atime_first".toList, "dir_atime_last".toList, "dir_ctime_first".toList,
    "dir_ctime_last".toList]

def maxLimit : Int := 10000

def defaultLimit : Int := 400

def fieldKind (field : Text) : FieldKind := (fields.lookup field).getD .text

def operatorsFor (field : Text) : List Text :=
  match fieldKind field with
  | .text => textOperators
  | .timestamp => timestampOperators
  | .fileType => fileTypeOperators
  | .number | .size => numberOperators

def defaultOperator (field : Text) : Text := (operatorsFor field).headD []

/-! ## queries -/

inductive SearchConnector where
  | AND
  | OR
  deriving DecidableEq, Repr

inductive SortOrder where
  | ASC
  | DESC
  deriving DecidableEq, Repr

def SearchConnector.text : SearchConnector → Text
  | .AND => "AND".toList
  | .OR => "OR".toList

def SortOrder.text : SortOrder → Text
  | .ASC => "ASC".toList
  | .DESC => "DESC".toList

structure SearchRule where
  field : Text
  operator : Text
  value : Text
  connector : SearchConnector
  negate : Option Bool := none
  deriving DecidableEq, Repr

structure SavedQuery where
  rules : List SearchRule
  sortBy : Text
  order : SortOrder
  limit : Int
  columns : List Text
  deriving DecidableEq, Repr

/-! ## writing -/

def SearchRule.toJson (r : SearchRule) : Json :=
  .object [("field".toList, .string r.field), ("operator".toList, .string r.operator),
    ("value".toList, .string r.value), ("connector".toList, .string r.connector.text),
    ("negate".toList, .bool (r.negate.getD false))]

def SavedQuery.toJson (q : SavedQuery) : Json :=
  .object [("rules".toList, .array (q.rules.map SearchRule.toJson)),
    ("sort_by".toList, .string q.sortBy), ("order".toList, .string q.order.text),
    ("limit".toList, .number (.finite q.limit)),
    ("columns".toList, .array (q.columns.map .string))]

def serializeQuery (js : Js) (q : SavedQuery) : Text := js.stringifyIndented q.toJson

/-! ## reading -/

inductive LoadError where
  | notJson
  | noRules
  | unknownField (condition : Nat) (field : Text)
  | conversion
  deriving DecidableEq, Repr

/-- The text of a thrown error; that of a `TypeError` is left to the engine. -/
def LoadError.message (engine : Text) : LoadError → Text
  | .notJson =>
      "not valid JSON — paste the full text including the outer \x7b \x7d.".toList
  | .noRules => "no \"rules\" list found.".toList
  | .unknownField i field =>
      "condition ".toList ++ Nat.toDigits 10 i ++ " has an unknown field ".toList ++ field ++
        ".".toList
  | .conversion => engine

/-- Whole numbers from 1 to `maxLimit`; anything else is the fallback. -/
def clampLimit (js : Js) (value : Option Json) (fallback : Int) : Option Int :=
  (Json.numberOf js value).map fun x =>
    match x with
    | .finite x => if ⌊x⌋ < 1 then fallback else min ⌊x⌋ maxLimit
    | .infinite _ | .nan => fallback

/-- `String(value).toUpperCase() === word`. -/
def saysWord (js : Js) (value : Option Json) (word : Text) : Option Bool :=
  (Json.textOf js value).map fun s => upperCase s = word

def orConversion {α : Type} : Option α → Except LoadError α
  | some a => .ok a
  | none => .error .conversion

/-- One of a list of words, or none. -/
def oneOf (words : List Text) (value : Option Json) : Option Text :=
  words.find? fun word => value.any (·.isText word)

def parseValue (js : Js) : Option Json → Except LoadError Text
  | some (.string s) => .ok s
  | none | some .null => .ok []
  | some value => orConversion (value.toText js)

def parseRule (js : Js) (i : Nat) (r : Json) : Except LoadError SearchRule :=
  match oneOf (fields.map Prod.fst) (r.get "field".toList) with
  | none =>
      .error (.unknownField (i + 1) (js.stringify ((r.get "field".toList).getD .null)))
  | some field => do
      let operator := (oneOf (operatorsFor field) (r.get "operator".toList)).getD
        (defaultOperator field)
      let value ← parseValue js (r.get "value".toList)
      let isOr ← orConversion (saysWord js (r.get "connector".toList) "OR".toList)
      return {
        field, operator, value
        connector := if isOr then .OR else .AND
        negate := some (Json.truthy (r.get "negate".toList)) }

/-- The rules one after the other, from the one at `i`. -/
def parseRules (js : Js) : Nat → List Json → Except LoadError (List SearchRule)
  | _, [] => .ok []
  | i, r :: rs => do
      let rule ← parseRule js i r
      let rules ← parseRules js (i + 1) rs
      return rule :: rules

/-- The columns a query names, in the order of the page. -/
def parseColumns (value : Option Json) : List Text :=
  match value.bind Json.elements? with
  | some keys => (columns.filter fun c => keys.any (·.isText c.key)).map ResultColumn.key
  | none => []

def parseQuery (js : Js) (text : Text) : Except LoadError SavedQuery :=
  match js.parse text with
  | none => .error .notJson
  | some obj =>
      match (obj.get "rules".toList).bind Json.elements? with
      | none | some [] => .error .noRules
      | some rs => do
          let rules ← parseRules js 0 rs
          let isDesc ← orConversion (saysWord js (obj.get "order".toList) "DESC".toList)
          let limit ← orConversion (clampLimit js (obj.get "limit".toList) defaultLimit)
          return {
            rules
            sortBy := (oneOf sortOptions (obj.get "sort_by".toList)).getD "path".toList
            order := if isDesc then .DESC else .ASC
            limit
            columns := parseColumns (obj.get "columns".toList) }

/-! ## what the page knows -/

/-- A field of the page and one of its operators. -/
def SearchRule.Valid (r : SearchRule) : Prop :=
  r.field ∈ fields.map Prod.fst ∧ r.operator ∈ operatorsFor r.field

structure SavedQuery.Valid (q : SavedQuery) : Prop where
  rules_ne : q.rules ≠ []
  rules : ∀ r ∈ q.rules, r.Valid
  sortBy : q.sortBy ∈ sortOptions
  limit : 1 ≤ q.limit ∧ q.limit ≤ maxLimit
  columns : q.columns.Sublist (SearchPage.columns.map ResultColumn.key)

/-- An absent `negate` is read as `false`. -/
def SearchRule.withNegate (r : SearchRule) : SearchRule :=
  { r with negate := some (r.negate.getD false) }

def SavedQuery.withNegate (q : SavedQuery) : SavedQuery :=
  { q with rules := q.rules.map SearchRule.withNegate }

section Lists

/-- The members of a sublist, in the order of the list. -/
theorem filter_mem_of_sublist {l l' : List Text} (h : l.Sublist l') (hnodup : l'.Nodup) :
    (l'.filter fun x => x ∈ l) = l := by
  induction h with
  | slnil => rfl
  | @cons l l' x h ih =>
      obtain ⟨hx, hnodup⟩ := List.nodup_cons.mp hnodup
      have hmem : x ∉ l := fun hmem => hx (h.subset hmem)
      simp [hmem, ih hnodup]
  | @cons_cons l l' x h ih =>
      obtain ⟨hx, hnodup⟩ := List.nodup_cons.mp hnodup
      have hrest : (l'.filter fun y => y ∈ x :: l) = l'.filter fun y => y ∈ l := by
        apply List.filter_congr
        intro y hy
        have hne : y ≠ x := fun heq => hx (heq ▸ hy)
        simp [hne]
      rw [List.filter_cons_of_pos (by simp), hrest, ih hnodup]

end Lists

theorem defaultOperator_mem (field : Text) : defaultOperator field ∈ operatorsFor field := by
  unfold defaultOperator operatorsFor
  cases fieldKind field <;> decide

theorem oneOf_string {words : List Text} {s : Text} (h : s ∈ words) :
    oneOf words (some (.string s)) = some s := by
  induction words with
  | nil => simp at h
  | cons word words ih =>
      rw [oneOf, List.find?_cons]
      by_cases hs : s = word
      · simp [Json.isText, hs]
      · simpa [Json.isText, hs, oneOf] using ih ((List.mem_cons.mp h).resolve_left hs)

theorem mem_of_oneOf {words : List Text} {value : Option Json} {s : Text}
    (h : oneOf words value = some s) : s ∈ words := List.mem_of_find?_eq_some h

/-- One of the words, with a fallback among them. -/
theorem getD_oneOf_mem {words : List Text} {fallback : Text} (h : fallback ∈ words)
    (value : Option Json) : (oneOf words value).getD fallback ∈ words := by
  cases hone : oneOf words value with
  | none => exact h
  | some word => exact mem_of_oneOf hone

/-! ## what is written is read -/

section RoundTrip

variable {js : Js}

theorem saysWord_string (s word : Text) :
    saysWord js (some (.string s)) word = some (decide (upperCase s = word)) := rfl

theorem saysWord_connector (c : SearchConnector) :
    saysWord js (some (.string c.text)) "OR".toList = some (decide (c = .OR)) := by
  rw [saysWord_string]
  cases c <;> decide

theorem saysWord_order (o : SortOrder) :
    saysWord js (some (.string o.text)) "DESC".toList = some (decide (o = .DESC)) := by
  rw [saysWord_string]
  cases o <;> decide

theorem parseRule_toJson {r : SearchRule} (h : r.Valid) (i : Nat) :
    parseRule js i r.toJson = .ok r.withNegate := by
  have hfield : oneOf (fields.map Prod.fst) (r.toJson.get "field".toList) = some r.field :=
    oneOf_string h.1
  have hoperator : oneOf (operatorsFor r.field) (r.toJson.get "operator".toList) =
      some r.operator := oneOf_string h.2
  have hvalue : parseValue js (r.toJson.get "value".toList) = .ok r.value := rfl
  have hconnector : saysWord js (r.toJson.get "connector".toList) "OR".toList =
      some (decide (r.connector = .OR)) := saysWord_connector r.connector
  have hor : (if decide (r.connector = .OR) = true then SearchConnector.OR else .AND) =
      r.connector := by
    cases r.connector <;> rfl
  have hnegate : Json.truthy (r.toJson.get "negate".toList) = r.negate.getD false := rfl
  rw [parseRule, hfield]
  dsimp only
  rw [hoperator, hvalue, hconnector, hnegate]
  show Except.ok (SearchRule.mk r.field r.operator r.value
    (if decide (r.connector = .OR) = true then .OR else .AND) (some (r.negate.getD false))) = _
  rw [hor]
  rfl

theorem parseRules_toJson {rs : List SearchRule} (h : ∀ r ∈ rs, r.Valid) (i : Nat) :
    parseRules js i (rs.map SearchRule.toJson) = .ok (rs.map SearchRule.withNegate) := by
  induction rs generalizing i with
  | nil => rfl
  | cons r rs ih =>
      rw [List.map_cons, parseRules, parseRule_toJson (h r (by simp)),
        ih fun r hr => h r (by simp [hr])]
      rfl

theorem clampLimit_int {n : Int} (h : 1 ≤ n ∧ n ≤ maxLimit) (fallback : Int) :
    clampLimit js (some (.number (.finite n))) fallback = some n := by
  have hlow : ¬ n < 1 := by omega
  simp [clampLimit, Json.numberOf, hlow, h.2]

/-- Columns of the page, in its order, are the ones that are shown. -/
theorem activeColumns_of_sublist {keys : List Text}
    (h : keys.Sublist (columns.map ResultColumn.key)) :
    (activeColumns keys).map ResultColumn.key = keys := by
  have hnodup : (columns.map ResultColumn.key).Nodup := by decide +kernel
  have hfilter := filter_mem_of_sublist h hnodup
  rwa [List.filter_map] at hfilter

/-- Columns of the page, written out, are the same columns. -/
theorem parseColumns_strings {keys : List Text}
    (h : keys.Sublist (columns.map ResultColumn.key)) :
    parseColumns (some (.array (keys.map .string))) = keys := by
  have hany : ∀ key : Text, ((keys.map Json.string).any (·.isText key)) = decide (key ∈ keys) := by
    intro key
    rw [Bool.eq_iff_iff, decide_eq_true_eq]
    simp [Json.isText]
  simpa [parseColumns, Json.elements?, hany, activeColumns] using activeColumns_of_sublist h

/-- **What is written is read**, if the text is read as the value it was
written for. -/
theorem parseQuery_of_valid {q : SavedQuery} (h : q.Valid)
    (hjson : js.parse (serializeQuery js q) = some q.toJson) :
    parseQuery js (serializeQuery js q) = .ok q.withNegate := by
  have hrules : (q.toJson.get "rules".toList).bind Json.elements? =
      some (q.rules.map SearchRule.toJson) := rfl
  have hsort : oneOf sortOptions (q.toJson.get "sort_by".toList) = some q.sortBy :=
    oneOf_string h.sortBy
  have horder : saysWord js (q.toJson.get "order".toList) "DESC".toList =
      some (decide (q.order = .DESC)) := saysWord_order q.order
  have hdesc : (if decide (q.order = .DESC) = true then SortOrder.DESC else .ASC) = q.order := by
    cases q.order <;> rfl
  have hlimit : clampLimit js (q.toJson.get "limit".toList) defaultLimit = some q.limit :=
    clampLimit_int h.limit defaultLimit
  have hcolumns : parseColumns (q.toJson.get "columns".toList) = q.columns :=
    parseColumns_strings h.columns
  have hparse : parseRules js 0 (q.rules.map SearchRule.toJson) =
      .ok (q.rules.map SearchRule.withNegate) := parseRules_toJson h.rules 0
  rw [parseQuery, hjson]
  dsimp only
  rw [hrules]
  cases hrs : q.rules with
  | nil => exact absurd hrs h.rules_ne
  | cons r rs =>
      rw [hrs] at hparse
      rw [List.map_cons] at hparse ⊢
      dsimp only
      rw [hparse, horder, hlimit, hsort, hcolumns]
      show Except.ok (SavedQuery.mk _ q.sortBy
        (if decide (q.order = .DESC) = true then .DESC else .ASC) q.limit q.columns) = _
      rw [hdesc, SavedQuery.withNegate, hrs]

/-! ## what is read is known -/

theorem bind_eq_ok {α β : Type} {x : Except LoadError α} {f : α → Except LoadError β} {b : β} :
    x >>= f = .ok b ↔ ∃ a, x = .ok a ∧ f a = .ok b := by
  cases x with
  | error e =>
      constructor
      · intro h
        cases h
      · intro h
        obtain ⟨a, ha, -⟩ := h
        cases ha
  | ok a => simp [bind, Except.bind]

theorem orConversion_eq_ok {α : Type} {o : Option α} {a : α} :
    orConversion o = .ok a ↔ o = some a := by
  cases o <;> simp [orConversion]

theorem valid_of_parseRule {i : Nat} {r : Json} {rule : SearchRule}
    (h : parseRule js i r = .ok rule) : rule.Valid ∧ rule.withNegate = rule := by
  unfold parseRule at h
  split at h
  · cases h
  · rename_i field hfield
    obtain ⟨value, -, h⟩ := bind_eq_ok.mp h
    obtain ⟨isOr, -, h⟩ := bind_eq_ok.mp h
    cases h
    exact ⟨⟨mem_of_oneOf hfield, getD_oneOf_mem (defaultOperator_mem field) _⟩, rfl⟩

theorem valid_of_parseRules {i : Nat} {rs : List Json} {rules : List SearchRule}
    (h : parseRules js i rs = .ok rules) :
    rules.length = rs.length ∧ ∀ rule ∈ rules, rule.Valid ∧ rule.withNegate = rule := by
  induction rs generalizing i rules with
  | nil =>
      cases h
      simp
  | cons r rs ih =>
      obtain ⟨rule, hrule, h⟩ := bind_eq_ok.mp h
      obtain ⟨rest, hrest, h⟩ := bind_eq_ok.mp h
      cases h
      obtain ⟨hlength, hvalid⟩ := ih hrest
      simpa [hlength] using ⟨valid_of_parseRule hrule, hvalid⟩

theorem clampLimit_bounds {value : Option Json} {fallback n : Int}
    (hfallback : 1 ≤ fallback ∧ fallback ≤ maxLimit)
    (h : clampLimit js value fallback = some n) : 1 ≤ n ∧ n ≤ maxLimit := by
  obtain ⟨x, -, rfl⟩ := Option.map_eq_some_iff.mp h
  cases x with
  | finite x =>
      dsimp only
      split_ifs with hlow
      · exact hfallback
      · exact ⟨le_min (by omega) (by decide), min_le_right _ _⟩
  | infinite negative => exact hfallback
  | nan => exact hfallback

theorem parseColumns_sublist (value : Option Json) :
    (parseColumns value).Sublist (columns.map ResultColumn.key) := by
  unfold parseColumns
  split
  · exact List.filter_sublist.map _
  · exact List.nil_sublist _

/-- **What is accepted is known to the page.** -/
theorem valid_of_parseQuery {text : Text} {q : SavedQuery} (h : parseQuery js text = .ok q) :
    q.Valid ∧ q.withNegate = q := by
  unfold parseQuery at h
  split at h
  · cases h
  · split at h
    · cases h
    · cases h
    · rename_i rs hne hrs
      obtain ⟨rules, hrules, h⟩ := bind_eq_ok.mp h
      obtain ⟨isDesc, -, h⟩ := bind_eq_ok.mp h
      obtain ⟨limit, hlimit, h⟩ := bind_eq_ok.mp h
      cases h
      obtain ⟨hlength, hknown⟩ := valid_of_parseRules hrules
      have hrules : rules ≠ [] := by
        intro hnil
        rw [hnil, List.length_nil, eq_comm, List.length_eq_zero_iff] at hlength
        exact hne hlength
      constructor
      · exact ⟨hrules, fun r hr => (hknown r hr).1, getD_oneOf_mem (by decide) _,
          clampLimit_bounds (by decide) (orConversion_eq_ok.mp hlimit), parseColumns_sublist _⟩
      · have hmap : rules.map SearchRule.withNegate = rules :=
          (List.map_congr_left fun r hr => (hknown r hr).2).trans (List.map_id _)
        simp only [SavedQuery.withNegate, hmap]

/-- A query of two rules, one without `negate`, with a quote and a line break
in its values. -/
def sampleQuery : SavedQuery where
  rules := [⟨"path".toList, "regex".toList, "\\.(c|h)$\n\"".toList, .AND, none⟩,
    ⟨"mtime".toList, "lt".toList, [], .OR, some true⟩]
  sortBy := "size_bytes".toList
  order := .DESC
  limit := 400
  columns := ["path".toList, "size_bytes".toList]

/-- The text of `sampleQuery`. -/
def sampleText : Text :=
  ("\x7b\n  \"rules\": [\n    \x7b\n      \"field\": \"path\",\n" ++
    "      \"operator\": \"regex\",\n      \"value\": \"\\\\.(c|h)$\\n\\\"\",\n" ++
    "      \"connector\": \"AND\",\n      \"negate\": false\n    \x7d,\n" ++
    "    \x7b\n      \"field\": \"mtime\",\n      \"operator\": \"lt\",\n" ++
    "      \"value\": \"\",\n      \"connector\": \"OR\",\n      \"negate\": true\n" ++
    "    \x7d\n  ],\n  \"sort_by\": \"size_bytes\",\n  \"order\": \"DESC\",\n" ++
    "  \"limit\": 400,\n  \"columns\": [\n    \"path\",\n    \"size_bytes\"\n  ]\n\x7d").toList

/-- JSON as far as `sampleQuery` needs it. -/
def sampleJs : Js where
  parse text := if text = sampleText then some sampleQuery.toJson else none
  stringify _ := "null".toList
  stringifyIndented _ := sampleText
  numberOfText _ := .nan
  textOfNumber _ := "400".toList

theorem valid_sampleQuery : sampleQuery.Valid := by
  have hrules : ∀ r ∈ sampleQuery.rules,
      r.field ∈ fields.map Prod.fst ∧ r.operator ∈ operatorsFor r.field := by decide
  exact ⟨by decide, hrules, by decide, by decide, by decide⟩

end RoundTrip

end Cuttlefish.Ui.SearchPage
