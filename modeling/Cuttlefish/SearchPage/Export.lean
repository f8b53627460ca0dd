import Cuttlefish.Csv
import Cuttlefish.SearchPage.Columns

/-!
# Cuttlefish.SearchPage.Export

`exportCsv`: the search results as comma-separated values.

A text that a spreadsheet would take for a formula gets an apostrophe, and one
with a comma, a quote or an LF is put in quotes.  A CR is not: `readsBack_iff`
says that the file is read as the table on screen exactly if no text has a CR
alone, all dates have a text, and the file does not end in an empty line.
-/

namespace Cuttlefish.Ui.SearchPage

open Csv

/-! ## the file -/

/-- `/^[=+\-@\t\r]/.test(s)`. -/
def isFormula (s : Text) : Bool := s.head?.any fun c => c ∈ ['=', '+', '-', '@', '\t', '\r']

def neutralize (s : Text) : Text := if isFormula s then '\'' :: s else s

/-- Has a character for which the text is put in quotes. -/
def needsQuotes (s : Text) : Bool := ',' ∈ s || '"' ∈ s || '\n' ∈ s

def escape (v : Text) : Text :=
  let s := neutralize v
  if needsQuotes s then quote s else s

def headers (columnKeys : List Text) : List Text :=
  (activeColumns columnKeys).map fun c => c.csvLabel.getD c.label

/-- The texts of a result. -/
def cells (columnKeys : List Text) (e : Entry) : Option (List Text) :=
  (activeColumns columnKeys).mapM fun c => c.csv e

def exportCsv (columnKeys : List Text) (results : List Entry) : Option Text := do
  let rows ← results.mapM fun e =>
    (cells columnKeys e).map fun texts => [','].intercalate (texts.map escape)
  return ['\n'].intercalate ([','].intercalate (headers columnKeys) :: rows)

/-! ## what is to be read of it -/

/-- The text of a column, after one apostrophe at most. -/
def ShowsCell (e : Entry) (field : Text) (c : ResultColumn) : Prop :=
  ∃ text, c.csv e = some text ∧ (field = text ∨ field = '\'' :: text)

/-- There is a file, it is read as a header and a record for each result, with
a field for each column, and no field is a formula. -/
def ReadsBack (columnKeys : List Text) (results : List Entry) : Prop :=
  ∃ file, exportCsv columnKeys results = some file ∧ ∃ rows,
    read file = some (headers columnKeys :: rows) ∧
      List.Forall₂ (fun row e => List.Forall₂ (ShowsCell e) row (activeColumns columnKeys))
        rows results ∧
      ∀ record ∈ headers columnKeys :: rows, ∀ field ∈ record, isFormula field = false

/-- A CR is kept if the text is put in quotes for something else. -/
def KeepsCr (text : Text) : Prop := '\r' ∈ text → needsQuotes text = true

/-- What the export has to be given. -/
structure Exportable (columnKeys : List Text) (results : List Entry) : Prop where
  columns : activeColumns columnKeys ≠ []
  dates : ∀ e ∈ results, ∀ c ∈ activeColumns columnKeys, (c.csv e).isSome
  returns : ∀ e ∈ results, ∀ c ∈ activeColumns columnKeys, ∀ text ∈ c.csv e, KeepsCr text
  last : ∀ e ∈ results.getLast?, ∀ c, activeColumns columnKeys = [c] → c.csv e ≠ some []

/-! ## one cell -/

section Cell

variable {text : Text}

theorem mem_neutralize {c : Char} (hc : c ≠ '\'') : c ∈ neutralize text ↔ c ∈ text := by
  unfold neutralize
  split_ifs <;> simp [hc]

theorem needsQuotes_neutralize (text : Text) :
    needsQuotes (neutralize text) = needsQuotes text := by
  simp [needsQuotes, mem_neutralize]

theorem isFormula_neutralize (text : Text) : isFormula (neutralize text) = false := by
  unfold neutralize
  split_ifs with hformula
  · rfl
  · simpa using hformula

theorem neutralize_cases (text : Text) :
    neutralize text = text ∨ neutralize text = '\'' :: text := by
  unfold neutralize
  split_ifs
  · exact Or.inr rfl
  · exact Or.inl rfl

/-- A cell is read as its text, or cut short at a CR. -/
theorem escape_cases (text : Text) :
    KeepsCr text ∧ Reads (escape text) (neutralize text) ∨
      ¬ KeepsCr text ∧ Broken (escape text) ∧ '\r' ∈ neutralize text := by
  unfold escape
  dsimp only
  rw [needsQuotes_neutralize]
  cases hquotes : needsQuotes text with
  | true => exact Or.inl ⟨fun _ => hquotes, reads_quote _⟩
  | false =>
      have hnone : ¬ (',' ∈ neutralize text ∨ '"' ∈ neutralize text ∨ '\n' ∈ neutralize text) := by
        have hself := needsQuotes_neutralize text
        rw [hquotes] at hself
        simpa [needsQuotes, not_or, and_assoc] using hself
      by_cases hcr : '\r' ∈ text
      · have hcr' : '\r' ∈ neutralize text := (mem_neutralize (by decide)).mpr hcr
        refine Or.inr ⟨fun h => ?_, broken_of_mem hcr' hnone, hcr'⟩
        rw [h hcr] at hquotes
        contradiction
      · refine Or.inl ⟨fun h => absurd h hcr, reads_bare fun c hc hspecial => ?_⟩
        obtain rfl | rfl | rfl | rfl := hspecial
        · exact hnone (Or.inl hc)
        · exact hnone (Or.inr (Or.inl hc))
        · exact hnone (Or.inr (Or.inr hc))
        · exact hcr ((mem_neutralize (by decide)).mp hc)

theorem escape_eq_nil : escape text = [] ↔ text = [] := by
  unfold escape neutralize
  cases text with
  | nil => decide
  | cons c text =>
      dsimp only
      split_ifs <;> simp [quote]

end Cell

/-! ## one for each -/

/-- Two images of one list. -/
theorem forall₂_map_same {α β γ : Type} {R : β → γ → Prop} {f : α → β} {g : α → γ} {l : List α} :
    List.Forall₂ R (l.map f) (l.map g) ↔ ∀ a ∈ l, R (f a) (g a) := by
  rw [List.forall₂_map_left_iff, List.forall₂_map_right_iff, List.forall₂_same]

theorem mapM_eq_some_iff {α β : Type} {f : α → Option β} {l : List α} {l' : List β} :
    l.mapM f = some l' ↔ List.Forall₂ (fun a b => f a = some b) l l' := by
  induction l generalizing l' with
  | nil => simp [eq_comm]
  | cons a l ih =>
      rw [List.mapM_cons, Option.bind_eq_bind, Option.bind_eq_some_iff]
      constructor
      · intro h
        obtain ⟨b, hb, hrest⟩ := h
        obtain ⟨bs, hbs, hl'⟩ := Option.bind_eq_some_iff.mp hrest
        cases hl'
        exact .cons hb (ih.mp hbs)
      · intro h
        cases h with
        | cons hb hbs => exact ⟨_, hb, Option.bind_eq_some_iff.mpr ⟨_, ih.mpr hbs, rfl⟩⟩

theorem mapM_map {α β γ : Type} (f : α → Option β) (g : β → γ) (l : List α) :
    (l.mapM fun a => (f a).map g) = (l.mapM f).map (List.map g) := by
  induction l with
  | nil => rfl
  | cons a l ih =>
      rw [List.mapM_cons, List.mapM_cons, ih]
      cases f a with
      | none => rfl
      | some b => cases l.mapM f <;> rfl

theorem exists_forall₂ {α β : Type} {R : α → β → Prop} {l : List α} (h : ∀ a ∈ l, ∃ b, R a b) :
    ∃ l', List.Forall₂ R l l' := by
  induction l with
  | nil => exact ⟨[], .nil⟩
  | cons a l ih =>
      obtain ⟨b, hb⟩ := h a (by simp)
      obtain ⟨bs, hbs⟩ := ih fun a ha => h a (by simp [ha])
      exact ⟨b :: bs, .cons hb hbs⟩

/-- What holds of all that a partial function gives. -/
theorem forall_mem_iff {α β : Type} {f : α → Option β} {l : List α} {l' : List β}
    (h : List.Forall₂ (fun a b => f a = some b) l l') (p : β → Prop) :
    (∀ b ∈ l', p b) ↔ ∀ a ∈ l, ∀ b ∈ f a, p b := by
  induction h with
  | nil => simp
  | @cons a b l l' hab _ ih => simp [hab, ih]

theorem exists_of_forall₂ {α β : Type} {f : α → Option β} {l : List α} {l' : List β}
    (h : List.Forall₂ (fun a b => f a = some b) l l') : ∀ a ∈ l, ∃ b, f a = some b := by
  induction h with
  | nil => simp
  | @cons a b l l' hab _ ih => simpa [hab] using ih

theorem exists_getElem?_of_forall₂ {α β : Type} {R : α → β → Prop} {l : List α} {l' : List β}
    (h : List.Forall₂ R l l') {i : Nat} {a : α} (ha : a ∈ l[i]?) : ∃ b ∈ l'[i]?, R a b := by
  induction h generalizing i with
  | nil => simp at ha
  | @cons x y l l' hxy _ ih =>
      cases i with
      | zero =>
          obtain rfl : x = a := by simpa using ha
          exact ⟨y, by simp, hxy⟩
      | succ i => simpa using ih (i := i) (by simpa using ha)

theorem getLast?_of_forall₂ {α β : Type} {f : α → Option β} {l : List α} {l' : List β}
    (h : List.Forall₂ (fun a b => f a = some b) l l') : l'.getLast? = l.getLast?.bind f := by
  induction h with
  | nil => rfl
  | @cons a b l l' hab hrest ih =>
      cases hrest with
      | nil => simp [hab]
      | cons _ _ => rw [List.getLast?_cons_cons, List.getLast?_cons_cons, ih]

/-! ## the whole file -/

section File

variable {columnKeys : List Text} {results : List Entry}

/-- The texts of the results, one by one. -/
def Shows (columnKeys : List Text) : List Entry → List (List Text) → Prop :=
  List.Forall₂ fun e texts => cells columnKeys e = some texts

theorem exportCsv_eq_some {file : Text} :
    exportCsv columnKeys results = some file ↔ ∃ rows, Shows columnKeys results rows ∧
      file = ['\n'].intercalate ((headers columnKeys :: rows.map (List.map escape)).map
        ([','].intercalate ·)) := by
  have hexport : exportCsv columnKeys results =
      (results.mapM (cells columnKeys)).map fun rows => ['\n'].intercalate
        ((headers columnKeys :: rows.map (List.map escape)).map ([','].intercalate ·)) := by
    rw [exportCsv, mapM_map]
    cases results.mapM (cells columnKeys) with
    | none => rfl
    | some rows => simp [Function.comp_def]
  rw [hexport, Option.map_eq_some_iff]
  apply exists_congr
  intro rows
  rw [mapM_eq_some_iff]
  exact and_congr Iff.rfl eq_comm

theorem exists_shows (h : ∀ e ∈ results, ∀ c ∈ activeColumns columnKeys, (c.csv e).isSome) :
    ∃ rows, Shows columnKeys results rows := by
  apply exists_forall₂
  intro e he
  obtain ⟨texts, htexts⟩ := exists_forall₂ fun c hc => Option.isSome_iff_exists.mp (h e he c hc)
  exact ⟨texts, mapM_eq_some_iff.mpr htexts⟩

theorem isSome_of_shows {rows : List (List Text)} (h : Shows columnKeys results rows) :
    ∀ e ∈ results, ∀ c ∈ activeColumns columnKeys, (c.csv e).isSome := by
  intro e he c hc
  obtain ⟨texts, htexts⟩ := exists_of_forall₂ h e he
  obtain ⟨text, htext⟩ := exists_of_forall₂ (mapM_eq_some_iff.mp htexts) c hc
  simp [htext]

/-- Every text that has a CR is put in quotes for something else. -/
def GoodRows (rows : List (List Text)) : Prop := ∀ texts ∈ rows, ∀ text ∈ texts, KeepsCr text

theorem goodRows_iff {rows : List (List Text)} (h : Shows columnKeys results rows) :
    GoodRows rows ↔ ∀ e ∈ results, ∀ c ∈ activeColumns columnKeys, ∀ text ∈ c.csv e,
      KeepsCr text := by
  rw [GoodRows, forall_mem_iff h]
  apply forall₂_congr
  intro e he
  obtain ⟨texts, htexts⟩ := exists_of_forall₂ h e he
  simp only [htexts, Option.mem_def, Option.some.injEq, forall_eq']
  exact forall_mem_iff (mapM_eq_some_iff.mp htexts) KeepsCr

/-- The last record is an empty cell. -/
theorem cells_eq_singleton_nil {e : Entry} :
    cells columnKeys e = some [[]] ↔ ∃ c, activeColumns columnKeys = [c] ∧ c.csv e = some [] := by
  rw [cells, mapM_eq_some_iff]
  constructor
  · intro h
    cases hactive : activeColumns columnKeys with
    | nil =>
        rw [hactive] at h
        cases h
    | cons c rest =>
        rw [hactive] at h
        cases h with
        | cons hc hrest =>
            cases hrest
            exact ⟨c, rfl, hc⟩
  · intro h
    obtain ⟨c, hactive, hc⟩ := h
    rw [hactive]
    exact .cons hc .nil

/-! ## headers -/

theorem headers_plain {text : Text} (h : text ∈ headers columnKeys) :
    (∀ c ∈ text, Bare c) ∧ isFormula text = false ∧ text ≠ [] := by
  have hall : columns.all (fun c =>
      (c.csvLabel.getD c.label).all (fun x => decide (Bare x)) &&
        (!isFormula (c.csvLabel.getD c.label) && !(c.csvLabel.getD c.label).isEmpty)) = true := by
    decide +kernel
  obtain ⟨c, hc, rfl⟩ := List.mem_map.mp h
  have hcolumn := List.all_eq_true.mp hall c (List.mem_of_mem_filter hc)
  simpa using hcolumn

/-- What the cells of the file are, and what they are read as. -/
theorem forall₂_cells {R : Text → Text → Prop} {rows : List (List Text)}
    (hheader : ∀ text ∈ headers columnKeys, R text text)
    (hrows : ∀ texts ∈ rows, ∀ text ∈ texts, R (escape text) (neutralize text)) :
    List.Forall₂ (List.Forall₂ R) (headers columnKeys :: rows.map (List.map escape))
      (headers columnKeys :: rows.map (List.map neutralize)) := by
  refine .cons (List.forall₂_same.mpr hheader) (forall₂_map_same.mpr ?_)
  intro texts htexts
  exact forall₂_map_same.mpr (hrows texts htexts)

theorem forall₂_reads {rows : List (List Text)} (h : GoodRows rows) :
    List.Forall₂ (List.Forall₂ Reads) (headers columnKeys :: rows.map (List.map escape))
      (headers columnKeys :: rows.map (List.map neutralize)) :=
  forall₂_cells (fun _ htext => reads_bare (headers_plain htext).1) fun texts htexts text htext =>
    ((escape_cases text).resolve_right fun hbroken => hbroken.1 (h texts htexts text htext)).2

/-- Does the file end with an empty line? -/
theorem getLast?_cells {rows : List (List Text)} (h : Shows columnKeys results rows) :
    (headers columnKeys :: rows.map (List.map escape)).getLast? = some [[]] ↔
      ∃ e ∈ results.getLast?, cells columnKeys e = some [[]] := by
  have hescape : ∀ texts : List Text, texts.map escape = [[]] ↔ texts = [[]] := by
    intro texts
    simp [List.map_eq_cons_iff, escape_eq_nil]
  cases h with
  | nil =>
      have hheaders : headers columnKeys ≠ [[]] := fun heq =>
        (headers_plain (show [] ∈ headers columnKeys by simp [heq])).2.2 rfl
      simpa using hheaders
  | @cons e texts results rows he hrest =>
      have hlast := getLast?_of_forall₂ (.cons he hrest)
      rw [List.map_cons, List.getLast?_cons_cons, ← List.map_cons, List.getLast?_map, hlast]
      simp [Option.map_eq_some_iff, Option.bind_eq_some_iff, hescape]

theorem record_ne_nil {rows : List (List Text)} (h : Shows columnKeys results rows)
    (hcolumns : activeColumns columnKeys ≠ []) :
    ∀ record ∈ headers columnKeys :: rows.map (List.map escape), record ≠ [] := by
  have hrows : ∀ texts ∈ rows, texts ≠ [] := by
    rw [forall_mem_iff h]
    intro e _ texts htexts hnil
    have hlength := (mapM_eq_some_iff.mp htexts).length_eq
    rw [hnil, List.length_nil, List.length_eq_zero_iff] at hlength
    exact hcolumns hlength
  simpa [headers, hcolumns] using hrows

/-- **What is read of a good file.** -/
theorem read_export {rows : List (List Text)} (h : Shows columnKeys results rows)
    (hcolumns : activeColumns columnKeys ≠ []) (hgood : GoodRows rows) :
    read (['\n'].intercalate ((headers columnKeys :: rows.map (List.map escape)).map
        ([','].intercalate ·))) =
      some (if (headers columnKeys :: rows.map (List.map escape)).getLast? = some [[]] then
        (headers columnKeys :: rows.map (List.map neutralize)).dropLast
      else headers columnKeys :: rows.map (List.map neutralize)) :=
  read_intercalate (forall₂_reads hgood) (by simp) (record_ne_nil h hcolumns)

/-! ## when the file is read back -/

/-- What is read of a result shows its texts. -/
theorem forall₂_showsCell {rows : List (List Text)} (h : Shows columnKeys results rows) :
    List.Forall₂ (fun row e => List.Forall₂ (ShowsCell e) row (activeColumns columnKeys))
      (rows.map (List.map neutralize)) results := by
  rw [List.forall₂_map_left_iff]
  refine (List.Forall₂.flip h).imp fun texts e htexts => ?_
  rw [List.forall₂_map_left_iff]
  refine (List.Forall₂.flip (mapM_eq_some_iff.mp htexts)).imp fun text c htext => ?_
  exact ⟨text, htext, neutralize_cases text⟩

theorem readsBack_of_exportable (h : Exportable columnKeys results) :
    ReadsBack columnKeys results := by
  obtain ⟨rows, hrows⟩ := exists_shows h.dates
  refine ⟨_, exportCsv_eq_some.mpr ⟨rows, hrows, rfl⟩, rows.map (List.map neutralize), ?_,
    forall₂_showsCell hrows, ?_⟩
  · have hlast : (headers columnKeys :: rows.map (List.map escape)).getLast? ≠ some [[]] := by
      rw [Ne, getLast?_cells hrows]
      intro hempty
      obtain ⟨e, he, hcells⟩ := hempty
      obtain ⟨c, hactive, hc⟩ := cells_eq_singleton_nil.mp hcells
      exact h.last e he c hactive hc
    rw [read_export hrows h.columns ((goodRows_iff hrows).mpr h.returns), if_neg hlast]
  · intro record hrecord field hfield
    obtain rfl | hrecord := List.mem_cons.mp hrecord
    · exact (headers_plain hfield).2.1
    · obtain ⟨texts, -, rfl⟩ := List.mem_map.mp hrecord
      obtain ⟨text, -, rfl⟩ := List.mem_map.mp hfield
      exact isFormula_neutralize text

/-- A cell that is cut short shows no text. -/
theorem not_cutShort {rows table : List (List Text)} (h : Shows columnKeys results rows)
    (hshown : List.Forall₂ (fun row e => List.Forall₂ (ShowsCell e) row (activeColumns columnKeys))
      table results) {i k : Nat} {record texts : List Text}
    (hrecord : record ∈ (headers columnKeys :: table)[i]?)
    (htexts : texts ∈ (headers columnKeys :: rows.map (List.map neutralize))[i]?) :
    ¬ CutShort record texts k := by
  intro hcut
  obtain ⟨text, htext, hcr, field, hfield, hfieldCr⟩ := hcut
  cases i with
  | zero =>
      obtain rfl : headers columnKeys = texts := by simpa using htexts
      exact (headers_plain (List.mem_of_getElem? htext)).1 _ hcr (by simp)
  | succ i =>
      rw [Option.mem_def, List.getElem?_cons_succ] at hrecord htexts
      rw [List.getElem?_map, Option.map_eq_some_iff] at htexts
      obtain ⟨texts, htexts, rfl⟩ := htexts
      rw [Option.mem_def, List.getElem?_map, Option.map_eq_some_iff] at htext
      obtain ⟨text, htext, rfl⟩ := htext
      obtain ⟨e, he, hcells⟩ := exists_getElem?_of_forall₂ (List.Forall₂.flip h) htexts
      obtain ⟨e', he', hrow⟩ := exists_getElem?_of_forall₂ hshown hrecord
      obtain rfl : e = e' := Option.mem_unique he he'
      obtain ⟨c, hc, hcsv⟩ :=
        exists_getElem?_of_forall₂ (List.Forall₂.flip (mapM_eq_some_iff.mp hcells)) htext
      obtain ⟨c', hc', text', htext', hshows⟩ := exists_getElem?_of_forall₂ hrow hfield
      obtain rfl : c = c' := Option.mem_unique hc hc'
      obtain rfl : text = text' := Option.some.inj (hcsv.symm.trans htext')
      have hcr' : '\r' ∈ text := (mem_neutralize (by decide)).mp hcr
      obtain rfl | rfl := hshows
      · exact hfieldCr hcr'
      · exact hfieldCr (List.mem_cons_of_mem _ hcr')

/-- A file without broken cells is good. -/
theorem goodRows_of_reads {rows : List (List Text)}
    (h : List.Forall₂ (List.Forall₂ Reads) (headers columnKeys :: rows.map (List.map escape))
      (headers columnKeys :: rows.map (List.map neutralize))) : GoodRows rows := by
  cases h with
  | cons hheaders hrows =>
      intro texts htexts text htext
      have hcells := forall₂_map_same.mp (forall₂_map_same.mp hrows texts htexts)
      by_contra hbad
      have hbroken := ((escape_cases text).resolve_left fun h => hbad h.1).2.1
      exact not_reads_of_broken hbroken _ (hcells text htext)

theorem exportable_of_readsBack (h : ReadsBack columnKeys results) :
    Exportable columnKeys results := by
  obtain ⟨file, hfile, table, hread, hshown, -⟩ := h
  obtain ⟨rows, hrows, rfl⟩ := exportCsv_eq_some.mp hfile
  have hcolumns : activeColumns columnKeys ≠ [] := by
    have hheaders := ne_nil_of_read hread (headers columnKeys) List.mem_cons_self
    simpa [headers] using hheaders
  have hgood : GoodRows rows := by
    by_contra hbad
    have hcells : List.Forall₂ (List.Forall₂ fun cell text =>
        Reads cell text ∨ Broken cell ∧ '\r' ∈ text)
        (headers columnKeys :: rows.map (List.map escape))
        (headers columnKeys :: rows.map (List.map neutralize)) := forall₂_cells
      (fun _ htext => Or.inl (reads_bare (headers_plain htext).1))
      fun _ _ text _ => (escape_cases text).imp And.right And.right
    obtain ⟨i, record, hrecord, texts, htexts, k, hcut⟩ := exists_broken_field hcells
      (record_ne_nil hrows hcolumns) (fun h => hbad (goodRows_of_reads h)) [] hread
    rw [List.length_nil, Nat.zero_add] at hrecord
    exact not_cutShort hrows hshown hrecord htexts hcut
  refine ⟨hcolumns, isSome_of_shows hrows, (goodRows_iff hrows).mp hgood, ?_⟩
  intro e he c hactive hc
  have hlast : (headers columnKeys :: rows.map (List.map escape)).getLast? = some [[]] :=
    (getLast?_cells hrows).mpr ⟨e, he, cells_eq_singleton_nil.mpr ⟨c, hactive, hc⟩⟩
  rw [read_export hrows hcolumns hgood, if_pos hlast] at hread
  have hlength := congrArg (Option.map List.length) hread
  have hresults := hshown.length_eq
  have hrowsLength := List.Forall₂.length_eq hrows
  simp only [Option.map_some, Option.some.injEq, List.length_dropLast, List.length_cons,
    List.length_map] at hlength
  omega

/-- **The file is read as the table on screen** exactly if it is exportable. -/
theorem readsBack_iff (columnKeys : List Text) (results : List Entry) :
    ReadsBack columnKeys results ↔ Exportable columnKeys results :=
  ⟨exportable_of_readsBack, readsBack_of_exportable⟩

/-- A name with a CR: what is behind it becomes a record, and a formula. -/
theorem carriage_return_breaks :
    ¬ ReadsBack ["path".toList] [FileBrowser.sampleEntry "/a\r=1+1".toList] ∧
      (exportCsv ["path".toList] [FileBrowser.sampleEntry "/a\r=1+1".toList]).bind read =
        some [["Path".toList], ["/a".toList], ["=1+1".toList]] := by
  constructor
  · intro h
    obtain ⟨c, hc, hcsv⟩ : ∃ c ∈ activeColumns ["path".toList],
        c.csv (FileBrowser.sampleEntry "/a\r=1+1".toList) = some "/a\r=1+1".toList :=
      ⟨_, List.mem_cons_self, rfl⟩
    have hkeeps := (exportable_of_readsBack h).returns _ List.mem_cons_self c hc _ hcsv
    exact absurd (hkeeps (by decide)) (by decide)
  · decide +kernel

end File

end Cuttlefish.Ui.SearchPage
