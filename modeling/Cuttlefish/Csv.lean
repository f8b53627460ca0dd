import Cuttlefish.Utf8
import Mathlib.Data.List.Forall2

/-!
# Cuttlefish.Csv

Comma-separated values: a reader, and what it reads of joined cells.

A field that begins with a quote ends at the next one that is not doubled.  A
comma ends a field, and LF, CR or CRLF a record; the end of the text ends a
record that has begun.

* `read_intercalate` — cells that are each read as some text are read as a table;
* `exists_broken_field` — a CR in a cell without quotes breaks its record.
-/

namespace Cuttlefish.Csv

/-! ## the reader -/

/-- Where the reader is: at the start of a field, there and behind a CR, in a
field without quotes or in one with them, and behind a quote in such a field. -/
inductive Mode where
  | start
  | afterCr
  | plain
  | quoted
  | closed
  deriving DecidableEq, Repr

structure Reader where
  records : List (List Text) := []
  fields : List Text := []
  field : Text := []
  mode : Mode := .start
  deriving DecidableEq, Repr

namespace Reader

/-- At the start of a field. -/
def fresh (records : List (List Text)) (fields : List Text) : Reader := { records, fields }

/-- The record read so far, with the field that is being read. -/
def record (s : Reader) : List Text := s.fields ++ [s.field]

/-- A character outside quotes. -/
def outside (s : Reader) (c : Char) : Reader :=
  if c = ',' then { s with fields := s.record, field := [], mode := .start }
  else if c = '\n' then { records := s.records ++ [s.record] }
  else if c = '\r' then { records := s.records ++ [s.record], mode := .afterCr }
  else { s with field := s.field ++ [c], mode := .plain }

/-- The first character of a field. -/
def first (s : Reader) (c : Char) : Reader :=
  if c = '"' then { s with mode := .quoted } else s.outside c

def step (s : Reader) (c : Char) : Option Reader :=
  match s.mode with
  | .start => some (s.first c)
  | .afterCr => some (if c = '\n' then { s with mode := .start } else s.first c)
  | .plain => some (s.outside c)
  | .quoted =>
      some (if c = '"' then { s with mode := .closed } else { s with field := s.field ++ [c] })
  | .closed =>
      if c = '"' then some { s with field := s.field ++ [c], mode := .quoted }
      else if c = ',' ∨ c = '\n' ∨ c = '\r' then some (s.outside c)
      else none

def feed (s : Reader) (text : Text) : Option Reader := text.foldlM step s

/-- At the end of the text. -/
def finish (s : Reader) : Option (List (List Text)) :=
  if s.mode = .quoted then none
  else if s.fields = [] ∧ (s.mode = .start ∨ s.mode = .afterCr) then some s.records
  else some (s.records ++ [s.record])

end Reader

/-- The records of a text. -/
def read (text : Text) : Option (List (List Text)) :=
  (Reader.feed {} text).bind Reader.finish

/-! ## one cell -/

section Cell

variable {s s' : Reader} {text : Text}

@[simp] theorem feed_nil (s : Reader) : s.feed [] = some s := rfl

theorem feed_cons (s : Reader) (c : Char) (text : Text) :
    s.feed (c :: text) = (s.step c).bind fun s' => s'.feed text := rfl

theorem feed_append (s : Reader) (text rest : Text) :
    s.feed (text ++ rest) = (s.feed text).bind fun s' => s'.feed rest := by
  rw [Reader.feed, List.foldlM_append]
  rfl

/-- Outside quotes and without a special meaning. -/
def Bare (c : Char) : Prop := ¬ (c = ',' ∨ c = '"' ∨ c = '\n' ∨ c = '\r')

instance : DecidablePred Bare := fun _ => inferInstanceAs (Decidable (¬ _))

theorem outside_bare {c : Char} (h : Bare c) (s : Reader) :
    s.outside c = { s with field := s.field ++ [c], mode := .plain } := by
  simp only [Bare, not_or] at h
  simp [Reader.outside, h]

theorem feed_plain (hmode : s.mode = .plain) (htext : ∀ c ∈ text, Bare c) :
    s.feed text = some { s with field := s.field ++ text } := by
  induction text generalizing s with
  | nil => simp
  | cons c text ih =>
      have hstep : s.step c = some { s with field := s.field ++ [c], mode := .plain } := by
        simp [Reader.step, hmode, outside_bare (htext c (by simp))]
      rw [feed_cons, hstep, Option.bind_some, ih rfl fun c hc => htext c (by simp [hc])]
      simp [hmode]

/-- A cell without quotes, from the start of a field. -/
theorem feed_bare {records : List (List Text)} {fields : List Text} (htext : ∀ c ∈ text, Bare c) :
    (Reader.fresh records fields).feed text =
      some ⟨records, fields, text, if text = [] then .start else .plain⟩ := by
  cases text with
  | nil => rfl
  | cons c text =>
      have hc : Bare c := htext c (by simp)
      have hquote : c ≠ '"' := fun heq => hc (by simp [heq])
      have hstep : (Reader.fresh records fields).step c =
          some ⟨records, fields, [c], .plain⟩ := by
        simp [Reader.fresh, Reader.step, Reader.first, hquote, outside_bare hc]
      rw [feed_cons, hstep, Option.bind_some, feed_plain rfl fun c hc => htext c (by simp [hc])]
      simp

/-- A text with its quotes doubled. -/
def double (text : Text) : Text := text.flatMap fun c => if c = '"' then ['"', '"'] else [c]

/-- A text in quotes. -/
def quote (text : Text) : Text := '"' :: double text ++ ['"']

theorem feed_double (hmode : s.mode = .quoted) :
    s.feed (double text) = some { s with field := s.field ++ text } := by
  induction text generalizing s with
  | nil => simp [double]
  | cons c text ih =>
      have hchar : s.feed (double [c]) = some { s with field := s.field ++ [c] } := by
        by_cases hc : c = '"'
        · simp [double, hc, feed_cons, Reader.step, hmode]
        · simp [double, hc, feed_cons, Reader.step, hmode]
      have hcons : double (c :: text) = double [c] ++ double text := by simp [double]
      have hrest := ih (s := { s with field := s.field ++ [c] }) hmode
      rw [hcons, feed_append, hchar, Option.bind_some, hrest]
      simp

theorem feed_quote (records : List (List Text)) (fields : List Text) (text : Text) :
    (Reader.fresh records fields).feed (quote text) =
      some ⟨records, fields, text, .closed⟩ := by
  have hopen : (Reader.fresh records fields).step '"' = some ⟨records, fields, [], .quoted⟩ := rfl
  rw [quote, List.cons_append, feed_cons, hopen, Option.bind_some, feed_append, feed_double rfl]
  rfl

end Cell

/-! ## records -/

/-- A field that a separator or the end of the text may follow. -/
def Reader.Ended (s : Reader) : Prop := s.mode ≠ .quoted ∧ s.mode ≠ .afterCr

/-- Whatever is in front of it, the cell is read as the text. -/
def Reads (cell text : Text) : Prop :=
  ∃ mode : Mode, mode ≠ .quoted ∧ mode ≠ .afterCr ∧ (mode = .start ↔ cell = []) ∧
    ∀ records fields, (Reader.fresh records fields).feed cell = some ⟨records, fields, text, mode⟩

theorem reads_bare {text : Text} (htext : ∀ c ∈ text, Bare c) : Reads text text := by
  refine ⟨if text = [] then .start else .plain, ?_, ?_, ?_, fun _ _ => feed_bare htext⟩
  all_goals split_ifs with hnil <;> simp [hnil]

theorem reads_quote (text : Text) : Reads (quote text) text :=
  ⟨.closed, by simp, by simp, by simp [quote], fun records fields =>
    feed_quote records fields text⟩

section Records

variable {s : Reader} {cell text : Text} {cells texts : List Text}
  {recs rows : List (List Text)}

theorem step_comma (h : s.Ended) : s.step ',' = some (.fresh s.records s.record) := by
  obtain ⟨hquoted, hafter⟩ := h
  cases hmode : s.mode <;>
    simp_all [Reader.step, Reader.first, Reader.outside, Reader.fresh]

theorem step_lf (h : s.Ended) : s.step '\n' = some (.fresh (s.records ++ [s.record]) []) := by
  obtain ⟨hquoted, hafter⟩ := h
  cases hmode : s.mode <;>
    simp_all [Reader.step, Reader.first, Reader.outside, Reader.fresh]

/-- A comma, behind what ends a field. -/
theorem feed_comma {start : Reader} {piece : Text} (hfeed : start.feed piece = some s)
    (hended : s.Ended) (rest : Text) :
    start.feed (piece ++ [','] ++ rest) = (Reader.fresh s.records s.record).feed rest := by
  rw [List.append_assoc, feed_append, hfeed, Option.bind_some, List.singleton_append, feed_cons,
    step_comma hended, Option.bind_some]

/-- An LF, behind what ends a record. -/
theorem feed_lf {start : Reader} {piece : Text} (hfeed : start.feed piece = some s)
    (hended : s.Ended) (rest : Text) :
    start.feed (piece ++ ['\n'] ++ rest) =
      (Reader.fresh (s.records ++ [s.record]) []).feed rest := by
  rw [List.append_assoc, feed_append, hfeed, Option.bind_some, List.singleton_append, feed_cons,
    step_lf hended, Option.bind_some]

/-- One cell: what is read, and whether nothing has begun. -/
theorem feed_cell (h : Reads cell text) (records : List (List Text)) (fields : List Text) :
    ∃ s : Reader, (Reader.fresh records fields).feed cell = some s ∧ s.Ended ∧
      s.records = records ∧ s.record = fields ++ [text] ∧ s.fields = fields ∧
        (s.mode = .start ↔ cell = []) := by
  obtain ⟨mode, hquoted, hafter, hstart, hfeed⟩ := h
  exact ⟨_, hfeed records fields, ⟨hquoted, hafter⟩, rfl, rfl, rfl, hstart⟩

/-- **Cells with commas between them** are read as a record. -/
theorem feed_record (h : List.Forall₂ Reads cells texts) (hne : cells ≠ [])
    (records : List (List Text)) (fields : List Text) :
    ∃ s : Reader, (Reader.fresh records fields).feed ([','].intercalate cells) = some s ∧
      s.Ended ∧ s.records = records ∧ s.record = fields ++ texts ∧
        (s.fields = [] ∧ s.mode = .start ↔ fields = [] ∧ cells = [[]]) := by
  induction h generalizing fields with
  | nil => contradiction
  | @cons cell text cells texts hcell hcells ih =>
      obtain ⟨s, hfeed, hended, hrecords, hrecord, hfields, hstart⟩ :=
        feed_cell hcell records fields
      cases cells with
      | nil =>
          cases hcells
          refine ⟨s, ?_, hended, hrecords, hrecord, ?_⟩
          · rw [List.intercalate_singleton, hfeed]
          · rw [hfields, hstart]
            simp
      | cons cell' cells =>
          obtain ⟨s', hfeed', hended', hrecords', hrecord', hempty⟩ :=
            ih (by simp) (fields ++ [text])
          refine ⟨s', ?_, hended', hrecords', ?_, ?_⟩
          · rw [List.intercalate_cons_cons, feed_comma hfeed hended, hrecords, hrecord, hfeed']
          · simpa using hrecord'
          · rw [hempty]
            simp

/-- **Records with LFs between them** are read as a table. -/
theorem feed_records (h : List.Forall₂ (List.Forall₂ Reads) recs rows) (hne : recs ≠ [])
    (hcells : ∀ cells ∈ recs, cells ≠ []) (records : List (List Text)) :
    ∃ s : Reader, (Reader.fresh records []).feed
        (['\n'].intercalate (recs.map ([','].intercalate ·))) = some s ∧
      s.Ended ∧ s.records ++ [s.record] = records ++ rows ∧
        (s.fields = [] ∧ s.mode = .start ↔ recs.getLast? = some [[]]) := by
  induction h generalizing records with
  | nil => contradiction
  | @cons cells texts recs rows hrec hrecs ih =>
      obtain ⟨s, hfeed, hended, hrecords, hrecord, hempty⟩ :=
        feed_record hrec (hcells cells (by simp)) records []
      rw [List.nil_append] at hrecord
      cases recs with
      | nil =>
          cases hrecs
          refine ⟨s, ?_, hended, ?_, ?_⟩
          · rw [List.map_singleton, List.intercalate_singleton, hfeed]
          · rw [hrecords, hrecord]
          · rw [hempty]
            simp
      | cons cells' recs =>
          obtain ⟨s', hfeed', hended', hrecords', hempty'⟩ := ih (by simp)
            (fun cells hmem => hcells cells (List.mem_cons_of_mem _ hmem)) (records ++ [texts])
          refine ⟨s', ?_, hended', ?_, ?_⟩
          · rw [List.map_cons, List.map_cons, List.intercalate_cons_cons, ← List.map_cons,
              feed_lf hfeed hended, hrecords, hrecord, hfeed']
          · simpa using hrecords'
          · rw [hempty', List.getLast?_cons_cons]

/-- **A table is read back**, but for a last record that is one empty cell. -/
theorem read_intercalate (h : List.Forall₂ (List.Forall₂ Reads) recs rows) (hne : recs ≠ [])
    (hcells : ∀ cells ∈ recs, cells ≠ []) :
    read (['\n'].intercalate (recs.map ([','].intercalate ·))) =
      some (if recs.getLast? = some [[]] then rows.dropLast else rows) := by
  obtain ⟨s, hfeed, ⟨hquoted, hafter⟩, hrecords, hempty⟩ := feed_records h hne hcells []
  have hfresh : Reader.fresh [] [] = {} := rfl
  rw [List.nil_append] at hrecords
  rw [read, ← hfresh, hfeed, Option.bind_some, Reader.finish, if_neg hquoted, ← hrecords]
  by_cases hlast : recs.getLast? = some [[]]
  · obtain ⟨hfields, hmode⟩ := hempty.mpr hlast
    rw [if_pos ⟨hfields, Or.inl hmode⟩, if_pos hlast, List.dropLast_concat]
  · have hbegun : ¬ (s.fields = [] ∧ (s.mode = .start ∨ s.mode = .afterCr)) := fun h =>
      hlast (hempty.mp ⟨h.1, h.2.resolve_right hafter⟩)
    rw [if_neg hbegun, if_neg hlast]

end Records

/-! ## broken records -/

section Broken

variable {s s' : Reader} {text : Text} {cells texts : List Text} {recs rows : List (List Text)}

/-- A character ends the record at most. -/
theorem step_records {c : Char} (h : s.step c = some s') :
    s'.records = s.records ∨ s'.records = s.records ++ [s.record] := by
  have houtside : (s.outside c).records = s.records ∨
      (s.outside c).records = s.records ++ [s.record] := by
    unfold Reader.outside
    split_ifs <;> simp
  have hfirst : (s.first c).records = s.records ∨
      (s.first c).records = s.records ++ [s.record] := by
    unfold Reader.first
    split_ifs
    · exact Or.inl rfl
    · exact houtside
  unfold Reader.step at h
  split at h
  · cases h
    exact hfirst
  · cases h
    split_ifs
    · exact Or.inl rfl
    · exact hfirst
  · cases h
    exact houtside
  · cases h
    split_ifs <;> exact Or.inl rfl
  · split_ifs at h
    · cases h
      exact Or.inl rfl
    · cases h
      exact houtside

/-- **What has been read stays**, and no record without fields is added. -/
theorem feed_records_append (h : s.feed text = some s') :
    ∃ more, s'.records = s.records ++ more ∧ ∀ record ∈ more, record ≠ [] := by
  induction text generalizing s with
  | nil =>
      cases h
      exact ⟨[], by simp⟩
  | cons c text ih =>
      rw [feed_cons] at h
      obtain ⟨t, hstep, hrest⟩ := Option.bind_eq_some_iff.mp h
      obtain ⟨more, hmore, hne⟩ := ih hrest
      obtain hsame | hended := step_records hstep
      · exact ⟨more, by rw [hmore, hsame], hne⟩
      · refine ⟨s.record :: more, by simp [hmore, hended], ?_⟩
        simpa [Reader.record] using hne

theorem finish_eq_some {table : List (List Text)} (h : s.finish = some table) :
    table = s.records ∨ table = s.records ++ [s.record] := by
  unfold Reader.finish at h
  split_ifs at h <;> cases h <;> simp

theorem records_prefix {table : List (List Text)}
    (h : (s.feed text).bind Reader.finish = some table) : s.records <+: table := by
  obtain ⟨s', hfeed, hfinish⟩ := Option.bind_eq_some_iff.mp h
  obtain ⟨more, hmore, -⟩ := feed_records_append hfeed
  obtain rfl | rfl := finish_eq_some hfinish <;> simp [hmore]

/-- A record has a field at least. -/
theorem ne_nil_of_read {table : List (List Text)} (h : read text = some table) :
    ∀ record ∈ table, record ≠ [] := by
  obtain ⟨s', hfeed, hfinish⟩ := Option.bind_eq_some_iff.mp h
  obtain ⟨more, hmore, hne⟩ := feed_records_append hfeed
  rw [List.nil_append] at hmore
  obtain rfl | rfl := finish_eq_some hfinish
  · rwa [hmore]
  · rw [hmore]
    intro record hrecord
    cases List.mem_append.mp hrecord with
    | inl hmem => exact hne record hmem
    | inr hlast => simp [List.mem_singleton.mp hlast, Reader.record]

/-- Without quotes, up to a CR. -/
def Broken (cell : Text) : Prop := ∃ pre post, cell = pre ++ '\r' :: post ∧ ∀ c ∈ pre, Bare c

/-- A CR without quotes ends its record. -/
theorem feed_broken {pre post : Text} (hpre : ∀ c ∈ pre, Bare c) (records : List (List Text))
    (fields : List Text) : (Reader.fresh records fields).feed (pre ++ '\r' :: post) =
      Reader.feed ⟨records ++ [fields ++ [pre]], [], [], .afterCr⟩ post := by
  rw [feed_append, feed_bare hpre, Option.bind_some, feed_cons]
  cases pre with
  | nil => rfl
  | cons c pre => rfl

/-- A CR where nothing would need quotes. -/
theorem broken_of_mem {cell : Text} (hcr : '\r' ∈ cell)
    (hother : ¬ (',' ∈ cell ∨ '"' ∈ cell ∨ '\n' ∈ cell)) : Broken cell := by
  obtain ⟨pre, post, rfl, hpre⟩ := List.eq_append_cons_of_mem hcr
  refine ⟨pre, post, rfl, fun c hc hspecial => ?_⟩
  obtain rfl | rfl | rfl | rfl := hspecial
  · exact hother (Or.inl (by simp [hc]))
  · exact hother (Or.inr (Or.inl (by simp [hc])))
  · exact hother (Or.inr (Or.inr (by simp [hc])))
  · exact hpre hc

theorem not_reads_of_broken {cell : Text} (h : Broken cell) (text : Text) : ¬ Reads cell text := by
  intro hreads
  obtain ⟨pre, post, rfl, hpre⟩ := h
  obtain ⟨s, hfeed, -, hrecords, -⟩ := feed_cell hreads [] []
  rw [feed_broken hpre] at hfeed
  obtain ⟨more, hmore, -⟩ := feed_records_append hfeed
  simp [hrecords] at hmore

/-- A field without CR, where the cell was to be read as a text that has one. -/
def CutShort (record texts : List Text) (k : Nat) : Prop :=
  ∃ text ∈ texts[k]?, '\r' ∈ text ∧ ∃ field ∈ record[k]?, '\r' ∉ field

theorem exists_intercalate_cons (sep cell : Text) (cells : List Text) :
    ∃ rest, sep.intercalate (cell :: cells) = cell ++ rest := by
  cases cells with
  | nil => exact ⟨[], by simp⟩
  | cons cell' cells => exact ⟨_, by rw [List.intercalate_cons_cons, List.append_assoc]⟩

/-- A broken cell is cut short. -/
theorem cutShort_broken {cell text : Text} (hcell : Broken cell) (hcr : '\r' ∈ text)
    {done : List Text} {rest : Text} {records table : List (List Text)}
    (htable : ((Reader.fresh records done).feed (cell ++ rest)).bind Reader.finish = some table) :
    ∃ record ∈ table[records.length]?, CutShort record (done ++ text :: texts) done.length := by
  obtain ⟨pre, post, rfl, hpre⟩ := hcell
  rw [List.append_assoc, List.cons_append, feed_broken hpre] at htable
  obtain ⟨more, rfl⟩ := records_prefix htable
  have hpreCr : '\r' ∉ pre := fun hmem => hpre _ hmem (by simp)
  exact ⟨done ++ [pre], by simp, text, by simp, hcr, pre, by simp, hpreCr⟩

/-- **The first broken cell** of a record is cut short. -/
theorem exists_cutShort {done : List Text}
    (h : List.Forall₂ (fun cell text => Reads cell text ∨ Broken cell ∧ '\r' ∈ text) cells texts)
    (hbroken : ¬ List.Forall₂ Reads cells texts) (rest : Text) {records table : List (List Text)}
    (htable : ((Reader.fresh records done).feed ([','].intercalate cells ++ rest)).bind
      Reader.finish = some table) :
    ∃ record ∈ table[records.length]?, ∃ k, CutShort record (done ++ texts) k := by
  induction h generalizing done with
  | nil => exact absurd .nil hbroken
  | @cons cell text cells texts hcell hcells ih =>
      cases hcell with
      | inl hreads =>
          have htail : ¬ List.Forall₂ Reads cells texts := fun h => hbroken (.cons hreads h)
          obtain ⟨s, hfeed, hended, hrecords, hrecord, -, -⟩ := feed_cell hreads records done
          cases cells with
          | nil =>
              cases hcells
              exact absurd .nil htail
          | cons cell' cells =>
              rw [List.intercalate_cons_cons, List.append_assoc, feed_comma hfeed hended, hrecords,
                hrecord] at htable
              obtain ⟨record, hmem, k, hcut⟩ := ih htail htable
              exact ⟨record, hmem, k, by simpa using hcut⟩
      | inr hcut =>
          obtain ⟨rest', hrest⟩ := exists_intercalate_cons [','] cell cells
          rw [hrest, List.append_assoc] at htable
          obtain ⟨record, hmem, hcut⟩ := cutShort_broken hcut.1 hcut.2 htable
          exact ⟨record, hmem, _, hcut⟩

/-- **The first broken record** of a table has a cell cut short. -/
theorem exists_broken_field
    (h : List.Forall₂ (List.Forall₂ fun cell text => Reads cell text ∨ Broken cell ∧ '\r' ∈ text)
      recs rows) (hne : ∀ cells ∈ recs, cells ≠ [])
    (hbroken : ¬ List.Forall₂ (List.Forall₂ Reads) recs rows)
    (records : List (List Text)) {table : List (List Text)}
    (htable : ((Reader.fresh records []).feed
      (['\n'].intercalate (recs.map ([','].intercalate ·)))).bind Reader.finish = some table) :
    ∃ i, ∃ record ∈ table[records.length + i]?, ∃ texts ∈ rows[i]?, ∃ k,
      CutShort record texts k := by
  induction h generalizing records with
  | nil => exact absurd .nil hbroken
  | @cons cells texts recs rows hrec hrecs ih =>
      by_cases hreads : List.Forall₂ Reads cells texts
      · have htail : ¬ List.Forall₂ (List.Forall₂ Reads) recs rows := fun h =>
          hbroken (.cons hreads h)
        obtain ⟨s, hfeed, hended, hrecords, hrecord, -⟩ :=
          feed_record hreads (hne cells (by simp)) records []
        cases recs with
        | nil =>
            cases hrecs
            exact absurd .nil htail
        | cons cells' recs =>
            rw [List.map_cons, List.map_cons, List.intercalate_cons_cons, ← List.map_cons,
              feed_lf hfeed hended, hrecords, hrecord] at htable
            obtain ⟨i, record, hmem, texts', htexts, hcut⟩ :=
              ih (fun cells hmem => hne cells (List.mem_cons_of_mem _ hmem)) htail
                (records ++ [texts]) htable
            refine ⟨i + 1, record, ?_, texts', by simpa using htexts, hcut⟩
            simpa [Nat.add_assoc, Nat.add_comm 1] using hmem
      · rw [List.map_cons] at htable
        obtain ⟨rest, hrest⟩ := exists_intercalate_cons ['\n'] ([','].intercalate cells)
          (recs.map ([','].intercalate ·))
        rw [hrest] at htable
        obtain ⟨record, hmem, hcut⟩ := exists_cutShort hrec hreads rest htable
        exact ⟨0, record, by simpa using hmem, texts, by simp, by simpa using hcut⟩

end Broken

end Cuttlefish.Csv
