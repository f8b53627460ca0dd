import Cuttlefish.FileBrowser
import Cuttlefish.IsoDate

/-!
# Cuttlefish.SearchPage.Columns

The columns of the search results, with the text each exports.

Numbers are exact, and a date is the text of `toISOString`, or an error.
-/

namespace Cuttlefish.Ui.SearchPage

/-! ## texts -/

def typeLabel (fileType : Int) : Text :=
  if fileType = 2 then "Directory".toList
  else if fileType = 1 then "File".toList
  else if fileType = 3 then "Symlink".toList
  else "Other".toList

/-- A directory's total, if it is known, and the size of anything else. -/
def effectiveSize (e : Entry) : Int :=
  if e.fileType = 2 then (e.aggregates.map (·.totalSize)).getD e.sizeBytes else e.sizeBytes

/-- The text of a time in seconds; 0 is no time. -/
def isoDate (epoch : Int) : Option Text :=
  if epoch ≠ 0 then toISOString (epoch * 1000) else some []

theorem isSome_isoDate {epoch : Int} :
    (isoDate epoch).isSome ↔ (epoch * 1000).natAbs ≤ maxTime := by
  unfold isoDate
  split_ifs with hzero
  · exact isSome_toISOString
  · simp [not_not.mp hzero]

/-! ## the columns -/

structure ResultColumn where
  key : Text
  label : Text
  csvLabel : Option Text := none
  sortKey : Option Text := none
  /-- The exported text, unless it throws. -/
  csv : Entry → Option Text

/-- A column of a directory's statistics; empty for everything else. -/
def aggregateColumn (key label : Text) (csvLabel : Option Text)
    (pick : DirAggregates → Option Text) : ResultColumn where
  key
  label
  csvLabel
  sortKey := some key
  csv e := match e.aggregates with
    | some a => pick a
    | none => some []

def dirTimeColumn (key label : String) (pick : DirAggregates → Int) : ResultColumn :=
  aggregateColumn key.toList label.toList none fun a => isoDate (pick a)

def columns : List ResultColumn :=
  [{ key := "path".toList, label := "Path".toList, sortKey := some "path".toList
     csv := fun e => some e.path },
    { key := "file_type".toList, label := "Type".toList, sortKey := some "file_type".toList
      csv := fun e => some (typeLabel e.fileType) },
    { key := "size_bytes".toList, label := "Size".toList
      csvLabel := some "Size (bytes)".toList, sortKey := some "size_bytes".toList
      csv := fun e => some (intText (effectiveSize e)) },
    { key := "user".toList, label := "Owner".toList, sortKey := some "uid".toList
      csv := fun e => some e.user },
    { key := "uid".toList, label := "UID".toList, sortKey := some "uid".toList
      csv := fun e => some (intText e.uid) },
    { key := "group".toList, label := "Group".toList, sortKey := some "gid".toList
      csv := fun e => some e.group },
    { key := "gid".toList, label := "GID".toList, sortKey := some "gid".toList
      csv := fun e => some (intText e.gid) },
    { key := "permissions".toList, label := "Permissions".toList
      csv := fun e => some e.perms },
    { key := "mtime".toList, label := "Modified".toList, sortKey := some "mtime".toList
      csv := fun e => isoDate e.mtime },
    { key := "atime".toList, label := "Accessed".toList, sortKey := some "atime".toList
      csv := fun e => isoDate e.atime },
    { key := "ctime".toList, label := "Changed".toList, sortKey := some "ctime".toList
      csv := fun e => isoDate e.ctime },
    aggregateColumn "dir_total_size".toList "Dir: Total Size".toList
      (some "Dir Total Size (bytes)".toList) fun a => some (intText a.totalSize),
    aggregateColumn "dir_file_count".toList "Dir: File Count".toList none
      fun a => some (intText a.fileCount),
    dirTimeColumn "dir_mtime_first" "Dir: Earliest Modified" (·.mtimeFirst),
    dirTimeColumn "dir_mtime_last" "Dir: Latest Modified" (·.mtimeLast),
    dirTimeColumn "dir_atime_first" "Dir: Earliest Accessed" (·.atimeFirst),
    dirTimeColumn "dir_atime_last" "Dir: Latest Accessed" (·.atimeLast),
    dirTimeColumn "dir_ctime_first" "Dir: Earliest Changed" (·.ctimeFirst),
    dirTimeColumn "dir_ctime_last" "Dir: Latest Changed" (·.ctimeLast)]

/-- The columns shown, in the order of `columns`. -/
def activeColumns (columnKeys : List Text) : List ResultColumn :=
  columns.filter fun c => c.key ∈ columnKeys

/-- The times of an entry, and of what is below it. -/
def times (e : Entry) : List Int :=
  [e.mtime, e.atime, e.ctime] ++
    match e.aggregates with
    | some a => [a.mtimeFirst, a.mtimeLast, a.atimeFirst, a.atimeLast, a.ctimeFirst, a.ctimeLast]
    | none => []

/-- An entry whose times are all in range has a text in every column. -/
theorem isSome_csv {e : Entry} (h : ∀ t ∈ times e, (t * 1000).natAbs ≤ maxTime) :
    ∀ c ∈ columns, (c.csv e).isSome := by
  have hdates : ∀ t ∈ times e, (isoDate t).isSome := fun t ht => isSome_isoDate.mpr (h t ht)
  unfold times at hdates
  simp only [columns, aggregateColumn, dirTimeColumn, List.forall_mem_cons]
  cases haggregates : e.aggregates with
  | none => simp_all
  | some a => simp_all

end Cuttlefish.Ui.SearchPage
