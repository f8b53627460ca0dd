import Cuttlefish.Handlers
import Cuttlefish.Paging
import Cuttlefish.Search.Query
import Cuttlefish.Search.Scope

/-!
# Cuttlefish.Search.Results

What `SearchFiles` answers: the rows of the query, and the two ways in which
they become entries.

The server filters, sorts and cuts out the page; rows that sort equal come in
any order.  A query that joins `dir_stats` has the aggregates in its rows.
The plain one leaves them to `attachDirAggregates`, which looks up the
directories of the page.
-/

namespace Cuttlefish

open Sql

/-! ## columns -/

/-- A nullable number. -/
def optInt : Option Int → Value
  | none => .null
  | some n => .int n

/-- A nullable text. -/
def optText : Option Text → Value
  | none => .null
  | some t => .text t

/-- The columns of `dir_stats` a query can name. -/
def statsColumns : List Text :=
  ["s.total_size_bytes".toList, "s.file_count".toList, "s.mtime_first".toList,
    "s.mtime_last".toList, "s.atime_first".toList, "s.atime_last".toList,
    "s.ctime_first".toList, "s.ctime_last".toList]

def DirStatsRow.column (s : DirStatsRow) (name : Text) : Value :=
  if name = "s.total_size_bytes".toList then optInt s.totalSizeBytes
  else if name = "s.file_count".toList then optInt s.fileCount
  else if name = "s.mtime_first".toList then optInt s.mtimeFirst
  else if name = "s.mtime_last".toList then optInt s.mtimeLast
  else if name = "s.atime_first".toList then optInt s.atimeFirst
  else if name = "s.atime_last".toList then optInt s.atimeLast
  else if name = "s.ctime_first".toList then optInt s.ctimeFirst
  else if name = "s.ctime_last".toList then optInt s.ctimeLast
  else .null

/-- The columns of a result row; those of a table without a matching row are
NULL. -/
def EntryRow.column (r : EntryRow) : Text → Value :=
  searchRow r.file fun name =>
    if name = "u.name".toList then optText r.userName
    else if name = "g.name".toList then optText r.groupName
    else match r.stats with
      | none => .null
      | some s => s.column name

/-! ## the server -/

/-- An error of the server: the SQLSTATE and the message. -/
structure PgError where
  code : Text
  message : Text
  deriving DecidableEq, Repr

/-- What the database supplies: the matching operators, which patterns the
case-sensitive and the caseless one do not take, and how texts sort. -/
structure Server where
  matchers : Matchers
  patternError : (caseless : Bool) → Text → Option PgError
  textLe : Text → Text → Bool
  trans : ∀ a b c, textLe a b = true → textLe b c = true → textLe a c = true
  total : ∀ a b, (textLe a b || textLe b a) = true

/-- The order of values; NULL sorts behind everything else. -/
def Server.valueLe (server : Server) : Value → Value → Bool
  | _, .null => true
  | .null, _ => false
  | .int a, .int b => a ≤ b
  | .int _, .text _ => true
  | .text _, .int _ => false
  | .text a, .text b => server.textLe a b

theorem Server.valueLe_trans (server : Server) (a b c : Value) (hab : server.valueLe a b = true)
    (hbc : server.valueLe b c = true) : server.valueLe a c = true := by
  cases a <;> cases b <;> cases c <;> simp_all [Server.valueLe]
  · omega
  · exact server.trans _ _ _ hab hbc

theorem Server.valueLe_total (server : Server) (a b : Value) :
    (server.valueLe a b || server.valueLe b a) = true := by
  cases a <;> cases b <;> simp [Server.valueLe]
  · omega
  · simpa using server.total _ _

/-- `ORDER BY column ASC` or `DESC`. -/
def SearchRequest.rowLe (server : Server) (req : SearchRequest) (r r' : EntryRow) : Bool :=
  if req.descending then server.valueLe (r'.column req.sortCol) (r.column req.sortCol)
  else server.valueLe (r.column req.sortCol) (r'.column req.sortCol)

/-- `WHERE filter`. -/
def matchingRows (server : Server) (filter : Text) (args : List Value) (rows : List EntryRow) :
    List EntryRow :=
  rows.filter fun r => selects server.matchers r.column filter args

/-- A page the server may return for a request. -/
def SearchPage (server : Server) (req : SearchRequest) (filter : Text) (args : List Value)
    (rows page : List EntryRow) : Prop :=
  ∃ sorted, OrderedBy (req.rowLe server) (matchingRows server filter args rows) sorted ∧
    page = pageOf req.pageLimit.toNat req.pageOffset.toNat sorted

/-! ## scanning -/

/-- What the loop over a plain page has collected: the entries, and the
hashes and positions of the directories among them. -/
structure PlainScan where
  files : List FileInfo := []
  dirHashes : List Bytes := []
  dirIdx : List Nat := []
  deriving DecidableEq, Repr

def PlainScan.next (s : PlainScan) (r : EntryRow) : PlainScan where
  files := s.files ++ [r.info]
  dirHashes := if r.file.fileType = 2 then s.dirHashes ++ [r.file.pathHash] else s.dirHashes
  dirIdx := if r.file.fileType = 2 then s.dirIdx ++ [s.files.length] else s.dirIdx

/-- `byHash`: the position a hash was stored with last. -/
def PlainScan.byHash (s : PlainScan) (hash : Bytes) : Option Nat :=
  (s.dirHashes.zip s.dirIdx).reverse.lookup hash

/-- One row of the batch lookup. -/
def PlainScan.attach (s : PlainScan) (files : List FileInfo) (row : DirStatsRow) :
    List FileInfo :=
  match s.byHash row.pathHash with
  | none => files
  | some i =>
      if row.totalSizeBytes = none then files
      else files.modify i (·.withAggregates row.aggregates)

/-- `attachDirAggregates`, when the lookup returns `stats`. -/
def attachDirAggregates (s : PlainScan) (stats : List DirStatsRow) : List FileInfo :=
  stats.foldl s.attach s.files

/-- `WHERE path_hash = ANY($1)`. -/
def ApiDb.statsFor (db : ApiDb) (hashes : List Bytes) : List DirStatsRow :=
  db.dirStats.rows.filter fun s => hashes.any fun hash => s.pathHash = hash

def scanPlain (page : List EntryRow) : PlainScan := page.foldl PlainScan.next {}

/-- The entries of a plain page. -/
def plainResponse (page : List EntryRow) (stats : List DirStatsRow) : List FileInfo :=
  attachDirAggregates (scanPlain page) stats

/-- The entries of a page with statistics. -/
def joinedResponse (page : List EntryRow) : List FileInfo := page.filterMap (scanRow true)

end Cuttlefish
