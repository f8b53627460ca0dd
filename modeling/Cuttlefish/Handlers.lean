import Cuttlefish.Access
import Cuttlefish.Indexer
import Mathlib.Algebra.Group.Int.Defs

/-!
# Cuttlefish.Handlers

The read endpoints of `fs_api`: directory listings and the metadata of one
directory, with the aggregates of `dir_stats`.

A query is a join over the tables, and what the driver scans of a result row
depends on the Go type of the target: `sql.NullInt32` refuses a larger
number, and a row that cannot be scanned is logged and left out.  Statements
themselves succeed.  PostgreSQL returns the rows of a query without ORDER BY
in any order, so the handlers take the rows as an argument.
-/

namespace Cuttlefish

/-! ## tables -/

/-- A row of `dir_stats`; its columns may be NULL. -/
structure DirStatsRow where
  pathHash : Bytes
  totalSizeBytes : Option Int
  fileCount : Option Int
  mtimeFirst : Option Int
  mtimeLast : Option Int
  atimeFirst : Option Int
  atimeLast : Option Int
  ctimeFirst : Option Int
  ctimeLast : Option Int
  deriving DecidableEq, Repr

/-- `dir_stats`, keyed by `path_hash`. -/
abbrev DirStats := Table DirStatsRow.pathHash

/-- What the API reads. -/
structure ApiDb extends Db where
  dirStats : DirStats

/-- A result row: an entry, with the names and statistics joined to it. -/
structure EntryRow where
  file : IndexRow
  userName : Option Text
  groupName : Option Text
  stats : Option DirStatsRow := none
  deriving DecidableEq, Repr

/-- `FROM filesystem_index f LEFT JOIN identity_map u … LEFT JOIN identity_map g …`. -/
def fromEntries (db : ApiDb) : List EntryRow :=
  db.filesystemIndex.rows.flatMap fun f =>
    (db.identity.identityMap.leftJoin (f.uid, .uid)).flatMap fun u =>
      (db.identity.identityMap.leftJoin (f.gid, .gid)).map fun g =>
        { file := f, userName := u.map (·.name), groupName := g.map (·.name) }

/-- `… LEFT JOIN dir_stats s ON f.path_hash = s.path_hash`. -/
def fromEntriesWithStats (db : ApiDb) : List EntryRow :=
  (fromEntries db).flatMap fun r =>
    (db.dirStats.leftJoin r.file.pathHash).map fun s => { r with stats := s }

/-- The row of an entry. -/
def ApiDb.entryRow (db : ApiDb) (f : IndexRow) : EntryRow where
  file := f
  userName := (db.identity.identityMap.find? (f.uid, .uid)).map (·.name)
  groupName := (db.identity.identityMap.find? (f.gid, .gid)).map (·.name)

/-- The row of an entry, with its statistics. -/
def ApiDb.statsRow (db : ApiDb) (f : IndexRow) : EntryRow :=
  { db.entryRow f with stats := db.dirStats.find? f.pathHash }

/-- Identities are joined on their primary key, so every entry has one row. -/
theorem fromEntries_eq (db : ApiDb) :
    fromEntries db = db.filesystemIndex.rows.map db.entryRow := by
  simp only [fromEntries, Table.leftJoin_eq, List.flatMap_singleton, List.map_cons, List.map_nil]
  rw [List.map_eq_flatMap]
  rfl

theorem fromEntriesWithStats_eq (db : ApiDb) :
    fromEntriesWithStats db = db.filesystemIndex.rows.map db.statsRow := by
  simp only [fromEntriesWithStats, fromEntries_eq, Table.leftJoin_eq, List.map_cons, List.map_nil,
    List.flatMap_map]
  rw [List.map_eq_flatMap]
  rfl

/-! ## entries -/

/-- The aggregates of a directory, as the API reports them. -/
structure DirAggregates where
  totalSize : Int
  fileCount : Int
  mtimeFirst : Int
  mtimeLast : Int
  atimeFirst : Int
  atimeLast : Int
  ctimeFirst : Int
  ctimeLast : Int
  deriving DecidableEq, Repr

/-- An entry, as the API reports it. -/
structure FileInfo where
  path : Text
  pathRaw : Option Bytes
  sizeBytes : Int
  fileType : Int
  perms : Text
  uid : Int
  gid : Int
  user : Text
  group : Text
  mtime : Int
  atime : Int
  ctime : Int
  aggregates : Option DirAggregates := none
  deriving DecidableEq, Repr

/-- `fmt.Sprintf("%d", n)`. -/
def intText (n : Int) : Text :=
  if n < 0 then '-' :: Nat.toDigits 10 n.natAbs else Nat.toDigits 10 n.natAbs

/-- One octal digit as `rwx`. -/
def formatDigit (b : UInt8) : Text :=
  let d := b - 48
  [if d &&& 4 ≠ 0 then 'r' else '-', if d &&& 2 ≠ 0 then 'w' else '-',
    if d &&& 1 ≠ 0 then 'x' else '-']

/-- Three octal digits as `rwxrwxrwx`; anything else stays. -/
def formatPermissions (perm : Text) : Text :=
  if (utf8 perm).length ≠ 3 then perm else (utf8 perm).flatMap formatDigit

/-- The entry of a row, without aggregates.  An owner without a name is shown
by number. -/
def EntryRow.info (r : EntryRow) : FileInfo where
  path := r.file.path
  pathRaw := r.file.pathRaw
  sizeBytes := r.file.sizeBytes
  fileType := r.file.fileType
  perms := formatPermissions r.file.permissions
  uid := r.file.uid
  gid := r.file.gid
  user := r.userName.getD (intText r.file.uid)
  group := r.groupName.getD (intText r.file.gid)
  mtime := r.file.mtime
  atime := r.file.atime
  ctime := r.file.ctime

def FileInfo.withAggregates (f : FileInfo) (a : Option DirAggregates) : FileInfo :=
  { f with aggregates := a }

/-- The aggregates a row of `dir_stats` stands for, if its total is there; a
NULL column reads as 0. -/
def DirStatsRow.aggregates (s : DirStatsRow) : Option DirAggregates :=
  s.totalSizeBytes.map fun total =>
    { totalSize := total, fileCount := s.fileCount.getD 0
      mtimeFirst := s.mtimeFirst.getD 0, mtimeLast := s.mtimeLast.getD 0
      atimeFirst := s.atimeFirst.getD 0, atimeLast := s.atimeLast.getD 0
      ctimeFirst := s.ctimeFirst.getD 0, ctimeLast := s.ctimeLast.getD 0 }

/-! ## scanning -/

/-- A number an `int32` holds. -/
def FitsInt32 (n : Int) : Prop := -2 ^ 31 ≤ n ∧ n ≤ 2 ^ 31 - 1

instance : DecidablePred FitsInt32 := fun _ => inferInstanceAs (Decidable (_ ∧ _))

/-- The file count of a row of `dir_stats`, if any, scans into an
`sql.NullInt32`. -/
def DirStatsRow.CountFits (s : DirStatsRow) : Prop := ∀ n ∈ s.fileCount, FitsInt32 n

instance : DecidablePred DirStatsRow.CountFits :=
  fun s => inferInstanceAs (Decidable (∀ n ∈ s.fileCount, _))

/-- Scans joined statistics, the file count into an `sql.NullInt32`; none if
the scan fails. -/
def scanStats (stats : Option DirStatsRow) : Option (Option DirAggregates) :=
  match stats with
  | none => some none
  | some s => if s.CountFits then some s.aggregates else none

/-- Scans a row of a listing, with its statistics or without; none if the
scan fails. -/
def scanRow (includeStats : Bool) (r : EntryRow) : Option FileInfo :=
  if includeStats then (scanStats r.stats).map r.info.withAggregates else some r.info

/-! ## endpoints -/

/-- A request that is refused. -/
inductive ApiError where
  | badRequest (message : Text)
  | forbidden (message : Text)
  | notFound (message : Text)
  | conflict (message : Text)
  deriving DecidableEq, Repr

def ApiError.status : ApiError → Nat
  | .badRequest _ => 400
  | .forbidden _ => 403
  | .notFound _ => 404
  | .conflict _ => 409

def ApiError.message : ApiError → Text
  | .badRequest message => message
  | .forbidden message => message
  | .notFound message => message
  | .conflict message => message

/-- The hash of a path, as the indexer computes it. -/
def pathHash (d : Digest) (path : Bytes) : Bytes := (d.sha256 path).take pathHashLen

/-- `WHERE f.parent_hash = $1`. -/
def isChildOf (hash : Bytes) (r : EntryRow) : Bool := r.file.parentHash = some hash

/-- The query of a listing. -/
def childrenQuery (d : Digest) (db : ApiDb) (path : Bytes) (includeStats : Bool) :
    List EntryRow :=
  (if includeStats then fromEntriesWithStats db else fromEntries db).filter
    (isChildOf (pathHash d path))

/-- `SELECT EXISTS (SELECT 1 FROM filesystem_index WHERE path_hash = $1)`. -/
def ApiDb.indexed (db : ApiDb) (hash : Bytes) : Bool := (db.filesystemIndex.find? hash).isSome

/-- `GET /api/list`, when the query returns `rows`. -/
def listDirectory (d : Digest) (db : ApiDb) (a : Access) (path : Bytes) (includeStats : Bool)
    (rows : List EntryRow) : Except ApiError (List FileInfo) :=
  if path = [] then .error (.badRequest "path parameter is required".toList)
  else if ¬ a.allows path then .error (.forbidden "path outside your access".toList)
  else
    let files := rows.filterMap (scanRow includeStats)
    if files = [] ∧ ¬ db.indexed (pathHash d path) then
      .error (.notFound "Directory not found".toList)
    else .ok files

/-- `GET /api/file/stats`, which serves everything that is no directory. -/
def getFileStats (d : Digest) (db : ApiDb) (a : Access) (path : Bytes) :
    Except ApiError FileInfo :=
  if path = [] then .error (.badRequest "path parameter is required".toList)
  else if ¬ a.allows path then .error (.forbidden "path outside your access".toList)
  else
    match (fromEntries db).find? fun r => r.file.pathHash = pathHash d path with
    | none => .error (.notFound "File not found".toList)
    | some r =>
        if r.file.fileType = 2 then
          .error (.badRequest "The provided path is a directory".toList)
        else .ok r.info

/-- `GET /api/dir/stats`.  Statistics that cannot be scanned are left out. -/
def getDirStats (d : Digest) (db : ApiDb) (a : Access) (path : Bytes) (includeStats : Bool) :
    Except ApiError FileInfo :=
  if path = [] then .error (.badRequest "path parameter is required".toList)
  else if ¬ a.allows path then .error (.forbidden "path outside your access".toList)
  else
    match (fromEntries db).find? fun r => r.file.pathHash = pathHash d path with
    | none => .error (.notFound "Directory not found".toList)
    | some r =>
        if r.file.fileType ≠ 2 then
          .error (.badRequest "The provided path is not a directory".toList)
        else if includeStats then
          let stats := (scanStats (db.dirStats.find? (pathHash d path))).getD none
          .ok (r.info.withAggregates stats)
        else .ok r.info

end Cuttlefish
