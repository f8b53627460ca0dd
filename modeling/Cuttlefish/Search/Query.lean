import Cuttlefish.Search

/-!
# Cuttlefish.Search.Query

The statement `SearchFiles` sends: the request with its defaults, and the
text around the filter.

The query joins `dir_stats` only if a rule or the sort order needs it; limit
and offset are bound behind the arguments of the filter.
-/

namespace Cuttlefish

open Sql

/-! ## the request -/

/-- The body of `POST /api/search`. -/
structure SearchRequest where
  rules : List SearchRule
  sortBy : Text := []
  order : Text := []
  limit : Int := 0
  offset : Int := 0
  deriving DecidableEq, Repr

/-- The columns the result may be ordered by. -/
def searchSortColumns : List (Text × Text) :=
  [("path".toList, "f.path".toList),
    ("size_bytes".toList, "f.size_bytes".toList),
    ("uid".toList, "f.uid".toList),
    ("gid".toList, "f.gid".toList),
    ("file_type".toList, "f.file_type".toList),
    ("mtime".toList, "f.mtime".toList),
    ("atime".toList, "f.atime".toList),
    ("ctime".toList, "f.ctime".toList),
    ("dir_total_size".toList, "s.total_size_bytes".toList),
    ("dir_file_count".toList, "s.file_count".toList),
    ("dir_mtime_first".toList, "s.mtime_first".toList),
    ("dir_mtime_last".toList, "s.mtime_last".toList),
    ("dir_atime_first".toList, "s.atime_first".toList),
    ("dir_atime_last".toList, "s.atime_last".toList),
    ("dir_ctime_first".toList, "s.ctime_first".toList),
    ("dir_ctime_last".toList, "s.ctime_last".toList)]

/-- The column a request is sorted by; `f.path` unless it names another. -/
def SearchRequest.sortCol (req : SearchRequest) : Text :=
  (searchSortColumns.lookup req.sortBy).getD "f.path".toList

/-- `strings.EqualFold(req.Order, "DESC")`: the long s folds to an S too. -/
def SearchRequest.descending (req : SearchRequest) : Bool :=
  req.order.map (fun c => if c = '\u017F' then 'S' else c.toUpper) = "DESC".toList

def SearchRequest.orderText (req : SearchRequest) : Text :=
  if req.descending then "DESC".toList else "ASC".toList

def searchMaxLimit : Int := 10000

def SearchRequest.pageLimit (req : SearchRequest) : Int :=
  if req.limit ≤ 0 ∨ searchMaxLimit < req.limit then 200 else req.limit

def SearchRequest.pageOffset (req : SearchRequest) : Int :=
  if req.offset < 0 then 0 else req.offset

/-- Is `dir_stats` part of the query? -/
def SearchRequest.needsDirStats (req : SearchRequest) : Bool :=
  "dir_".toList.isPrefixOf req.sortBy || req.rules.any fun r => "dir_".toList.isPrefixOf r.field

/-! ## the statement -/

/-- The query up to the WHERE clause, with `dir_stats` joined. -/
def selectWithStats : Text :=
  "\n\t\t\tSELECT f.path, f.path_raw, f.size_bytes, f.file_type, f.permissions,".toList ++
    "\n\t\t\t       f.uid, f.gid, u.name, g.name, f.mtime, f.atime, f.ctime,".toList ++
    "\n\t\t\t       s.total_size_bytes, s.file_count,".toList ++
    "\n\t\t\t       s.mtime_first, s.mtime_last,".toList ++
    "\n\t\t\t       s.atime_first, s.atime_last,".toList ++
    "\n\t\t\t       s.ctime_first, s.ctime_last".toList ++
    "\n\t\t\tFROM filesystem_index f".toList ++
    "\n\t\t\tLEFT JOIN identity_map u ON f.uid = u.id AND u.id_type = 'uid'".toList ++
    "\n\t\t\tLEFT JOIN identity_map g ON f.gid = g.id AND g.id_type = 'gid'".toList ++
    "\n\t\t\tLEFT JOIN dir_stats s ON f.path_hash = s.path_hash".toList ++
    "\n\t\t\tWHERE ".toList

/-- The query up to the WHERE clause, without `dir_stats`. -/
def selectPlain : Text :=
  "\n\t\t\tSELECT f.path, f.path_raw, f.size_bytes, f.file_type, f.permissions,".toList ++
    "\n\t\t\t       f.uid, f.gid, u.name, g.name, f.mtime, f.atime, f.ctime,".toList ++
    "\n\t\t\t       f.path_hash".toList ++
    "\n\t\t\tFROM filesystem_index f".toList ++
    "\n\t\t\tLEFT JOIN identity_map u ON f.uid = u.id AND u.id_type = 'uid'".toList ++
    "\n\t\t\tLEFT JOIN identity_map g ON f.gid = g.id AND g.id_type = 'gid'".toList ++
    "\n\t\t\tWHERE ".toList

def SearchRequest.selectText (req : SearchRequest) : Text :=
  if req.needsDirStats then selectWithStats else selectPlain

/-- The query behind the WHERE clause, up to its first placeholder. -/
def SearchRequest.orderBy (req : SearchRequest) : Text :=
  "\n\t\t\tORDER BY ".toList ++ req.sortCol ++ " ".toList ++ req.orderText ++
    "\n\t\t\tLIMIT ".toList

/-- The statement `SearchFiles` sends for a request of a caller, and its
arguments; limit and offset come last. -/
def searchQuery (float : Float64) (a : Access) (req : SearchRequest) :
    Except SearchError (Text × List Value) :=
  match searchFilter float a req.rules with
  | .error e => .error e
  | .ok (whereClause, args) =>
      .ok (req.selectText ++ whereClause ++ req.orderBy ++ "$".toList ++
          Nat.toDigits 10 (args.length + 1) ++ " OFFSET ".toList ++ "$".toList ++
          Nat.toDigits 10 (args.length + 2) ++ "\n\t\t".toList,
        args ++ [.int req.pageLimit, .int req.pageOffset])

end Cuttlefish
