import Cuttlefish.Handlers.Stats
import Cuttlefish.Search.Variants

/-!
# Cuttlefish.Handlers.Lists

The endpoints that answer in pages: the search, the storage totals of users
and groups, and the history of scans.

Each sorts by one column only, so PostgreSQL may return rows that agree in it
in another order for every page.  `pages_returnedOnce_iff` says when a client
still gets every row once.
-/

namespace Cuttlefish

open Sql

/-! ## tables -/

/-- A row of `user_stats`. -/
structure UserStatsRow where
  idType : IdType
  idValue : Int
  totalSizeBytes : Option Int
  fileCount : Option Int
  deriving DecidableEq, Repr

/-- `PRIMARY KEY (id_type, id_value)`. -/
def UserStatsRow.key (r : UserStatsRow) : IdType × Int := (r.idType, r.idValue)

/-- A row of `scan_sessions`; timestamps are in microseconds since the epoch. -/
structure ScanSessionRow where
  sessionId : Text
  scanType : Text
  status : Text
  startedAt : Option Int
  endedAt : Option Int
  filesScanned : Int
  deriving DecidableEq, Repr

/-- What the lists read. -/
structure ListDb extends ApiDb where
  userStats : Table UserStatsRow.key
  scanSessions : Table ScanSessionRow.sessionId

/-! ## users and groups -/

/-- The parameters of a list; a number that does not parse is as good as
absent. -/
structure ListRequest where
  sortBy : Text := []
  order : Text := []
  limit : Option Int := none
  offset : Option Int := none
  deriving DecidableEq, Repr

/-- A result row: the totals of a user or group, and its name. -/
structure IdentityTotals where
  stats : UserStatsRow
  name : Text
  deriving DecidableEq, Repr

/-- The entry of a user or group. -/
structure UserStats where
  idType : IdType
  idValue : Int
  totalSizeBytes : Int
  fileCount : Int
  name : Text
  deriving DecidableEq, Repr

/-- `COALESCE(i.name, CAST(s.id_value AS TEXT))`. -/
def ListDb.totalsOf (db : ListDb) (s : UserStatsRow) : IdentityTotals where
  stats := s
  name := ((db.identity.identityMap.find? (s.idValue, s.idType)).map (·.name)).getD
    (intText s.idValue)

/-- The ids a restricted user sees in a list: the uid that goes by the mapped
Unix name, or the gids it belongs to. -/
def ListDb.ownIds (db : ListDb) (idType : IdType) (unixUser : Text) : List Int :=
  match idType with
  | .uid => (db.identity.identityMap.rows.filter fun u =>
      u.idType = .uid ∧ u.name = unixUser).map (·.id)
  | .gid => db.identity.identityMembership.rows.flatMap fun m =>
      (db.identity.identityMap.rows.filter fun u =>
        u.id = m.uid ∧ u.idType = .uid ∧ u.name = unixUser).map fun _ => m.gid

/-- `WHERE s.id_type = … AND s.id_value IN …`. -/
def ListDb.inList (db : ListDb) (a : Access) (idType : IdType) (s : UserStatsRow) : Bool :=
  s.idType = idType &&
    (a.role ≠ .restricted || (db.ownIds idType a.unixUser).any fun id => s.idValue = id)

/-- The rows of a list of users or groups. -/
def ListDb.identityRows (db : ListDb) (a : Access) (idType : IdType) : List IdentityTotals :=
  (db.userStats.rows.filter (db.inList a idType)).map db.totalsOf

/-- The column a list is sorted by. -/
def ListRequest.sortValue (req : ListRequest) (r : IdentityTotals) : Value :=
  if req.sortBy = "file_count".toList then optInt r.stats.fileCount
  else if req.sortBy = "name".toList then .text r.name
  else optInt r.stats.totalSizeBytes

/-- Descending, unless the request asks for `ASC`. -/
def ListRequest.identityLe (req : ListRequest) (server : Server) (r r' : IdentityTotals) : Bool :=
  if req.order = "ASC".toList then server.valueLe (req.sortValue r) (req.sortValue r')
  else server.valueLe (req.sortValue r') (req.sortValue r)

/-- A page of `/api/user/list` or `/api/group/list`. -/
def IdentityPage (server : Server) (db : ListDb) (a : Access) (idType : IdType)
    (req : ListRequest) (page : List IdentityTotals) : Prop :=
  ∃ sorted, OrderedBy (req.identityLe server) (db.identityRows a idType) sorted ∧
    page = pageOf (req.limit.getD 100).toNat (req.offset.getD 0).toNat sorted

/-- Scans a row of a list; totals must not be NULL. -/
def scanUserStats (r : IdentityTotals) : Option UserStats :=
  match r.stats.totalSizeBytes, r.stats.fileCount with
  | some total, some count => some ⟨r.stats.idType, r.stats.idValue, total, count, r.name⟩
  | some _, none => none
  | none, _ => none

/-! ## scans -/

/-- The entry of a scan. -/
structure ScanSession where
  sessionId : Text
  scanType : Text
  status : Text
  startedAt : Int
  endedAt : Int
  filesScanned : Int
  deriving DecidableEq, Repr

/-- `EXTRACT(EPOCH FROM t)::bigint` rounds to the nearest second. -/
def epochSeconds (t : Int) : Int :=
  if 0 ≤ t then (t + 500000) / 1000000 else -((500000 - t) / 1000000)

/-- `ORDER BY started_at DESC`. -/
def startedLe (server : Server) (r r' : ScanSessionRow) : Bool :=
  server.valueLe (optInt r'.startedAt) (optInt r.startedAt)

/-- A page of `/api/scans`. -/
def ScansPage (server : Server) (db : ListDb) (req : ListRequest) (page : List ScanSessionRow) :
    Prop :=
  ∃ sorted, OrderedBy (startedLe server) db.scanSessions.rows sorted ∧
    page = pageOf (req.limit.getD 50).toNat (req.offset.getD 0).toNat sorted

/-- Scans a row of the history; a scan that has not ended shows 0. -/
def scanSession (r : ScanSessionRow) : Option ScanSession :=
  r.startedAt.map fun started =>
    ⟨r.sessionId, r.scanType, r.status, epochSeconds started, (r.endedAt.map epochSeconds).getD 0,
      r.filesScanned⟩

/-! ## search -/

/-- The rows a search may return. -/
def ApiDb.searchRows (db : ApiDb) (req : SearchRequest) : List EntryRow :=
  if req.needsDirStats then fromEntriesWithStats db else fromEntries db

/-- The entries of a page of a search; `stats` is what the lookup behind a
plain query returns. -/
def SearchRequest.response (req : SearchRequest) (page : List EntryRow)
    (stats : List DirStatsRow) : List FileInfo :=
  if req.needsDirStats then joinedResponse page else plainResponse page stats

theorem map_withAggregates_attach (s : PlainScan) (files : List FileInfo) (row : DirStatsRow) :
    (s.attach files row).map (·.withAggregates none) = files.map (·.withAggregates none) := by
  rw [PlainScan.attach]
  cases s.byHash row.pathHash with
  | none => rfl
  | some i =>
      dsimp only
      split_ifs
      · rfl
      · refine List.ext_getElem? fun j => ?_
        simp only [List.getElem?_map, List.getElem?_modify]
        cases files[j]? with
        | none => rfl
        | some f =>
            by_cases hij : i = j
            · simp [hij, FileInfo.withAggregates]
            · simp [hij]

/-- What the lookup finds decorates the entries of the page, it adds and
drops none. -/
theorem map_withAggregates_response (req : SearchRequest) (page : List EntryRow)
    (stats : List DirStatsRow) :
    (req.response page stats).map (·.withAggregates none) =
      (page.filterMap (scanRow req.needsDirStats)).map (·.withAggregates none) := by
  rw [SearchRequest.response]
  cases req.needsDirStats with
  | true => rfl
  | false =>
      have hbare : page.filterMap (scanRow false) = page.map EntryRow.info :=
        List.filterMap_eq_map_iff_forall_eq_some.mpr fun r _ => rfl
      rw [if_neg (by simp), hbare, plainResponse, attachDirAggregates, ← files_scanPlain page]
      generalize (scanPlain page).files = files
      induction stats generalizing files with
      | nil => rfl
      | cons row stats ih => rw [List.foldl_cons, ih, map_withAggregates_attach]

/-- Page `k` of a search, `limit` rows a page. -/
def SearchRequest.atPage (req : SearchRequest) (limit k : Nat) : SearchRequest :=
  { req with limit := limit, offset := (k * limit : Nat) }

def ListRequest.atPage (req : ListRequest) (limit k : Nat) : ListRequest :=
  { req with limit := some (limit : Int), offset := some ((k * limit : Nat) : Int) }

/-! ## orders -/

section Order

variable {server : Server} {db : ListDb} {a : Access} {idType : IdType} {limit : Nat}

theorem SearchRequest.rowLe_trans (req : SearchRequest) (x y z : EntryRow)
    (hxy : req.rowLe server x y = true) (hyz : req.rowLe server y z = true) :
    req.rowLe server x z = true := by
  rw [SearchRequest.rowLe] at *
  split_ifs at *
  · exact server.valueLe_trans _ _ _ hyz hxy
  · exact server.valueLe_trans _ _ _ hxy hyz

theorem SearchRequest.rowLe_total (req : SearchRequest) (x y : EntryRow) :
    (req.rowLe server x y || req.rowLe server y x) = true := by
  rw [SearchRequest.rowLe, SearchRequest.rowLe]
  split_ifs
  · exact server.valueLe_total _ _
  · exact server.valueLe_total _ _

theorem ListRequest.identityLe_trans (req : ListRequest) (x y z : IdentityTotals)
    (hxy : req.identityLe server x y = true) (hyz : req.identityLe server y z = true) :
    req.identityLe server x z = true := by
  rw [ListRequest.identityLe] at *
  split_ifs at *
  · exact server.valueLe_trans _ _ _ hxy hyz
  · exact server.valueLe_trans _ _ _ hyz hxy

theorem ListRequest.identityLe_total (req : ListRequest) (x y : IdentityTotals) :
    (req.identityLe server x y || req.identityLe server y x) = true := by
  rw [ListRequest.identityLe, ListRequest.identityLe]
  split_ifs
  · exact server.valueLe_total _ _
  · exact server.valueLe_total _ _

theorem startedLe_trans (x y z : ScanSessionRow) (hxy : startedLe server x y = true)
    (hyz : startedLe server y z = true) : startedLe server x z = true :=
  server.valueLe_trans _ _ _ hyz hxy

theorem startedLe_total (x y : ScanSessionRow) :
    (startedLe server x y || startedLe server y x) = true :=
  server.valueLe_total _ _

/-! ## rows -/

theorem nodup_searchRows (db : ApiDb) (req : SearchRequest) : (db.searchRows req).Nodup := by
  have hkeys : ((db.searchRows req).map fun r => r.file.pathHash).Nodup := by
    rw [ApiDb.searchRows]
    split_ifs
    · rw [fromEntriesWithStats_eq_map, List.map_map]
      exact nodup_pathHash_fromEntries db
    · exact nodup_pathHash_fromEntries db
  exact hkeys.of_map _

theorem nodup_identityRows (db : ListDb) (a : Access) (idType : IdType) :
    (db.identityRows a idType).Nodup := by
  have hkeys : ((db.identityRows a idType).map fun r => r.stats.key).Nodup := by
    rw [ListDb.identityRows, List.map_map]
    exact db.userStats.nodup.sublist (List.filter_sublist.map _)
  exact hkeys.of_map _

/-! ## pages -/

/-- A page size up to the maximum is taken as it is. -/
theorem searchPage_atPage {req : SearchRequest} {filter : Text} {args : List Value}
    {rows page : List EntryRow} (hlimit : 0 < limit ∧ limit ≤ 10000) (k : Nat) :
    SearchPage server (req.atPage limit k) filter args rows page ↔
      ∃ sorted, OrderedBy (req.rowLe server) (matchingRows server filter args rows) sorted ∧
        page = pageOf limit (k * limit) sorted := by
  have hpageLimit : (req.atPage limit k).pageLimit.toNat = limit := by
    have hin : ¬ ((limit : Int) ≤ 0 ∨ searchMaxLimit < (limit : Int)) := by
      rw [searchMaxLimit]
      omega
    rw [SearchRequest.pageLimit, SearchRequest.atPage, if_neg hin, Int.toNat_natCast]
  have hpageOffset : (req.atPage limit k).pageOffset.toNat = k * limit := by
    have hin : ¬ ((k * limit : Nat) : Int) < 0 := by omega
    rw [SearchRequest.pageOffset, SearchRequest.atPage, if_neg hin, Int.toNat_natCast]
  rw [SearchPage, hpageLimit, hpageOffset]
  rfl

theorem identityPage_atPage {req : ListRequest} {page : List IdentityTotals} (k : Nat) :
    IdentityPage server db a idType (req.atPage limit k) page ↔
      ∃ sorted, OrderedBy (req.identityLe server) (db.identityRows a idType) sorted ∧
        page = pageOf limit (k * limit) sorted := Iff.rfl

theorem scansPage_atPage {req : ListRequest} {page : List ScanSessionRow} (k : Nat) :
    ScansPage server db (req.atPage limit k) page ↔
      ∃ sorted, OrderedBy (startedLe server) db.scanSessions.rows sorted ∧
        page = pageOf limit (k * limit) sorted := Iff.rfl

end Order

/-! ## every row once -/

/-- **When the pages return every row once**: exactly if every row scans and
no page boundary falls among rows that agree in the sort column. -/
theorem pages_returnedOnce_iff (server : Server) (db : ListDb) {limit : Nat}
    (hlimit : 1 ≤ limit ∧ limit ≤ 10000) :
    (∀ (float : Float64) (a : Access) (req : SearchRequest) (filter : Text) (args : List Value),
      searchFilter float a req.rules = .ok (filter, args) →
        (ReturnedOnce (fun k => SearchPage server (req.atPage limit k) filter args
            (db.searchRows req)) (scanRow req.needsDirStats)
            (matchingRows server filter args (db.searchRows req)) ↔
          (∀ r ∈ matchingRows server filter args (db.searchRows req),
            (scanRow req.needsDirStats r).isSome = true) ∧
          NoTieSplit (req.rowLe server) limit
            (matchingRows server filter args (db.searchRows req)))) ∧
    (∀ (a : Access) (idType : IdType) (req : ListRequest),
      ReturnedOnce (fun k => IdentityPage server db a idType (req.atPage limit k)) scanUserStats
          (db.identityRows a idType) ↔
        (∀ r ∈ db.identityRows a idType, (scanUserStats r).isSome = true) ∧
        NoTieSplit (req.identityLe server) limit (db.identityRows a idType)) ∧
    ∀ req : ListRequest,
      ReturnedOnce (fun k => ScansPage server db (req.atPage limit k)) scanSession
          db.scanSessions.rows ↔
        (∀ r ∈ db.scanSessions.rows, (scanSession r).isSome = true) ∧
        NoTieSplit (startedLe server) limit db.scanSessions.rows := by
  have hpos : 0 < limit := hlimit.1
  refine ⟨fun float a req filter args _ => ?_, fun a idType req => ?_, fun req => ?_⟩
  · have hrows : (matchingRows server filter args (db.searchRows req)).Nodup :=
      (nodup_searchRows db.toApiDb req).filter _
    exact returnedOnce_iff req.rowLe_trans req.rowLe_total hpos hrows fun k _ =>
      searchPage_atPage hlimit k
  · exact returnedOnce_iff req.identityLe_trans req.identityLe_total hpos
      (nodup_identityRows db a idType) fun k _ => identityPage_atPage k
  · exact returnedOnce_iff startedLe_trans startedLe_total hpos (db.scanSessions.nodup.of_map _)
      fun k _ => scansPage_atPage k

/-! ## a row that is never returned -/

/-- A file of root's. -/
def sampleFile (name : Text) (hash : UInt8) : IndexRow :=
  ⟨name, none, [hash], none, 0, 1, "644".toList, 0, 0, 0, 0, 0, []⟩

def sampleFiles : ListDb where
  filesystemIndex := ⟨[sampleFile "/a".toList 1, sampleFile "/b".toList 2], by decide⟩
  identity := ⟨Table.empty, Table.empty⟩
  dirStats := Table.empty
  userStats := Table.empty
  scanSessions := Table.empty

/-- Root's files, sorted by owner. -/
def sampleByOwner : SearchRequest := { sampleOwned with sortBy := "uid".toList }

/-- The order the server chooses for page `k`. -/
def sampleOrder (k : Nat) : List EntryRow :=
  let rows := fromEntries sampleFiles.toApiDb
  if k = 1 then rows.reverse else rows

theorem orderedBy_sampleOrder (k : Nat) :
    OrderedBy (sampleByOwner.rowLe sampleServer)
      (matchingRows sampleServer sampleOwnedFilter [.int 0] (fromEntries sampleFiles.toApiDb))
      (sampleOrder k) := by
  have hmatching : matchingRows sampleServer sampleOwnedFilter [.int 0]
      (fromEntries sampleFiles.toApiDb) = fromEntries sampleFiles.toApiDb := by decide +kernel
  have hties : ∀ x ∈ fromEntries sampleFiles.toApiDb, ∀ y ∈ fromEntries sampleFiles.toApiDb,
      sampleByOwner.rowLe sampleServer x y = true := by decide +kernel
  have hperm : (sampleOrder k).Perm (fromEntries sampleFiles.toApiDb) := by
    rw [sampleOrder]
    split_ifs
    · exact List.reverse_perm _
    · exact List.Perm.refl _
  refine ⟨hmatching ▸ hperm, List.pairwise_of_forall_mem_list fun x hx y hy => ?_⟩
  exact hties x (hperm.subset hx) y (hperm.subset hy)

/-- Asked for one row a page, the server may return `/a`, `/a` again, and
nothing more; `/b` is lost. -/
theorem tied_row_lost :
    searchFilter sampleFloat (sampleCaller ["admins".toList] []) sampleByOwner.rules =
        .ok (sampleOwnedFilter, [.int 0]) ∧
      (∀ k, SearchPage sampleServer (sampleByOwner.atPage 1 k) sampleOwnedFilter [.int 0]
        (sampleFiles.searchRows sampleByOwner) (pageOf 1 k (sampleOrder k))) ∧
      (∀ k, ∀ r ∈ pageOf 1 k (sampleOrder k), r.file.path = "/a".toList) ∧
      ∃ r ∈ matchingRows sampleServer sampleOwnedFilter [.int 0]
        (sampleFiles.searchRows sampleByOwner), r.file.path = "/b".toList := by
  refine ⟨searchFilter_sampleOwned, fun k => ?_, fun k => ?_, by decide +kernel⟩
  · rw [searchPage_atPage (by decide)]
    exact ⟨sampleOrder k, orderedBy_sampleOrder k, by rw [Nat.mul_one]⟩
  · cases k with
    | zero => decide
    | succ k =>
        cases k with
        | zero => decide
        | succ k =>
            have hlength : (sampleOrder (k + 2)).length ≤ k + 2 := by
              have hrows : (sampleOrder (k + 2)).length = 2 := by
                simp [sampleOrder, fromEntries_eq, sampleFiles]
              omega
            rw [pageOf, List.drop_of_length_le hlength]
            simp

/-- Two scans, begun a second apart. -/
def sampleHistory : ListDb :=
  { sampleFiles with
    scanSessions := ⟨[⟨"s1".toList, "indexer".toList, "success".toList, some 0, some 900000, 2⟩,
      ⟨"s2".toList, "aggregator".toList, "running".toList, some 1000000, none, 0⟩], by decide⟩ }

theorem pages_returnedOnce_iff_history :
    ReturnedOnce (fun k => ScansPage sampleServer sampleHistory (({} : ListRequest).atPage 1 k))
      scanSession sampleHistory.scanSessions.rows := by
  have hstrict : NoTieSplit (startedLe sampleServer) 1 sampleHistory.scanSessions.rows :=
    noTieSplit_of_strict startedLe_trans startedLe_total (by decide) (by decide) (by decide)
  have hlimit : 1 ≤ 1 ∧ 1 ≤ 10000 := by decide
  exact ((pages_returnedOnce_iff sampleServer sampleHistory hlimit).2.2 {}).mpr
    ⟨by decide, hstrict⟩

end Cuttlefish
