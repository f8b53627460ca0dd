import Cuttlefish.Handlers.Scanned
import Cuttlefish.Search.Answers

/-!
# Cuttlefish.Handlers.Confined

What a restricted caller can learn from the path endpoints: the listing, the
two metadata endpoints and the search.

`answers_confined` compares two databases that differ anywhere outside the
caller's prefixes, which are held against paths as they are shown.  Whatever is asked, an answer that the one may give is an
answer that the other may give, error texts and the order of a page included,
so that nothing outside shows in any of them.

The user and group lists are not among the endpoints here: they report what an
owner has in the whole index.
-/

namespace Cuttlefish

open Sql

/-! ## requests -/

/-- A request for entries of the index. -/
inductive ReadRequest where
  /-- `GET /api/list` -/
  | list (path : Bytes) (includeStats : Bool)
  /-- `GET /api/file/stats` -/
  | fileStats (path : Bytes)
  /-- `GET /api/dir/stats` -/
  | dirStats (path : Bytes) (includeStats : Bool)
  /-- `POST /api/search` -/
  | search (req : SearchRequest)

/-- The path a request names, if it names one. -/
def ReadRequest.path? : ReadRequest → Option Bytes
  | .list path _ => some path
  | .fileStats path => some path
  | .dirStats path _ => some path
  | .search _ => none

def ReadAnswer.ofFiles : Except ApiError (List FileInfo) → ReadAnswer
  | .ok found => .files found
  | .error e => .refused e

def ReadAnswer.ofFile : Except ApiError FileInfo → ReadAnswer
  | .ok found => .file found
  | .error e => .refused e

/-- The answers a database may give to a request of a caller. -/
def Answers (d : Digest) (float : Float64) (server : Server) (db : ApiDb) (a : Access) :
    ReadRequest → ReadAnswer → Prop
  | .list path includeStats, ans => ∃ rows, rows.Perm (childrenQuery d db path includeStats) ∧
      ans = .ofFiles (listDirectory d db a path includeStats rows)
  | .fileStats path, ans => ans = .ofFile (getFileStats d db a path)
  | .dirStats path includeStats, ans => ans = .ofFile (getDirStats d db a path includeStats)
  | .search req, ans => AnswersSearch float server db a req ans

/-! ## what a caller may see -/

/-- One of the caller's prefixes covers what the path is rendered as. -/
def IndexRow.VisibleTo (a : Access) (x : IndexRow) : Prop :=
  CoveredBy (a.prefixes.map utf8) (utf8 x.path)

/-- Two databases with the same visible entries, under the same names and with
the same statistics. -/
structure SameWithin (a : Access) (db db' : ApiDb) : Prop where
  mem_iff : ∀ x : IndexRow, x.VisibleTo a → (x ∈ db.filesystemIndex ↔ x ∈ db'.filesystemIndex)
  row_eq : ∀ x ∈ db.filesystemIndex, x.VisibleTo a → db.statsRow x = db'.statsRow x

theorem SameWithin.symm {a : Access} {db db' : ApiDb} (h : SameWithin a db db') :
    SameWithin a db' db where
  mem_iff x hx := (h.mem_iff x hx).symm
  row_eq x hmem hx := (h.row_eq x ((h.mem_iff x hx).mpr hmem) hx).symm

/-- An index that any scans, crashes and clean-ups of paths in play led to. -/
structure Scanned (d : Digest) (paths : Set Bytes) (db : ApiDb) : Prop where
  inPlay : PathsInPlay d paths
  reachable : ∃ scan, Reachable (ScanDb.next d) (FromWalk paths) ScanDb.init scan ∧
    db.filesystemIndex = scan.index

theorem Scanned.linked {d : Digest} {paths : Set Bytes} {db : ApiDb} (h : Scanned d paths db) :
    ∀ x ∈ db.filesystemIndex, x.Linked d paths := by
  obtain ⟨scan, hreach, hdb⟩ := h.reachable
  rw [hdb]
  exact linked_of_reachable h.inPlay.free hreach

/-! ## rows -/

/-- The row of an entry, with its statistics or without. -/
def ApiDb.rowOf (db : ApiDb) (includeStats : Bool) (x : IndexRow) : EntryRow :=
  if includeStats then db.statsRow x else db.entryRow x

theorem joined_eq (db : ApiDb) (includeStats : Bool) :
    (if includeStats then fromEntriesWithStats db else fromEntries db) =
      db.filesystemIndex.rows.map (db.rowOf includeStats) := by
  cases includeStats with
  | true => exact fromEntriesWithStats_eq db
  | false => exact fromEntries_eq db

@[simp] theorem file_rowOf (db : ApiDb) (includeStats : Bool) (x : IndexRow) :
    (db.rowOf includeStats x).file = x := by
  cases includeStats <;> rfl

namespace SameWithin

variable {a : Access} {db db' : ApiDb} (h : SameWithin a db db')
include h

theorem rowOf_eq {x : IndexRow} (hx : x ∈ db.filesystemIndex) (hvisible : x.VisibleTo a)
    (includeStats : Bool) : db.rowOf includeStats x = db'.rowOf includeStats x := by
  have hrow := h.row_eq x hx hvisible
  cases includeStats with
  | true => exact hrow
  | false => exact congrArg (fun r : EntryRow => { r with stats := none }) hrow

theorem dirStats_eq {x : IndexRow} (hx : x ∈ db.filesystemIndex) (hvisible : x.VisibleTo a) :
    db.dirStats.find? x.pathHash = db'.dirStats.find? x.pathHash :=
  congrArg EntryRow.stats (h.row_eq x hx hvisible)

/-- **A query that selects visible entries only** has the same rows in both. -/
theorem filter_perm (includeStats : Bool) {p : EntryRow → Bool}
    (hp : ∀ x ∈ db.filesystemIndex, p (db.rowOf includeStats x) = true → x.VisibleTo a)
    (hp' : ∀ x ∈ db'.filesystemIndex, p (db'.rowOf includeStats x) = true → x.VisibleTo a) :
    ((if includeStats then fromEntriesWithStats db else fromEntries db).filter p).Perm
      ((if includeStats then fromEntriesWithStats db' else fromEntries db').filter p) := by
  have hselected : (db.filesystemIndex.rows.filter (p ∘ db.rowOf includeStats)).Perm
      (db'.filesystemIndex.rows.filter (p ∘ db'.rowOf includeStats)) := by
    refine (List.perm_ext_iff_of_nodup ?_ ?_).mpr fun x => ?_
    · exact (List.Nodup.of_map _ db.filesystemIndex.nodup).filter _
    · exact (List.Nodup.of_map _ db'.filesystemIndex.nodup).filter _
    · rw [List.mem_filter, List.mem_filter, Function.comp_apply, Function.comp_apply]
      constructor
      · intro hx
        have hvisible := hp x hx.1 hx.2
        exact ⟨(h.mem_iff x hvisible).mp hx.1, h.rowOf_eq hx.1 hvisible includeStats ▸ hx.2⟩
      · intro hx
        have hvisible := hp' x hx.1 hx.2
        exact ⟨(h.mem_iff x hvisible).mpr hx.1, h.symm.rowOf_eq hx.1 hvisible includeStats ▸ hx.2⟩
  rw [joined_eq, joined_eq, List.filter_map, List.filter_map]
  refine List.Perm.trans (List.Perm.of_eq ?_) (hselected.map _)
  refine List.map_congr_left fun x hx => ?_
  obtain ⟨hmem, hselects⟩ := List.mem_filter.mp hx
  exact h.rowOf_eq hmem (hp x hmem hselects) includeStats

end SameWithin

/-- Pages are cut out of whatever order the matching rows are sorted into. -/
theorem searchPage_of_perm {server : Server} {req : SearchRequest} {filter : Text}
    {args : List Value} {rows rows' page : List EntryRow}
    (hrows : (matchingRows server filter args rows).Perm (matchingRows server filter args rows'))
    (h : SearchPage server req filter args rows page) :
    SearchPage server req filter args rows' page := by
  obtain ⟨sorted, hsorted, hpage⟩ := h
  exact ⟨sorted, ⟨hsorted.perm.trans hrows, hsorted.pairwise⟩, hpage⟩

/-- A page shows matching rows only. -/
theorem SearchPage.subset {server : Server} {req : SearchRequest} {filter : Text}
    {args : List Value} {rows page : List EntryRow}
    (h : SearchPage server req filter args rows page) :
    page ⊆ matchingRows server filter args rows := by
  obtain ⟨sorted, hsorted, rfl⟩ := h
  exact fun r hr => hsorted.perm.subset (List.mem_of_mem_drop (List.mem_of_mem_take hr))

/-! ## what is selected -/

theorem IndexRow.Linked.absolute {d : Digest} {emitted : Set Bytes} {x : IndexRow}
    (h : x.Linked d emitted) : [slash] <+: x.raw := by
  obtain ⟨raw, root, names, hroot, hpath⟩ := h.walked
  rw [hpath]
  exact (absolute_of_normalizeScanRoot hroot).trans (covers_joinNames root names).isPrefix

/-- Where a prefix covers a path, it covers what the path is rendered as. -/
theorem IndexRow.Linked.visible {d : Digest} {emitted : Set Bytes} {x : IndexRow}
    (h : x.Linked d emitted) {a : Access} (hcovered : CoveredBy (a.prefixes.map utf8) x.raw) :
    x.VisibleTo a := by
  obtain ⟨root, hroot, hcovers⟩ := hcovered
  obtain ⟨p, -, rfl⟩ := List.mem_map.mp hroot
  refine ⟨utf8 p, hroot, ?_⟩
  rw [h.path_eq, scanRootCovers_fromUtf8Lossy_iff h.absolute]
  exact ⟨utf8 p, hcovers, fromUtf8Lossy_utf8 p⟩

theorem IndexRow.Linked.absolute_path {d : Digest} {emitted : Set Bytes} {x : IndexRow}
    (h : x.Linked d emitted) : [slash] <+: utf8 x.path := by
  rw [h.path_eq]
  exact isPrefix_fromUtf8Lossy h.absolute

theorem path_column (r : EntryRow) : r.column pathColumn = .text r.file.path := by
  simp [EntryRow.column, searchRow]

/-- **What a search selects**: the rows that meet the rules and, for a
restricted caller, whose path one of the prefixes covers. -/
theorem selects_searchFilter_iff {float : Float64} {a : Access} {rules : List SearchRule}
    {filter : Text} {args : List Value} (h : searchFilter float a rules = .ok (filter, args))
    {m : Matchers} {row : Text → Value} {t : Text} (hpath : row pathColumn = .text t)
    (habs : [slash] <+: utf8 t) :
    selects m row filter args = true ↔
      RulesHold float m row (andRuns rules) ∧
        (a.role = .restricted → CoveredBy (a.prefixes.map utf8) (utf8 t)) := by
  have hne : rules ≠ [] := by
    rintro rfl
    cases h
  rw [searchFilter, if_neg hne] at h
  cases hbuild : buildSearchWhere float rules with
  | error e =>
      rw [hbuild] at h
      cases h
  | ok built =>
      obtain ⟨clause, bound⟩ := built
      rw [hbuild] at h
      dsimp only at h
      split_ifs at h with hrole
      · obtain ⟨e, he, hmeans⟩ := buildSearchWhere_text hne hbuild
        obtain ⟨s, hs⟩ := scopeClause_text a.prefixes bound
        obtain ⟨more, hmore⟩ := hs.args_prefix
        have hscope := hs.eval ⟨m, row, (scopeClause a.prefixes bound).2⟩ t rfl hpath habs
        have hrules := hmeans m row more
        rw [hmore] at hrules
        cases h
        rw [(standsFor_filter he hs).selects_iff, Expr.eval, Truth.and_eq_true, hscope, Expr.eval,
          hrules]
        exact and_congr_right fun _ => ⟨fun hcovered _ => hcovered, fun hcovered => hcovered hrole⟩
      · cases h
        rw [selects_iff_rulesHold hne hbuild]
        exact ⟨fun hrules => ⟨hrules, fun hrestricted => absurd hrestricted hrole⟩, And.left⟩

section Selected

variable {d : Digest} {paths : Set Bytes} {db : ApiDb} {a : Access} (hrole : a.role = .restricted)
  (hscan : Scanned d paths db)
include hrole

theorem ne_nil_of_allows {path : Bytes} (hallows : a.allows path = true) : path ≠ [] := by
  rintro rfl
  have habs := (Access.allows_eq_true hrole hallows).1
  simp at habs

include hscan

/-- The children of a directory that may be seen. -/
theorem visible_of_child {dir : Bytes} (hallows : a.allows dir = true) (hdir : dir ∈ paths)
    {x : IndexRow} (hx : x ∈ db.filesystemIndex)
    (hparent : x.parentHash = some (pathHash d dir)) : x.VisibleTo a := by
  obtain ⟨root, hroot, hcovers⟩ :=
    (allows_iff_coveredBy hrole (Access.allows_eq_true hrole hallows)).mp hallows
  obtain ⟨name, hname⟩ := (parentHash_eq_iff (hscan.linked x hx)
    (ne_nil_of_allows hrole hallows)
    (hscan.inPlay.free.mono (hscan.inPlay.inPlay_subset hdir))).mp hparent
  exact (hscan.linked x hx).visible
    ⟨root, hroot, hname ▸ hcovers.trans (covers_under name dir)⟩

/-- The entry under the hash of a path that may be seen. -/
theorem visible_of_pathHash {path : Bytes} (hallows : a.allows path = true) (hpath : path ∈ paths)
    {x : IndexRow} (hx : x ∈ db.filesystemIndex) (hhash : x.pathHash = pathHash d path) :
    x.VisibleTo a := by
  have hlinked := hscan.linked x hx
  have hraw : x.raw = path :=
    hscan.inPlay.free hlinked.emitted hpath (hlinked.pathHash_eq.symm.trans hhash)
  exact hlinked.visible (hraw ▸
    (allows_iff_coveredBy hrole (Access.allows_eq_true hrole hallows)).mp hallows)

/-- What the filter of a search lets through. -/
theorem visible_of_selects {float : Float64} {rules : List SearchRule} {filter : Text}
    {args : List Value} (hfilter : searchFilter float a rules = .ok (filter, args)) {m : Matchers}
    {r : EntryRow} (hx : r.file ∈ db.filesystemIndex)
    (hselects : selects m r.column filter args = true) : r.file.VisibleTo a :=
  ((selects_searchFilter_iff hfilter (path_column r)
    (hscan.linked r.file hx).absolute_path).mp hselects).2 hrole

end Selected

/-! ## endpoints -/

section Endpoints

variable {d : Digest} {paths : Set Bytes} {db db' : ApiDb} {a : Access}
  (hrole : a.role = .restricted) (hscan : Scanned d paths db) (hscan' : Scanned d paths db')
  (hsame : SameWithin a db db')
include hrole hscan hscan' hsame

/-- The index has the same entry under the path. -/
theorem SameWithin.find_eq {path : Bytes} (hallows : a.allows path = true) (hpath : path ∈ paths) :
    db.filesystemIndex.find? (pathHash d path) = db'.filesystemIndex.find? (pathHash d path) := by
  refine Option.ext fun x => ?_
  rw [Table.find?_eq_some, Table.find?_eq_some]
  constructor
  · intro h
    have hvisible := visible_of_pathHash hrole hscan hallows hpath h.1 h.2
    exact ⟨(hsame.mem_iff x hvisible).mp h.1, h.2⟩
  · intro h
    have hvisible := visible_of_pathHash hrole hscan' hallows hpath h.1 h.2
    exact ⟨(hsame.mem_iff x hvisible).mpr h.1, h.2⟩

/-- It has the same row. -/
theorem SameWithin.find_row_eq {path : Bytes} (hallows : a.allows path = true)
    (hpath : path ∈ paths) :
    ((fromEntries db).find? fun r => r.file.pathHash = pathHash d path) =
      (fromEntries db').find? fun r => r.file.pathHash = pathHash d path := by
  have hfind : ∀ db : ApiDb, ((fromEntries db).find? fun r => r.file.pathHash = pathHash d path) =
      (db.filesystemIndex.find? (pathHash d path)).map db.entryRow := by
    intro db
    rw [fromEntries_eq, List.find?_map]
    rfl
  rw [hfind, hfind, ← hsame.find_eq hrole hscan hscan' hallows hpath]
  refine Option.map_congr fun x hx => ?_
  obtain ⟨hmem, hhash⟩ := Table.find?_eq_some.mp hx
  exact hsame.rowOf_eq hmem (visible_of_pathHash hrole hscan hallows hpath hmem hhash) false

/-- The same entries are listed. -/
theorem SameWithin.children_perm {dir : Bytes} (hallows : a.allows dir = true) (hdir : dir ∈ paths)
    (includeStats : Bool) :
    (childrenQuery d db dir includeStats).Perm (childrenQuery d db' dir includeStats) := by
  have hchild : ∀ {db : ApiDb}, Scanned d paths db → ∀ x ∈ db.filesystemIndex,
      isChildOf (pathHash d dir) (db.rowOf includeStats x) = true → x.VisibleTo a := by
    intro db hscan x hx hisChild
    rw [isChildOf, decide_eq_true_eq, file_rowOf] at hisChild
    exact visible_of_child hrole hscan hallows hdir hx hisChild
  exact hsame.filter_perm includeStats (hchild hscan) (hchild hscan')

/-- The same rows are searched. -/
theorem SameWithin.matching_perm {float : Float64} {server : Server} {req : SearchRequest}
    {filter : Text} {args : List Value}
    (hfilter : searchFilter float a req.rules = .ok (filter, args)) :
    (matchingRows server filter args (db.searchRows req)).Perm
      (matchingRows server filter args (db'.searchRows req)) := by
  have hselected : ∀ {db : ApiDb}, Scanned d paths db → ∀ x ∈ db.filesystemIndex,
      selects server.matchers (db.rowOf req.needsDirStats x).column filter args = true →
        x.VisibleTo a := by
    intro db hscan x hx hselects
    have hfile := file_rowOf db req.needsDirStats x
    have hvisible := visible_of_selects hrole hscan hfilter (by rwa [hfile]) hselects
    rwa [hfile] at hvisible
  exact hsame.filter_perm req.needsDirStats (hselected hscan) (hselected hscan')

omit hscan' in
/-- The lookup behind a plain page finds the same statistics. -/
theorem SameWithin.stats_perm {float : Float64} {server : Server} {req : SearchRequest}
    {filter : Text} {args : List Value} {page : List EntryRow}
    (hfilter : searchFilter float a req.rules = .ok (filter, args))
    (hpage : page ⊆ matchingRows server filter args (db.searchRows req)) :
    (db.statsFor (scanPlain page).dirHashes).Perm (db'.statsFor (scanPlain page).dirHashes) := by
  have hfind : ∀ hash ∈ (scanPlain page).dirHashes,
      db.dirStats.find? hash = db'.dirStats.find? hash := by
    intro hash hhash
    obtain ⟨r, hr, -, rfl⟩ := mem_dirHashes.mp hhash
    obtain ⟨hmem, hselects⟩ := List.mem_filter.mp (hpage hr)
    rw [ApiDb.searchRows, joined_eq] at hmem
    obtain ⟨x, hx, rfl⟩ := List.mem_map.mp hmem
    rw [← file_rowOf db req.needsDirStats x] at hx
    exact hsame.dirStats_eq hx (visible_of_selects hrole hscan hfilter hx hselects)
  have hmem : ∀ (db : ApiDb) s, s ∈ db.statsFor (scanPlain page).dirHashes ↔
      s.pathHash ∈ (scanPlain page).dirHashes ∧ db.dirStats.find? s.pathHash = some s := by
    intro db s
    rw [Table.find?_eq_some, ApiDb.statsFor, List.mem_filter]
    simp [Table.mem_def, and_comm]
  refine (List.perm_ext_iff_of_nodup ?_ ?_).mpr fun s => ?_
  · exact (List.Nodup.of_map _ db.dirStats.nodup).filter _
  · exact (List.Nodup.of_map _ db'.dirStats.nodup).filter _
  · rw [hmem, hmem]
    exact and_congr_right fun hhash => by rw [hfind s.pathHash hhash]

/-- An answer of the one is an answer of the other. -/
theorem SameWithin.answers {float : Float64} {server : Server} {req : ReadRequest}
    (hpath : ∀ path ∈ req.path?, path ∈ paths) {ans : ReadAnswer}
    (h : Answers d float server db a req ans) : Answers d float server db' a req ans := by
  cases req with
  | list path includeStats =>
      obtain ⟨rows, hrows, rfl⟩ := h
      by_cases hallows : a.allows path = true
      · have hindexed : db.indexed (pathHash d path) = db'.indexed (pathHash d path) := by
          rw [ApiDb.indexed, ApiDb.indexed,
            hsame.find_eq hrole hscan hscan' hallows (hpath path rfl)]
        refine ⟨rows, hrows.trans
          (hsame.children_perm hrole hscan hscan' hallows (hpath path rfl) includeStats), ?_⟩
        rw [listDirectory, listDirectory, hindexed]
      · -- the query runs behind the check, so any rows will do
        refine ⟨_, List.Perm.refl _, ?_⟩
        rw [listDirectory, listDirectory, if_pos hallows, if_pos hallows]
  | fileStats path =>
      cases h
      rw [Answers, getFileStats, getFileStats]
      by_cases hallows : a.allows path = true
      · rw [hsame.find_row_eq hrole hscan hscan' hallows (hpath path rfl)]
      · rw [if_pos hallows, if_pos hallows]
  | dirStats path includeStats =>
      cases h
      rw [Answers, getDirStats, getDirStats]
      by_cases hallows : a.allows path = true
      · rw [← hsame.find_row_eq hrole hscan hscan' hallows (hpath path rfl)]
        cases hfind : (fromEntries db).find? fun r => r.file.pathHash = pathHash d path with
        | none => rfl
        | some r =>
            have hhash : r.file.pathHash = pathHash d path := by
              simpa using List.find?_some hfind
            have hmem := List.mem_of_find?_eq_some hfind
            rw [fromEntries_eq] at hmem
            obtain ⟨x, hx, rfl⟩ := List.mem_map.mp hmem
            have hstats := hsame.dirStats_eq hx
              (visible_of_pathHash hrole hscan hallows (hpath path rfl) hx hhash)
            rw [show x.pathHash = pathHash d path from hhash] at hstats
            simp only [hstats]
      · rw [if_pos hallows, if_pos hallows]
  | search req =>
      unfold Answers AnswersSearch at h ⊢
      cases hfilter : searchFilter float a req.rules with
      | error e => simpa only [hfilter] using h
      | ok s =>
          obtain ⟨filter, args⟩ := s
          simp only [hfilter] at h ⊢
          cases hbind : bindError filter args with
          | some code => simpa only [hbind] using h
          | none =>
              simp only [hbind] at h ⊢
              refine h.imp_right fun hpages => ?_
              obtain ⟨hpatterns, page, stats, hpage, hstats, rfl⟩ := hpages
              exact ⟨hpatterns, page, stats,
                searchPage_of_perm (hsame.matching_perm hrole hscan hscan' hfilter) hpage,
                hstats.trans (hsame.stats_perm hrole hscan hfilter hpage.subset), rfl⟩

end Endpoints

def bobAccess : Access :=
  { user := "bob".toList, role := .restricted, prefixes := ["/home/a".toList] }

/-- A scan of the file alone. -/
def fileScan : ScanDb :=
  insertBatch ScanDb.init [fileRecord sampleDigest (utf8 "/home/a".toList) sampleMetadata]

def fileApi : ApiDb := ⟨⟨fileScan.index, ⟨Table.empty, Table.empty⟩⟩, Table.empty⟩

theorem scanned_sampleApi :
    Scanned sampleDigest (inPlay sampleEmitted (utf8 "/home".toList)) sampleApi where
  inPlay := pathsInPlay_sample
  reachable := over_sampleRescan.reachable

theorem scanned_fileApi :
    Scanned sampleDigest (inPlay sampleEmitted (utf8 "/home".toList)) fileApi where
  inPlay := pathsInPlay_sample
  reachable := by
    have hentry : ∀ e ∈ [(utf8 "/home/a".toList, sampleMetadata)],
        WalkerPath e.1 ∧ e.1 ∈ inPlay sampleEmitted (utf8 "/home".toList) := by
      intro e he
      rw [List.mem_singleton.mp he]
      exact ⟨walkerPath_of_mem_sampleEmitted (Or.inr rfl), Or.inl (Or.inr rfl)⟩
    refine ⟨fileScan, .next .init (a := .batch [(utf8 "/home/a".toList, sampleMetadata)] false)
      hentry rfl, rfl⟩

theorem sameWithin_bob : SameWithin bobAccess sampleApi fileApi where
  mem_iff := by
    intro x hx
    have hrows : ∀ x ∈ sampleApi.filesystemIndex.rows, x ∈ fileApi.filesystemIndex.rows ∨
        ¬ CoveredBy (bobAccess.prefixes.map utf8) (utf8 x.path) := by decide
    have hrows' : ∀ x ∈ fileApi.filesystemIndex.rows, x ∈ sampleApi.filesystemIndex.rows := by
      decide
    exact ⟨fun hmem => (hrows x hmem).resolve_right fun h => h hx, hrows' x⟩
  row_eq _ _ _ := rfl

/-- What is sent back for `/home/a` where its directory is there too. -/
def bobAnswer : ReadAnswer :=
  .ofFile (getFileStats sampleDigest sampleApi bobAccess (utf8 "/home/a".toList))

end Cuttlefish
