import Cuttlefish.Handlers.Opened
import Mathlib.Data.List.Perm.Subperm

/-!
# Cuttlefish.Search.Scanned

From the disk to the search: what `SearchFiles` returns over an index a scan
has written.

The rules go through a SQL text, the rows through joins, an ORDER BY and a
LIMIT.  `search_of_scan` says what is left of that below a scanned directory:
the entries on disk that meet the rules and whose path, as it is shown, the
caller's prefixes cover, each once, sorted; and all of them, unless the page is
full.  The scope clause compares shown paths, so this is what it can promise.
-/

namespace Cuttlefish

open Sql

/-! ## entries on disk -/

/-- The row the search reads for an entry on disk. -/
def ApiDb.diskRow (d : Digest) (db : ApiDb) (e : Bytes × Metadata) : EntryRow :=
  db.statsRow (fileRecord d e.1 e.2).toRow

instance (float : Float64) (m : Matchers) (row : Text → Value) (rule : SearchRule) :
    Decidable (rule.Holds float m row) :=
  inferInstanceAs (Decidable (if rule.negate then rule.comparison float m row ≠ some true
    else rule.comparison float m row = some true))

instance (float : Float64) (m : Matchers) (row : Text → Value) (runs : List (List SearchRule)) :
    Decidable (RulesHold float m row runs) :=
  inferInstanceAs (Decidable (∃ run ∈ runs, ∀ rule ∈ run, rule.Holds float m row))

/-- A search is after an entry on disk: it meets the rules, and the caller's
prefixes cover its path as it is shown. -/
def SearchRequest.Wants (req : SearchRequest) (d : Digest) (float : Float64) (m : Matchers)
    (db : ApiDb) (a : Access) (e : Bytes × Metadata) : Prop :=
  RulesHold float m (db.diskRow d e).column (andRuns req.rules) ∧
    (a.role = .restricted → CoveredBy (a.prefixes.map utf8) (utf8 (fromUtf8Lossy e.1)))

instance (req : SearchRequest) (d : Digest) (float : Float64) (m : Matchers) (db : ApiDb)
    (a : Access) : DecidablePred (req.Wants d float m db a) :=
  fun _ => inferInstanceAs (Decidable (_ ∧ (_ → _)))

/-- What a search is after at and below `path`, where `n` stands. -/
def TreeRun.wanted {d : Digest} (run : TreeRun d) (path : Bytes) (n : FsNode) (float : Float64)
    (server : Server) (db : ApiDb) (a : Access) (req : SearchRequest) : List (Bytes × Metadata) :=
  (run.below path n).filter fun e => req.Wants d float server.matchers db a e

/-! ## the rows of an answer -/

/-- A row without the `metadata` column, which no endpoint reads. -/
def EntryRow.plain (r : EntryRow) : EntryRow := { r with file := r.file.entry }

theorem column_plain (r : EntryRow) : r.plain.column = r.column := rfl

theorem plain_statsRow {d : Digest} {db : ApiDb} {x : IndexRow} {e : Bytes × Metadata}
    (h : x.entry = (fileRecord d e.1 e.2).toRow) : (db.statsRow x).plain = db.diskRow d e := by
  have hplain : (db.statsRow x).plain = db.statsRow x.entry := rfl
  rw [hplain, h, ApiDb.diskRow]

/-- Lists over one image. -/
theorem exists_map_eq {α β γ : Type} {f : α → γ} {g : β → γ} {l : List α} {m : List β}
    (h : ∀ x ∈ l, ∃ y ∈ m, g y = f x) : ∃ ys, ys ⊆ m ∧ ys.map g = l.map f := by
  induction l with
  | nil => exact ⟨[], List.nil_subset _, rfl⟩
  | cons x l ih =>
      obtain ⟨y, hy, hxy⟩ := h x List.mem_cons_self
      obtain ⟨ys, hys, hmap⟩ := ih fun x' hx' => h x' (List.mem_cons_of_mem _ hx')
      refine ⟨y :: ys, List.cons_subset.mpr ⟨hy, hys⟩, ?_⟩
      rw [List.map_cons, List.map_cons, hxy, hmap]

section Answer

variable {d : Digest} {float : Float64} {server : Server} {api : ApiDb} {a : Access}
  {req : SearchRequest} {files : List FileInfo}

/-- Where every count fits, the joined query loses no row. -/
theorem scanRow_of_fits (hfits : ∀ s ∈ api.dirStats, s.CountFits) {r : EntryRow}
    (hr : r ∈ fromEntriesWithStats api) :
    (scanRow true r).map (·.withAggregates none) = some r.info := by
  rw [fromEntriesWithStats_eq] at hr
  obtain ⟨x, -, rfl⟩ := List.mem_map.mp hr
  rw [scanRow, if_pos rfl]
  cases hstats : (api.statsRow x).stats with
  | none => rfl
  | some s =>
      have hs : s ∈ api.dirStats := (Table.find?_eq_some.mp hstats).1
      rw [scanStats, if_pos (hfits s hs)]
      rfl

theorem SearchPage.sublist {filter : Text} {args : List Value} {rows page : List EntryRow}
    (h : SearchPage server req filter args rows page) :
    ∃ sorted, OrderedBy (req.rowLe server) (matchingRows server filter args rows) sorted ∧
      page.Sublist sorted := by
  obtain ⟨sorted, hsorted, rfl⟩ := h
  exact ⟨sorted, hsorted, (List.take_sublist _ _).trans (List.drop_sublist _ _)⟩

/-- The joined query shows an entry once. -/
theorem SearchPage.nodup_joined {filter : Text} {args : List Value} {page : List EntryRow}
    (h : SearchPage server req filter args (fromEntriesWithStats api) page) :
    (page.map fun r => r.file.pathHash).Nodup := by
  obtain ⟨sorted, hsorted, hsub⟩ := h.sublist
  have hall : ((fromEntriesWithStats api).map fun r => r.file.pathHash).Nodup := by
    rw [fromEntriesWithStats_eq, List.map_map]
    exact api.filesystemIndex.nodup
  have hmatching : ((matchingRows server filter args (fromEntriesWithStats api)).map
      fun r => r.file.pathHash).Nodup := hall.sublist (List.filter_sublist.map _)
  exact ((hsorted.perm.map _).nodup_iff.mpr hmatching).sublist (hsub.map _)

theorem SearchPage.pairwise {filter : Text} {args : List Value} {rows page : List EntryRow}
    (h : SearchPage server req filter args rows page) :
    page.Pairwise fun r r' => req.rowLe server r r' = true := by
  obtain ⟨sorted, hsorted, hsub⟩ := h.sublist
  exact hsorted.pairwise.sublist hsub

/-- **The entries of an answer** are the rows of a page, whichever of the two
queries was sent. -/
theorem exists_page_of_answersSearch (hfits : ∀ s ∈ api.dirStats, s.CountFits)
    (h : AnswersSearch float server api a req (.files files)) :
    ∃ filter args page, searchFilter float a req.rules = .ok (filter, args) ∧
      SearchPage server req filter args (fromEntriesWithStats api) page ∧
        files.map (·.withAggregates none) = page.map EntryRow.info := by
  obtain ⟨filter, args, hfilter, -, -, page, stats, hpage, -, rfl⟩ := h.page
  rw [ApiDb.searchRows] at hpage
  rw [map_withAggregates_response]
  cases hneeds : req.needsDirStats with
  | false =>
      rw [hneeds, if_neg (by simp)] at hpage
      have hscan : page.filterMap (scanRow false) = page.map EntryRow.info :=
        List.filterMap_eq_map_iff_forall_eq_some.mpr fun _ _ => rfl
      refine ⟨filter, args, page.map api.joinStats, hfilter, hpage.joinStats hneeds hfilter, ?_⟩
      rw [hscan, List.map_map, List.map_map]
      rfl
  | true =>
      rw [hneeds, if_pos rfl] at hpage
      refine ⟨filter, args, page, hfilter, hpage, ?_⟩
      rw [List.map_filterMap]
      exact List.filterMap_eq_map_iff_forall_eq_some.mpr fun r hr =>
        scanRow_of_fits hfits (List.mem_of_mem_filter (hpage.subset hr))

/-- A page that is not full shows all rows. -/
theorem page_perm_of_short {filter : Text} {args : List Value} {rows page : List EntryRow}
    (h : SearchPage server req filter args rows page) (hoffset : req.offset ≤ 0)
    (hshort : (page.length : Int) < req.pageLimit) :
    page.Perm (matchingRows server filter args rows) := by
  obtain ⟨sorted, hsorted, rfl⟩ := h
  have hzero : req.pageOffset.toNat = 0 := by
    rw [SearchRequest.pageOffset]
    split <;> omega
  rw [pageOf, hzero, List.drop_zero] at hshort ⊢
  rw [List.length_take] at hshort
  rw [List.take_of_length_le (by omega)]
  exact hsorted.perm

end Answer

/-! ## the answer below a scanned directory -/

namespace TreeRun

section Wanted

variable {d : Digest} {paths : Set Bytes} {db : Db} {run : TreeRun d} {path : Bytes} {n : FsNode}
  {api : ApiDb} {float : Float64} {server : Server} {a : Access} {req : SearchRequest}
  {filter : Text} {args : List Value}
  (hscan : run.Over paths db) (h : run.Finds path n) (hapi : api.toDb = run.toScanRun.apply db)
  (hfilter : searchFilter float a req.rules = .ok (filter, args))

/-- Everything reported below a directory lies below it. -/
theorem covers_of_mem_below {e : Bytes × Metadata} (he : e ∈ run.below path n) :
    scanRootCovers path e.1 := by
  rw [below, mem_walkNode] at he
  obtain ⟨names, _, _, hpath, _⟩ := he
  exact hpath ▸ covers_joinNames path names

include hapi

theorem mem_api {x : IndexRow} :
    x ∈ api.filesystemIndex ↔ x ∈ (run.toScanRun.apply db).filesystemIndex := by
  rw [← hapi]

include hscan hfilter

/-- **The filter on a row** of the index behind the run. -/
theorem selects_iff_wants {x : IndexRow} (hx : x ∈ api.filesystemIndex) {e : Bytes × Metadata}
    (hentry : x.entry = (fileRecord d e.1 e.2).toRow) :
    selects server.matchers (api.statsRow x).column filter args = true ↔
      req.Wants d float server.matchers api a e := by
  have hlinked := linked_apply hscan x ((mem_api hapi).mp hx)
  have hpath : x.path = fromUtf8Lossy e.1 := by
    rw [hlinked.path_eq, ← raw_entry, hentry, raw_toRow]
  rw [selects_searchFilter_iff hfilter (path_column _) hlinked.absolute_path,
    SearchRequest.Wants, ← plain_statsRow hentry, column_plain, ← hpath]
  rfl

include h

/-- A row of the page that lies below the directory is that of a wanted
entry. -/
theorem exists_wanted_of_selected {r : EntryRow}
    (hr : r ∈ matchingRows server filter args (fromEntriesWithStats api))
    (hcovers : scanRootCovers path r.file.raw) :
    ∃ e ∈ run.wanted path n float server api a req, api.diskRow d e = r.plain := by
  obtain ⟨hmem, hselects⟩ := List.mem_filter.mp hr
  rw [fromEntriesWithStats_eq] at hmem
  obtain ⟨x, hx, rfl⟩ := List.mem_map.mp hmem
  obtain ⟨e, he, hentry⟩ := mem_below hscan.inPlay.free hscan.entries hscan.recorded h
    ((mem_api hapi).mp hx) hcovers
  exact ⟨e, List.mem_filter.mpr ⟨he, decide_eq_true
    ((selects_iff_wants hscan hapi hfilter hx hentry).mp hselects)⟩, (plain_statsRow hentry).symm⟩

/-- The row of a wanted entry is selected. -/
theorem exists_selected_of_wanted {e : Bytes × Metadata}
    (he : e ∈ run.wanted path n float server api a req) :
    ∃ r ∈ matchingRows server filter args (fromEntriesWithStats api),
      scanRootCovers path r.file.raw ∧ r.plain = api.diskRow d e := by
  obtain ⟨hbelow, hwants⟩ := List.mem_filter.mp he
  obtain ⟨x, hx, hentry⟩ := exists_row hscan h hbelow
  have hmem := (mem_api hapi).mpr hx
  have hraw : x.raw = e.1 := by rw [← raw_entry, hentry, raw_toRow]
  refine ⟨api.statsRow x, List.mem_filter.mpr ⟨?_, ?_⟩, ?_, plain_statsRow hentry⟩
  · rw [fromEntriesWithStats_eq]
    exact List.mem_map_of_mem hmem
  · exact (selects_iff_wants hscan hapi hfilter hmem hentry).mpr (of_decide_eq_true hwants)
  · exact hraw ▸ covers_of_mem_below hbelow

end Wanted

end TreeRun

/-- **A search shows the disk.**  Take an index that any scans, crashes and
clean-ups led to, walk a file system over it, and search.  The entries of the
answer that lie in a directory the walker came to are entries it reported
there that meet the rules and whose shown path the caller's prefixes cover,
each once, sorted by the column asked for; and all of them are there, if the
answer is the first page and not full. -/
theorem search_of_scan {d : Digest} {paths : Set Bytes} {db : Db} {run : TreeRun d}
    (hscan : run.Over paths db) {path : Bytes} {n : FsNode} (h : run.Finds path n) (api : ApiDb)
    (hapi : api.toDb = run.toScanRun.apply db) (hfits : ∀ s ∈ api.dirStats, s.CountFits)
    {float : Float64} {server : Server} {a : Access} {req : SearchRequest}
    {files : List FileInfo} (hanswer : AnswersSearch float server api a req (.files files)) :
    ∃ es : List (Bytes × Metadata),
      (files.filter fun f => scanRootCovers path f.raw).map (·.withAggregates none) =
        es.map api.diskInfo ∧
      (es.Pairwise fun e e' => req.rowLe server (api.diskRow d e) (api.diskRow d e') = true) ∧
      es.Subperm (run.wanted path n float server api a req) ∧
      (req.offset ≤ 0 → (files.length : Int) < req.pageLimit →
        es.Perm (run.wanted path n float server api a req)) := by
  obtain ⟨filter, args, page, hfilter, hpage, hfiles⟩ := exists_page_of_answersSearch hfits hanswer
  obtain ⟨es, hes, hmap⟩ := exists_map_eq (f := EntryRow.plain) (g := api.diskRow d)
    (l := page.filter fun r => scanRootCovers path r.file.raw)
    (m := run.wanted path n float server api a req) fun r hr =>
      have hr := List.mem_filter.mp hr
      TreeRun.exists_wanted_of_selected hscan h hapi hfilter (hpage.subset hr.1)
        (of_decide_eq_true hr.2)
  have hnodupEs : es.Nodup := by
    refine List.Nodup.of_map (fun e => (api.diskRow d e).file.pathHash) ?_
    have hhashes := congrArg (List.map fun r : EntryRow => r.file.pathHash) hmap
    rw [List.map_map, List.map_map] at hhashes
    exact hhashes ▸ hpage.nodup_joined.sublist (List.filter_sublist.map _)
  refine ⟨es, ?_, ?_, hnodupEs.subperm hes, fun hoffset hshort => ?_⟩
  · calc (files.filter fun f => scanRootCovers path f.raw).map (·.withAggregates none)
        = (files.map (·.withAggregates none)).filter fun f => scanRootCovers path f.raw := by
          rw [List.filter_map]
          rfl
      _ = (page.filter fun r => scanRootCovers path r.file.raw).map EntryRow.info := by
          rw [hfiles, List.filter_map]
          rfl
      _ = ((page.filter fun r => scanRootCovers path r.file.raw).map EntryRow.plain).map
            EntryRow.info := by
          rw [List.map_map]
          rfl
      _ = es.map api.diskInfo := by
          rw [← hmap, List.map_map]
          rfl
  · have hrows : (es.map (api.diskRow d)).Pairwise fun r r' => req.rowLe server r r' = true := by
      rw [hmap, List.pairwise_map]
      exact hpage.pairwise.sublist List.filter_sublist
    exact List.pairwise_map.mp hrows
  · have hlength : files.length = page.length := by
      simpa using congrArg List.length hfiles
    have hall := page_perm_of_short hpage hoffset (by rwa [← hlength])
    have hbelow : (run.below path n).Nodup := .of_map Prod.fst h.nodup_below
    refine (List.perm_ext_iff_of_nodup hnodupEs (hbelow.filter _)).mpr fun e => ⟨(hes ·), ?_⟩
    intro he
    obtain ⟨r, hr, hcovers, hplain⟩ := TreeRun.exists_selected_of_wanted hscan h hapi hfilter he
    have hmem : r.plain ∈ es.map (api.diskRow d) := by
      rw [hmap]
      exact List.mem_map_of_mem
        (List.mem_filter.mpr ⟨hall.symm.subset hr, decide_eq_true hcovers⟩)
    obtain ⟨e', he', hsame⟩ := List.mem_map.mp hmem
    -- a path is reported once
    have hraw : e'.1 = e.1 := by
      have hfile := congrArg (fun r : EntryRow => r.file.raw) (hsame.trans hplain)
      simpa only [ApiDb.diskRow, ApiDb.statsRow, ApiDb.entryRow, raw_toRow] using hfile
    have heq := List.inj_on_of_nodup_map h.nodup_below (List.mem_of_mem_filter (hes he'))
      (List.mem_of_mem_filter he) hraw
    exact heq ▸ he'

/-! ### an instance

Bob, who may see `/home/a` only, searches for what root owns after `/home` was
scanned again. -/

def bobFilter : Text := "((f.uid = $1)) AND (f.path = $2 OR f.path LIKE $3)".toList

def bobArgs : List Value := [.int 0, .text "/home/a".toList, .text "/home/a/%".toList]

/-- The one entry Bob may see. -/
def bobEntry : Bytes × Metadata := (utf8 "/home/a".toList, sampleMetadata)

theorem searchFilter_bob :
    searchFilter sampleFloat bobAccess sampleOwned.rules = .ok (bobFilter, bobArgs) := by
  decide +kernel

theorem bindError_bob : bindError bobFilter bobArgs = none := by decide +kernel

theorem searchPage_bob :
    SearchPage sampleServer sampleOwned bobFilter bobArgs (fromEntries rescanApi)
      [rescanApi.entryRow (fileRecord sampleDigest bobEntry.1 bobEntry.2).toRow] := by
  have hmatching : matchingRows sampleServer bobFilter bobArgs (fromEntries rescanApi) =
      [rescanApi.entryRow (fileRecord sampleDigest bobEntry.1 bobEntry.2).toRow] := by
    decide +kernel
  exact ⟨_, ⟨.of_eq hmatching.symm, List.pairwise_singleton _ _⟩, by decide⟩

theorem answersSearch_bob :
    AnswersSearch sampleFloat sampleServer rescanApi bobAccess sampleOwned
      (.files [rescanApi.diskInfo bobEntry]) := by
  unfold AnswersSearch
  simp only [searchFilter_bob, bindError_bob]
  exact Or.inr ⟨by decide, _, [], searchPage_bob, by decide, rfl⟩

theorem search_of_scan_home :
    ∃ es : List (Bytes × Metadata), ([rescanApi.diskInfo bobEntry].filter fun f =>
        scanRootCovers (utf8 "/home".toList) f.raw).map (·.withAggregates none) =
          es.map rescanApi.diskInfo ∧
      es.Perm (sampleRescan.wanted (utf8 "/home".toList)
        (.dir sampleMetadata (.cons nameA (.file sampleMetadata) .nil)) sampleFloat sampleServer
        rescanApi bobAccess sampleOwned) := by
  obtain ⟨es, hshown, -, -, hall⟩ := search_of_scan over_sampleRescan sampleFinds rescanApi rfl
    (fun _ hs => absurd hs List.not_mem_nil) answersSearch_bob
  exact ⟨es, hshown, hall (by decide) (by decide)⟩

end Cuttlefish
