import Cuttlefish.Search.Meaning
import Cuttlefish.Search.Parameters
import Cuttlefish.Search.Results

/-!
# Cuttlefish.Search.Variants

The two ways in which a search gets its aggregates: from `dir_stats` joined to
the query, or from a lookup behind it.

Neither the filter nor the order of a request without `dir_` fields can tell
them apart, so both return the same rows.  `searchVariants_agree_iff` says
when the rows become the same entries: if every file count fits the 32 bits
the joined variant reads it into, and only directories have statistics.
-/

namespace Cuttlefish

open Sql

/-! ## the entries of a plain page -/

section Plain

variable {page : List EntryRow} {r : EntryRow} {stats : List DirStatsRow} {row : DirStatsRow}

theorem scanPlain_concat (page : List EntryRow) (r : EntryRow) :
    scanPlain (page ++ [r]) = (scanPlain page).next r := by
  simp [scanPlain]

@[simp] theorem files_scanPlain (page : List EntryRow) :
    (scanPlain page).files = page.map EntryRow.info := by
  induction page using List.reverseRecOn with
  | nil => rfl
  | append_singleton page r ih => simp [scanPlain_concat, PlainScan.next, ih]

theorem length_dirIdx (page : List EntryRow) :
    (scanPlain page).dirIdx.length = (scanPlain page).dirHashes.length := by
  induction page using List.reverseRecOn with
  | nil => rfl
  | append_singleton page r ih =>
      simp only [scanPlain_concat, PlainScan.next]
      split <;> simp [ih]

/-- What `byHash` is built from: the directories of the page. -/
theorem mem_zip_dirIdx {hash : Bytes} {i : Nat} :
    (hash, i) ∈ (scanPlain page).dirHashes.zip (scanPlain page).dirIdx ↔
      ∃ r, page[i]? = some r ∧ r.file.fileType = 2 ∧ r.file.pathHash = hash := by
  induction page using List.reverseRecOn with
  | nil => simp [scanPlain]
  | append_singleton page r ih =>
      have hlength := length_dirIdx page
      have hlast : ∀ r', (page ++ [r])[i]? = some r' ↔
          page[i]? = some r' ∨ i = page.length ∧ r = r' := by
        intro r'
        rw [List.getElem?_append]
        have hnone : page[i]? = none ↔ page.length ≤ i := List.getElem?_eq_none_iff
        by_cases hi : i < page.length
        · rw [if_pos hi]
          simp [Nat.ne_of_lt hi]
        · rw [if_neg hi, hnone.mpr (by omega)]
          cases hlt : i - page.length with
          | zero =>
              have heq : i = page.length := by omega
              simp [heq]
          | succ n =>
              have hne : i ≠ page.length := by omega
              simp [hne]
      simp only [scanPlain_concat, PlainScan.next, hlast]
      by_cases hdir : r.file.fileType = 2
      · rw [if_pos hdir, if_pos hdir, List.zip_append hlength.symm, List.mem_append, ih]
        simp only [files_scanPlain, List.length_map, List.zip_cons_cons, List.zip_nil_right,
          List.mem_singleton, Prod.mk.injEq]
        grind
      · rw [if_neg hdir, if_neg hdir, ih]
        grind

theorem mem_dirHashes {hash : Bytes} :
    hash ∈ (scanPlain page).dirHashes ↔
      ∃ r ∈ page, r.file.fileType = 2 ∧ r.file.pathHash = hash := by
  have hkeys : (scanPlain page).dirHashes =
      ((scanPlain page).dirHashes.zip (scanPlain page).dirIdx).map Prod.fst :=
    (List.map_fst_zip (length_dirIdx page).ge).symm
  rw [hkeys, List.mem_map]
  constructor
  · intro h
    obtain ⟨⟨hash', i⟩, hmem, rfl⟩ := h
    obtain ⟨r, hr, hdir⟩ := mem_zip_dirIdx.mp hmem
    exact ⟨r, List.mem_of_getElem? hr, hdir⟩
  · intro h
    obtain ⟨r, hr, hdir⟩ := h
    obtain ⟨i, hi⟩ := List.mem_iff_getElem?.mp hr
    exact ⟨(hash, i), mem_zip_dirIdx.mpr ⟨r, hi, hdir⟩, rfl⟩

/-- The aggregates a plain row gets from the lookup. -/
def attached (stats : List DirStatsRow) (r : EntryRow) : Option DirAggregates :=
  if r.file.fileType = 2 then
    (stats.find? fun s => s.pathHash = r.file.pathHash).bind DirStatsRow.aggregates
  else none

variable (hpage : (page.map fun r => r.file.pathHash).Nodup)

include hpage

/-- `byHash` is the position of the directory with the hash. -/
theorem byHash_eq_some {hash : Bytes} {i : Nat} :
    (scanPlain page).byHash hash = some i ↔
      ∃ r, page[i]? = some r ∧ r.file.fileType = 2 ∧ r.file.pathHash = hash := by
  rw [← mem_zip_dirIdx, PlainScan.byHash]
  have hunique : ∀ {j k : Nat},
      (hash, j) ∈ (scanPlain page).dirHashes.zip (scanPlain page).dirIdx →
      (hash, k) ∈ (scanPlain page).dirHashes.zip (scanPlain page).dirIdx → j = k := by
    intro j k hj hk
    obtain ⟨r, hr, -, hrhash⟩ := mem_zip_dirIdx.mp hj
    obtain ⟨r', hr', -, hrhash'⟩ := mem_zip_dirIdx.mp hk
    have hj' : (page.map fun r => r.file.pathHash)[j]? = some hash := by simp [hr, hrhash]
    have hk' : (page.map fun r => r.file.pathHash)[k]? = some hash := by simp [hr', hrhash']
    obtain ⟨hlt, -⟩ := List.getElem?_eq_some_iff.mp hj'
    exact (List.getElem?_inj hlt hpage).mp (hj'.trans hk'.symm)
  constructor
  · intro h
    obtain ⟨front, back, hsplit, -⟩ := List.lookup_eq_some_iff.mp h
    rw [← List.mem_reverse, hsplit]
    simp
  · intro h
    cases hlookup :
        ((scanPlain page).dirHashes.zip (scanPlain page).dirIdx).reverse.lookup hash with
    | none =>
        rw [List.lookup_eq_none_iff] at hlookup
        have hne := hlookup (hash, i) (List.mem_reverse.mpr h)
        simp at hne
    | some j =>
        obtain ⟨front, back, hsplit, -⟩ := List.lookup_eq_some_iff.mp hlookup
        have hj : (hash, j) ∈ (scanPlain page).dirHashes.zip (scanPlain page).dirIdx := by
          rw [← List.mem_reverse, hsplit]
          simp
        rw [hunique h hj]

/-- One row of the lookup decorates the directory with its hash. -/
theorem attach_eq (f : EntryRow → FileInfo) (row : DirStatsRow) :
    (scanPlain page).attach (page.map f) row = page.map fun r =>
      if r.file.fileType = 2 ∧ r.file.pathHash = row.pathHash ∧ row.totalSizeBytes ≠ none then
        (f r).withAggregates row.aggregates
      else f r := by
  rw [PlainScan.attach]
  cases hindex : (scanPlain page).byHash row.pathHash with
  | none =>
      refine List.map_congr_left fun r hr => ?_
      obtain ⟨i, hi⟩ := List.mem_iff_getElem?.mp hr
      have hnot : ¬ (r.file.fileType = 2 ∧ r.file.pathHash = row.pathHash) := by
        intro hdir
        have hsome := (byHash_eq_some hpage).mpr ⟨r, hi, hdir⟩
        simp [hindex] at hsome
      rw [if_neg (by tauto)]
  | some i =>
      obtain ⟨r, hr, hdir, hhash⟩ := (byHash_eq_some hpage).mp hindex
      dsimp only
      split_ifs with htotal
      · simp [htotal]
      · refine List.ext_getElem? fun j => ?_
        rw [List.getElem?_modify, List.getElem?_map, List.getElem?_map]
        cases hj : page[j]? with
        | none => rfl
        | some r' =>
            by_cases hij : i = j
            · subst hij
              have hsame : r' = r := Option.some.inj (hj.symm.trans hr)
              simp [hsame, hdir, hhash, htotal]
            · have hother : ¬ (r'.file.fileType = 2 ∧ r'.file.pathHash = row.pathHash) := by
                intro hdir'
                have hsome := (byHash_eq_some hpage).mpr ⟨r', hj, hdir'⟩
                rw [hindex] at hsome
                exact hij (Option.some.inj hsome)
              have hnot : ¬ (r'.file.fileType = 2 ∧ r'.file.pathHash = row.pathHash ∧
                  row.totalSizeBytes ≠ none) := by tauto
              simp [hij, hnot]

/-- **The entries of a plain page** carry what the lookup found for the
directories among them. -/
theorem plainResponse_eq (hstats : (stats.map DirStatsRow.pathHash).Nodup) :
    plainResponse page stats = page.map fun r => r.info.withAggregates (attached stats r) := by
  rw [plainResponse, attachDirAggregates, files_scanPlain]
  induction stats using List.reverseRecOn with
  | nil =>
      refine List.map_congr_left fun r _ => ?_
      simp only [attached, List.find?_nil, Option.bind_none, ite_self]
      rfl
  | append_singleton stats row ih =>
      rw [List.map_append, List.nodup_append] at hstats
      obtain ⟨hold, -, hnew⟩ := hstats
      rw [List.foldl_append, ih hold, List.foldl_cons, List.foldl_nil, attach_eq hpage]
      refine List.map_congr_left fun r _ => ?_
      by_cases hdir : r.file.fileType = 2
      · by_cases hhash : r.file.pathHash = row.pathHash
        · -- nothing was found for this directory before
          have hnone : stats.find? (fun s => s.pathHash = r.file.pathHash) = none := by
            rw [List.find?_eq_none]
            intro s hs
            have hne := hnew s.pathHash (List.mem_map_of_mem hs) row.pathHash (by simp)
            simpa [hhash] using hne
          have hbefore : attached stats r = none := by
            rw [attached, if_pos hdir, hnone, Option.bind_none]
          have hfound : attached (stats ++ [row]) r = row.aggregates := by
            rw [attached, if_pos hdir, List.find?_append, hnone]
            simp [hhash]
          rw [hbefore, hfound]
          by_cases htotal : row.totalSizeBytes = none
          · simp [DirStatsRow.aggregates, htotal]
          · rw [if_pos ⟨hdir, hhash, htotal⟩]
            rfl
        · simp [attached, hdir, hhash, Ne.symm hhash]
      · simp [attached, hdir]

end Plain

/-! ## the rows of both variants -/

/-- A plain row, joined. -/
def ApiDb.joinStats (db : ApiDb) (r : EntryRow) : EntryRow :=
  { r with stats := db.dirStats.find? r.file.pathHash }

theorem fromEntriesWithStats_eq_map (db : ApiDb) :
    fromEntriesWithStats db = (fromEntries db).map db.joinStats := by
  rw [fromEntriesWithStats_eq, fromEntries_eq, List.map_map]
  rfl

theorem stats_of_mem_fromEntries {db : ApiDb} {r : EntryRow} (h : r ∈ fromEntries db) :
    r.stats = none := by
  rw [fromEntries_eq, List.mem_map] at h
  obtain ⟨f, -, rfl⟩ := h
  rfl

theorem nodup_pathHash_fromEntries (db : ApiDb) :
    ((fromEntries db).map fun r => r.file.pathHash).Nodup := by
  rw [fromEntries_eq, List.map_map]
  exact db.filesystemIndex.nodup

theorem DirStatsRow.column_eq_null {s : DirStatsRow} {name : Text} (h : name ∉ statsColumns) :
    s.column name = .null := by
  simp only [statsColumns, List.mem_cons, List.not_mem_nil, or_false, not_or] at h
  simp only [DirStatsRow.column, h, if_false]

/-- Joining adds the columns of `dir_stats`, and nothing else. -/
theorem column_joinStats (db : ApiDb) {r : EntryRow} (hr : r.stats = none) {name : Text}
    (hname : name ∉ statsColumns) : (db.joinStats r).column name = r.column name := by
  simp only [EntryRow.column, ApiDb.joinStats, hr, searchRow]
  cases db.dirStats.find? r.file.pathHash with
  | none => rfl
  | some s => simp only [DirStatsRow.column_eq_null hname]

/-- The columns of the fields that do not need `dir_stats`. -/
theorem column_not_mem_statsColumns {name : Text} {field : SearchField}
    (hfield : searchFields.lookup name = some field)
    (hname : "dir_".toList.isPrefixOf name = false) : field.column ∉ statsColumns := by
  have hall : ∀ f ∈ searchFields, "dir_".toList.isPrefixOf f.1 = false →
      f.2.column ∉ statsColumns := by decide +kernel
  rw [List.lookup_eq_some_iff] at hfield
  obtain ⟨before, after, hfields, -⟩ := hfield
  exact hall (name, field) (by simp [hfields]) hname

theorem sortCol_not_mem_statsColumns {req : SearchRequest}
    (h : "dir_".toList.isPrefixOf req.sortBy = false) : req.sortCol ∉ statsColumns := by
  have hall : ∀ c ∈ searchSortColumns, "dir_".toList.isPrefixOf c.1 = false →
      c.2 ∉ statsColumns := by decide +kernel
  rw [SearchRequest.sortCol]
  cases hcol : searchSortColumns.lookup req.sortBy with
  | none =>
      rw [Option.getD_none]
      decide +kernel
  | some column =>
      rw [List.lookup_eq_some_iff] at hcol
      obtain ⟨before, after, hcols, -⟩ := hcol
      exact hall (req.sortBy, column) (by simp [hcols]) h

/-! ## filter and order -/

theorem rulesHold_congr {float : Float64} {m : Matchers} {row row' : Text → Value}
    {rules : List SearchRule}
    (h : ∀ rule ∈ rules, ∀ c ∈ rule.bound float, row c.1 = row' c.1) :
    RulesHold float m row (andRuns rules) ↔ RulesHold float m row' (andRuns rules) := by
  have hrule : ∀ run ∈ andRuns rules, ∀ rule ∈ run,
      (rule.Holds float m row ↔ rule.Holds float m row') := by
    intro run hrun rule hmem
    have hin : rule ∈ rules := by
      rw [← List.flatten_splitBy (fun _ next => !saysOr next.connector) rules, List.mem_flatten]
      exact ⟨run, hrun, hmem⟩
    have hcomparison : rule.comparison float m row = rule.comparison float m row' := by
      rw [SearchRule.comparison, SearchRule.comparison]
      refine Option.bind_congr fun c hc => ?_
      exact congrArg (fun v => c.2.1.apply m v c.2.2) (h rule hin c hc)
    rw [SearchRule.Holds, SearchRule.Holds, hcomparison]
  refine exists_congr fun run => and_congr_right fun hrun => ?_
  exact forall₂_congr fun rule hmem => hrule run hrun rule hmem

/-- **What a filter looks at**: the columns of the rules, and the path. -/
theorem searchFilter_congr {float : Float64} {a : Access} {rules : List SearchRule}
    {filter : Text} {args : List Value} (h : searchFilter float a rules = .ok (filter, args))
    (m : Matchers) {row row' : Text → Value} {t : Text}
    (hrules : ∀ rule ∈ rules, ∀ c ∈ rule.bound float, row c.1 = row' c.1)
    (hpath : row pathColumn = .text t) (hpath' : row' pathColumn = .text t) :
    selects m row filter args = selects m row' filter args := by
  have hnil : rules ≠ [] := by
    intro hnil
    rw [searchFilter, if_pos hnil] at h
    cases h
  rw [searchFilter, if_neg hnil] at h
  cases hwhere : buildSearchWhere float rules with
  | error e =>
      rw [hwhere] at h
      cases h
  | ok s =>
      obtain ⟨clause, args₀⟩ := s
      obtain ⟨e, he, hmeans⟩ := buildSearchWhere_text hnil hwhere
      rw [hwhere] at h
      dsimp only at h
      split_ifs at h with hrole
      · obtain ⟨s, hs⟩ := scopeClause_text a.prefixes args₀
        obtain ⟨accepted, hreads⟩ := hs.reads
        obtain ⟨more, hmore⟩ := hs.args_prefix
        have hfilter := standsFor_filter he hs
        cases h
        rw [Bool.eq_iff_iff, hfilter.selects_iff, hfilter.selects_iff, Expr.eval, Expr.eval,
          Truth.and_eq_true, Truth.and_eq_true, Expr.eval, Expr.eval, hreads _ t rfl hpath,
          hreads _ t rfl hpath', ← hmore, hmeans m row more, hmeans m row' more]
        exact and_congr_left fun _ => rulesHold_congr hrules
      · cases h
        rw [Bool.eq_iff_iff, selects_iff_rulesHold hnil hwhere, selects_iff_rulesHold hnil hwhere,
          rulesHold_congr hrules]

section Rows

variable {float : Float64} {a : Access} {req : SearchRequest} {filter : Text} {args : List Value}
variable {server : Server} {db : ApiDb} {page : List EntryRow}

/-- Without `dir_` fields, the joined columns decide nothing. -/
theorem selects_joinStats (hplain : req.needsDirStats = false)
    (h : searchFilter float a req.rules = .ok (filter, args)) {r : EntryRow}
    (hr : r.stats = none) :
    selects server.matchers (db.joinStats r).column filter args =
      selects server.matchers r.column filter args := by
  rw [SearchRequest.needsDirStats, Bool.or_eq_false_iff, List.any_eq_false] at hplain
  refine searchFilter_congr (t := r.file.path) h server.matchers (fun rule hrule c hc => ?_) ?_ ?_
  · obtain ⟨field, hfield, hbound⟩ := Option.bind_eq_some_iff.mp hc
    obtain ⟨cond, -, rfl⟩ := Option.map_eq_some_iff.mp hbound
    have hname := Bool.eq_false_iff.mpr (hplain.2 rule hrule)
    exact column_joinStats db hr (column_not_mem_statsColumns hfield hname)
  · simp [EntryRow.column, ApiDb.joinStats, searchRow]
  · simp [EntryRow.column, searchRow]

theorem rowLe_joinStats (hplain : req.needsDirStats = false) {r r' : EntryRow}
    (hr : r.stats = none) (hr' : r'.stats = none) :
    req.rowLe server (db.joinStats r) (db.joinStats r') = req.rowLe server r r' := by
  rw [SearchRequest.needsDirStats, Bool.or_eq_false_iff] at hplain
  have hcol := sortCol_not_mem_statsColumns hplain.1
  rw [SearchRequest.rowLe, SearchRequest.rowLe, column_joinStats db hr hcol,
    column_joinStats db hr' hcol]

/-- The joined query selects the same rows. -/
theorem matchingRows_joinStats (hplain : req.needsDirStats = false)
    (h : searchFilter float a req.rules = .ok (filter, args)) :
    matchingRows server filter args (fromEntriesWithStats db) =
      (matchingRows server filter args (fromEntries db)).map db.joinStats := by
  rw [matchingRows, matchingRows, fromEntriesWithStats_eq_map, List.filter_map]
  refine congrArg _ (List.filter_congr fun r hr => ?_)
  exact selects_joinStats hplain h (stats_of_mem_fromEntries hr)

/-- **A page of one query is a page of the other**, with ties in the same
order. -/
theorem SearchPage.joinStats (hplain : req.needsDirStats = false)
    (h : searchFilter float a req.rules = .ok (filter, args))
    (hpage : SearchPage server req filter args (fromEntries db) page) :
    SearchPage server req filter args (fromEntriesWithStats db) (page.map db.joinStats) := by
  obtain ⟨sorted, hsorted, rfl⟩ := hpage
  have hstats : ∀ r ∈ sorted, r.stats = none := by
    intro r hr
    exact stats_of_mem_fromEntries (List.mem_filter.mp (hsorted.perm.subset hr)).1
  refine ⟨sorted.map db.joinStats, ⟨?_, ?_⟩, ?_⟩
  · rw [matchingRows_joinStats hplain h]
    exact hsorted.perm.map _
  · rw [List.pairwise_map]
    refine hsorted.pairwise.imp_of_mem fun hr hr' hle => ?_
    rw [rowLe_joinStats hplain (hstats _ hr) (hstats _ hr'), hle]
  · rw [pageOf, pageOf, List.map_take, List.map_drop]

theorem SearchPage.nodup_pathHash (h : SearchPage server req filter args (fromEntries db) page) :
    (page.map fun r => r.file.pathHash).Nodup := by
  obtain ⟨sorted, hsorted, rfl⟩ := h
  have hmatching : ((matchingRows server filter args (fromEntries db)).map
      fun r => r.file.pathHash).Nodup :=
    (nodup_pathHash_fromEntries db).sublist (List.filter_sublist.map _)
  have hrows : (sorted.map fun r => r.file.pathHash).Nodup :=
    (hsorted.perm.map _).nodup_iff.mpr hmatching
  exact hrows.sublist (((List.take_sublist _ _).trans (List.drop_sublist _ _)).map _)

end Rows

/-! ## the same response -/

theorem nodup_of_perm_statsFor {db : ApiDb} {stats : List DirStatsRow} {hashes : List Bytes}
    (hstats : stats.Perm (db.statsFor hashes)) : (stats.map DirStatsRow.pathHash).Nodup := by
  have hfilter : ((db.statsFor hashes).map DirStatsRow.pathHash).Nodup :=
    db.dirStats.nodup.sublist (List.filter_sublist.map _)
  exact (hstats.map _).nodup_iff.mpr hfilter

/-- What the lookup finds for a directory of the page is what is joined to
its row. -/
theorem attached_of_perm {db : ApiDb} {page : List EntryRow} {stats : List DirStatsRow}
    (hstats : stats.Perm (db.statsFor (scanPlain page).dirHashes)) {r : EntryRow} (hr : r ∈ page) :
    attached stats r =
      if r.file.fileType = 2 then
        (db.dirStats.find? r.file.pathHash).bind DirStatsRow.aggregates
      else none := by
  by_cases hdir : r.file.fileType = 2
  · have hhash : r.file.pathHash ∈ (scanPlain page).dirHashes :=
      mem_dirHashes.mpr ⟨r, hr, hdir, rfl⟩
    let found : DirStats := ⟨stats, nodup_of_perm_statsFor hstats⟩
    have hfind : found.find? r.file.pathHash = db.dirStats.find? r.file.pathHash := by
      ext s
      rw [Table.find?_eq_some, Table.find?_eq_some]
      refine and_congr_left fun hkey => ?_
      have hmem : s ∈ stats ↔ s ∈ db.dirStats.rows ∧ s.pathHash ∈ (scanPlain page).dirHashes := by
        rw [hstats.mem_iff, ApiDb.statsFor, List.mem_filter]
        simp
      exact hmem.trans (and_iff_left (hkey ▸ hhash))
    rw [attached, if_pos hdir, if_pos hdir, ← hfind]
    rfl
  · rw [attached, if_neg hdir, if_neg hdir]

/-- One row, in both variants. -/
theorem scanRow_joinStats_iff {db : ApiDb} {r : EntryRow} :
    scanRow true (db.joinStats r) = some (r.info.withAggregates
        (if r.file.fileType = 2 then
          (db.dirStats.find? r.file.pathHash).bind DirStatsRow.aggregates
        else none)) ↔
      ∀ s, db.dirStats.find? r.file.pathHash = some s →
        s.CountFits ∧ (r.file.fileType = 2 ∨ s.totalSizeBytes = none) := by
  have hinfo : (db.joinStats r).info = r.info := rfl
  have hjoined : (db.joinStats r).stats = db.dirStats.find? r.file.pathHash := rfl
  rw [scanRow, if_pos rfl, hinfo, hjoined]
  cases db.dirStats.find? r.file.pathHash with
  | none => simp [scanStats]
  | some s =>
      by_cases hfits : s.CountFits
      · by_cases hdir : r.file.fileType = 2
        · simp [scanStats, hfits, hdir]
        · simp [scanStats, hfits, hdir, FileInfo.withAggregates, DirStatsRow.aggregates]
      · simp [scanStats, hfits]

/-- **Both variants return the same response**, ties in the same order,
exactly if every file count of the page fits an `sql.NullInt32` and nothing
but directories has a total. -/
theorem searchVariants_agree_iff {float : Float64} {a : Access} {req : SearchRequest}
    {filter : Text} {args : List Value} {server : Server} {db : ApiDb} {page : List EntryRow}
    {stats : List DirStatsRow} (hplain : req.needsDirStats = false)
    (h : searchFilter float a req.rules = .ok (filter, args))
    (hpage : SearchPage server req filter args (fromEntries db) page)
    (hstats : stats.Perm (db.statsFor (scanPlain page).dirHashes)) :
    SearchPage server req filter args (fromEntriesWithStats db) (page.map db.joinStats) ∧
      (plainResponse page stats = joinedResponse (page.map db.joinStats) ↔
        ∀ r ∈ page, ∀ s, db.dirStats.find? r.file.pathHash = some s →
          s.CountFits ∧ (r.file.fileType = 2 ∨ s.totalSizeBytes = none)) := by
  refine ⟨hpage.joinStats hplain h, ?_⟩
  rw [plainResponse_eq hpage.nodup_pathHash (nodup_of_perm_statsFor hstats), joinedResponse,
    List.filterMap_map, eq_comm, List.filterMap_eq_map_iff_forall_eq_some]
  refine forall₂_congr fun r hr => ?_
  rw [attached_of_perm hstats hr]
  exact scanRow_joinStats_iff

/-! ## statistics of a large tree -/

def sampleServer : Server where
  matchers := sampleMatchers
  patternError := fun _ _ => none
  textLe := fun _ _ => true
  trans := fun _ _ _ _ _ => rfl
  total := fun _ _ => rfl

/-- Statistics of the directory with hash `[1]`, over `count` files. -/
def sampleStats (count : Int) : DirStatsRow :=
  ⟨[1], some 0, some count, none, none, none, none, none, none⟩

/-- An index of that directory. -/
def sampleStatsDb (count : Int) : ApiDb where
  filesystemIndex :=
    ⟨[⟨"/d".toList, none, [1], none, 0, 2, "755".toList, 0, 0, 0, 0, 0, []⟩], by simp⟩
  identity := ⟨Table.empty, Table.empty⟩
  dirStats := ⟨[sampleStats count], by simp⟩

/-- Everything owned by root. -/
def sampleOwned : SearchRequest :=
  { rules := [⟨"uid".toList, "equals".toList, "0".toList, [], false⟩] }

def sampleOwnedFilter : Text := "(f.uid = $1)".toList

theorem searchPage_sampleStatsDb (count : Int) :
    SearchPage sampleServer sampleOwned sampleOwnedFilter [.int 0]
      (fromEntries (sampleStatsDb count)) (fromEntries (sampleStatsDb count)) := by
  have hrows : fromEntries (sampleStatsDb count) = fromEntries (sampleStatsDb 0) := rfl
  have hmatching : matchingRows sampleServer sampleOwnedFilter [.int 0]
      (fromEntries (sampleStatsDb 0)) = fromEntries (sampleStatsDb 0) := by decide +kernel
  rw [hrows]
  refine ⟨fromEntries (sampleStatsDb 0), ⟨?_, List.pairwise_singleton _ _⟩, by decide⟩
  rw [hmatching]

theorem searchFilter_sampleOwned :
    searchFilter sampleFloat (sampleCaller ["admins".toList] []) sampleOwned.rules =
      .ok (sampleOwnedFilter, [.int 0]) := by decide +kernel

theorem searchVariants_agree_iff_small :
    plainResponse (fromEntries (sampleStatsDb 1)) [sampleStats 1] =
      joinedResponse ((fromEntries (sampleStatsDb 1)).map (sampleStatsDb 1).joinStats) :=
  (searchVariants_agree_iff (by decide) searchFilter_sampleOwned (searchPage_sampleStatsDb 1)
    (by decide)).2.mpr (by decide)

/-- From 2 ^ 31 files on, the joined variant loses the directory. -/
theorem large_directory_lost :
    (sampleOwned.needsDirStats = false ∧
      searchFilter sampleFloat (sampleCaller ["admins".toList] []) sampleOwned.rules =
        .ok (sampleOwnedFilter, [.int 0])) ∧
      SearchPage sampleServer sampleOwned sampleOwnedFilter [.int 0]
        (fromEntries (sampleStatsDb (2 ^ 31))) (fromEntries (sampleStatsDb (2 ^ 31))) ∧
      (plainResponse (fromEntries (sampleStatsDb (2 ^ 31))) [sampleStats (2 ^ 31)]).length = 1 ∧
      joinedResponse ((fromEntries (sampleStatsDb (2 ^ 31))).map
        (sampleStatsDb (2 ^ 31)).joinStats) = [] :=
  ⟨⟨by decide, searchFilter_sampleOwned⟩, searchPage_sampleStatsDb _, by decide, by decide⟩

end Cuttlefish
