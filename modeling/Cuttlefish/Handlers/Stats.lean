import Cuttlefish.Handlers.Listing

/-!
# Cuttlefish.Handlers.Stats

Statistics in listings.  A listing that includes statistics should be the
listing without, with the aggregates of `dir_stats` at its entries, and what
`/api/dir/stats` answers for a directory should be the entry its parent lists.
`statsAgree_iff` says when: as long as every file count that is listed scans
into 32 bits.
-/

namespace Cuttlefish

/-- What `dir_stats` holds for an entry. -/
def ApiDb.aggregatesOf (db : ApiDb) (hash : Bytes) : Option DirAggregates :=
  (db.dirStats.find? hash).bind DirStatsRow.aggregates

/-- The row the query without statistics returns. -/
def EntryRow.bare (r : EntryRow) : EntryRow := { r with stats := none }

/-- Statistics decorate a listing and change nothing else, for every caller
and in every order of the rows. -/
structure StatsAgree (d : Digest) (db : ApiDb) : Prop where
  listing : ∀ (a : Access) (dir : Bytes) (rows : List EntryRow),
    rows.Perm (childrenQuery d db dir true) →
      listDirectory d db a dir true rows =
        (listDirectory d db a dir false (rows.map EntryRow.bare)).map fun files =>
          List.zipWith (fun f r => f.withAggregates (db.aggregatesOf r.file.pathHash)) files rows
  directory : ∀ (a a' : Access) (dir child : Bytes) (rows : List EntryRow) (r : EntryRow)
    (files : List FileInfo) (info : FileInfo), rows.Perm (childrenQuery d db dir true) →
      listDirectory d db a dir true rows = .ok files → r ∈ rows →
      r.file.pathHash = pathHash d child → getDirStats d db a' child true = .ok info →
        info ∈ files

section Rows

variable {d : Digest} {db : ApiDb} {dir : Bytes} {r : EntryRow} {rows : List EntryRow}

/-- Both queries of a listing return the same entries. -/
theorem map_bare_childrenQuery (d : Digest) (db : ApiDb) (dir : Bytes) :
    (childrenQuery d db dir true).map EntryRow.bare = childrenQuery d db dir false := by
  have hbare : EntryRow.bare ∘ db.statsRow = db.entryRow := rfl
  simp only [childrenQuery, if_true, Bool.false_eq_true, if_false, fromEntriesWithStats_eq,
    fromEntries_eq, List.filter_map, List.map_map, hbare]
  rfl

theorem mem_childrenQuery_true :
    r ∈ childrenQuery d db dir true ↔
      ∃ f ∈ db.filesystemIndex, f.parentHash = some (pathHash d dir) ∧ db.statsRow f = r := by
  simp only [childrenQuery, if_true, fromEntriesWithStats_eq, List.mem_filter, List.mem_map,
    isChildOf, decide_eq_true_eq]
  constructor
  · intro h
    obtain ⟨⟨f, hf, rfl⟩, hparent⟩ := h
    exact ⟨f, hf, hparent, rfl⟩
  · intro h
    obtain ⟨f, hf, hparent, rfl⟩ := h
    exact ⟨⟨f, hf, rfl⟩, hparent⟩

/-- The entry of a row with the aggregates of `dir_stats`. -/
def ApiDb.decorated (db : ApiDb) (r : EntryRow) : FileInfo :=
  r.info.withAggregates (db.aggregatesOf r.file.pathHash)

/-- A row scans into the decorated entry unless its file count is too large. -/
theorem scanRow_statsRow_iff {f : IndexRow} :
    scanRow true (db.statsRow f) = some (db.decorated (db.statsRow f)) ↔
      ∀ s, db.dirStats.find? f.pathHash = some s → s.CountFits := by
  have hstats : (db.statsRow f).stats = db.dirStats.find? f.pathHash := rfl
  have hhash : (db.statsRow f).file.pathHash = f.pathHash := rfl
  rw [scanRow, if_pos rfl, hstats, ApiDb.decorated, ApiDb.aggregatesOf, hhash]
  cases db.dirStats.find? f.pathHash with
  | none => simp [scanStats]
  | some s =>
      by_cases hfits : s.CountFits
      · simp [scanStats, hfits]
      · simp [scanStats, hfits]

theorem zipWith_decorated (rows : List EntryRow) :
    List.zipWith (fun f r => f.withAggregates (db.aggregatesOf r.file.pathHash))
      (rows.map EntryRow.info) rows = rows.map db.decorated := by
  rw [List.zipWith_map_left, List.zipWith_self]
  rfl

theorem filterMap_scanRow_bare (rows : List EntryRow) :
    (rows.map EntryRow.bare).filterMap (scanRow false) = rows.map EntryRow.info := by
  rw [List.filterMap_map, List.filterMap_eq_map_iff_forall_eq_some]
  intro r _
  rfl

end Rows

/-- Every file count a listing of `dir` reads scans. -/
def ListedCountsFit (d : Digest) (db : ApiDb) (dir : Bytes) : Prop :=
  ∀ f ∈ db.filesystemIndex, f.parentHash = some (pathHash d dir) →
    ∀ s, db.dirStats.find? f.pathHash = some s → s.CountFits

section Agree

variable {d : Digest} {db : ApiDb} {a : Access} {dir : Bytes} {rows : List EntryRow}

theorem filterMap_scanRow_iff (hrows : rows.Perm (childrenQuery d db dir true)) :
    rows.filterMap (scanRow true) = rows.map db.decorated ↔ ListedCountsFit d db dir := by
  rw [List.filterMap_eq_map_iff_forall_eq_some]
  constructor
  · intro h f hf hparent
    have hmem := hrows.mem_iff.mpr (mem_childrenQuery_true.mpr ⟨f, hf, hparent, rfl⟩)
    exact scanRow_statsRow_iff.mp (h _ hmem)
  · intro h r hr
    obtain ⟨f, hf, hparent, rfl⟩ := mem_childrenQuery_true.mp (hrows.mem_iff.mp hr)
    exact scanRow_statsRow_iff.mpr (h f hf hparent)

/-- A listing that is admitted. -/
theorem listDirectory_eq (hdir : dir ≠ []) (hallows : a.allows dir = true)
    (includeStats : Bool) :
    listDirectory d db a dir includeStats rows =
      if rows.filterMap (scanRow includeStats) = [] ∧ ¬ db.indexed (pathHash d dir) then
        .error (.notFound "Directory not found".toList)
      else .ok (rows.filterMap (scanRow includeStats)) := by
  rw [listDirectory, if_neg hdir, if_neg (not_not_intro hallows)]

theorem listDirectory_of_countsFit (hfits : ListedCountsFit d db dir)
    (hrows : rows.Perm (childrenQuery d db dir true)) :
    listDirectory d db a dir true rows =
      (listDirectory d db a dir false (rows.map EntryRow.bare)).map fun files =>
        files.zipWith (fun f r => f.withAggregates (db.aggregatesOf r.file.pathHash)) rows := by
  by_cases hdir : dir = []
  · simp [listDirectory, hdir, Except.map]
  by_cases hallows : a.allows dir = true
  · rw [listDirectory_eq hdir hallows, listDirectory_eq hdir hallows, filterMap_scanRow_bare,
      (filterMap_scanRow_iff hrows).mpr hfits]
    simp only [List.map_eq_nil_iff]
    split_ifs
    · rfl
    · rw [Except.map, zipWith_decorated]
  · simp [listDirectory, hdir, hallows, Except.map]

/-- What `/api/dir/stats` answers for an entry. -/
theorem getDirStats_eq_ok {child : Bytes} {info : FileInfo}
    (h : getDirStats d db a child true = .ok info) :
    ∃ f ∈ db.filesystemIndex, f.pathHash = pathHash d child ∧
      info = (db.entryRow f).info.withAggregates
        ((scanStats (db.dirStats.find? (pathHash d child))).getD none) := by
  unfold getDirStats at h
  simp only [if_true] at h
  split_ifs at h
  cases hfind : (fromEntries db).find? fun r => r.file.pathHash = pathHash d child with
  | none =>
      rw [hfind] at h
      cases h
  | some r =>
      rw [hfind] at h
      dsimp only at h
      split_ifs at h
      cases h
      have hmem := List.mem_of_find?_eq_some hfind
      have hhash : r.file.pathHash = pathHash d child := by simpa using List.find?_some hfind
      rw [fromEntries_eq, List.mem_map] at hmem
      obtain ⟨f, hf, rfl⟩ := hmem
      exact ⟨f, hf, hhash, rfl⟩

theorem files_of_listDirectory {includeStats : Bool} {files : List FileInfo}
    (h : listDirectory d db a dir includeStats rows = .ok files) :
    files = rows.filterMap (scanRow includeStats) := by
  unfold listDirectory at h
  dsimp only at h
  split_ifs at h
  exact (Except.ok.inj h).symm

theorem mem_files_of_getDirStats {a' : Access} {child : Bytes} {r : EntryRow}
    {files : List FileInfo} {info : FileInfo} (hfits : ListedCountsFit d db dir)
    (hrows : rows.Perm (childrenQuery d db dir true))
    (hfiles : listDirectory d db a dir true rows = .ok files) (hr : r ∈ rows)
    (hchild : r.file.pathHash = pathHash d child)
    (h : getDirStats d db a' child true = .ok info) : info ∈ files := by
  obtain ⟨f, hf, hhash, rfl⟩ := getDirStats_eq_ok h
  obtain ⟨f', hf', hparent, rfl⟩ := mem_childrenQuery_true.mp (hrows.mem_iff.mp hr)
  -- a hash names one entry
  have hsame : f' = f :=
    List.inj_on_of_nodup_map db.filesystemIndex.nodup hf' hf (hchild.trans hhash.symm)
  subst hsame
  have hlisted : files = rows.map db.decorated :=
    (files_of_listDirectory hfiles).trans ((filterMap_scanRow_iff hrows).mpr hfits)
  have hentry : (db.entryRow f').info.withAggregates
      ((scanStats (db.dirStats.find? (pathHash d child))).getD none) =
        db.decorated (db.statsRow f') := by
    have hhash' : (db.statsRow f').file.pathHash = f'.pathHash := rfl
    have hinfo : (db.statsRow f').info = (db.entryRow f').info := rfl
    rw [← hhash, ApiDb.decorated, ApiDb.aggregatesOf, hhash', hinfo]
    cases hstats : db.dirStats.find? f'.pathHash with
    | none => rfl
    | some s => simp [scanStats, hfits f' hf' hparent s hstats]
  rw [hlisted, hentry]
  exact List.mem_map_of_mem hr

/-- A listing that agrees shows every row. -/
theorem countsFit_of_listing (hdir : dir ≠ []) (hallows : a.allows dir = true)
    (hrows : rows.Perm (childrenQuery d db dir true))
    (h : listDirectory d db a dir true rows =
      (listDirectory d db a dir false (rows.map EntryRow.bare)).map fun files =>
        List.zipWith (fun f r => f.withAggregates (db.aggregatesOf r.file.pathHash)) files rows) :
    ListedCountsFit d db dir := by
  rw [listDirectory_eq hdir hallows, listDirectory_eq hdir hallows, filterMap_scanRow_bare] at h
  by_cases hnil : rows = []
  · intro f hf hparent
    have hmem := hrows.mem_iff.mpr (mem_childrenQuery_true.mpr ⟨f, hf, hparent, rfl⟩)
    simp [hnil] at hmem
  · rw [if_neg (show ¬ (rows.map EntryRow.info = [] ∧ _) by simp [hnil]), Except.map,
      zipWith_decorated] at h
    split_ifs at h
    exact (filterMap_scanRow_iff hrows).mp (Except.ok.inj h)

theorem StatsAgree.countsFit (h : StatsAgree d db) (hdir : dir ≠ []) :
    ListedCountsFit d db dir := by
  let admin : Access := { user := [], role := .admin, prefixes := [] }
  have hadmin : admin.allows dir = true := rfl
  have hrows : (childrenQuery d db dir true).Perm (childrenQuery d db dir true) := List.Perm.refl _
  exact countsFit_of_listing hdir hadmin hrows (h.listing admin dir _ hrows)

end Agree

/-- **When statistics only decorate**: exactly if every file count some
listing reads fits an `sql.NullInt32`. -/
theorem statsAgree_iff (d : Digest) (db : ApiDb) :
    StatsAgree d db ↔ ∀ dir, dir ≠ [] → ListedCountsFit d db dir := by
  constructor
  · intro h dir hdir
    exact h.countsFit hdir
  · intro h
    constructor
    · intro a dir rows hrows
      by_cases hdir : dir = []
      · simp [listDirectory, hdir, Except.map]
      · exact listDirectory_of_countsFit (h dir hdir) hrows
    · intro a a' dir child rows r files info hrows hfiles hr hchild hinfo
      by_cases hdir : dir = []
      · simp [listDirectory, hdir] at hfiles
      · exact mem_files_of_getDirStats (h dir hdir) hrows hfiles hr hchild hinfo

/-- `/` and `/d`, with 2 ^ 31 files below `/d`. -/
def sampleLargeDb : ApiDb where
  filesystemIndex :=
    ⟨[⟨"/".toList, none, pathHash sampleDigest (utf8 "/".toList), none, 0, 2, "755".toList, 0, 0, 0,
        0, 0, []⟩,
      ⟨"/d".toList, none, pathHash sampleDigest (utf8 "/d".toList),
        some (pathHash sampleDigest (utf8 "/".toList)), 0, 2, "755".toList, 0, 0, 0, 0, 0, []⟩],
      by decide⟩
  identity := ⟨Table.empty, Table.empty⟩
  dirStats := ⟨[⟨pathHash sampleDigest (utf8 "/d".toList), some 0, some (2 ^ 31), none, none, none,
    none, none, none⟩], by simp⟩

/-- `/d` vanishes from the listing of `/`, and its own page has no total. -/
theorem large_directory_unlisted :
    ¬ StatsAgree sampleDigest sampleLargeDb ∧
      ∃ a : Access,
        listDirectory sampleDigest sampleLargeDb a (utf8 "/".toList) true
          (childrenQuery sampleDigest sampleLargeDb (utf8 "/".toList) true) = .ok [] ∧
        (listDirectory sampleDigest sampleLargeDb a (utf8 "/".toList) false
          (childrenQuery sampleDigest sampleLargeDb (utf8 "/".toList) false)).map List.length =
            .ok 1 ∧
        (getDirStats sampleDigest sampleLargeDb a (utf8 "/d".toList) true).map
          FileInfo.aggregates = .ok none := by
  refine ⟨fun h => ?_, { user := [], role := .admin, prefixes := [] }, by decide, by decide,
    by decide⟩
  have hfits : ListedCountsFit sampleDigest sampleLargeDb (utf8 "/".toList) :=
    h.countsFit (by decide)
  revert hfits
  unfold ListedCountsFit
  decide

end Cuttlefish
