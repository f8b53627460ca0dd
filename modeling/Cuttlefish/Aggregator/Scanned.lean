import Cuttlefish.Aggregator.Snapshot
import Cuttlefish.Handlers.Scanned
import Cuttlefish.Handlers.Stats

/-!
# Cuttlefish.Aggregator.Scanned

From the disk to the totals: a scan, then an aggregation over the index it
left, then what `fs_api` answers.  The totals of a directory are those of the
files and directories the walker reported strictly below it
(`stats_of_scan`), however many other rows the index holds and in whatever
order PostgreSQL streamed them.

The aggregator drops `/proc/kcore` from the index before it starts.
-/

namespace Cuttlefish

/-! ## covered paths by components -/

theorem covers_absPath_append {cs rest : List Bytes} (h : ∀ c ∈ cs ++ rest, c ≠ []) :
    scanRootCovers (absPath cs) (absPath (cs ++ rest)) := by
  induction rest using List.reverseRecOn with
  | nil =>
      rw [List.append_nil]
      exact scanRootCovers_self _
  | append_singleton rest c ih =>
      have hpre : ∀ x ∈ cs ++ rest, x ≠ [] := fun x hx => h x (by
        rw [← List.append_assoc]
        exact List.mem_append_left _ hx)
      have hlast : scanRootCovers (absPath (cs ++ rest)) (absPath (cs ++ (rest ++ [c]))) := by
        rw [← List.append_assoc, absPath_concat hpre]
        exact Or.inr (List.prefix_append _ _)
      exact (ih hpre).trans hlast

/-- Between canonical paths, to lie strictly below is to be covered by another
path. -/
theorem strictlyBelow_iff_covers {dir p : Bytes} (hdir : Canonical dir) (hp : Canonical p) :
    StrictlyBelow dir p ↔ scanRootCovers dir p ∧ p ≠ dir := by
  constructor
  · intro h
    obtain ⟨rest, hrest⟩ := h.2.1
    have hne : ∀ c ∈ components dir ++ rest, c ≠ [] := by
      rw [hrest]
      exact fun c hc => (hp.isComponent c hc).ne_nil
    refine ⟨?_, ?_⟩
    · rw [hdir.eq_absPath, hp.eq_absPath, ← hrest]
      exact covers_absPath_append hne
    · rintro rfl
      exact h.2.2 rfl
  · intro h
    refine ⟨hdir, components_prefix_of_scanRootCovers h.1, fun heq => h.2 ?_⟩
    rw [hp.eq_absPath, ← heq, ← hdir.eq_absPath]

/-! ## every directory above a path -/

/-- Paths in play come with everything they count for. -/
theorem PathsInPlay.above {d : Digest} {paths : Set Bytes} (h : PathsInPlay d paths)
    {dir p : Bytes} (hcanonical : Canonical p) (hp : p ∈ paths) (hbelow : StrictlyBelow dir p) :
    dir ∈ paths := by
  -- on the depth of the path
  induction hn : (components p).length generalizing p with
  | zero =>
      have hnil := List.length_eq_zero_iff.mp hn
      exact absurd (List.prefix_nil.mp (hnil ▸ hbelow.2.1)) fun heq =>
        hbelow.2.2 (heq.trans hnil.symm)
  | succ n ih =>
      have hne : components p ≠ [] := by
        intro hnil
        simp [hnil] at hn
      have hproper : ∀ c ∈ (components p).dropLast, IsComponent c := fun c hc =>
        hcanonical.isComponent c ((components p).dropLast_sublist.subset hc)
      have hparent : getParentPath p = some (absPath (components p).dropLast) := by
        rw [hcanonical.getParentPath_eq, if_neg hne]
      have hup := h.parent p hp _ hparent
      by_cases hdir : absPath (components p).dropLast = dir
      · exact hdir ▸ hup
      · refine ih (canonical_iff.mpr ⟨_, hproper, rfl⟩) hup ⟨hbelow.1, ?_, fun heq => hdir ?_⟩ ?_
        · obtain ⟨rest, hrest⟩ := hbelow.2.1
          have hrest' : rest ≠ [] := by
            rintro rfl
            exact hbelow.2.2 (by simpa using hrest)
          rw [components_absPath hproper, ← hrest, List.dropLast_append_of_ne_nil hrest']
          exact List.prefix_append _ _
        · rw [hbelow.1.eq_absPath, heq, components_absPath hproper]
        · rw [components_absPath hproper]
          simp [hn]

/-! ## totals -/

/-- `/proc/kcore`, which claims the size of the address space. -/
def kcore : Bytes := utf8 "/proc/kcore".toList

/-- `DELETE FROM filesystem_index WHERE path_hash = $1`. -/
def removeKcore (d : Digest) (index : Index) : Index :=
  index.deleteWhere fun r => r.pathHash = computeHash d "/proc/kcore".toList

/-- An entry on disk, as the aggregator streams it. -/
def diskEntry (e : Bytes × Metadata) : IndexEntry where
  rawPath := e.1
  size := e.2.len.toInt64.toInt
  mtime := e.2.mtime
  atime := e.2.atime
  ctime := e.2.ctime
  uid := asI32 e.2.uid
  gid := asI32 e.2.gid

theorem indexEntry_toRow (d : Digest) (e : Bytes × Metadata) :
    ((fileRecord d e.1 e.2).toRow).indexEntry = diskEntry e := by
  unfold IndexRow.indexEntry
  rw [raw_toRow]
  rfl

/-- What counts for the directory at `p`: the files and directories reported
strictly below it, `/proc/kcore` excepted. -/
def countedFor (reported : List (Bytes × Metadata)) (p : Bytes) : List IndexEntry :=
  (reported.filter fun e => e.1 ≠ kcore ∧ (fileTypeOf e.2.mode = 1 ∨ fileTypeOf e.2.mode = 2) ∧
    scanRootCovers p e.1 ∧ e.1 ≠ p).map diskEntry

theorem length_countedFor_le (reported : List (Bytes × Metadata)) (p : Bytes) :
    (countedFor reported p).length ≤ reported.length := by
  rw [countedFor, List.length_map]
  exact List.length_filter_le _ _

/-- The aggregates of a directory, as the API reports them. -/
def DirNode.aggregates (node : DirNode) : DirAggregates where
  totalSize := node.size
  fileCount := node.count
  mtimeFirst := node.mtimeFirst
  mtimeLast := node.mtimeLast
  atimeFirst := node.atimeFirst
  atimeLast := node.atimeLast
  ctimeFirst := node.ctimeFirst
  ctimeLast := node.ctimeLast

/-- The totals of some rows: none of none, else their summary. -/
def TotalsOf (rows : List IndexEntry) (a : Option DirAggregates) : Prop :=
  (rows = [] ∧ a = none) ∨ ∃ node : DirNode, node.Summarizes rows ∧ a = some node.aggregates

theorem DirNode.Summarizes.perm {node : DirNode} {rows rows' : List IndexEntry}
    (h : node.Summarizes rows) (hperm : rows.Perm rows') : node.Summarizes rows' where
  count_eq := hperm.length_eq ▸ h.count_eq
  size_eq := cappedSize_perm hperm ▸ h.size_eq
  mtimeFirst := column_perm hperm ▸ h.mtimeFirst
  mtimeLast := column_perm hperm ▸ h.mtimeLast
  atimeFirst := column_perm hperm ▸ h.atimeFirst
  atimeLast := column_perm hperm ▸ h.atimeLast
  ctimeFirst := column_perm hperm ▸ h.ctimeFirst
  ctimeLast := column_perm hperm ▸ h.ctimeLast

/-! ## what counts, row by row -/

namespace TreeRun

variable {d : Digest} {paths : Set Bytes} {db : Db} {run : TreeRun d} {api : ApiDb}
  {userStats : Table UserStatsRow.key}

/-- The tables the API reads once the aggregator has run over the index a scan
left, whose paths and sizes are ones it can hold. -/
structure Aggregated (run : TreeRun d) (paths : Set Bytes) (db : Db) (api : ApiDb)
    (userStats : Table UserStatsRow.key) : Prop where
  scanned : run.Over paths db
  kcore_mem : kcore ∈ paths
  index_eq : api.filesystemIndex = removeKcore d (run.toScanRun.apply db).filesystemIndex
  entries_wf : ∀ x ∈ api.filesystemIndex, x.indexEntry.Wf
  tables : RunAggregation d api.filesystemIndex api.dirStats userStats

section Aggregated

variable (hagg : run.Aggregated paths db api userStats)
include hagg

/-- Among the paths in play only `/proc/kcore` has its hash. -/
theorem Aggregated.index_rows :
    api.filesystemIndex.rows =
      (run.toScanRun.apply db).filesystemIndex.rows.filter fun x => decide (x.raw ≠ kcore) := by
  rw [hagg.index_eq]
  refine List.filter_congr fun x hx => ?_
  have hlinked := linked_apply hagg.scanned x hx
  rw [← decide_not, decide_eq_decide, not_iff_not, hlinked.pathHash_eq]
  constructor
  · intro h
    exact hagg.scanned.inPlay.free hlinked.emitted hagg.kcore_mem h
  · intro h
    rw [h]
    rfl

theorem Aggregated.mem_paths {x : IndexRow} (hx : x ∈ api.filesystemIndex) : x.raw ∈ paths := by
  rw [hagg.index_eq] at hx
  exact (linked_apply hagg.scanned x (Table.mem_deleteWhere.mp hx).1).emitted

theorem Aggregated.indexEntries_wf : ∀ r ∈ indexEntries api.filesystemIndex, r.Wf := by
  intro r hr
  obtain ⟨x, hx, _, rfl⟩ := mem_indexEntries.mp hr
  exact hagg.entries_wf x hx

variable {dir : Bytes} {n : FsNode} (h : run.Finds dir n)
include h

/-- **The rows the aggregator folds into a directory** are what the walker
reported strictly below it. -/
theorem Aggregated.counted_perm {p : Bytes} (hp : Canonical p) (hcovers : scanRootCovers dir p) :
    ((indexEntries api.filesystemIndex).filter fun r => StrictlyBelow p r.rawPath).Perm
      (countedFor (run.below dir n) p) := by
  have hsubtree :=
    subtree_perm hagg.scanned.inPlay.free hagg.scanned.entries hagg.scanned.recorded h
  let counts (x : IndexRow) : Bool :=
    decide (x.raw ≠ kcore ∧ (x.fileType = 1 ∨ x.fileType = 2) ∧ scanRootCovers p x.raw ∧ x.raw ≠ p)
  have hleft : ((indexEntries api.filesystemIndex).filter fun r => StrictlyBelow p r.rawPath) =
      ((((run.toScanRun.apply db).filesystemIndex.rows.filter fun x =>
        scanRootCovers dir x.raw).map IndexRow.entry).filter counts).map IndexRow.indexEntry := by
    have hentry : IndexRow.indexEntry ∘ IndexRow.entry = IndexRow.indexEntry := rfl
    rw [indexEntries, List.filter_map, List.filter_filter, List.filter_map, List.map_map, hentry,
      List.filter_filter, hagg.index_rows, List.filter_filter]
    refine congrArg _ (List.filter_congr fun x hx => ?_)
    by_cases hk : x.raw = kcore
    · simp [hk, counts]
    · have hmem : x ∈ api.filesystemIndex := by
        rw [Table.mem_def, hagg.index_rows, List.mem_filter]
        exact ⟨hx, by simpa using hk⟩
      have hiff := strictlyBelow_iff_covers hp (hagg.entries_wf x hmem).canonical
      have hraw : x.indexEntry.rawPath = x.raw := rfl
      have htype : x.entry.fileType = x.fileType := rfl
      rw [hraw] at hiff
      rw [Bool.eq_iff_iff]
      by_cases hbelow : scanRootCovers p x.raw
      · simp [counts, hk, IndexRow.counted, hraw, hiff, hbelow, htype, hcovers.trans hbelow,
          and_comm]
        exact fun _ => decide_eq_false_iff_not.symm
      · simp [counts, hraw, hiff, hbelow]
  have hright : countedFor (run.below dir n) p =
      (((run.below dir n).map fun e => (fileRecord d e.1 e.2).toRow).filter counts).map
        IndexRow.indexEntry := by
    have hentry : (IndexRow.indexEntry ∘ fun e : Bytes × Metadata => (fileRecord d e.1 e.2).toRow) =
        diskEntry := funext (indexEntry_toRow d)
    rw [countedFor, List.filter_map, List.map_map, hentry]
    refine congrArg _ (List.filter_congr fun e _ => ?_)
    simp only [counts, Function.comp_apply, raw_toRow]
    rfl
  rw [hleft, hright]
  exact (hsubtree.filter _).map _

variable {p : Bytes} (hp : Canonical p) (hmem : p ∈ paths) (hcovers : scanRootCovers dir p)
include hp hmem hcovers

/-- **What `dir_stats` holds** of a path at or below the directory. -/
theorem Aggregated.find?_dirStats :
    (api.dirStats.find? (pathHash d p) = none ∧
        (p = [slash] ∨ countedFor (run.below dir n) p = [])) ∨
      ∃ node : DirNode, p ≠ [slash] ∧ node.Summarizes (countedFor (run.below dir n) p) ∧
        api.dirStats.find? (pathHash d p) = some (node.toRow d p) := by
  have hpaths : ∀ r ∈ indexEntries api.filesystemIndex, ∀ q ∈ foldedInto r.rawPath, q ∈ paths := by
    intro r hr q hq
    obtain ⟨x, hx, _, rfl⟩ := mem_indexEntries.mp hr
    have hcanonical := (hagg.entries_wf x hx).canonical
    exact hagg.scanned.inPlay.above hcanonical (hagg.mem_paths hx) ((mem_foldedInto hcanonical).mp hq).2
  have hperm := hagg.counted_perm h hp hcovers
  obtain ⟨hsome, hsum⟩ := aggregates_spec hagg.indexEntries_wf p
  rw [pathHash_eq, hagg.tables.find?_dirStats hagg.indexEntries_wf hagg.scanned.inPlay.free hpaths hmem]
  cases hnode : (streamRows (indexEntries api.filesystemIndex)).aggregates p with
  | none =>
      refine Or.inl ⟨rfl, or_iff_not_imp_left.mpr fun hroot => ?_⟩
      rw [← List.length_eq_zero_iff, ← hperm.length_eq, List.length_eq_zero_iff,
        List.filter_eq_nil_iff]
      intro r hr hbelow
      obtain ⟨node, hsome'⟩ := hsome.mpr ⟨hroot, r, hr, by simpa using hbelow⟩
      rw [hnode] at hsome'
      contradiction
  | some node =>
      exact Or.inr ⟨node, (hsome.mp ⟨node, hnode⟩).1, (hsum node hnode).perm hperm, rfl⟩

/-- The number of entries below the directory bounds every count. -/
theorem Aggregated.countFits (hcount : (run.below dir n).length < 2 ^ 31) :
    ∀ s, api.dirStats.find? (pathHash d p) = some s → s.CountFits := by
  intro s hs
  rcases hagg.find?_dirStats h hp hmem hcovers with ⟨hnone, _⟩ | ⟨node, _, hsummary, hsome⟩
  · rw [hnone] at hs
    contradiction
  · rw [hsome] at hs
    cases hs
    have hle := length_countedFor_le (run.below dir n) p
    intro c hc
    cases hc
    rw [FitsInt32, hsummary.count_eq]
    omega

/-- The totals the API reports. -/
theorem Aggregated.totalsOf :
    TotalsOf (if p = [slash] then [] else countedFor (run.below dir n) p)
      (api.aggregatesOf (pathHash d p)) := by
  rw [ApiDb.aggregatesOf]
  rcases hagg.find?_dirStats h hp hmem hcovers with ⟨hnone, hempty⟩ | ⟨node, hroot, hsummary, hsome⟩
  · rw [hnone]
    refine Or.inl ⟨?_, rfl⟩
    split_ifs with hslash
    · rfl
    · exact hempty.resolve_left hslash
  · rw [hsome, if_neg hroot]
    exact Or.inr ⟨node, hsummary, rfl⟩

end Aggregated

end TreeRun

/-! ## from the disk to the totals -/

/-- `a` are the totals of the directory at `p`, for a walk that reported
`reported`; `/` has none. -/
def ReportedTotals (reported : List (Bytes × Metadata)) (p : Bytes) (a : Option DirAggregates) :
    Prop :=
  TotalsOf (if p = [slash] then [] else countedFor reported p) a

section Totals

variable {d : Digest} {paths : Set Bytes} {db : Db} {run : TreeRun d} {api : ApiDb}
  {userStats : Table UserStatsRow.key} {dir : Bytes} {md : Metadata} {entries : FsEntries}
  (hagg : run.Aggregated paths db api userStats) (h : run.Finds dir (.dir md entries))
  (hdir : dir ∈ paths)
include hagg h hdir

/-- A row of the listing lies below the directory. -/
theorem linked_of_listed {x : IndexRow} (hx : x ∈ api.filesystemIndex)
    (hparent : x.parentHash = some (pathHash d dir)) :
    x.Linked d paths ∧ scanRootCovers dir x.raw := by
  have hx' := hx
  rw [hagg.index_eq] at hx'
  have hlinked := TreeRun.linked_apply hagg.scanned x (Table.mem_deleteWhere.mp hx').1
  have hplay := hagg.scanned.inPlay
  obtain ⟨name, hname⟩ :=
    (parentHash_eq_iff hlinked h.ne_nil (hplay.free.mono (hplay.inPlay_subset hdir))).mp hparent
  exact ⟨hlinked, hname ▸ covers_under name dir⟩

/-- Every file count of the listing scans. -/
theorem listedCountsFit_of_aggregated
    (hcount : (run.below dir (.dir md entries)).length < 2 ^ 31) :
    ListedCountsFit d api dir := by
  intro x hx hparent s hs
  obtain ⟨hlinked, hcovers⟩ := linked_of_listed hagg h hdir hx hparent
  rw [hlinked.pathHash_eq] at hs
  exact hagg.countFits h (hagg.entries_wf x hx).canonical hlinked.emitted hcovers hcount s hs

/-- A listing with statistics. -/
theorem files_perm_of_aggregated (hcount : (run.below dir (.dir md entries)).length < 2 ^ 31)
    {rows : List EntryRow} (hrows : rows.Perm (childrenQuery d api dir true)) :
    (rows.filterMap (scanRow true)).Perm
      (((shown run.walkFaults dir entries).filter fun e => e.1 ≠ kcore).map fun e =>
        (api.diskInfo e).withAggregates (api.aggregatesOf (pathHash d e.1))) := by
  have hchildren := TreeRun.children_perm hagg.scanned (fun p => p ≠ kcore) h hdir hagg.index_rows
  let decorate (x : IndexRow) : FileInfo :=
    (api.entryRow x).info.withAggregates (api.aggregatesOf x.pathHash)
  have hquery : (childrenQuery d api dir true).map api.decorated =
      ((api.filesystemIndex.rows.filter fun x =>
        decide (x.parentHash = some (pathHash d dir))).map IndexRow.entry).map decorate := by
    simp only [childrenQuery, if_true, fromEntriesWithStats_eq, List.filter_map, List.map_map]
    rfl
  have hdisk : (((shown run.walkFaults dir entries).filter fun e => e.1 ≠ kcore).map
      fun e => (fileRecord d e.1 e.2).toRow).map decorate =
        ((shown run.walkFaults dir entries).filter fun e => e.1 ≠ kcore).map fun e =>
          (api.diskInfo e).withAggregates (api.aggregatesOf (pathHash d e.1)) := by
    rw [List.map_map]
    rfl
  rw [(filterMap_scanRow_iff hrows).mpr (listedCountsFit_of_aggregated hagg h hdir hcount), ← hdisk]
  refine (hrows.map api.decorated).trans ?_
  rw [hquery]
  exact hchildren.map _

end Totals

/-- SHA-256 as far as it goes in `sampleDigest`, and at `/proc` and
`/proc/kcore`. -/
def kcoreDigest : Digest where
  sha256 b :=
    if b = utf8 "/proc".toList then
      [113, 173, 29, 250, 29, 229, 86, 222, 203, 214, 215, 49, 65, 150, 85, 46,
        52, 157, 102, 6, 123, 73, 171, 107, 248, 212, 134, 95, 170, 102, 52, 65]
    else if b = kcore then
      [156, 207, 151, 227, 29, 234, 82, 91, 143, 54, 254, 179, 115, 143, 25, 167,
        24, 26, 12, 133, 37, 236, 195, 234, 163, 48, 11, 122, 209, 62, 70, 73]
    else sampleDigest.sha256 b
  length_sha256 b := by
    split_ifs
    · rfl
    · rfl
    · exact sampleDigest.length_sha256 b

def fiveBytes : Metadata := ⟨5, 0o100644, 0, 0, 1, 2, 3⟩

theorem ne_nil_home : utf8 "home".toList ≠ [] := by decide

theorem slash_not_mem_home : slash ∉ utf8 "home".toList := by decide

def nameHome : FileName := ⟨utf8 "home".toList, ne_nil_home, slash_not_mem_home⟩

def fiveBytesRun : TreeRun kcoreDigest where
  config := ⟨some (utf8 "/home".toList), [], 8⟩
  roots := [utf8 "/home".toList]
  accepted := sampleTreeRun.accepted
  host := ⟨fun _ => none, fun _ _ => none, fun _ => none⟩
  disk := .dir sampleMetadata (.cons nameHome
    (.dir sampleMetadata (.cons nameA (.file fiveBytes) .nil)) .nil)
  wf := by simp [FsNode.Wf, FsEntries.Wf, FsEntries.names]
  walkFaults := {}
  results := [.ok ⟨utf8 "/home".toList, some sampleMetadata⟩,
    .ok ⟨utf8 "/home/a".toList, some fiveBytes⟩]
  order := by
    rw [show walk {} _ [utf8 "/home".toList] = [.ok ⟨utf8 "/home".toList, some sampleMetadata⟩,
      .ok ⟨utf8 "/home/a".toList, some fiveBytes⟩] from rfl]
  batches := [[fileRecord kcoreDigest (utf8 "/home".toList) sampleMetadata,
    fileRecord kcoreDigest (utf8 "/home/a".toList) fiveBytes]]
  split := rfl

def fiveBytesIndex : Index :=
  removeKcore kcoreDigest
    (fiveBytesRun.toScanRun.apply ⟨Table.empty, ⟨Table.empty, Table.empty⟩⟩).filesystemIndex

def fiveBytesApi : ApiDb where
  filesystemIndex := fiveBytesIndex
  identity := ⟨Table.empty, Table.empty⟩
  dirStats := ⟨dirStatsRows kcoreDigest (indexEntries fiveBytesIndex), by decide +kernel⟩

def fiveBytesOwners : Table UserStatsRow.key :=
  ⟨userStatsRows (indexEntries fiveBytesIndex), by decide +kernel⟩

/-- The paths of the instance, with the directories above them. -/
def fiveBytesPaths : List Bytes :=
  [utf8 "/".toList, utf8 "/home".toList, utf8 "/home/a".toList, utf8 "/proc".toList, kcore]

theorem pathsInPlay_fiveBytes : PathsInPlay kcoreDigest {p | p ∈ fiveBytesPaths} where
  free := by
    have hfree : ∀ p ∈ fiveBytesPaths, ∀ q ∈ fiveBytesPaths,
        computeHashBytes kcoreDigest p = computeHashBytes kcoreDigest q → p = q := by
      decide +kernel
    exact fun p hp q hq => hfree p hp q hq
  parent := by
    have hparents : ∀ p ∈ fiveBytesPaths, ∀ dir ∈ getParentPath p, dir ∈ fiveBytesPaths := by
      decide +kernel
    exact fun p hp dir hdir => hparents p hp dir hdir

theorem filesystemIndex_fiveBytes : fiveBytesApi.filesystemIndex = fiveBytesIndex := rfl

theorem indexEntry_wf_fiveBytes : ∀ x ∈ fiveBytesIndex, x.indexEntry.Wf := by
  have hfields : ∀ x ∈ fiveBytesIndex.rows, Canonical x.raw ∧ 0 ≤ x.sizeBytes ∧
      x.sizeBytes ≤ i64Max := by decide +kernel
  intro x hx
  obtain ⟨hcanonical, hnonneg, hle⟩ := hfields x hx
  exact ⟨hcanonical, hnonneg, hle⟩

theorem runAggregation_fiveBytes :
    RunAggregation kcoreDigest fiveBytesIndex fiveBytesApi.dirStats fiveBytesOwners := by
  constructor
  refine ⟨indexEntries fiveBytesIndex, List.Perm.refl _, ?_, ?_⟩
  · simp only [fiveBytesApi]
    exact List.Perm.refl _
  · simp only [fiveBytesOwners]
    exact List.Perm.refl _

theorem aggregated_fiveBytes :
    fiveBytesRun.Aggregated {p | p ∈ fiveBytesPaths} ⟨Table.empty, ⟨Table.empty, Table.empty⟩⟩
      fiveBytesApi fiveBytesOwners where
  scanned :=
    { inPlay := pathsInPlay_fiveBytes
      reachable := ⟨ScanDb.init, .init, rfl⟩
      entries := by
        have hentries : ∀ e ∈ fiveBytesRun.toScanRun.entries, e.1 ∈ fiveBytesPaths := by
          decide +kernel
        exact hentries }
  kcore_mem := by
    have hmem : kcore ∈ fiveBytesPaths := by decide +kernel
    exact hmem
  index_eq := filesystemIndex_fiveBytes
  entries_wf := by
    rw [filesystemIndex_fiveBytes]
    exact indexEntry_wf_fiveBytes
  tables := by
    rw [filesystemIndex_fiveBytes]
    exact runAggregation_fiveBytes

def fiveBytesFinds : fiveBytesRun.Finds (utf8 "/home".toList)
    (.dir sampleMetadata (.cons nameA (.file fiveBytes) .nil)) where
  root := utf8 "/home".toList
  root_mem := sampleFinds.root_mem
  node := _
  found := rfl
  names := []
  located := .here _
  path_eq := sampleFinds.path_eq
  wayOpen := trivial

end Cuttlefish
