import Cuttlefish.Aggregator
import Cuttlefish.Handlers.Lists

/-!
# Cuttlefish.Aggregator.Tables

One run of `fs_aggregator` over the tables: the rows of `filesystem_index` it
streams, and the rows of `dir_stats` and `user_stats` it copies in.

`RunAggregation.find?_dirStats` and `RunAggregation.find?_userStats` say what
the API finds there afterwards: the entry of the fold.
-/

namespace Cuttlefish

/-! ## what is read -/

/-- `file_type IN (1, 2)`. -/
def IndexRow.counted (x : IndexRow) : Bool := x.fileType = 1 || x.fileType = 2

/-- `SELECT COALESCE(path_raw, convert_to(path, 'UTF8')), size_bytes, …`. -/
def IndexRow.indexEntry (x : IndexRow) : IndexEntry where
  rawPath := x.raw
  size := x.sizeBytes
  mtime := x.mtime
  atime := x.atime
  ctime := x.ctime
  uid := x.uid
  gid := x.gid

/-- The rows of the stream. -/
def indexEntries (index : Index) : List IndexEntry :=
  (index.rows.filter IndexRow.counted).map IndexRow.indexEntry

/-! ## what is written -/

/-- The row of a directory. -/
def DirNode.toRow (d : Digest) (dir : Bytes) (node : DirNode) : DirStatsRow where
  pathHash := computeHashBytes d dir
  totalSizeBytes := some node.size
  fileCount := some node.count
  mtimeFirst := some node.mtimeFirst
  mtimeLast := some node.mtimeLast
  atimeFirst := some node.atimeFirst
  atimeLast := some node.atimeLast
  ctimeFirst := some node.ctimeFirst
  ctimeLast := some node.ctimeLast

/-- `COPY dir_stats`: a row for every key of the map. -/
def dirStatsRows (d : Digest) (stream : List IndexEntry) : List DirStatsRow :=
  (stream.flatMap fun r => foldedInto r.rawPath).dedup.filterMap fun dir =>
    ((streamRows stream).aggregates dir).map (DirNode.toRow d dir)

/-- The row of an owner. -/
def ownerRow (key : IdType × Int) (stat : Int × Nat) : UserStatsRow :=
  ⟨key.1, key.2, some stat.1, some stat.2⟩

/-- `COPY user_stats`. -/
def userStatsRows (stream : List IndexEntry) : List UserStatsRow :=
  (stream.flatMap IndexEntry.ownerKeys).dedup.filterMap fun key =>
    ((streamRows stream).userAggregates key).map (ownerRow key)

/-- A run that committed.  The stream comes in any order, and so do the
entries of a hash map. -/
structure RunAggregation (d : Digest) (index : Index) (dirStats : DirStats)
    (userStats : Table UserStatsRow.key) : Prop where
  tables : ∃ stream, stream.Perm (indexEntries index) ∧
    dirStats.rows.Perm (dirStatsRows d stream) ∧ userStats.rows.Perm (userStatsRows stream)

/-! ## what is found afterwards -/

section Found

variable {d : Digest} {index : Index} {dirStats : DirStats} {userStats : Table UserStatsRow.key}

theorem mem_indexEntries {r : IndexEntry} :
    r ∈ indexEntries index ↔ ∃ x ∈ index, x.counted = true ∧ x.indexEntry = r := by
  simp only [indexEntries, List.mem_map, List.mem_filter, Table.mem_def, and_assoc]

theorem mem_dirStatsRows {stream : List IndexEntry} (hwf : ∀ r ∈ stream, r.Wf) {s : DirStatsRow} :
    s ∈ dirStatsRows d stream ↔
      ∃ dir node, (streamRows stream).aggregates dir = some node ∧
        DirNode.toRow d dir node = s := by
  simp only [dirStatsRows, List.mem_filterMap, List.mem_dedup, List.mem_flatMap,
    Option.map_eq_some_iff]
  constructor
  · intro h
    obtain ⟨dir, _, node, hnode, hs⟩ := h
    exact ⟨dir, node, hnode, hs⟩
  · intro h
    obtain ⟨dir, node, hnode, hs⟩ := h
    obtain ⟨hroot, r, hr, hbelow⟩ := (aggregates_spec hwf dir).1.mp ⟨node, hnode⟩
    have hfolded : dir ∈ foldedInto r.rawPath :=
      (mem_foldedInto (hwf r hr).canonical).mpr ⟨hroot, hbelow⟩
    exact ⟨dir, ⟨r, hr, hfolded⟩, node, hnode, hs⟩

theorem mem_userStatsRows {stream : List IndexEntry} (hwf : ∀ r ∈ stream, r.Wf)
    {s : UserStatsRow} :
    s ∈ userStatsRows stream ↔
      ∃ key stat, (streamRows stream).userAggregates key = some stat ∧ ownerRow key stat = s := by
  simp only [userStatsRows, List.mem_filterMap, List.mem_dedup, List.mem_flatMap,
    Option.map_eq_some_iff]
  constructor
  · intro h
    obtain ⟨key, _, stat, hstat, hs⟩ := h
    exact ⟨key, stat, hstat, hs⟩
  · intro h
    obtain ⟨⟨t, id⟩, stat, hstat, hs⟩ := h
    have howned := userAggregates_spec hwf t id
    rw [hstat] at howned
    dsimp only at howned
    split_ifs at howned with hnil
    obtain ⟨r, hr⟩ := List.exists_mem_of_ne_nil _ hnil
    rw [List.mem_filter, decide_eq_true_eq] at hr
    exact ⟨(t, id), ⟨r, hr.1, mem_ownerKeys.mpr hr.2⟩, stat, hstat, hs⟩

/-- **Directories**: the API finds the entry of the fold, as long as the
hashes in play do not collide. -/
theorem RunAggregation.find?_dirStats (h : RunAggregation d index dirStats userStats)
    (hwf : ∀ r ∈ indexEntries index, r.Wf) {paths : Set Bytes} (hfree : CollisionFree d paths)
    (hpaths : ∀ r ∈ indexEntries index, ∀ p ∈ foldedInto r.rawPath, p ∈ paths) {dir : Bytes}
    (hdir : dir ∈ paths) :
    dirStats.find? (computeHashBytes d dir) =
      ((streamRows (indexEntries index)).aggregates dir).map (DirNode.toRow d dir) := by
  obtain ⟨stream, hstream, hdirs, -⟩ := h.tables
  have hwf' : ∀ r ∈ stream, r.Wf := fun r hr => hwf r (hstream.subset hr)
  rw [← streamRows_perm hwf hstream]
  ext s
  rw [Table.find?_eq_some, Table.mem_def, hdirs.mem_iff, mem_dirStatsRows hwf',
    Option.map_eq_some_iff]
  constructor
  · intro hs
    obtain ⟨⟨dir', node, hnode, rfl⟩, hhash⟩ := hs
    obtain ⟨hroot, r, hr, hbelow⟩ := (aggregates_spec hwf' dir').1.mp ⟨node, hnode⟩
    have hfolded : dir' ∈ foldedInto r.rawPath :=
      (mem_foldedInto (hwf' r hr).canonical).mpr ⟨hroot, hbelow⟩
    -- no other directory has the hash
    have hsame : dir' = dir := hfree (hpaths r (hstream.subset hr) dir' hfolded) hdir hhash
    subst hsame
    exact ⟨node, hnode, rfl⟩
  · intro hs
    obtain ⟨node, hnode, rfl⟩ := hs
    exact ⟨⟨dir, node, hnode, rfl⟩, rfl⟩

/-- **Owners**: the API finds the totals of the fold. -/
theorem RunAggregation.find?_userStats (h : RunAggregation d index dirStats userStats)
    (hwf : ∀ r ∈ indexEntries index, r.Wf) (key : IdType × Int) :
    userStats.find? key =
      ((streamRows (indexEntries index)).userAggregates key).map (ownerRow key) := by
  obtain ⟨stream, hstream, -, husers⟩ := h.tables
  have hwf' : ∀ r ∈ stream, r.Wf := fun r hr => hwf r (hstream.subset hr)
  rw [← streamRows_perm hwf hstream]
  ext s
  rw [Table.find?_eq_some, Table.mem_def, husers.mem_iff, mem_userStatsRows hwf',
    Option.map_eq_some_iff]
  constructor
  · intro hs
    obtain ⟨⟨key', stat, hstat, rfl⟩, hkey⟩ := hs
    cases hkey
    exact ⟨stat, hstat, rfl⟩
  · intro hs
    obtain ⟨stat, hstat, rfl⟩ := hs
    exact ⟨⟨key, stat, hstat, rfl⟩, rfl⟩

end Found

end Cuttlefish
