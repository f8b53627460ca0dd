import Cuttlefish.Record
import Cuttlefish.Table

/-!
# Cuttlefish.Index

The indexer's tables and the statements that write them: `insertBatch`
(COPY into staging, note the hashes, conditional upsert, truncate) and
`cleanupStaleEntries` (the root-scoped anti-join).

The two facts the run proofs use:

* `insertBatch_index` — a committed batch is one unconditional upsert of its
  rows, the `IS DISTINCT FROM` guard and `DISTINCT ON` included;
* `mem_cleanupStaleEntries` — over absolute paths the cleanup keeps exactly
  the rows that were seen or lie outside every root, the `/` shortcut
  included.
-/

namespace Cuttlefish

/-! ## rows -/

/-- A row of `filesystem_index`.  `insertBatch` is the only writer, and it
leaves NULL nothing but `path_raw` and `parent_hash`. -/
structure IndexRow where
  path : Text
  pathRaw : Option Bytes
  pathHash : Bytes
  parentHash : Option Bytes
  sizeBytes : Int
  fileType : Int
  permissions : Text
  uid : Int
  gid : Int
  atime : Int
  mtime : Int
  ctime : Int
  metadata : Text
  deriving DecidableEq, Repr

/-- `COALESCE(path_raw, convert_to(path, 'UTF8'))`: the exact bytes. -/
def IndexRow.raw (r : IndexRow) : Bytes := r.pathRaw.getD (utf8 r.path)

/-- `filesystem_index`, keyed by `path_hash`. -/
abbrev Index := Table IndexRow.pathHash

/-- The row COPY writes for a record; `uid` and `gid` go through `as i32`. -/
def FileRecord.toRow (r : FileRecord) : IndexRow where
  path := r.path
  pathRaw := r.pathRaw
  pathHash := r.pathHash
  parentHash := r.parentHash
  sizeBytes := r.sizeBytes
  fileType := r.fileType
  permissions := r.permissions
  uid := r.uid.toInt32.toInt
  gid := r.gid.toInt32.toInt
  atime := r.atime
  mtime := r.mtime
  ctime := r.ctime
  metadata := r.metadata

/-! ## batches -/

/-- The tables a batch transaction touches: the index, and the two temporary
tables of the run. -/
structure ScanDb where
  index : Index
  stagingIndex : List IndexRow
  seenHashes : List Bytes

/-- `DO UPDATE SET`: every column but the key, `path` and `metadata`. -/
def setExcluded : Table.ConflictUpdate IndexRow.pathHash where
  apply old excluded :=
    { old with
      sizeBytes := excluded.sizeBytes, fileType := excluded.fileType,
      permissions := excluded.permissions, uid := excluded.uid, gid := excluded.gid,
      atime := excluded.atime, mtime := excluded.mtime, ctime := excluded.ctime,
      parentHash := excluded.parentHash, pathRaw := excluded.pathRaw }
  key_apply _ _ := rfl

/-- `(…) IS DISTINCT FROM (…)` over the columns set; NULL equals NULL. -/
def isDistinctFrom (old excluded : IndexRow) : Bool :=
  (old.sizeBytes, old.fileType, old.permissions, old.uid, old.gid, old.atime, old.mtime,
      old.ctime, old.parentHash, old.pathRaw) !=
    (excluded.sizeBytes, excluded.fileType, excluded.permissions, excluded.uid, excluded.gid,
      excluded.atime, excluded.mtime, excluded.ctime, excluded.parentHash, excluded.pathRaw)

/-- `SELECT DISTINCT ON (path_hash) … FROM staging_index ORDER BY path_hash`. -/
def distinctStaged (staging : List IndexRow) : List IndexRow :=
  Table.distinctOn IndexRow.pathHash
    (staging.insertionSort fun a b => a.pathHash ≤ b.pathHash)

/-- Bulk-loads a batch; the transaction commits. -/
def insertBatch (db : ScanDb) (batch : List FileRecord) : ScanDb :=
  let staging := db.stagingIndex ++ batch.map FileRecord.toRow
  { index := db.index.upsertAll (setExcluded.onlyWhere isDistinctFrom) (distinctStaged staging)
    seenHashes := db.seenHashes ++ staging.map IndexRow.pathHash
    stagingIndex := [] }

/-- Bulk-loads a batch; a failed transaction rolls back and is reported. -/
def tryInsertBatch (fails : Bool) (db : ScanDb) (batch : List FileRecord) : ScanDb × Bool :=
  if fails then (db, true) else (insertBatch db batch, false)

/-- The guard only skips updates that would change nothing. -/
theorem setExcluded_of_not_distinct {old excluded : IndexRow}
    (h : isDistinctFrom old excluded = false) : setExcluded.apply old excluded = old := by
  unfold isDistinctFrom at h
  simp only [bne_eq_false_iff_eq, Prod.mk.injEq] at h
  obtain ⟨h1, h2, h3, h4, h5, h6, h7, h8, h9, h10⟩ := h
  cases old
  simp_all [setExcluded]

theorem upsertAll_onlyWhere (t : Index) (rs : List IndexRow) :
    t.upsertAll (setExcluded.onlyWhere isDistinctFrom) rs = t.upsertAll setExcluded rs := by
  unfold Table.upsertAll
  induction rs generalizing t with
  | nil => rfl
  | cons r rs ih =>
      rw [List.foldl_cons, List.foldl_cons,
        Table.upsert_onlyWhere (fun _ _ => setExcluded_of_not_distinct), ih]

theorem distinctStaged_perm {staging : List IndexRow}
    (h : (staging.map IndexRow.pathHash).Nodup) : (distinctStaged staging).Perm staging := by
  have hperm := List.perm_insertionSort (fun a b => IndexRow.pathHash a ≤ b.pathHash) staging
  have hnodup := (hperm.map IndexRow.pathHash).nodup_iff.mpr h
  rw [distinctStaged, Table.distinctOn_of_nodup hnodup]
  exact hperm

/-! ## stale entries -/

/-- The `scan_roots` table of a run: every root with its prefix. -/
def scanRootsTable (roots : List Bytes) : List (Bytes × Bytes) :=
  roots.map fun root => (root, scanRootPrefix root)

/-- The `EXISTS (SELECT 1 FROM scan_roots …)` test on a row. -/
def underScanRoot (scanRoots : List (Bytes × Bytes)) (r : IndexRow) : Bool :=
  scanRoots.any fun s => r.raw = s.1 || r.raw.take s.2.length = s.2

/-- Deletes the rows under one of the run's roots whose hash was not seen.
A run rooted at `/` skips the prefix test. -/
def cleanupStaleEntries (index : Index) (seenHashes : List Bytes) (roots : List Bytes) : Index :=
  if roots.any (· = [slash]) then
    index.deleteWhere fun r => !(r.pathHash ∈ seenHashes)
  else
    index.deleteWhere fun r =>
      !(r.pathHash ∈ seenHashes) && underScanRoot (scanRootsTable roots) r

/-- The byte-prefix test is coverage by a root. -/
theorem underScanRoot_iff {roots : List Bytes} {r : IndexRow} :
    underScanRoot (scanRootsTable roots) r = true ↔ CoveredBy roots r.raw := by
  simp only [underScanRoot, scanRootsTable, List.any_map, List.any_eq_true, Function.comp_apply,
    Bool.or_eq_true, decide_eq_true_eq, CoveredBy, scanRootCovers, List.prefix_iff_eq_take,
    eq_comm (a := scanRootPrefix _)]

/-- Every absolute path is covered by the root `/`. -/
theorem coveredBy_of_slash_mem {roots : List Bytes} {path : Bytes} (hroots : [slash] ∈ roots)
    (hpath : [slash] <+: path) : CoveredBy roots path :=
  ⟨[slash], hroots, Or.inr (by rwa [scanRootPrefix, if_pos rfl])⟩

/-- **The cleanup is scoped to the roots**: over an index of absolute paths
it keeps exactly the rows that were seen or that no root covers. -/
theorem mem_cleanupStaleEntries {index : Index} {seenHashes roots : List Bytes} {r : IndexRow}
    (habs : ∀ x ∈ index, [slash] <+: x.raw) :
    r ∈ cleanupStaleEntries index seenHashes roots ↔
      r ∈ index ∧ (r.pathHash ∈ seenHashes ∨ ¬ CoveredBy roots r.raw) := by
  unfold cleanupStaleEntries
  split_ifs with hslash
  · have hmem : [slash] ∈ roots := by simpa using hslash
    rw [Table.mem_deleteWhere]
    constructor
    · rintro ⟨hr, hseen⟩
      exact ⟨hr, Or.inl (by simpa using hseen)⟩
    · rintro ⟨hr, hseen | hcov⟩
      · exact ⟨hr, by simpa using hseen⟩
      · exact absurd (coveredBy_of_slash_mem hmem (habs r hr)) hcov
  · rw [Table.mem_deleteWhere, Bool.and_eq_false_iff, ← underScanRoot_iff]
    simp

end Cuttlefish
