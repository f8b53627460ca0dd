import Cuttlefish.Indexer
import Mathlib.Data.List.Perm.Basic

/-!
# Cuttlefish.Indexer.Rescan

What a sequence of indexer runs does to `filesystem_index`.

A `ScanRun` is one run over an accepted root set: the entries its walk
emits, any split of their records into batches, and everything that may
fail.  The theorems follow the tables through one run —

* `mem_afterBatches` — the rows after the batches: those of the committed
  records, and the old rows no committed record speaks of;
* `ScanRun.covered_perm`, `ScanRun.uncovered_iff`, `ScanRun.survives` — a clean
  run leaves exactly the emitted entries under its roots, any run leaves the
  rest alone, an unclean one deletes nothing —

and `index_follows_runs` puts them behind any history of runs.
-/

namespace Cuttlefish

variable {d : Digest}

/-! ## well-formed rows -/

/-- A row that records an absolute path: it carries the hash of its exact
bytes, and its `path` column renders them. -/
structure IndexRow.Wf (d : Digest) (x : IndexRow) : Prop where
  absolute : [slash] <+: x.raw
  pathHash_eq : x.pathHash = computeHashBytes d x.raw
  path_eq : x.path = fromUtf8Lossy x.raw

/-- Everything in a row but the `metadata` text, which no statement updates. -/
def IndexRow.entry (x : IndexRow) : IndexRow := { x with metadata := [] }

@[simp] theorem pathHash_entry (x : IndexRow) : x.entry.pathHash = x.pathHash := rfl

@[simp] theorem path_entry (x : IndexRow) : x.entry.path = x.path := rfl

@[simp] theorem raw_entry (x : IndexRow) : x.entry.raw = x.raw := rfl

/-- A record's row records the path the walker emitted. -/
@[simp] theorem raw_toRow (d : Digest) (raw : Bytes) (md : Metadata) :
    (fileRecord d raw md).toRow.raw = raw := by
  simp only [IndexRow.raw, FileRecord.toRow, fileRecord]
  split_ifs with h
  · exact (isUtf8_iff raw).mp h
  · rfl

theorem wf_toRow {raw : Bytes} (md : Metadata) (habs : [slash] <+: raw) :
    (fileRecord d raw md).toRow.Wf d where
  absolute := by rwa [raw_toRow]
  pathHash_eq := by rw [raw_toRow]; rfl
  path_eq := by rw [raw_toRow]; rfl

/-- Updating a row from another row of the same path copies everything but
`metadata`. -/
theorem entry_setExcluded {old new : IndexRow} (hold : old.Wf d) (hnew : new.Wf d)
    (h : old.raw = new.raw) : (setExcluded.apply old new).entry = new.entry := by
  have hpath : old.path = new.path := by rw [hold.path_eq, hnew.path_eq, h]
  have hhash : old.pathHash = new.pathHash := by rw [hold.pathHash_eq, hnew.pathHash_eq, h]
  cases old
  cases new
  simp_all [setExcluded, IndexRow.entry]

/-- Under a collision-free digest rows agree on the key exactly when they
agree on the path. -/
theorem pathHash_eq_iff {paths : Set Bytes} (hfree : CollisionFree d paths) {x y : IndexRow}
    (hx : x.Wf d ∧ x.raw ∈ paths) (hy : y.Wf d ∧ y.raw ∈ paths) :
    x.pathHash = y.pathHash ↔ x.raw = y.raw := by
  rw [hx.1.pathHash_eq, hy.1.pathHash_eq]
  exact ⟨fun h => hfree hx.2 hy.2 h, fun h => by rw [h]⟩

/-! ## the tables after a list of batches -/

/-- The records of the batches that commit. -/
def committed (batches : List Batch) : List FileRecord :=
  batches.flatMap fun b => if b.2 then [] else b.1

/-- The rows the committed batches write, in the order they are written. -/
def written (batches : List Batch) : List IndexRow :=
  batches.flatMap fun b => if b.2 then [] else distinctStaged (b.1.map FileRecord.toRow)

/-- A committed batch is one unconditional upsert. -/
theorem insertBatch_index {db : ScanDb} (batch : List FileRecord) (h : db.stagingIndex = []) :
    (insertBatch db batch).index =
      db.index.upsertAll setExcluded (distinctStaged (batch.map FileRecord.toRow)) := by
  rw [insertBatch, h, List.nil_append]
  exact upsertAll_onlyWhere _ _

/-- The tables after any list of batches: the committed ones went in as one
long upsert, their hashes were noted, and staging is empty again. -/
theorem runBatches_tables (batches : List Batch) (index : Index) :
    let s := (runBatches batches ⟨index, [], []⟩).1
    s.index = index.upsertAll setExcluded (written batches) ∧
      s.seenHashes = (committed batches).map FileRecord.pathHash ∧ s.stagingIndex = [] := by
  induction batches using List.reverseRecOn with
  | nil => exact ⟨rfl, rfl, rfl⟩
  | append_singleton batches b ih =>
      obtain ⟨hindex, hseen, hstaging⟩ := ih
      obtain ⟨records, fails⟩ := b
      rw [runBatches_append_singleton]
      cases fails with
      | true => simpa [tryInsertBatch, written, committed] using ⟨hindex, hseen, hstaging⟩
      | false =>
          simp only [tryInsertBatch, Bool.false_eq_true, if_false]
          refine ⟨?_, ?_, rfl⟩
          · rw [insertBatch_index records hstaging, hindex]
            simp [written, Table.upsertAll, List.foldl_append]
          · simp [insertBatch, hseen, hstaging, committed, Function.comp_def, FileRecord.toRow]

theorem runBatches_failed (batches : List Batch) (db : ScanDb) :
    (runBatches batches db).2 = batches.any (·.2) := by
  induction batches using List.reverseRecOn with
  | nil => rfl
  | append_singleton batches b ih =>
      rw [runBatches_append_singleton, List.any_append, ih]
      cases hb : b.2 <;> simp [tryInsertBatch, hb]

theorem committed_sublist (batches : List Batch) :
    (committed batches).Sublist (batches.map Prod.fst).flatten := by
  induction batches with
  | nil => exact List.Sublist.refl _
  | cons b batches ih =>
      rw [committed, List.flatMap_cons, List.map_cons, List.flatten_cons]
      refine List.Sublist.append ?_ ih
      split_ifs
      · exact List.nil_sublist _
      · exact List.Sublist.refl _

theorem committed_of_all {batches : List Batch} (h : ∀ b ∈ batches, b.2 = false) :
    committed batches = (batches.map Prod.fst).flatten := by
  induction batches with
  | nil => rfl
  | cons b batches ih =>
      rw [List.forall_mem_cons] at h
      rw [committed, List.flatMap_cons, h.1, ← committed, ih h.2]
      rfl

/-- When no hash repeats, what is written is what was committed. -/
theorem written_perm {batches : List Batch}
    (h : ((committed batches).map fun r => r.toRow.pathHash).Nodup) :
    (written batches).Perm ((committed batches).map FileRecord.toRow) := by
  induction batches with
  | nil => exact List.Perm.refl _
  | cons b batches ih =>
      obtain ⟨records, fails⟩ := b
      simp only [written, committed, List.flatMap_cons, List.map_append] at h ih ⊢
      refine List.Perm.append ?_ (ih (List.Nodup.of_append_right h))
      cases fails with
      | true => exact List.Perm.refl _
      | false =>
          refine distinctStaged_perm ?_
          rw [List.map_map]
          exact List.Nodup.of_append_left h

/-! ## the rows after the batches -/

section AfterBatches

variable {paths : Set Bytes} {index : Index} {rs : List IndexRow}
  (hfree : CollisionFree d paths)
  (hindex : ∀ x ∈ index, x.Wf d ∧ x.raw ∈ paths)
  (hrs : ∀ r ∈ rs, r.Wf d ∧ r.raw ∈ paths)
include hfree hindex hrs

/-- **The rows after the batches** `rs`, up to `metadata`: those of `rs`, and
the old rows whose path `rs` does not mention. -/
theorem mem_afterBatches (hnodup : (rs.map IndexRow.pathHash).Nodup) :
    (∀ x ∈ index.upsertAll setExcluded rs,
      (x ∈ index ∧ ∀ r ∈ rs, r.raw ≠ x.raw) ∨ ∃ r ∈ rs, x.entry = r.entry) ∧
    (∀ r ∈ rs, ∃ x ∈ index.upsertAll setExcluded rs, x.entry = r.entry) ∧
    (∀ x ∈ index, (∀ r ∈ rs, r.raw ≠ x.raw) → x ∈ index.upsertAll setExcluded rs) := by
  have hkey : ∀ x ∈ index, ∀ r ∈ rs, x.pathHash = r.pathHash ↔ x.raw = r.raw := fun x hx r hr =>
    pathHash_eq_iff hfree (hindex x hx) (hrs r hr)
  have hmerge : ∀ x ∈ index, ∀ r ∈ rs, x.raw = r.raw →
      (setExcluded.apply x r).entry = r.entry := fun x hx r hr h =>
    entry_setExcluded (hindex x hx).1 (hrs r hr).1 h
  refine ⟨fun x hx => ?_, fun r hr => ?_, fun x hx hno => ?_⟩
  · rcases (Table.mem_upsertAll hnodup).mp hx with ⟨r, hr, old, ho, hk, rfl⟩ | ⟨hx, hno⟩ | ⟨hx, _⟩
    · exact Or.inr ⟨r, hr, hmerge old ho r hr ((hkey old ho r hr).mp hk)⟩
    · exact Or.inl ⟨hx, fun r hr h => hno r hr ((hkey x hx r hr).mpr h.symm)⟩
    · exact Or.inr ⟨x, hx, rfl⟩
  · by_cases hold : ∃ old ∈ index, old.pathHash = r.pathHash
    · obtain ⟨old, ho, hk⟩ := hold
      exact ⟨setExcluded.apply old r,
        (Table.mem_upsertAll hnodup).mpr (Or.inl ⟨r, hr, old, ho, hk, rfl⟩),
        hmerge old ho r hr ((hkey old ho r hr).mp hk)⟩
    · exact ⟨r, (Table.mem_upsertAll hnodup).mpr
        (Or.inr (Or.inr ⟨hr, fun old ho hk => hold ⟨old, ho, hk⟩⟩)), rfl⟩
  · exact (Table.mem_upsertAll hnodup).mpr
      (Or.inr (Or.inl ⟨hx, fun r hr hk => hno r hr ((hkey x hx r hr).mp hk).symm⟩))

end AfterBatches

/-! ## runs -/

/-- One indexer run: an accepted root set, the entries the walk emits under
it (no path twice), any split of their records into batches, and what
fails. -/
structure ScanRun (d : Digest) where
  config : IndexerConfig
  roots : List Bytes
  accepted : config.roots = .ok roots
  host : Host
  entries : List (Bytes × Metadata)
  covered : ∀ e ∈ entries, CoveredBy roots e.1
  nodup : (entries.map Prod.fst).Nodup
  batches : List Batch
  split : (batches.map Prod.fst).flatten = entries.map fun e => fileRecord d e.1 e.2
  faults : RunFaults

namespace ScanRun

/-- The database after the run. -/
def apply (run : ScanRun d) (db : Db) : Db :=
  (indexerRun run.host run.roots run.batches run.faults db).1

/-- Every batch committed and the walk did not panic. -/
def Complete (run : ScanRun d) : Prop :=
  run.faults.walkPanics = false ∧ ∀ b ∈ run.batches, b.2 = false

/-- The run was complete, and the cleanup was reached and succeeded. -/
def Clean (run : ScanRun d) : Prop :=
  run.Complete ∧ run.faults.identity = none ∧ run.faults.cleanupFails = false

/-- The rows of the records that committed. -/
def rows (run : ScanRun d) : List IndexRow := (committed run.batches).map FileRecord.toRow

/-- The index between the last batch and the cleanup. -/
def afterBatches (run : ScanRun d) (index : Index) : Index :=
  index.upsertAll setExcluded (written run.batches)

/-- The hashes noted by the time of the cleanup. -/
def seenHashes (run : ScanRun d) : List Bytes := run.rows.map IndexRow.pathHash

theorem exists_entry_of_mem_rows {run : ScanRun d} {r : IndexRow} (hr : r ∈ run.rows) :
    ∃ e ∈ run.entries, r = (fileRecord d e.1 e.2).toRow := by
  obtain ⟨rec, hrec, rfl⟩ := List.mem_map.mp hr
  have hmem := (committed_sublist run.batches).subset hrec
  rw [run.split, List.mem_map] at hmem
  obtain ⟨e, he, rfl⟩ := hmem
  exact ⟨e, he, rfl⟩

theorem rows_sublist (run : ScanRun d) :
    run.rows.Sublist (run.entries.map fun e => (fileRecord d e.1 e.2).toRow) := by
  have h := (committed_sublist run.batches).map FileRecord.toRow
  rw [run.split, List.map_map] at h
  exact h

/-- A complete run committed the record of every entry. -/
theorem rows_of_complete {run : ScanRun d} (h : run.Complete) :
    run.rows = run.entries.map fun e => (fileRecord d e.1 e.2).toRow := by
  rw [rows, committed_of_all h.2, run.split, List.map_map]
  rfl

theorem wf_of_mem_rows {run : ScanRun d} {r : IndexRow} (hr : r ∈ run.rows) : r.Wf d := by
  obtain ⟨e, he, rfl⟩ := exists_entry_of_mem_rows hr
  exact wf_toRow e.2 (absolute_of_coveredBy run.accepted (run.covered e he))

theorem coveredBy_of_mem_rows {run : ScanRun d} {r : IndexRow} (hr : r ∈ run.rows) :
    CoveredBy run.roots r.raw := by
  obtain ⟨e, he, rfl⟩ := exists_entry_of_mem_rows hr
  rw [raw_toRow]
  exact run.covered e he

theorem entry_of_mem_rows {run : ScanRun d} {r : IndexRow} (hr : r ∈ run.rows) :
    r.entry = r := by
  obtain ⟨e, _, rfl⟩ := exists_entry_of_mem_rows hr
  rfl

/-- The hash of a well-formed row has the declared width. -/
theorem storedPathHashLen_of_wf {index : Index} (h : ∀ x ∈ index, x.Wf d) {n : Nat}
    (hn : storedPathHashLen index = some n) : n = pathHashLen := by
  obtain ⟨x, hhead, rfl⟩ := Option.map_eq_some_iff.mp hn
  have hx : x ∈ index := List.mem_of_head? hhead
  rw [(h x hx).pathHash_eq, length_computeHashBytes]

/-- An index whose hashes have the declared width is not cleared. -/
theorem migrateHashWidth_of_wf {index : Index} (h : ∀ x ∈ index, x.Wf d) :
    migrateHashWidth index = index := by
  unfold migrateHashWidth
  cases hlen : storedPathHashLen index with
  | none => rfl
  | some n => simp [storedPathHashLen_of_wf h hlen]

/-- The index a run leaves: what the batches made of it, cleaned up exactly
when the run was clean. -/
theorem apply_filesystemIndex (run : ScanRun d) {db : Db}
    (h : ∀ x ∈ db.filesystemIndex, x.Wf d) :
    (run.Clean → (run.apply db).filesystemIndex =
      cleanupStaleEntries (run.afterBatches db.filesystemIndex) run.seenHashes run.roots) ∧
    (¬ run.Clean → (run.apply db).filesystemIndex = run.afterBatches db.filesystemIndex) := by
  obtain ⟨hidx, hseen, _⟩ := runBatches_tables run.batches db.filesystemIndex
  have hfailed := runBatches_failed run.batches ⟨db.filesystemIndex, [], []⟩
  have hseen' : (runBatches run.batches ⟨db.filesystemIndex, [], []⟩).1.seenHashes =
      run.seenHashes := by
    rw [hseen, seenHashes, rows, List.map_map]
    rfl
  have hclean : run.Clean ↔ run.faults.walkPanics = false ∧
      (runBatches run.batches ⟨db.filesystemIndex, [], []⟩).2 = false ∧
      run.faults.identity = none ∧ run.faults.cleanupFails = false := by
    rw [hfailed]
    simp [Clean, Complete, and_assoc]
  rw [apply, indexerRun_filesystemIndex, migrateHashWidth_of_wf h]
  simp only [hidx, hseen']
  exact ⟨fun hc => if_pos (hclean.mp hc), fun hc => if_neg fun h => hc (hclean.mpr h)⟩

end ScanRun

/-! ## what one run does -/

/-- Every row is well formed, and its path is one of `paths`. -/
def Recorded (d : Digest) (paths : Set Bytes) (index : Index) : Prop :=
  ∀ x ∈ index, x.Wf d ∧ x.raw ∈ paths

namespace ScanRun

section Step

variable {paths : Set Bytes} {run : ScanRun d} {index : Index}
  (hfree : CollisionFree d paths)
  (hentries : ∀ e ∈ run.entries, e.1 ∈ paths)

include hentries in
theorem recorded_rows : ∀ r ∈ run.rows, r.Wf d ∧ r.raw ∈ paths := by
  intro r hr
  obtain ⟨e, he, heq⟩ := exists_entry_of_mem_rows hr
  refine ⟨wf_of_mem_rows hr, ?_⟩
  rw [heq, raw_toRow]
  exact hentries e he

include hfree hentries

/-- No path twice, so no hash twice. -/
theorem nodup_rows : (run.rows.map IndexRow.pathHash).Nodup := by
  have hpaths : ((run.entries.map Prod.fst).map (computeHashBytes d)).Nodup := by
    refine List.Nodup.map_on ?_ run.nodup
    intro a ha b hb h
    obtain ⟨e, he, rfl⟩ := List.mem_map.mp ha
    obtain ⟨e', he', rfl⟩ := List.mem_map.mp hb
    exact hfree (hentries e he) (hentries e' he') h
  have hsub := run.rows_sublist.map IndexRow.pathHash
  rw [List.map_map] at hpaths hsub
  exact hpaths.sublist hsub

theorem written_perm_rows : (written run.batches).Perm run.rows := by
  refine written_perm ?_
  have h := nodup_rows hfree hentries
  rwa [rows, List.map_map] at h

variable (hindex : Recorded d paths index)
include hindex

/-- `mem_afterBatches` at the rows of a run. -/
theorem mem_afterBatches :
    (∀ x ∈ run.afterBatches index,
      (x ∈ index ∧ ∀ r ∈ run.rows, r.raw ≠ x.raw) ∨ ∃ r ∈ run.rows, x.entry = r.entry) ∧
    (∀ r ∈ run.rows, ∃ x ∈ run.afterBatches index, x.entry = r.entry) ∧
    (∀ x ∈ index, (∀ r ∈ run.rows, r.raw ≠ x.raw) → x ∈ run.afterBatches index) := by
  have hperm := written_perm_rows hfree hentries
  have hnodup : ((written run.batches).map IndexRow.pathHash).Nodup :=
    (hperm.map _).nodup_iff.mpr (nodup_rows hfree hentries)
  have hwritten : ∀ r ∈ written run.batches, r.Wf d ∧ r.raw ∈ paths := fun r hr =>
    recorded_rows hentries r (hperm.subset hr)
  have h := Cuttlefish.mem_afterBatches hfree hindex hwritten hnodup
  simp only [hperm.mem_iff] at h
  exact h

/-- Batches keep every row well formed. -/
theorem recorded_afterBatches : Recorded d paths (run.afterBatches index) := by
  intro x hx
  rcases (mem_afterBatches hfree hentries hindex).1 x hx with ⟨hx, _⟩ | ⟨r, hr, he⟩
  · exact hindex x hx
  · have hraw : x.raw = r.raw := by rw [← raw_entry, he, raw_entry]
    have hhash : x.pathHash = r.pathHash := by rw [← pathHash_entry, he, pathHash_entry]
    have hpath : x.path = r.path := by rw [← path_entry, he, path_entry]
    obtain ⟨hwf, hmem⟩ := recorded_rows hentries r hr
    exact ⟨⟨hraw ▸ hwf.absolute, by rw [hhash, hraw, hwf.pathHash_eq],
      by rw [hpath, hraw, hwf.path_eq]⟩, hraw ▸ hmem⟩

/-- After the batches every path that had a row still has one. -/
theorem exists_afterBatches {x : IndexRow} (hx : x ∈ index) :
    ∃ y ∈ run.afterBatches index, y.pathHash = x.pathHash ∧ y.raw = x.raw ∧ y.path = x.path := by
  by_cases h : ∃ r ∈ run.rows, r.raw = x.raw
  · obtain ⟨r, hr, hraw⟩ := h
    obtain ⟨y, hy, he⟩ := (mem_afterBatches hfree hentries hindex).2.1 r hr
    have hyraw : y.raw = x.raw := by rw [← raw_entry, he, raw_entry, hraw]
    obtain ⟨hywf, _⟩ := recorded_afterBatches hfree hentries hindex y hy
    have hxwf := (hindex x hx).1
    exact ⟨y, hy, by rw [hywf.pathHash_eq, hxwf.pathHash_eq, hyraw], hyraw,
      by rw [hywf.path_eq, hxwf.path_eq, hyraw]⟩
  · have hno : ∀ r ∈ run.rows, r.raw ≠ x.raw := fun r hr heq => h ⟨r, hr, heq⟩
    exact ⟨x, (mem_afterBatches hfree hentries hindex).2.2 x hx hno, rfl, rfl, rfl⟩

/-- Outside its roots the batches of a run change nothing. -/
theorem mem_afterBatches_of_not_covered {x : IndexRow} (hx : ¬ CoveredBy run.roots x.raw) :
    x ∈ run.afterBatches index ↔ x ∈ index := by
  constructor
  · intro h
    rcases (mem_afterBatches hfree hentries hindex).1 x h with ⟨h, _⟩ | ⟨r, hr, he⟩
    · exact h
    · rw [← raw_entry, he, raw_entry] at hx
      exact absurd (coveredBy_of_mem_rows hr) hx
  · intro h
    refine (mem_afterBatches hfree hentries hindex).2.2 x h fun r hr heq => hx ?_
    exact heq ▸ coveredBy_of_mem_rows hr

/-- What the cleanup keeps of the rows behind the batches. -/
theorem mem_cleanup {x : IndexRow} :
    x ∈ cleanupStaleEntries (run.afterBatches index) run.seenHashes run.roots ↔
      x ∈ run.afterBatches index ∧ ((∃ r ∈ run.rows, r.raw = x.raw) ∨
        ¬ CoveredBy run.roots x.raw) := by
  have hrec := recorded_afterBatches hfree hentries hindex
  rw [mem_cleanupStaleEntries fun y hy => (hrec y hy).1.absolute]
  refine and_congr_right fun hx => or_congr_left ?_
  rw [seenHashes, List.mem_map]
  refine exists_congr fun r => and_congr_right fun hr => ?_
  exact pathHash_eq_iff hfree (recorded_rows hentries r hr) (hrec x hx)

end Step

section Apply

variable {paths : Set Bytes} {run : ScanRun d} {db : Db}
  (hfree : CollisionFree d paths)
  (hentries : ∀ e ∈ run.entries, e.1 ∈ paths)
  (hdb : Recorded d paths db.filesystemIndex)
include hfree hentries hdb

/-- **A clean run keeps** the rows behind its batches that it emitted or that
lie outside its roots. -/
theorem mem_apply_of_clean (hc : run.Clean) {x : IndexRow} :
    x ∈ (run.apply db).filesystemIndex ↔
      x ∈ run.afterBatches db.filesystemIndex ∧
        ((∃ r ∈ run.rows, r.raw = x.raw) ∨ ¬ CoveredBy run.roots x.raw) := by
  rw [(run.apply_filesystemIndex fun y hy => (hdb y hy).1).1 hc]
  exact mem_cleanup hfree hentries hdb

/-- A run leaves well-formed rows only. -/
theorem recorded_apply : Recorded d paths (run.apply db).filesystemIndex := by
  intro x hx
  by_cases hc : run.Clean
  · rw [mem_apply_of_clean hfree hentries hdb hc] at hx
    exact recorded_afterBatches hfree hentries hdb x hx.1
  · rw [(run.apply_filesystemIndex fun y hy => (hdb y hy).1).2 hc] at hx
    exact recorded_afterBatches hfree hentries hdb x hx

/-- **A clean run indexes exactly what it emitted** under its roots. -/
theorem covered_perm (hc : run.Clean) :
    (((run.apply db).filesystemIndex.rows.filter fun x => CoveredBy run.roots x.raw).map
        IndexRow.entry).Perm (run.entries.map fun e => (fileRecord d e.1 e.2).toRow) := by
  rw [← rows_of_complete hc.1]
  have hmem : ∀ x, x ∈ (run.apply db).filesystemIndex.rows ↔ _ := fun x =>
    mem_apply_of_clean hfree hentries hdb hc
  obtain ⟨hfrom, hto, _⟩ := mem_afterBatches hfree hentries hdb
  refine (List.perm_ext_iff_of_nodup ?_ ?_).mpr fun y => ?_
  · refine List.Nodup.of_map IndexRow.pathHash ?_
    rw [List.map_map]
    exact (run.apply db).filesystemIndex.nodup.sublist (List.filter_sublist.map _)
  · exact List.Nodup.of_map _ (nodup_rows hfree hentries)
  · simp only [List.mem_map, List.mem_filter, hmem, decide_eq_true_eq]
    constructor
    · rintro ⟨x, ⟨⟨hx, hkept⟩, hcov⟩, rfl⟩
      obtain ⟨r, hr, hraw⟩ := hkept.resolve_right fun h => h hcov
      rcases hfrom x hx with ⟨_, hno⟩ | ⟨r', hr', he⟩
      · exact absurd hraw (hno r hr)
      · rwa [he, entry_of_mem_rows hr']
    · intro hy
      obtain ⟨x, hx, he⟩ := hto y hy
      have hraw : y.raw = x.raw := by rw [← raw_entry y, ← he, raw_entry]
      refine ⟨x, ⟨⟨hx, Or.inl ⟨y, hy, hraw⟩⟩, hraw ▸ coveredBy_of_mem_rows hy⟩, ?_⟩
      rw [he, entry_of_mem_rows hy]

/-- **A run leaves the rows outside its roots alone**, however it ends. -/
theorem uncovered_iff {x : IndexRow} (hx : ¬ CoveredBy run.roots x.raw) :
    x ∈ (run.apply db).filesystemIndex ↔ x ∈ db.filesystemIndex := by
  by_cases hc : run.Clean
  · rw [mem_apply_of_clean hfree hentries hdb hc,
      mem_afterBatches_of_not_covered hfree hentries hdb hx]
    exact and_iff_left (Or.inr hx)
  · rw [(run.apply_filesystemIndex fun y hy => (hdb y hy).1).2 hc]
    exact mem_afterBatches_of_not_covered hfree hentries hdb hx

/-- **An unclean run deletes nothing**: every path that had a row still has
one. -/
theorem survives (hc : ¬ run.Clean) {x : IndexRow} (hx : x ∈ db.filesystemIndex) :
    ∃ y ∈ (run.apply db).filesystemIndex,
      y.pathHash = x.pathHash ∧ y.raw = x.raw ∧ y.path = x.path := by
  rw [(run.apply_filesystemIndex fun y hy => (hdb y hy).1).2 hc]
  exact exists_afterBatches hfree hentries hdb hx

end Apply

end ScanRun

/-! ## any history of runs -/

/-- The database after a sequence of runs. -/
def applyRuns (runs : List (ScanRun d)) (db : Db) : Db := runs.foldl (fun db run => run.apply db) db

/-- Every path a database and a sequence of runs speak of. -/
def pathsOf (db : Db) (runs : List (ScanRun d)) : Set Bytes :=
  {p | (∃ x ∈ db.filesystemIndex, x.raw = p) ∨ ∃ run ∈ runs, ∃ e ∈ run.entries, e.1 = p}

theorem recorded_applyRuns {paths : Set Bytes} (hfree : CollisionFree d paths)
    (runs : List (ScanRun d)) (hentries : ∀ run ∈ runs, ∀ e ∈ run.entries, e.1 ∈ paths) {db : Db}
    (hdb : Recorded d paths db.filesystemIndex) :
    Recorded d paths (applyRuns runs db).filesystemIndex := by
  induction runs generalizing db with
  | nil => exact hdb
  | cons run runs ih =>
      rw [List.forall_mem_cons] at hentries
      exact ih hentries.2 (ScanRun.recorded_apply hfree hentries.1 hdb)

/-- **The index follows the runs.**  After any history `runs`, with any root
sets and any failures, one more run behaves as follows.

If it is clean, the rows under its roots are exactly the emitted entries,
column by column, the same as a scan into an empty table would give.  However
it ends, the rows outside its roots are untouched.  If a batch failed or the
walk panicked, every path that had a row still has one. -/
theorem index_follows_runs (db : Db) (runs : List (ScanRun d)) (run : ScanRun d)
    (hdb : ∀ x ∈ db.filesystemIndex, x.Wf d)
    (hfree : CollisionFree d (pathsOf db (runs ++ [run]))) :
    let before := (applyRuns runs db).filesystemIndex
    let after := (applyRuns (runs ++ [run]) db).filesystemIndex
    let covered := (after.rows.filter fun x => CoveredBy run.roots x.raw).map IndexRow.entry
    (run.Clean →
      covered.Perm (run.entries.map fun e => (fileRecord d e.1 e.2).toRow) ∧
        covered.Perm ((run.apply ⟨Table.empty, db.identity⟩).filesystemIndex.rows.map
          IndexRow.entry)) ∧
    (∀ x, ¬ CoveredBy run.roots x.raw → (x ∈ after ↔ x ∈ before)) ∧
    (¬ run.Complete → ∀ x ∈ before, ∃ y ∈ after,
      y.pathHash = x.pathHash ∧ y.raw = x.raw ∧ y.path = x.path) := by
  have hentries : ∀ r ∈ runs ++ [run], ∀ e ∈ r.entries, e.1 ∈ pathsOf db (runs ++ [run]) :=
    fun r hr e he => Or.inr ⟨r, hr, e, he, rfl⟩
  have hrun := hentries run (by simp)
  have hbefore : Recorded d (pathsOf db (runs ++ [run])) (applyRuns runs db).filesystemIndex :=
    recorded_applyRuns hfree runs (fun r hr => hentries r (by simp [hr]))
      fun x hx => ⟨hdb x hx, Or.inl ⟨x, hx, rfl⟩⟩
  have hafter : applyRuns (runs ++ [run]) db = run.apply (applyRuns runs db) := by
    rw [applyRuns, List.foldl_append]
    rfl
  have hempty : Recorded d (pathsOf db (runs ++ [run]))
      (⟨Table.empty, db.identity⟩ : Db).filesystemIndex :=
    fun x hx => absurd hx (Table.not_mem_empty x)
  simp only [hafter]
  refine ⟨fun hc => ?_, fun x hx => ScanRun.uncovered_iff hfree hrun hbefore hx,
    fun hc x hx => ScanRun.survives hfree hrun hbefore (fun h => hc h.1) hx⟩
  have hperm := ScanRun.covered_perm hfree hrun hbefore hc
  refine ⟨hperm, hperm.trans ?_⟩
  have hfresh := ScanRun.covered_perm hfree hrun hempty hc
  rw [List.filter_eq_self.mpr] at hfresh
  · exact hfresh.symm
  · intro x hx
    by_contra hcov
    have hx' := (ScanRun.uncovered_iff hfree hrun hempty (by simpa using hcov)).mp hx
    exact Table.not_mem_empty x hx'

/-! ### an instance

`/home/a` is in the index but gone from disk, `/srv` belongs to another root
set.  A first run over `/home` panics, a second one is clean. -/

/-- An entry owned by root. -/
def sampleMetadata : Metadata := ⟨0, 0o040755, 0, 0, 1, 1, 1⟩

/-- The row indexed for `path`. -/
def sampleRow (path : String) : IndexRow :=
  (fileRecord sampleDigest (utf8 path.toList) sampleMetadata).toRow

def sampleDb : Db where
  filesystemIndex := ⟨[sampleRow "/home/a", sampleRow "/srv"], by decide⟩
  identity := ⟨Table.empty, Table.empty⟩

/-- A run over `/home` that emits `/home` alone. -/
def sampleRun (walkPanics : Bool) : ScanRun sampleDigest where
  config := ⟨some (utf8 "/home/".toList), [], 8⟩
  roots := [utf8 "/home".toList]
  accepted := by decide
  host := ⟨fun _ => none, fun _ _ => none, fun _ => none⟩
  entries := [(utf8 "/home".toList, sampleMetadata)]
  covered := by decide
  nodup := by decide
  batches := [([fileRecord sampleDigest (utf8 "/home".toList) sampleMetadata], false)]
  split := rfl
  faults := { walkPanics := walkPanics }

theorem mem_sampleDb {x : IndexRow} (hx : x ∈ sampleDb.filesystemIndex) :
    x = sampleRow "/home/a" ∨ x = sampleRow "/srv" := by
  simpa [sampleDb, Table.mem_def] using hx

theorem wf_of_mem_sampleDb : ∀ x ∈ sampleDb.filesystemIndex, x.Wf sampleDigest := by
  intro x hx
  rcases mem_sampleDb hx with rfl | rfl <;> exact wf_toRow _ (by decide)

theorem collisionFree_sample {runs : List (ScanRun sampleDigest)}
    (h : ∀ run ∈ runs, ∀ e ∈ run.entries, e.1 = utf8 "/home".toList) :
    CollisionFree sampleDigest (pathsOf sampleDb runs) := by
  have hfree : ∀ p ∈ ["/home/a", "/srv", "/home"], ∀ q ∈ ["/home/a", "/srv", "/home"],
      computeHashBytes sampleDigest (utf8 p.toList) =
        computeHashBytes sampleDigest (utf8 q.toList) → p = q := by decide
  have hpaths : ∀ p ∈ pathsOf sampleDb runs,
      ∃ q ∈ ["/home/a", "/srv", "/home"], p = utf8 q.toList := by
    rintro p (⟨x, hx, rfl⟩ | ⟨run, hrun, e, he, rfl⟩)
    · rcases mem_sampleDb hx with rfl | rfl
      · exact ⟨"/home/a", by decide, rfl⟩
      · exact ⟨"/srv", by decide, rfl⟩
    · exact ⟨"/home", by decide, h run hrun e he⟩
  intro a ha b hb hhash
  obtain ⟨p, hp, rfl⟩ := hpaths a ha
  obtain ⟨q, hq, rfl⟩ := hpaths b hb
  rw [hfree p hp q hq hhash]

theorem index_follows_runs_home :
    (((applyRuns ([sampleRun true] ++ [sampleRun false]) sampleDb).filesystemIndex.rows.filter
        fun x => CoveredBy [utf8 "/home".toList] x.raw).map IndexRow.entry).Perm
      [sampleRow "/home"] := by
  refine ((index_follows_runs sampleDb [sampleRun true] (sampleRun false) wf_of_mem_sampleDb
    (collisionFree_sample fun run hrun e he => ?_)).1 ⟨⟨rfl, by decide⟩, rfl, rfl⟩).1
  have hrow : run = sampleRun true ∨ run = sampleRun false := by simpa using hrun
  rcases hrow with rfl | rfl <;> rw [List.mem_singleton.mp he]

end Cuttlefish
