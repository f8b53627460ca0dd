import Cuttlefish.Identity

/-!
# Cuttlefish.Indexer

One run of `fs_indexer`: the hash-width migration, the consume loop, the
gate in front of the stale-entry cleanup, and the order of the steps behind
it.

`consumeLoop` is the loop as the source has it, filling a batch record by
record; `runBatches` is what it amounts to, a list of batches each of which
commits or rolls back.  `consumeLoop_eq` connects the two, so the run
itself is stated over an arbitrary split of the records into batches.
-/

namespace Cuttlefish

/-! ## the consume loop -/

/-- Records bulk-loaded per flush. -/
def batchSize : Nat := 50000

/-- The consumer's state: `flushed` counts the batches tried so far. -/
structure Consumer where
  db : ScanDb
  batch : List FileRecord := []
  flushed : Nat := 0
  totalProcessed : Nat := 0
  insertFailed : Bool := false

/-- Flushes the current batch; a failure is remembered and the batch is
cleared either way. -/
def Consumer.flush (fails : Nat → Bool) (c : Consumer) : Consumer :=
  let (db, failed) := tryInsertBatch (fails c.flushed) c.db c.batch
  { c with db := db, batch := [], flushed := c.flushed + 1,
           insertFailed := c.insertFailed || failed }

/-- One received record. -/
def Consumer.receive (fails : Nat → Bool) (c : Consumer) (r : FileRecord) : Consumer :=
  let c := { c with batch := c.batch ++ [r], totalProcessed := c.totalProcessed + 1 }
  if batchSize ≤ c.batch.length then c.flush fails else c

/-- The consume loop with the final flush behind it. -/
def consumeLoop (fails : Nat → Bool) (db : ScanDb) (records : List FileRecord) :
    Consumer :=
  let c := records.foldl (Consumer.receive fails) { db := db }
  if c.batch = [] then c else c.flush fails

/-- A batch and whether its transaction fails. -/
abbrev Batch := List FileRecord × Bool

/-- One batch after another; the flag says whether any failed so far. -/
def runBatches (batches : List Batch) (db : ScanDb) : ScanDb × Bool :=
  batches.foldl
    (fun s b =>
      let (db, failed) := tryInsertBatch b.2 s.1 b.1
      (db, s.2 || failed))
    (db, false)

theorem runBatches_append_singleton (batches : List Batch) (b : Batch) (db : ScanDb) :
    runBatches (batches ++ [b]) db =
      ((tryInsertBatch b.2 (runBatches batches db).1 b.1).1,
        (runBatches batches db).2 || (tryInsertBatch b.2 (runBatches batches db).1 b.1).2) := by
  simp [runBatches, List.foldl_append]

/-- The batches flushed so far, with what is still pending, are the records
received so far. -/
theorem foldl_receive (fails : Nat → Bool) (db : ScanDb) (records : List FileRecord) :
    ∃ batches : List Batch,
      let c := records.foldl (Consumer.receive fails) { db := db }
      (c.db, c.insertFailed) = runBatches batches db ∧
        (batches.map Prod.fst).flatten ++ c.batch = records ∧
        c.totalProcessed = records.length := by
  induction records using List.reverseRecOn with
  | nil => exact ⟨[], rfl, rfl, rfl⟩
  | append_singleton records r ih =>
      obtain ⟨batches, hrun, hsplit, htotal⟩ := ih
      simp only [List.foldl_append, List.foldl_cons, List.foldl_nil]
      generalize records.foldl (Consumer.receive fails) { db := db } = c at hrun hsplit htotal
      unfold Consumer.receive
      dsimp only
      split_ifs
      · refine ⟨batches ++ [(c.batch ++ [r], fails c.flushed)], ?_, ?_, ?_⟩
        · rw [runBatches_append_singleton, ← hrun]
          rfl
        · simp [Consumer.flush, ← hsplit]
        · simp [Consumer.flush, htotal]
      · exact ⟨batches, hrun, by simp [← hsplit], by simp [htotal]⟩

/-- **The consume loop splits the records into batches**, and processes them
in order. -/
theorem consumeLoop_eq (fails : Nat → Bool) (db : ScanDb) (records : List FileRecord) :
    ∃ batches : List Batch,
      let c := consumeLoop fails db records
      (c.db, c.insertFailed) = runBatches batches db ∧
        (batches.map Prod.fst).flatten = records ∧ c.totalProcessed = records.length := by
  obtain ⟨batches, hrun, hsplit, htotal⟩ := foldl_receive fails db records
  unfold consumeLoop
  dsimp only at hrun hsplit htotal ⊢
  generalize records.foldl (Consumer.receive fails) { db := db } = c at hrun hsplit htotal
  by_cases hb : c.batch = []
  · rw [if_pos hb]
    exact ⟨batches, hrun, by simpa [hb] using hsplit, htotal⟩
  · rw [if_neg hb]
    refine ⟨batches ++ [(c.batch, fails c.flushed)], ?_, by simpa using hsplit, htotal⟩
    rw [runBatches_append_singleton, ← hrun]
    rfl

/-! ## a whole run -/

/-- The persistent tables of the indexer. -/
structure Db where
  filesystemIndex : Index
  identity : IdentityTables

/-- What goes wrong outside the batches. -/
structure RunFaults where
  walkPanics : Bool := false
  identity : Option IdentityFault := none
  cleanupFails : Bool := false
  indexesFail : Bool := false
  deriving Repr

/-- How a run ends; all but `success` exit with an error. -/
inductive Outcome where
  | success
  | incomplete
  | identityFailed
  | cleanupFailed
  | indexesFailed
  deriving DecidableEq, Repr

/-- Width of the hashes already stored, none for an empty index. -/
def storedPathHashLen (index : Index) : Option Nat := index.rows.head?.map (·.pathHash.length)

/-- Clears an index built with another path-hash width. -/
def migrateHashWidth (index : Index) : Index :=
  match storedPathHashLen index with
  | some n => if n ≠ pathHashLen then Table.empty else index
  | none => index

/-- One run of the indexer over validated roots.  The stale-entry cleanup
runs only when the walk finished, every batch committed and the identities
resolved. -/
def indexerRun (host : Host) (roots : List Bytes) (batches : List Batch) (faults : RunFaults)
    (db : Db) : Db × Outcome :=
  let index := migrateHashWidth db.filesystemIndex
  let (scan, insertFailed) := runBatches batches ⟨index, [], []⟩
  if faults.walkPanics || insertFailed then
    ({ db with filesystemIndex := scan.index }, .incomplete)
  else
    match faults.identity with
    | some fault =>
        (⟨scan.index, resolveIdentitiesFailing host scan.index db.identity fault⟩,
          .identityFailed)
    | none =>
        let identity := resolveIdentities host scan.index db.identity
        if faults.cleanupFails then (⟨scan.index, identity⟩, .cleanupFailed)
        else
          let cleaned := cleanupStaleEntries scan.index scan.seenHashes roots
          (⟨cleaned, identity⟩, if faults.indexesFail then .indexesFailed else .success)

/-- The index a run leaves is the one behind its batches, cleaned up exactly
when the gate opened and the cleanup succeeded. -/
theorem indexerRun_filesystemIndex (host : Host) (roots : List Bytes) (batches : List Batch)
    (faults : RunFaults) (db : Db) :
    (indexerRun host roots batches faults db).1.filesystemIndex =
      let s := runBatches batches ⟨migrateHashWidth db.filesystemIndex, [], []⟩
      if faults.walkPanics = false ∧ s.2 = false ∧ faults.identity = none ∧
          faults.cleanupFails = false then
        cleanupStaleEntries s.1.index s.1.seenHashes roots
      else s.1.index := by
  obtain ⟨walkPanics, identity, cleanupFails, _⟩ := faults
  unfold indexerRun
  rcases hs : runBatches batches ⟨migrateHashWidth db.filesystemIndex, [], []⟩ with
    ⟨scan, insertFailed⟩
  cases walkPanics <;> cases insertFailed <;> cases identity <;> cases cleanupFails <;> simp [hs]

end Cuttlefish
