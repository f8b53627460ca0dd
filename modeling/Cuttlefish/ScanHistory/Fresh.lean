import Cuttlefish.ScanHistory.Settled

/-!
# Cuttlefish.ScanHistory.Fresh

What the history says about the data: as long as runs of a type do not
overlap, the newest row of a type tells whether the tables are up to date.
If it is an indexer's and says `success`, the index shows under its roots what
the walk of that run reported; if moreover the newest row of an aggregator
says `success` and started after the last indexer ended, the totals are those
of the index as it is (`tables_fresh`).

Runs of different types may overlap, and any of them may die.
-/

namespace Cuttlefish.ScanHistory

variable {d : Digest}

/-! ## one statement on the index -/

/-- The row of an entry. -/
def rowOf (d : Digest) (e : Bytes × Metadata) : IndexRow := (fileRecord d e.1 e.2).toRow

/-- The index has the entries, `/proc/kcore` apart. -/
def Present (d : Digest) (index : Index) (entries : List (Bytes × Metadata)) : Prop :=
  ∀ e ∈ entries, e.1 ≠ kcore → ∃ x ∈ index, x.entry = rowOf d e

/-- Under the roots of the walk the index shows what it reported, and nothing
else; `/proc/kcore` may be missing. -/
structure Reflects (index : Index) (walk : Walk d) : Prop where
  present : Present d index walk.entries
  only : ∀ x ∈ index, CoveredBy walk.roots x.raw → x.raw ≠ kcore →
    ∃ e ∈ walk.entries, x.entry = rowOf d e

theorem raw_of_entry {x : IndexRow} {e : Bytes × Metadata} (h : x.entry = rowOf d e) :
    x.raw = e.1 := by
  rw [← raw_entry, h, rowOf, raw_toRow]

theorem pathHash_of_entry {x : IndexRow} {e : Bytes × Metadata} (h : x.entry = rowOf d e) :
    x.pathHash = computeHashBytes d e.1 := by
  rw [← pathHash_entry, h]
  rfl

/-- A batch of the walk, as a run of its own. -/
def Walk.batchRun (walk : Walk d) (entries : List (Bytes × Metadata))
    (h : entries.Sublist walk.entries) : ScanRun d where
  config := walk.config
  roots := walk.roots
  accepted := walk.accepted
  host := walk.host
  entries := entries
  covered e he := walk.covered e (h.subset he)
  nodup := walk.nodup.sublist (h.map _)
  batches := [(entries.map fun e => fileRecord d e.1 e.2, false)]
  split := by simp
  faults := {}

section Statements

variable {paths : Set Bytes} {index : Index} {walk : Walk d}
  (hfree : CollisionFree d paths) (hindex : Recorded d paths index)

theorem rows_batchRun {entries : List (Bytes × Metadata)} (h : entries.Sublist walk.entries) :
    (walk.batchRun entries h).rows = entries.map (rowOf d) := by
  simp [ScanRun.rows, committed, Walk.batchRun, rowOf, Function.comp_def]

theorem afterBatches_batchRun {entries : List (Bytes × Metadata)}
    (h : entries.Sublist walk.entries) (seen : List Bytes) :
    (walk.batchRun entries h).afterBatches index =
      (insertBatch ⟨index, [], seen⟩ (entries.map fun e => fileRecord d e.1 e.2)).index := by
  rw [insertBatch_index _ rfl]
  simp [ScanRun.afterBatches, written, Walk.batchRun]

include hfree hindex

/-- **A batch that commits** adds its entries to those that are there. -/
theorem present_insertBatch (hwalk : ∀ e ∈ walk.entries, e.1 ∈ paths)
    {done pending : List (Bytes × Metadata)} (hsub : (done ++ pending).Sublist walk.entries)
    (hdone : Present d index done) (seen : List Bytes) :
    let index' := (insertBatch ⟨index, [], seen⟩
      (pending.map fun e => fileRecord d e.1 e.2)).index
    Recorded d paths index' ∧ Present d index' (done ++ pending) := by
  have hpending : pending.Sublist walk.entries := (List.sublist_append_right done pending).trans hsub
  have hentries : ∀ e ∈ (walk.batchRun pending hpending).entries, e.1 ∈ paths :=
    fun e he => hwalk e (hpending.subset he)
  have hrecorded := ScanRun.recorded_afterBatches hfree hentries hindex
  obtain ⟨-, hnew, hold⟩ := ScanRun.mem_afterBatches hfree hentries hindex
  rw [rows_batchRun] at hnew hold
  rw [afterBatches_batchRun hpending seen] at hrecorded hnew hold
  refine ⟨hrecorded, fun e he hne => ?_⟩
  have hnodup : ((done ++ pending).map Prod.fst).Nodup := walk.nodup.sublist (hsub.map _)
  cases List.mem_append.mp he with
  | inl hdone' =>
      obtain ⟨x, hx, hentry⟩ := hdone e hdone' hne
      refine ⟨x, hold x hx fun r hr hraw => ?_, hentry⟩
      -- no path is walked twice
      obtain ⟨e', he', rfl⟩ := List.mem_map.mp hr
      rw [raw_of_entry hentry, rowOf, raw_toRow] at hraw
      rw [List.map_append, List.nodup_append] at hnodup
      exact hnodup.2.2 e.1 (List.mem_map_of_mem hdone') e'.1 (List.mem_map_of_mem he') hraw.symm
  | inr hpending' =>
      obtain ⟨x, hx, hentry⟩ := hnew (rowOf d e) (List.mem_map_of_mem hpending')
      exact ⟨x, hx, hentry⟩

/-- **The cleanup of a complete walk** leaves what it reported. -/
theorem reflects_cleanup (hwalk : ∀ e ∈ walk.entries, e.1 ∈ paths)
    (hpresent : Present d index walk.entries) :
    let index' := cleanupStaleEntries index
      (walk.entries.map fun e => computeHashBytes d e.1) walk.roots
    Recorded d paths index' ∧ Reflects index' walk := by
  have hmem : ∀ x, x ∈ cleanupStaleEntries index
      (walk.entries.map fun e => computeHashBytes d e.1) walk.roots ↔ _ := fun x =>
    mem_cleanupStaleEntries fun y hy => (hindex y hy).1.absolute
  refine ⟨fun x hx => hindex x ((hmem x).mp hx).1, fun e he hne => ?_, fun x hx hcov hne => ?_⟩
  · obtain ⟨x, hx, hentry⟩ := hpresent e he hne
    refine ⟨x, (hmem x).mpr ⟨hx, Or.inl ?_⟩, hentry⟩
    rw [pathHash_of_entry hentry]
    exact List.mem_map_of_mem he
  · obtain ⟨hx, hseen⟩ := (hmem x).mp hx
    obtain ⟨e, he, hhash⟩ := List.mem_map.mp (hseen.resolve_right fun h => h hcov)
    have hraw : e.1 = x.raw := by
      rw [(hindex x hx).1.pathHash_eq] at hhash
      exact hfree (hwalk e he) (hindex x hx).2 hhash
    obtain ⟨y, hy, hentry⟩ := hpresent e he (hraw ▸ hne)
    have hsame : y = x := by
      refine List.inj_on_of_nodup_map index.nodup hy hx ?_
      rw [pathHash_of_entry hentry, (hindex x hx).1.pathHash_eq, hraw]
    exact ⟨e, he, hsame ▸ hentry⟩

/-- Among the rows `/proc/kcore` alone has its hash. -/
theorem mem_removeKcore (hkcore : kcore ∈ paths) {x : IndexRow} :
    x ∈ removeKcore d index ↔ x ∈ index ∧ x.raw ≠ kcore := by
  rw [removeKcore, Table.mem_deleteWhere, decide_eq_false_iff_not]
  refine and_congr_right fun hx => not_congr ?_
  rw [(hindex x hx).1.pathHash_eq]
  constructor
  · exact fun h => hfree (hindex x hx).2 hkcore h
  · intro h
    rw [h]
    rfl

theorem present_removeKcore (hkcore : kcore ∈ paths) {entries : List (Bytes × Metadata)}
    (h : Present d index entries) : Present d (removeKcore d index) entries := by
  intro e he hne
  obtain ⟨x, hx, hentry⟩ := h e he hne
  refine ⟨x, (mem_removeKcore hfree hindex hkcore).mpr ⟨hx, ?_⟩, hentry⟩
  rw [raw_of_entry hentry]
  exact hne

theorem reflects_removeKcore (hkcore : kcore ∈ paths) (h : Reflects index walk) :
    Reflects (removeKcore d index) walk where
  present := present_removeKcore hfree hindex hkcore h.present
  only x hx := h.only x ((mem_removeKcore hfree hindex hkcore).mp hx).1

end Statements

/-! ## what a run of the indexer has done so far -/

/-- What a consumer of the walk has in hand: the last entries it received are
in its batch, and those before are in the index as long as no batch failed. -/
structure Walk.Follows (walk : Walk d) (k : Consumer) (done pending : List (Bytes × Metadata)) :
    Prop where
  received : done ++ pending = walk.entries.take k.totalProcessed
  batch_eq : k.batch = pending.map fun e => fileRecord d e.1 e.2
  written : k.insertFailed = false →
    k.db.seenHashes = (done.map fun e => computeHashBytes d e.1) ∧ Present d k.db.index done

/-- The whole walk is in the index, and in what the cleanup goes by. -/
def Walk.Seen (walk : Walk d) (index : Index) (c : Intake) : Prop :=
  c.seenHashes = (walk.entries.map fun e => computeHashBytes d e.1) ∧
    Present d index walk.entries

/-- The index, and what the run remembers, at a stage. -/
def Walk.Tracks (walk : Walk d) (index : Index) : Stage → Prop
  | .consuming c => ∃ done pending, walk.Follows (c.consumer index) done pending
  | .walked c => walk.Seen index c
  | .resolved c => walk.Seen index c
  | .cleaned _ => Reflects index walk
  | .ending .success _ => Reflects index walk
  | _ => True

/-- Dropping `/proc/kcore` costs a run nothing. -/
theorem Walk.Tracks.removeKcore {walk : Walk d} {index : Index} {paths : Set Bytes} {s : Stage}
    (hfree : CollisionFree d paths) (hindex : Recorded d paths index) (hkcore : kcore ∈ paths)
    (h : walk.Tracks index s) : walk.Tracks (removeKcore d index) s := by
  cases s with
  | consuming c =>
      obtain ⟨done, pending, hfollows⟩ := h
      exact ⟨done, pending, hfollows.received, hfollows.batch_eq, fun hok =>
        ⟨(hfollows.written hok).1,
          present_removeKcore hfree hindex hkcore (hfollows.written hok).2⟩⟩
  | walked c => exact ⟨h.1, present_removeKcore hfree hindex hkcore h.2⟩
  | resolved c => exact ⟨h.1, present_removeKcore hfree hindex hkcore h.2⟩
  | cleaned c => exact reflects_removeKcore hfree hindex hkcore h
  | ending status files =>
      cases status with
      | success => exact reflects_removeKcore hfree hindex hkcore h
      | failed => trivial
  | _ => trivial

section Consuming

variable {paths : Set Bytes} {walk : Walk d} {k : Consumer}
  {done pending : List (Bytes × Metadata)}

/-- One more record. -/
theorem Walk.Follows.push {e : Bytes × Metadata} (h : walk.Follows k done pending)
    (he : walk.entries[k.totalProcessed]? = some e) :
    walk.Follows { k with
      batch := k.batch ++ [fileRecord d e.1 e.2], totalProcessed := k.totalProcessed + 1 }
      done (pending ++ [e]) where
  received := by
    rw [← List.append_assoc, h.received, List.take_add_one, he]
    rfl
  batch_eq := by simp [h.batch_eq]
  written := h.written

/-- **A flush** moves the batch to the index, or fails and is remembered. -/
theorem Walk.Follows.flush (h : walk.Follows k done pending) (hfree : CollisionFree d paths)
    (hwalk : ∀ e ∈ walk.entries, e.1 ∈ paths) (hindex : Recorded d paths k.db.index)
    (hstaging : k.db.stagingIndex = []) (fails : Nat → Bool) :
    Recorded d paths (k.flush fails).db.index ∧
      walk.Follows (k.flush fails) (done ++ pending) [] := by
  obtain ⟨⟨index, staging, seen⟩, batch, flushed, total, failed⟩ := k
  cases hstaging
  obtain ⟨hreceived, rfl, hwritten⟩ := h
  have hsub : (done ++ pending).Sublist walk.entries := hreceived ▸ List.take_sublist _ _
  unfold Consumer.flush tryInsertBatch
  dsimp only at hindex hreceived hwritten ⊢
  cases fails flushed with
  | true => exact ⟨hindex, by simpa using hreceived, rfl, fun hok => by simp at hok⟩
  | false =>
      have hpending : pending.Sublist walk.entries :=
        (List.sublist_append_right done pending).trans hsub
      have hnone : Present d index [] := fun e he => absurd he List.not_mem_nil
      refine ⟨?_, by simpa using hreceived, rfl, fun hok => ?_⟩
      · have hsub' : ([] ++ pending).Sublist walk.entries := hpending
        exact (present_insertBatch hfree hindex hwalk hsub' hnone seen).1
      · have hok' : failed = false := by simpa using hok
        obtain ⟨hseen, hpresent⟩ := hwritten hok'
        refine ⟨?_, (present_insertBatch hfree hindex hwalk hsub hpresent seen).2⟩
        simp [insertBatch, hseen, Function.comp_def, FileRecord.toRow, fileRecord]

/-- **The consumer keeps up with the walk.** -/
theorem Walk.Follows.receive (h : walk.Follows k done pending) (hfree : CollisionFree d paths)
    (hwalk : ∀ e ∈ walk.entries, e.1 ∈ paths) (hindex : Recorded d paths k.db.index)
    (hstaging : k.db.stagingIndex = []) (fails : Nat → Bool)
    {e : Bytes × Metadata} (he : walk.entries[k.totalProcessed]? = some e) :
    Recorded d paths (k.receive fails (fileRecord d e.1 e.2)).db.index ∧
      ∃ done' pending', walk.Follows (k.receive fails (fileRecord d e.1 e.2)) done' pending' := by
  have hpush := h.push he
  unfold Consumer.receive
  dsimp only
  split_ifs
  · obtain ⟨hrecorded, hflush⟩ := hpush.flush hfree hwalk hindex hstaging fails
    exact ⟨hrecorded, _, _, hflush⟩
  · exact ⟨hindex, _, _, hpush⟩

/-- **The last flush** leaves nothing in the batch. -/
theorem Walk.Follows.drain (hfree : CollisionFree d paths)
    (hwalk : ∀ e ∈ walk.entries, e.1 ∈ paths) {c : Intake} {index : Index}
    (hindex : Recorded d paths index) (h : walk.Follows (c.consumer index) done pending)
    (fails : Bool) :
    Recorded d paths (c.drain fails index).db.index ∧
      ∃ done', walk.Follows (c.drain fails index) done' [] := by
  unfold Intake.drain
  split_ifs with hempty
  · have hnil : pending = [] := by
      have hbatch := h.batch_eq
      rw [show (c.consumer index).batch = c.batch from rfl, hempty] at hbatch
      exact List.map_eq_nil_iff.mp hbatch.symm
    exact ⟨hindex, done, hnil ▸ h⟩
  · obtain ⟨hrecorded, hflush⟩ := h.flush hfree hwalk hindex rfl fun _ => fails
    exact ⟨hrecorded, _, hflush⟩

end Consuming

/-- **A run of the indexer keeps track** of the index, which nobody else
writes meanwhile but the aggregator. -/
theorem tracks_next {paths : Set Bytes} {walk : Walk d} (hfree : CollisionFree d paths)
    (hwalk : ∀ e ∈ walk.entries, e.1 ∈ paths) {id : Text} {t t' : Tables} {s s' : Stage}
    {m : Move} (hindex : Recorded d paths t.filesystemIndex)
    (h : walk.Tracks t.filesystemIndex s) (hcounted : walk.Counted s)
    (hnext : walk.next id t s m = some (t', s')) :
    Recorded d paths t'.filesystemIndex ∧ walk.Tracks t'.filesystemIndex s' := by
  unfold Walk.next at hnext
  split at hnext
  next c fails reports =>
      obtain ⟨e, he, hnext⟩ := Option.map_eq_some_iff.mp hnext
      cases hnext
      obtain ⟨done, pending, hfollows⟩ := h
      obtain ⟨hrecorded, done', pending', hfollows'⟩ :=
        hfollows.receive hfree hwalk hindex rfl (fun _ => fails) he
      exact ⟨hrecorded, done', pending', hfollows'.received, hfollows'.batch_eq,
        hfollows'.written⟩
  next c panics fails =>
      split_ifs at hnext with hopen
      cases hnext
      obtain ⟨done, pending, hfollows⟩ := h
      obtain ⟨hrecorded, done', hfollows'⟩ := hfollows.drain hfree hwalk hindex fails
      refine ⟨hrecorded, ?_⟩
      split_ifs with hgate
      · trivial
      · rw [Bool.or_eq_true, not_or, Bool.not_eq_true, Bool.not_eq_true] at hgate
        have hall : ¬ c.totalProcessed < walk.entries.length := fun hlt => hopen ⟨hgate.1, hlt⟩
        have hdone : done' = walk.entries := by
          have hreceived := hfollows'.received
          rwa [List.append_nil, totalProcessed_drain, List.take_of_length_le (by omega)]
            at hreceived
        have hwritten := hfollows'.written hgate.2
        rw [hdone] at hwritten
        exact hwritten
  next =>
      cases hnext
      exact ⟨hindex, h⟩
  next =>
      cases hnext
      exact ⟨hindex, trivial⟩
  next c fails =>
      split_ifs at hnext
      · cases hnext
        exact ⟨hindex, trivial⟩
      · cases hnext
        obtain ⟨hseen, hpresent⟩ := h
        rw [hseen]
        exact reflects_cleanup hfree hindex hwalk hpresent
  next c fails =>
      cases hnext
      cases fails with
      | true => exact ⟨hindex, trivial⟩
      | false => exact ⟨hindex, h⟩
  next => contradiction

/-! ## what a run of the aggregator has done so far -/

/-- Every run of the indexer on record has ended before `s`. -/
def Quiet (t : Sessions) (s : Int) : Prop :=
  ∀ r ∈ t, r.scanType = ScanType.indexer.text → ∃ e, r.endedAt = some e ∧ e < s

def Trimmed (index : Index) : Prop := ∀ x ∈ index, x.raw ≠ kcore

/-- The totals are those of the index, of which `files` entries count. -/
structure Totalled (d : Digest) (t : Tables) (files : Int) : Prop where
  trimmed : Trimmed t.filesystemIndex
  totals : RunAggregation d t.filesystemIndex t.dirStats t.userStats
  files_eq : files = (indexEntries t.filesystemIndex).length

/-- The tables at a stage of the aggregator, as long as no indexer writes. -/
def AggTracks (d : Digest) (t : Tables) : Stage → Prop
  | .trimmed => Trimmed t.filesystemIndex
  | .streamed rows => Trimmed t.filesystemIndex ∧ rows.Perm (indexEntries t.filesystemIndex)
  | .ending .success files => Totalled d t files
  | _ => True

theorem Totalled.congr {t t' : Tables} {files : Int} (h : Totalled d t files)
    (hindex : t'.filesystemIndex = t.filesystemIndex) (hdir : t'.dirStats = t.dirStats)
    (huser : t'.userStats = t.userStats) : Totalled d t' files where
  trimmed := by rw [hindex]; exact h.trimmed
  totals := by rw [hindex, hdir, huser]; exact h.totals
  files_eq := by rw [hindex]; exact h.files_eq

theorem AggTracks.congr {t t' : Tables} {s : Stage} (h : AggTracks d t s)
    (hindex : t'.filesystemIndex = t.filesystemIndex) (hdir : t'.dirStats = t.dirStats)
    (huser : t'.userStats = t.userStats) : AggTracks d t' s := by
  cases s with
  | trimmed =>
      rw [AggTracks, hindex]
      exact h
  | streamed rows =>
      rw [AggTracks, hindex]
      exact h
  | ending status files =>
      cases status with
      | success => exact Totalled.congr h hindex hdir huser
      | failed => trivial
  | _ => trivial

theorem aggTracks_next {paths : Set Bytes} (hfree : CollisionFree d paths) (hkcore : kcore ∈ paths)
    {t t' : Tables} {s s' : Stage} {m : Move} (hindex : Recorded d paths t.filesystemIndex)
    (h : AggTracks d t s) (hnext : aggregatorNext d t s m = some (t', s')) :
    AggTracks d t' s' := by
  unfold aggregatorNext at hnext
  split at hnext
  next =>
      cases hnext
      split_ifs <;> trivial
  next =>
      cases hnext
      exact fun x hx => ((mem_removeKcore hfree hindex hkcore).mp hx).2
  next rows =>
      split_ifs at hnext with hperm
      cases hnext
      exact ⟨h, List.isPerm_iff.mp hperm⟩
  next rows =>
      split_ifs at hnext
      · cases hnext
        obtain ⟨htrimmed, hperm⟩ := h
        exact ⟨htrimmed, ⟨rows, hperm, List.Perm.refl _, List.Perm.refl _⟩,
          congrArg Nat.cast hperm.length_eq⟩
      · cases hnext
        trivial
  next => contradiction
  next =>
      cases hnext
      trivial
  next => contradiction

/-- The index behind a move of the aggregator. -/
theorem aggregatorNext_index {t t' : Tables} {s s' : Stage} {m : Move}
    (hnext : aggregatorNext d t s m = some (t', s')) :
    t'.filesystemIndex = t.filesystemIndex ∨
      t'.filesystemIndex = removeKcore d t.filesystemIndex := by
  unfold aggregatorNext at hnext
  split at hnext
  next =>
      cases hnext
      exact Or.inl rfl
  next =>
      cases hnext
      exact Or.inr rfl
  next =>
      split_ifs at hnext
      cases hnext
      exact Or.inl rfl
  next =>
      split_ifs at hnext
      · cases hnext
        exact Or.inl rfl
      · cases hnext
        exact Or.inl rfl
  next => contradiction
  next =>
      cases hnext
      exact Or.inl rfl
  next => contradiction

/-! ## the newest runs -/

/-- Every other run of the type started before `s`. -/
def Last (runs : Slots Run) (pid : Nat) (type : ScanType) (s : Int) : Prop :=
  runs.Others pid fun y => y.scanType = type → ∀ s', y.startedAt? = some s' → s' < s

/-- What the tables owe to a process: to a run under way what its stage says,
to a run that succeeded all it did, as long as it is the last. -/
structure UpToDate (w : World d) (pid : Nat) (p : Process d) : Prop where
  tracks : ∀ walk s stage, p.job = .indexer walk → p.phase = .recorded s stage →
    walk.Tracks w.tables.filesystemIndex stage
  reflects : ∀ walk s e, p.job = .indexer walk → p.phase = .exited (some ⟨s, some e⟩) →
    e.status = .success → Last w.runs pid .indexer s → Reflects w.tables.filesystemIndex walk
  aggTracks : ∀ s stage, p.job = .aggregator → p.phase = .recorded s stage →
    Quiet w.tables.scanSessions s → AggTracks d w.tables stage
  totalled : ∀ s e, p.job = .aggregator → p.phase = .exited (some ⟨s, some e⟩) →
    e.status = .success → Last w.runs pid .aggregator s → Quiet w.tables.scanSessions s →
    Totalled d w.tables e.files

/-- What a run may write to the index. -/
def Job.entries : Job d → List (Bytes × Metadata)
  | .indexer walk => walk.entries
  | .aggregator => []

def Action.entries : Action d → List (Bytes × Metadata)
  | .spawn job _ => job.entries
  | _ => []

structure Fresh (paths : Set Bytes) (w : World d) : Prop where
  recorded : Recorded d paths w.tables.filesystemIndex
  current : ∀ p ∈ w.processes, p.phase ≠ .outdated
  within : ∀ p ∈ w.processes, ∀ e ∈ p.job.entries, e.1 ∈ paths
  upToDate : ∀ pid p, w.processes[pid]? = some p → UpToDate w pid p

/-- What one move of a process writes besides `scan_sessions`. -/
inductive Writes (p : Process d) (t t' : Tables) : Phase → Prop
  | none (phase : Phase) (hindex : t'.filesystemIndex = t.filesystemIndex)
      (hdir : t'.dirStats = t.dirStats) (huser : t'.userStats = t.userStats) : Writes p t t' phase
  | indexer {walk : Walk d} {s : Int} {stage stage' : Stage} {m : Move}
      (hjob : p.job = .indexer walk) (hphase : p.phase = .recorded s stage)
      (hnext : walk.next p.sessionId t stage m = some (t', stage')) :
      Writes p t t' (.recorded s stage')
  | aggregator {s : Int} {stage stage' : Stage} {m : Move} (hjob : p.job = .aggregator)
      (hphase : p.phase = .recorded s stage)
      (hnext : aggregatorNext d t stage m = some (t', stage')) : Writes p t t' (.recorded s stage')

/-- An index of well-formed rows has the width of this binary. -/
theorem widthFits_of_recorded {paths : Set Bytes} {index : Index}
    (h : Recorded d paths index) : widthFits index = true := by
  have hwf : ∀ x ∈ index, x.Wf d := fun x hx => (h x hx).1
  unfold widthFits
  cases hlen : storedPathHashLen index with
  | none => rfl
  | some n => simp [ScanRun.storedPathHashLen_of_wf hwf hlen]

/-- **No run finds an index of another width** where the rows are well formed. -/
theorem next_current {paths : Set Bytes} {p : Process d} {now : Int} {t t' : Tables} {m : Move}
    {phase : Phase} (hindex : Recorded d paths t.filesystemIndex)
    (h : p.next now t m = some (t', phase)) : phase ≠ .outdated := by
  obtain ⟨job, id, phase₀⟩ := p
  have hclear : job.mustClear t.filesystemIndex = false := by
    cases job with
    | indexer walk => rw [Job.mustClear, widthFits_of_recorded hindex, Bool.not_true]
    | aggregator => rfl
  unfold Process.next at h
  split at h
  next => contradiction
  next =>
      cases h
      simp
  next =>
      cases h
      simp
  next =>
      rw [hclear] at h
      cases h
      simp
  next =>
      cases h
      simp
  next =>
      obtain ⟨sessions, -, h⟩ := Option.map_eq_some_iff.mp h
      cases h
      simp
  next =>
      split_ifs at h <;> cases h <;> simp
  next =>
      obtain ⟨r, -, h⟩ := Option.map_eq_some_iff.mp h
      cases h
      simp
  next => contradiction

theorem next_writes {p : Process d} {now : Int} {t t' : Tables} {m : Move} {phase : Phase}
    (hcurrent : p.phase ≠ .outdated) (h : p.next now t m = some (t', phase)) :
    Writes p t t' phase := by
  obtain ⟨job, id, phase₀⟩ := p
  unfold Process.next at h
  split at h
  next => contradiction
  next =>
      cases h
      exact .none _ rfl rfl rfl
  next fails _ =>
      cases h
      cases fails <;> exact .none _ rfl rfl rfl
  next =>
      cases h
      exact .none _ rfl rfl rfl
  next heq => exact absurd heq hcurrent
  next =>
      obtain ⟨sessions, -, h⟩ := Option.map_eq_some_iff.mp h
      cases h
      exact .none _ rfl rfl rfl
  next startedAt status files fails heq =>
      split_ifs at h <;> cases h <;> exact .none _ rfl rfl rfl
  next startedAt stage heq _ _ =>
      cases heq
      obtain ⟨⟨t₁, s₁⟩, hnext, h⟩ := Option.map_eq_some_iff.mp h
      cases h
      cases job with
      | indexer walk => exact .indexer rfl rfl hnext
      | aggregator => exact .aggregator rfl rfl hnext
  next => contradiction

/-- A process that neither is under way nor has recorded its end. -/
theorem upToDate_idle {w : World d} {pid : Nat} {p : Process d}
    (hrecorded : ∀ s stage, p.phase ≠ .recorded s stage)
    (hended : ∀ s e, p.phase ≠ .exited (some ⟨s, some e⟩)) : UpToDate w pid p where
  tracks _ s stage _ hphase := absurd hphase (hrecorded s stage)
  reflects _ s e _ hphase := absurd hphase (hended s e)
  aggTracks s stage _ hphase := absurd hphase (hrecorded s stage)
  totalled s e _ hphase := absurd hphase (hended s e)

/-! ## looking back over a move -/

theorem Quiet.back {t t' : Sessions} {m : Move} {now s : Int} {x x' : Run}
    (hbooking : Booking m now t x t' x') (hs : s ≤ now) (h : Quiet t' s) : Quiet t s := by
  intro r hr htype
  cases hbooking with
  | quiet => exact h r hr htype
  | dies => exact h r hr htype
  | reapFails => exact h r hr htype
  | reaps =>
      have hrow := h _ (Table.mem_update.mpr ⟨r, hr, rfl⟩)
      split_ifs at hrow with hstale
      · obtain ⟨e, he, hlt⟩ := hrow htype
        cases he
        omega
      · exact hrow htype
  | starts => exact h r (Table.mem_insertDoNothing.mpr (Or.inl hr)) htype
  | reports hbook files =>
      have hrow := h _ (Table.mem_update.mpr ⟨r, hr, rfl⟩)
      split_ifs at hrow <;> exact hrow htype
  | ends hbook status files =>
      have hrow := h _ (Table.mem_update.mpr ⟨r, hr, rfl⟩)
      split_ifs at hrow with hid
      · obtain ⟨e, he, hlt⟩ := hrow htype
        cases he
        omega
      · exact hrow htype

theorem Last.back {t t' : Sessions} {runs : Slots Run} {pid q : Nat} {m : Move} {now s : Int}
    {type : ScanType} {x x' : Run} (hbooking : Booking m now t x t' x')
    (hrun : runs pid = some x) (h : Last (runs.set pid x') q type s) : Last runs q type s := by
  intro q' y hy hq' htype s' hs'
  by_cases hpid : q' = pid
  · subst hpid
    cases hrun.symm.trans hy
    refine h q' x' (Slots.set_eq_some.mpr (Or.inl ⟨rfl, rfl⟩)) hq'
      (hbooking.same.2.trans htype) s' ?_
    rcases hbooking.startedAt? with hold | ⟨hnone, -⟩
    · exact hold.trans hs'
    · rw [hnone] at hs'
      contradiction
  · exact h q' y (Slots.set_eq_some.mpr (Or.inr ⟨hpid, hy⟩)) hq' htype s' hs'

theorem Last.back_come {runs : Slots Run} {n q : Nat} {s : Int} {type : ScanType} {x : Run}
    (hnew : runs n = none) (h : Last (runs.set n x) q type s) : Last runs q type s := by
  intro q' y hy
  refine h q' y (Slots.set_eq_some.mpr (Or.inr ⟨fun hq => ?_, hy⟩))
  rw [hq, hnew] at hy
  contradiction

/-- A run of the indexer that is under way is on record. -/
theorem Quiet.not_live {t : Sessions} {runs : Slots Run} {pid : Nat} {x : Run} {s started : Int}
    (h : Quiet t s) (hbooked : Booked t runs) (howned : Owned t runs) (hrun : runs pid = some x)
    (hlive : x.live = true) (htype : x.scanType = .indexer)
    (hbook : x.book = some ⟨started, none⟩) : False := by
  have hne : x.book ≠ none := by simp [hbook]
  obtain ⟨r, hr, hid⟩ := hbooked.row pid x hrun hne
  have hstatus := howned pid x hrun hlive hne r hr hid
  obtain ⟨e, he, -⟩ := h r hr (by rw [hbooked.scanType_eq hrun hne hr hid, htype])
  obtain ⟨q, y, b, hy, hb, hshows⟩ := hbooked.owner r hr
  have hq : q = pid := hbooked.unique q y pid x hy hrun (by simp [hb]) hne
    (hshows.sessionId_eq.symm.trans hid)
  subst hq
  cases hrun.symm.trans hy
  cases hbook.symm.trans hb
  rcases hshows.unended rfl with ⟨-, hnone⟩ | ⟨hfailed, -⟩
  · rw [hnone] at he
    contradiction
  · exact EndStatus.text_ne_running .failed (hfailed.symm.trans hstatus)

section Moves

variable {paths : Set Bytes} {w w' : World d} {pid q : Nat} {p r : Process d} {phase : Phase}
  {m : Move}
  (hfree : CollisionFree d paths) (hkcore : kcore ∈ paths)
  (hindex : Recorded d paths w.tables.filesystemIndex)

include hfree hkcore hindex

/-- **A move leaves the other runs up to date**: a run that writes what another
answers for would be a second one of its type under way, or a later one. -/
theorem upToDate_other (hbooked : Booked w.tables.scanSessions w.runs) (hlone : Lone w.runs)
    (howned : Owned w.tables.scanSessions w.runs) (hlatest : Latest w.runs)
    (hp : w.processes[pid]? = some p) (hr : w.processes[q]? = some r) (hq : q ≠ pid)
    (hwrites : Writes p w.tables w'.tables phase)
    (hquiet : ∀ s, r.run.startedAt? = some s → Quiet w'.tables.scanSessions s →
      Quiet w.tables.scanSessions s)
    (hlast : ∀ type s, Last w'.runs q type s → Last w.runs q type s) (h : UpToDate w q r) :
    UpToDate w' q r := by
  have hrunp : w.runs pid = some p.run := runs_eq_some.mpr ⟨p, hp, rfl⟩
  have hrunr : w.runs q = some r.run := runs_eq_some.mpr ⟨r, hr, rfl⟩
  have hstarted : ∀ s book, r.phase.book? = some ⟨s, book⟩ → r.run.startedAt? = some s := by
    intro s book hbook
    simp [Run.startedAt?, Process.run, hbook]
  have hlive : ∀ s stage, p.phase = .recorded s stage → p.run.live = true ∧
      p.run.book = some ⟨s, none⟩ := by
    intro s stage hphase
    simp [Process.run, hphase, Phase.isExited, Phase.book?]
  -- two runs of a type under way
  have hnotLone : ∀ s stage s' stage', p.phase = .recorded s stage →
      r.phase = .recorded s' stage' → p.job.scanType ≠ r.job.scanType := by
    intro s stage s' stage' hpphase hrphase htype
    refine hq (hlone r.job.scanType q r.run pid p.run hrunr hrunp ⟨?_, rfl⟩ ⟨?_, htype⟩)
    · simp [Process.run, hrphase, Phase.isExited]
    · exact (hlive s stage hpphase).1
  -- a run that started after the last one
  have hnotLast : ∀ s stage s' e, p.phase = .recorded s stage →
      r.phase = .exited (some ⟨s', some e⟩) → p.job.scanType = r.job.scanType →
      ¬ Last w.runs q r.job.scanType s' := by
    intro s stage s' e hpphase hrphase htype hlast'
    obtain ⟨hplive, hpbook⟩ := hlive s stage hpphase
    have hps : p.run.startedAt? = some s := by simp [Run.startedAt?, hpbook]
    have hlt := hlast' pid p.run hrunp (Ne.symm hq) htype s hps
    have hle := hlatest pid p.run hrunp hplive s hps q r.run hrunr htype.symm s'
      (hstarted s' (some e) (by simp [hrphase, Phase.book?]))
    omega
  cases hwrites with
  | none _ hidx hdir huser =>
      refine ⟨?_, ?_, ?_, ?_⟩
      · intro walk s stage hjob hphase
        rw [hidx]
        exact h.tracks walk s stage hjob hphase
      · intro walk s e hjob hphase hsuccess hlast'
        rw [hidx]
        exact h.reflects walk s e hjob hphase hsuccess (hlast _ s hlast')
      · intro s stage hjob hphase hquiet'
        have hs := hstarted s none (by simp [hphase, Phase.book?])
        exact (h.aggTracks s stage hjob hphase (hquiet s hs hquiet')).congr hidx hdir huser
      · intro s e hjob hphase hsuccess hlast' hquiet'
        have hs := hstarted s (some e) (by simp [hphase, Phase.book?])
        exact (h.totalled s e hjob hphase hsuccess (hlast _ s hlast') (hquiet s hs hquiet')).congr
          hidx hdir huser
  | indexer hpjob hpphase hnext =>
      obtain ⟨hplive, hpbook⟩ := hlive _ _ hpphase
      have hptype : p.run.scanType = .indexer := by simp [Process.run, hpjob, Job.scanType]
      refine ⟨?_, ?_, ?_, ?_⟩
      · intro walk s stage hjob hphase
        exact absurd (by rw [hpjob, hjob]; rfl) (hnotLone _ _ s stage hpphase hphase)
      · intro walk s e hjob hphase _ hlast'
        refine absurd ?_ (hnotLast _ _ s e hpphase hphase (by rw [hpjob, hjob]; rfl))
        rw [hjob]
        exact hlast _ s hlast'
      · intro s stage hjob hphase hquiet'
        have hs := hstarted s none (by simp [hphase, Phase.book?])
        exact ((hquiet s hs hquiet').not_live hbooked howned hrunp hplive hptype hpbook).elim
      · intro s e hjob hphase _ _ hquiet'
        have hs := hstarted s (some e) (by simp [hphase, Phase.book?])
        exact ((hquiet s hs hquiet').not_live hbooked howned hrunp hplive hptype hpbook).elim
  | aggregator hpjob hpphase hnext =>
      have hidx := aggregatorNext_index hnext
      refine ⟨?_, ?_, ?_, ?_⟩
      · intro walk s stage hjob hphase
        have htracks := h.tracks walk s stage hjob hphase
        rcases hidx with hsame | hremoved
        · rw [hsame]
          exact htracks
        · rw [hremoved]
          exact htracks.removeKcore hfree hindex hkcore
      · intro walk s e hjob hphase hsuccess hlast'
        have hreflects := h.reflects walk s e hjob hphase hsuccess (hlast _ s hlast')
        rcases hidx with hsame | hremoved
        · rw [hsame]
          exact hreflects
        · rw [hremoved]
          exact reflects_removeKcore hfree hindex hkcore hreflects
      · intro s stage hjob hphase
        exact absurd (by rw [hpjob, hjob]) (hnotLone _ _ s stage hpphase hphase)
      · intro s e hjob hphase _ hlast'
        refine absurd ?_ (hnotLast _ _ s e hpphase hphase (by rw [hpjob, hjob]))
        rw [hjob]
        exact hlast _ s hlast'

/-- **A move leaves the run that makes it up to date.** -/
theorem upToDate_self (hcurrent : p.phase ≠ .outdated) (hwithin : ∀ e ∈ p.job.entries, e.1 ∈ paths) (hcounted : p.Counted)
    {t' : Tables} {now : Int} (hnext : p.next now w.tables m = some (t', phase))
    (ht' : w'.tables = t')
    (hquiet : ∀ s, p.run.startedAt? = some s → Quiet t'.scanSessions s →
      Quiet w.tables.scanSessions s) (h : UpToDate w pid p) :
    Recorded d paths t'.filesystemIndex ∧ UpToDate w' pid { p with phase := phase } := by
  obtain ⟨job, id, phase₀⟩ := p
  unfold Process.next at hnext
  split at hnext
  next => contradiction
  next hnot =>
      cases hnext
      refine ⟨hindex, upToDate_idle (fun s stage hphase => by cases hphase) fun s e hphase => ?_⟩
      have hbook : phase₀.book? = some ⟨s, some e⟩ := Phase.exited.inj hphase
      have hexited := isExited_of_ended hbook rfl
      cases phase₀ with
      | exited book => exact hnot book rfl
      | _ => contradiction
  next fails _ =>
      cases hnext
      refine ⟨?_, upToDate_idle (fun s stage hphase => by cases hphase) fun s e hphase => by
        cases hphase⟩
      cases fails <;> exact hindex
  next =>
      cases hnext
      refine ⟨hindex, ?_⟩
      split_ifs <;> exact upToDate_idle (fun s stage hphase => by cases hphase) fun s e hphase => by
        cases hphase
  next heq => exact absurd heq hcurrent
  next heq =>
      cases heq
      obtain ⟨sessions, hstart, hnext⟩ := Option.map_eq_some_iff.mp hnext
      cases hnext
      refine ⟨hindex, ?_, ?_, ?_, ?_⟩
      · intro walk s stage hjob hphase
        cases hjob
        cases hphase
        exact ⟨[], [], rfl, rfl, fun _ => ⟨rfl, fun e he => absurd he List.not_mem_nil⟩⟩
      · intro walk s e hjob hphase
        cases hphase
      · intro s stage hjob hphase _
        cases hjob
        cases hphase
        trivial
      · intro s e hjob hphase
        cases hphase
  next startedAt status files fails heq =>
      cases heq
      have hs : Run.startedAt? (Process.run ⟨job, id, .recorded startedAt (.ending status files)⟩) =
        some startedAt := rfl
      split_ifs at hnext
      · cases hnext
        exact ⟨hindex, upToDate_idle (fun s stage hphase => by cases hphase) fun s e hphase => by
          cases hphase⟩
      · cases hnext
        refine ⟨hindex, ?_, ?_, ?_, ?_⟩
        · intro walk s stage hjob hphase
          cases hphase
        · intro walk s e hjob hphase hsuccess _
          cases hphase
          cases hsuccess
          rw [ht']
          exact h.tracks walk _ _ hjob rfl
        · intro s stage hjob hphase
          cases hphase
        · intro s e hjob hphase hsuccess _ hquiet'
          cases hphase
          cases hsuccess
          rw [ht'] at hquiet' ⊢
          exact Totalled.congr (h.aggTracks _ _ hjob rfl (hquiet _ hs hquiet')) rfl rfl rfl
  next startedAt stage heq _ _ =>
      cases heq
      obtain ⟨⟨t₁, s₁⟩, hstage, hnext⟩ := Option.map_eq_some_iff.mp hnext
      cases hnext
      have hs : Run.startedAt? (Process.run ⟨job, id, .recorded startedAt stage⟩) =
        some startedAt := rfl
      cases job with
      | indexer walk =>
          obtain ⟨hrecorded, htracks⟩ := tracks_next hfree hwithin hindex
            (h.tracks walk _ _ rfl rfl) hcounted hstage
          refine ⟨hrecorded, ?_, ?_, ?_, ?_⟩
          · intro walk' s stage' hjob hphase
            cases hjob
            cases hphase
            rw [ht']
            exact htracks
          · intro walk' s e hjob hphase
            cases hphase
          · intro s stage' hjob
            cases hjob
          · intro s e hjob
            cases hjob
      | aggregator =>
          refine ⟨?_, ?_, ?_, ?_, ?_⟩
          · rcases aggregatorNext_index hstage with hsame | hremoved
            · exact hsame ▸ hindex
            · intro x hx
              rw [hremoved] at hx
              exact hindex x ((mem_removeKcore hfree hindex hkcore).mp hx).1
          · intro walk' s stage' hjob
            cases hjob
          · intro walk' s e hjob
            cases hjob
          · intro s stage' hjob hphase hquiet'
            cases hphase
            rw [ht'] at hquiet' ⊢
            exact aggTracks_next hfree hkcore hindex
              (h.aggTracks _ _ rfl rfl (hquiet _ hs hquiet')) hstage
          · intro s e hjob hphase
            cases hphase
  next => contradiction

end Moves

/-! ## over whole runs -/

/-- Runs of a type do not overlap, and the walks stay within `paths`. -/
def Careful (paths : Set Bytes) (w : World d) (a : Action d) : Prop :=
  OneAtATime w a ∧ ∀ e ∈ a.entries, e.1 ∈ paths

theorem UpToDate.congr {w w' : World d} {pid : Nat} {p : Process d} (h : UpToDate w pid p)
    (htables : w'.tables = w.tables)
    (hlast : ∀ type s, Last w'.runs pid type s → Last w.runs pid type s) : UpToDate w' pid p where
  tracks walk s stage hjob hphase := by
    rw [htables]
    exact h.tracks walk s stage hjob hphase
  reflects walk s e hjob hphase hsuccess hl := by
    rw [htables]
    exact h.reflects walk s e hjob hphase hsuccess (hlast _ s hl)
  aggTracks s stage hjob hphase hquiet := by
    rw [htables] at hquiet ⊢
    exact h.aggTracks s stage hjob hphase hquiet
  totalled s e hjob hphase hsuccess hl hquiet := by
    rw [htables] at hquiet ⊢
    exact h.totalled s e hjob hphase hsuccess (hlast _ s hl) hquiet

theorem fresh_of_reachable {paths : Set Bytes} (hfree : CollisionFree d paths)
    (hkcore : kcore ∈ paths) {db : Db} (hdb : Recorded d paths db.filesystemIndex)
    {dirStats : DirStats} {userStats : Table UserStatsRow.key} {w : World d}
    (h : Reachable World.step (Careful paths) (World.init db dirStats userStats) w) :
    Fresh paths w := by
  refine h.invariant (fun w => Fresh paths w) ?_ ?_
  · exact ⟨hdb, fun p hp => by contradiction, fun p hp => by contradiction,
      fun pid p hp => by simp [World.init] at hp⟩
  · intro w a w' hreached ih hmeets hstep
    have hone : ∀ (w : World d) a, Careful paths w a → OneAtATime w a := fun _ _ hP => hP.1
    have hbooked := booked_of_reachable hreached
    have hpast := hbooked.startedAt_le (past_of_reachable hreached)
    cases a with
    | spawn job id =>
        have hregistered := step_registered hstep
        cases hstep
        refine ⟨ih.recorded, fun p hp => ?_, fun p hp => ?_, fun pid p hp => ?_⟩
        · cases List.mem_append.mp hp with
          | inl hold => exact ih.current p hold
          | inr hlast =>
              rw [List.mem_singleton.mp hlast]
              simp
        · cases List.mem_append.mp hp with
          | inl hold => exact ih.within p hold
          | inr hlast =>
              rw [List.mem_singleton.mp hlast]
              exact hmeets.2
        · cases hregistered with
          | spawn _ _ hnew hruns =>
              rw [List.getElem?_append] at hp
              split at hp
              next =>
                  refine (ih.upToDate pid p hp).congr rfl fun type s hl => ?_
                  rw [hruns] at hl
                  exact hl.back_come hnew
              next =>
                  rw [List.mem_singleton.mp (List.mem_of_getElem? hp)]
                  exact upToDate_idle (fun s stage hphase => by cases hphase) fun s e hphase => by
                    cases hphase
    | move pid m =>
        have hregistered := step_registered hstep
        obtain ⟨p, hp, hstep⟩ := Option.bind_eq_some_iff.mp hstep
        obtain ⟨⟨t', phase⟩, hnext, hstep⟩ := Option.map_eq_some_iff.mp hstep
        cases hstep
        cases hregistered with
        | @move _ _ x x' hrun hlive hbooking hruns hclock =>
            have hquiet : ∀ (r : Process d) q, w.processes[q]? = some r →
                ∀ s, r.run.startedAt? = some s → Quiet t'.scanSessions s →
                  Quiet w.tables.scanSessions s := fun r q hr s hs =>
              Quiet.back hbooking (hpast q r.run (runs_eq_some.mpr ⟨r, hr, rfl⟩) s hs)
            have hcounted : p.Counted := forall_process (fun job _ => by cases job <;> trivial)
              counted_next hreached p (List.mem_of_getElem? hp)
            obtain ⟨hrecorded, hself⟩ : Recorded d paths t'.filesystemIndex ∧
                UpToDate ⟨t', w.clock, w.processes.set pid { p with phase := phase }⟩ pid
                  { p with phase := phase } :=
              upToDate_self hfree hkcore ih.recorded (ih.current p (List.mem_of_getElem? hp))
                (ih.within p (List.mem_of_getElem? hp)) hcounted hnext rfl (hquiet p pid hp) (ih.upToDate pid p hp)
            refine ⟨hrecorded, fun r hr => ?_, fun r hr => ?_, fun q r hr => ?_⟩
            · cases List.mem_or_eq_of_mem_set hr with
              | inl hold => exact ih.current r hold
              | inr hmoved => exact hmoved ▸ next_current ih.recorded hnext
            · cases List.mem_or_eq_of_mem_set hr with
              | inl hold => exact ih.within r hold
              | inr hmoved => exact hmoved ▸ ih.within p (List.mem_of_getElem? hp)
            · by_cases hq : q = pid
              · subst hq
                rw [List.getElem?_set_self (List.getElem?_eq_some_iff.mp hp).1] at hr
                cases hr
                exact hself
              · dsimp only at hr
                rw [List.getElem?_set_ne (Ne.symm hq)] at hr
                refine upToDate_other hfree hkcore ih.recorded hbooked
                  (lone_of_reachable hone hreached) (owned_of_reachable hone hreached)
                  (latest_of_reachable hone hreached) hp hr hq
                  (next_writes (ih.current p (List.mem_of_getElem? hp)) hnext)
                  (hquiet r q hr) (fun type s hl => ?_) (ih.upToDate q r hr)
                rw [hruns] at hl
                exact hl.back hbooking hrun
    | tick n =>
        cases hstep
        exact ⟨ih.recorded, ih.current, ih.within, fun pid p hp =>
          (ih.upToDate pid p hp).congr rfl fun _ _ hl => hl⟩

/-! ## what the history says about the data -/

/-- The one row of its type that started last. -/
def StartedLast (t : Sessions) (r : ScanSessionRow) : Prop :=
  ∀ r' ∈ t, r'.scanType = r.scanType → r' ≠ r → ∀ s s', r.startedAt = some s →
    r'.startedAt = some s' → s' < s

/-- The rows under the roots of a walk, `/proc/kcore` apart. -/
def rowsUnder (index : Index) (roots : List Bytes) : List IndexRow :=
  index.rows.filter fun x => CoveredBy roots x.raw ∧ x.raw ≠ kcore

theorem Reflects.perm {paths : Set Bytes} {index : Index} {walk : Walk d}
    (hfree : CollisionFree d paths) (hwalk : ∀ e ∈ walk.entries, e.1 ∈ paths)
    (h : Reflects index walk) :
    ((rowsUnder index walk.roots).map IndexRow.entry).Perm
      ((walk.entries.filter fun e => e.1 ≠ kcore).map (rowOf d)) := by
  have hhashes : ((walk.entries.map Prod.fst).map (computeHashBytes d)).Nodup := by
    refine List.Nodup.map_on ?_ walk.nodup
    intro a ha b hb hhash
    obtain ⟨e, he, rfl⟩ := List.mem_map.mp ha
    obtain ⟨e', he', rfl⟩ := List.mem_map.mp hb
    exact hfree (hwalk e he) (hwalk e' he') hhash
  refine (List.perm_ext_iff_of_nodup ?_ ?_).mpr fun y => ?_
  · refine List.Nodup.of_map IndexRow.pathHash ?_
    rw [List.map_map]
    exact index.nodup.sublist (List.filter_sublist.map _)
  · refine List.Nodup.of_map IndexRow.pathHash ?_
    rw [List.map_map] at hhashes ⊢
    exact hhashes.sublist (List.filter_sublist.map _)
  · simp only [List.mem_map, rowsUnder, List.mem_filter, decide_eq_true_eq]
    constructor
    · intro hy
      obtain ⟨x, ⟨hx, hcov, hne⟩, rfl⟩ := hy
      obtain ⟨e, he, hentry⟩ := h.only x hx hcov hne
      rw [raw_of_entry hentry] at hne
      exact ⟨e, ⟨he, hne⟩, hentry.symm⟩
    · intro hy
      obtain ⟨e, ⟨he, hne⟩, rfl⟩ := hy
      obtain ⟨x, hx, hentry⟩ := h.present e he hne
      have hraw := raw_of_entry hentry
      exact ⟨x, ⟨hx, hraw ▸ walk.covered e he, hraw ▸ hne⟩, hentry⟩

/-- The row that started last belongs to the run that did. -/
theorem last_of_startedLast {t : Sessions} {runs : Slots Run} {pid : Nat} {x : Run} {b : Book}
    {r : ScanSessionRow} (hbooked : Booked t runs) (hx : runs pid = some x)
    (hb : x.book = some b) (hshows : Shows runs pid x b r) (h : StartedLast t r) :
    Last runs pid x.scanType b.startedAt := by
  intro q y hy hq htype s hs
  obtain ⟨b', hb', rfl⟩ := Option.map_eq_some_iff.mp hs
  obtain ⟨r', hr', hid⟩ := hbooked.row q y hy (by simp [hb'])
  obtain ⟨q', y', b'', hy', hb'', hshows'⟩ := hbooked.owner r' hr'
  have hq' : q' = q := hbooked.unique q' y' q y hy' hy (by simp [hb'']) (by simp [hb'])
    (hshows'.sessionId_eq.symm.trans hid)
  subst hq'
  cases hy.symm.trans hy'
  cases hb'.symm.trans hb''
  refine h r' hr' ?_ ?_ _ _ hshows.startedAt_eq hshows'.startedAt_eq
  · rw [hshows'.scanType_eq, hshows.scanType_eq, htype]
  · intro hsame
    refine hq (hbooked.unique q' y pid x hy hx (by simp [hb']) (by simp [hb]) ?_)
    rw [← hshows'.sessionId_eq, hsame, hshows.sessionId_eq]

/-- A row that says `success` is the row of a run that recorded that end. -/
theorem exists_success {w : World d} (hbooked : Booked w.tables.scanSessions w.runs)
    {r : ScanSessionRow} (hr : r ∈ w.tables.scanSessions)
    (hstatus : r.status = EndStatus.success.text) :
    ∃ pid p s e, w.processes[pid]? = some p ∧ p.phase = .exited (some ⟨s, some e⟩) ∧
      e.status = .success ∧ Shows w.runs pid p.run ⟨s, some e⟩ r := by
  obtain ⟨pid, x, ⟨s, ended⟩, hx, hb, hshows⟩ := hbooked.owner r hr
  obtain ⟨p, hp, rfl⟩ := runs_eq_some.mp hx
  cases ended with
  | none =>
      rcases hshows.unended rfl with ⟨hrunning, -⟩ | ⟨hfailed, -⟩
      · exact absurd (hrunning.symm.trans hstatus) (EndStatus.text_ne_running _).symm
      · exact absurd (hfailed.symm.trans hstatus) (by decide)
  | some e =>
      have hsuccess := EndStatus.text_inj ((hshows.ended e rfl).1.symm.trans hstatus)
      refine ⟨pid, p, s, e, hp, ?_, hsuccess, hshows⟩
      have hbook : p.phase.book? = some ⟨s, some e⟩ := hb
      have hexited := isExited_of_ended hbook rfl
      obtain ⟨job, id, phase⟩ := p
      cases phase with
      | exited book => exact congrArg Phase.exited hb
      | _ => contradiction

/-- **The history tells whether the tables are up to date.**  Let runs of a type
not overlap.  When the last row of an indexer says `success`, the index shows
under the roots of that run what its walk reported, and nothing else.  When the
last row of an aggregator says `success` and it started after every indexer
had ended, the totals are those of the index. -/
theorem tables_fresh {paths : Set Bytes} (hfree : CollisionFree d paths) (hkcore : kcore ∈ paths)
    {db : Db} (hdb : Recorded d paths db.filesystemIndex) {dirStats : DirStats}
    {userStats : Table UserStatsRow.key} {w : World d}
    (hw : Reachable World.step (Careful paths) (World.init db dirStats userStats) w) :
    (∀ r ∈ w.tables.scanSessions, r.scanType = ScanType.indexer.text →
      r.status = EndStatus.success.text → StartedLast w.tables.scanSessions r →
      ∃ p ∈ w.processes, p.sessionId = r.sessionId ∧ ∃ walk, p.job = .indexer walk ∧
        r.filesScanned = walk.entries.length ∧
        ((rowsUnder w.tables.filesystemIndex walk.roots).map IndexRow.entry).Perm
          ((walk.entries.filter fun e => e.1 ≠ kcore).map (rowOf d))) ∧
    ∀ r ∈ w.tables.scanSessions, r.scanType = ScanType.aggregator.text →
      r.status = EndStatus.success.text → StartedLast w.tables.scanSessions r →
      (∀ s, r.startedAt = some s → Quiet w.tables.scanSessions s) →
      Totalled d w.tables r.filesScanned := by
  have hbooked := booked_of_reachable hw
  have hfresh := fresh_of_reachable hfree hkcore hdb hw
  constructor
  · intro r hr htype hstatus hlast
    obtain ⟨pid, p, s, e, hp, hphase, hsuccess, hshows⟩ := exists_success hbooked hr hstatus
    have hrun : w.runs pid = some p.run := runs_eq_some.mpr ⟨p, hp, rfl⟩
    have hb : p.run.book = some ⟨s, some e⟩ := by simp [Process.run, hphase, Phase.book?]
    have hmem := List.mem_of_getElem? hp
    have hl := last_of_startedLast hbooked hrun hb hshows hlast
    cases hjob : p.job with
    | aggregator =>
        have hbad := ScanType.text_inj (htype.symm.trans hshows.scanType_eq)
        simp [Process.run, hjob, Job.scanType] at hbad
    | indexer walk =>
        have hcounted : p.Counted := forall_process (fun job _ => by cases job <;> trivial)
          counted_next hw p hmem
        have hwithin := hfresh.within p hmem
        rw [hjob] at hwithin
        have hreflects := (hfresh.upToDate pid p hp).reflects walk s e hjob hphase hsuccess
          (by simpa [Process.run, hjob, Job.scanType] using hl)
        refine ⟨p, hmem, hshows.sessionId_eq.symm, walk, hjob, ?_, hreflects.perm hfree hwithin⟩
        rw [(hshows.ended e rfl).2.2]
        exact hcounted.files hjob hb rfl hsuccess
  · intro r hr htype hstatus hlast hquiet
    obtain ⟨pid, p, s, e, hp, hphase, hsuccess, hshows⟩ := exists_success hbooked hr hstatus
    have hrun : w.runs pid = some p.run := runs_eq_some.mpr ⟨p, hp, rfl⟩
    have hb : p.run.book = some ⟨s, some e⟩ := by simp [Process.run, hphase, Phase.book?]
    have hl := last_of_startedLast hbooked hrun hb hshows hlast
    cases hjob : p.job with
    | indexer walk =>
        have hbad := ScanType.text_inj (htype.symm.trans hshows.scanType_eq)
        simp [Process.run, hjob, Job.scanType] at hbad
    | aggregator =>
        rw [(hshows.ended e rfl).2.2]
        exact (hfresh.upToDate pid p hp).totalled s e hjob hphase hsuccess
          (by simpa [Process.run, hjob, Job.scanType] using hl) (hquiet s hshows.startedAt_eq)

/-! ### an instance -/

def sampleAggregation : List Move :=
  [.reap false, .measure, .recordStart, .checkWidth, .removeKcore,
    .stream [diskEntry (utf8 "/home".toList, sampleMetadata),
      diskEntry (utf8 "/home/a".toList, fiveBytes)],
    .commit]

/-- The sample walk, then an aggregation. -/
def sampleActions : List (Action kcoreDigest) :=
  [.spawn sampleJob "a".toList] ++ sampleScan.map (.move 0) ++
    [.move 0 (.endSession false), .tick 1, .spawn .aggregator "b".toList] ++
    sampleAggregation.map (.move 1) ++ [.move 1 (.endSession false)]

/-- The history it leaves. -/
def sampleRows : List ScanSessionRow :=
  [⟨"a".toList, ScanType.indexer.text, EndStatus.success.text, some 0, some 0, 2⟩,
    ⟨"b".toList, ScanType.aggregator.text, EndStatus.success.text, some 1, some 1, 2⟩]

theorem exists_sampleRows : ∃ w : World kcoreDigest,
    Reachable World.step (Careful {p | p ∈ fiveBytesPaths}) sampleWorld w ∧
      w.tables.scanSessions.rows = sampleRows := by
  obtain ⟨w, hw, hrows⟩ := exists_reachable World.step
    (fun w a => OneAtATime w a ∧ ∀ e ∈ a.entries, e.1 ∈ fiveBytesPaths) sampleWorld
    (fun w => w.tables.scanSessions.rows = sampleRows) sampleActions (by decide +kernel)
  exact ⟨w, hw.mono fun s a hP => hP, hrows⟩

theorem tables_fresh_home : ∃ w : World kcoreDigest,
    w.tables.scanSessions.rows = sampleRows ∧
      (∃ p ∈ w.processes, p.sessionId = "a".toList ∧ ∃ walk, p.job = .indexer walk ∧
        (2 : Int) = walk.entries.length ∧
        ((rowsUnder w.tables.filesystemIndex walk.roots).map IndexRow.entry).Perm
          ((walk.entries.filter fun e => e.1 ≠ kcore).map (rowOf kcoreDigest))) ∧
      Totalled kcoreDigest w.tables 2 := by
  obtain ⟨w, hw, hrows⟩ := exists_sampleRows
  have hkcore : kcore ∈ {p | p ∈ fiveBytesPaths} := by
    have hmem : kcore ∈ fiveBytesPaths := by decide +kernel
    exact hmem
  have hfresh := tables_fresh pathsInPlay_fiveBytes.free hkcore
    (fun x hx => absurd hx (Table.not_mem_empty x)) hw
  have hmem : ∀ r, r ∈ w.tables.scanSessions ↔ r ∈ sampleRows := by
    intro r
    rw [Table.mem_def, hrows]
  have hlast : ∀ r ∈ sampleRows, StartedLast w.tables.scanSessions r := by
    have hdecided : ∀ r ∈ sampleRows, ∀ r' ∈ sampleRows, r'.scanType = r.scanType → r' = r := by
      decide
    intro r hr r' hr' htype hne
    exact absurd (hdecided r hr r' ((hmem r').mp hr') htype) hne
  refine ⟨w, hrows, ?_, ?_⟩
  · exact hfresh.1 _ ((hmem _).mpr List.mem_cons_self) rfl rfl (hlast _ List.mem_cons_self)
  · refine hfresh.2 _ ((hmem _).mpr (List.mem_cons_of_mem _ List.mem_cons_self)) rfl rfl
      (hlast _ (List.mem_cons_of_mem _ List.mem_cons_self)) fun s hs r hr htype => ?_
    cases hs
    rcases List.mem_cons.mp ((hmem r).mp hr) with rfl | hr
    · exact ⟨0, rfl, by omega⟩
    · rw [List.mem_singleton.mp hr] at htype
      exact absurd htype (by decide)

end Cuttlefish.ScanHistory
