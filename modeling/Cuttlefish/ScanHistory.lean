import Cuttlefish.Aggregator.Scanned
import Cuttlefish.Run
import Cuttlefish.Slots

/-!
# Cuttlefish.ScanHistory

`fs_indexer` and `fs_aggregator` as processes over one database: each run is a
process that takes one statement after the other, processes take turns in any
order, and each of them may die between two statements.

`scan_sessions` is all that outlives a run.  A run writes its row when it
starts, when it reports progress and when it ends, and a starting run closes
the rows of its type that are still `running`.  What a process knows of its
own row is in its phase (`Phase.book?`); `Booking` lists what one move can do
to the table, and everything about the history is derived from it.
-/

namespace Cuttlefish.ScanHistory

/-! ## the table of runs -/

inductive ScanType where
  | indexer
  | aggregator
  deriving DecidableEq, Repr

def ScanType.text : ScanType → Text
  | .indexer => "indexer".toList
  | .aggregator => "aggregator".toList

def running : Text := "running".toList

/-- How a run ends. -/
inductive EndStatus where
  | success
  | failed
  deriving DecidableEq, Repr

def EndStatus.text : EndStatus → Text
  | .success => "success".toList
  | .failed => "failed".toList

theorem ScanType.text_inj : ∀ {a b : ScanType}, a.text = b.text → a = b := by
  intro a b h
  cases a <;> cases b <;> first | rfl | exact absurd h (by decide)

theorem EndStatus.text_inj : ∀ {a b : EndStatus}, a.text = b.text → a = b := by
  intro a b h
  cases a <;> cases b <;> first | rfl | exact absurd h (by decide)

theorem EndStatus.text_ne_running : ∀ s : EndStatus, s.text ≠ running := by
  intro s
  cases s <;> decide

abbrev Sessions := Table ScanSessionRow.sessionId

/-- The row of a run that starts; the other columns are defaults. -/
def startedRow (id : Text) (type : ScanType) (now : Int) : ScanSessionRow :=
  ⟨id, type.text, running, some now, none, 0⟩

/-- `INSERT INTO scan_sessions`; fails when the id is taken. -/
def recordScanStart (t : Sessions) (id : Text) (type : ScanType) (now : Int) : Option Sessions :=
  match t.find? id with
  | some _ => none
  | none => some (t.insertDoNothing (startedRow id type now))

/-- `SET files_scanned = $2`. -/
def withProgress (files : Int) (r : ScanSessionRow) : ScanSessionRow :=
  { r with filesScanned := files }

/-- `SET status = $2, files_scanned = $3, ended_at = CURRENT_TIMESTAMP`. -/
def withEnd (status : EndStatus) (files now : Int) (r : ScanSessionRow) : ScanSessionRow :=
  { r with status := status.text, filesScanned := files, endedAt := some now }

/-- `SET status = 'failed', ended_at = CURRENT_TIMESTAMP`. -/
def reaped (now : Int) (r : ScanSessionRow) : ScanSessionRow :=
  { r with status := EndStatus.failed.text, endedAt := some now }

/-- `UPDATE scan_sessions … WHERE session_id = $1`. -/
def reportScanProgress (t : Sessions) (id : Text) (files : Int) : Sessions :=
  t.update (fun r => r.sessionId = id) (withProgress files) fun _ => rfl

/-- `UPDATE scan_sessions … WHERE session_id = $1`. -/
def endScanSession (t : Sessions) (id : Text) (status : EndStatus) (files now : Int) : Sessions :=
  t.update (fun r => r.sessionId = id) (withEnd status files now) fun _ => rfl

/-- A row the reaper of this type takes for orphaned. -/
def isStale (type : ScanType) (r : ScanSessionRow) : Bool :=
  r.scanType = type.text && r.status = running

/-- `UPDATE scan_sessions … WHERE scan_type = $1 AND status = 'running'`. -/
def reapStaleScanSessions (t : Sessions) (type : ScanType) (now : Int) : Sessions :=
  t.update (isStale type) (reaped now) fun _ => rfl

/-! ## the other tables -/

/-- The database both programs write. -/
structure Tables extends Db where
  dirStats : DirStats
  userStats : Table UserStatsRow.key
  scanSessions : Sessions

/-! ## processes -/

variable {d : Digest}

/-- What the walker of a run hands to its consumer, in the order the threads
deliver it. -/
structure Walk (d : Digest) where
  config : IndexerConfig
  roots : List Bytes
  accepted : config.roots = .ok roots
  host : Host
  entries : List (Bytes × Metadata)
  covered : ∀ e ∈ entries, CoveredBy roots e.1
  nodup : (entries.map Prod.fst).Nodup

/-- The walk of a file system. -/
def Walk.ofTree (run : TreeRun d) : Walk d where
  config := run.config
  roots := run.roots
  accepted := run.accepted
  host := run.host
  entries := run.toScanRun.entries
  covered := run.toScanRun.covered
  nodup := run.toScanRun.nodup

inductive Job (d : Digest) where
  | indexer (walk : Walk d)
  | aggregator

def Job.scanType : Job d → ScanType
  | .indexer _ => .indexer
  | .aggregator => .aggregator

/-- What the consumer holds between two records. -/
structure Intake where
  totalProcessed : Nat := 0
  batch : List FileRecord := []
  seenHashes : List Bytes := []
  insertFailed : Bool := false

/-- Where a recorded run stands.  `walked` is behind the gate that protects the
cleanup; `streamed` holds the snapshot the transaction read; `ending` is in
front of `end_scan_session`. -/
inductive Stage where
  | consuming (c : Intake)
  | walked (c : Intake)
  | resolved (c : Intake)
  | cleaned (c : Intake)
  | aggregating
  | checked
  | trimmed
  | streamed (stream : List IndexEntry)
  | ending (status : EndStatus) (files : Int)

/-- The end a run recorded. -/
structure Ended where
  status : EndStatus
  files : Int
  time : Int
  deriving DecidableEq, Repr

/-- What a run wrote into its row: when it started, and its end. -/
structure Book where
  startedAt : Int
  ended : Option Ended := none
  deriving DecidableEq, Repr

/-- `starting` is in front of the reaper, `prepared` in front of
`record_scan_start`; `outdated` has found hashes of another width and is in
front of the TRUNCATE. -/
inductive Phase where
  | starting
  | swept
  | outdated
  | prepared
  | recorded (startedAt : Int) (stage : Stage)
  | exited (book : Option Book)

structure Process (d : Digest) where
  job : Job d
  sessionId : Text
  phase : Phase

def Phase.book? : Phase → Option Book
  | .recorded startedAt _ => some ⟨startedAt, none⟩
  | .exited book => book
  | _ => none

/-- The process is gone. -/
def Phase.isExited : Phase → Bool
  | .exited _ => true
  | _ => false

/-! ## moves -/

/-- One statement of a run, with what fails in it; `crash` is also an error
that ends the process before it has recorded anything. -/
inductive Move where
  | reap (fails : Bool)
  | measure
  | truncate
  | recordStart
  | receive (fails reports : Bool)
  | close (panics fails : Bool)
  | resolve (fault : Option IdentityFault)
  | cleanup (fails : Bool)
  | createIndexes (fails : Bool)
  | checkWidth
  | removeKcore
  | stream (rows : List IndexEntry)
  | commit
  | giveUp
  | endSession (fails : Bool)
  | crash

/-- The consumer over the index as it is now. -/
def Intake.consumer (c : Intake) (index : Index) : Consumer where
  db := ⟨index, [], c.seenHashes⟩
  batch := c.batch
  totalProcessed := c.totalProcessed
  insertFailed := c.insertFailed

/-- What a consumer leaves for the next record. -/
def Intake.of (c : Consumer) : Intake :=
  ⟨c.totalProcessed, c.batch, c.db.seenHashes, c.insertFailed⟩

/-- The consumer once the channel is closed and the last batch is flushed. -/
def Intake.drain (fails : Bool) (c : Intake) (index : Index) : Consumer :=
  if c.batch = [] then c.consumer index else (c.consumer index).flush fun _ => fails

/-- The index hashes are as wide as this binary's. -/
def widthFits (index : Index) : Bool :=
  match storedPathHashLen index with
  | some n => n = pathHashLen
  | none => true

/-- Does the run clear the index before its row is written? -/
def Job.mustClear : Job d → Index → Bool
  | .indexer _, index => !widthFits index
  | .aggregator, _ => false

def Job.firstStage : Job d → Stage
  | .indexer _ => .consuming {}
  | .aggregator => .aggregating

/-- What `fs_indexer` does once its row is written. -/
def Walk.next (walk : Walk d) (id : Text) (t : Tables) : Stage → Move → Option (Tables × Stage)
  | .consuming c, .receive fails reports =>
      walk.entries[c.totalProcessed]?.map fun e =>
        let k := (c.consumer t.filesystemIndex).receive (fun _ => fails) (fileRecord d e.1 e.2)
        ({ t with
            filesystemIndex := k.db.index
            scanSessions :=
              if reports then reportScanProgress t.scanSessions id k.totalProcessed
              else t.scanSessions },
          .consuming (Intake.of k))
  | .consuming c, .close panics fails =>
      if panics = false ∧ c.totalProcessed < walk.entries.length then none
      else
        let k := c.drain fails t.filesystemIndex
        some ({ t with filesystemIndex := k.db.index },
          if panics || k.insertFailed then .ending .failed k.totalProcessed
          else .walked (Intake.of k))
  | .walked c, .resolve none =>
      some ({ t with identity := resolveIdentities walk.host t.filesystemIndex t.identity },
        .resolved c)
  | .walked c, .resolve (some fault) =>
      some ({ t with
          identity := resolveIdentitiesFailing walk.host t.filesystemIndex t.identity fault },
        .ending .failed c.totalProcessed)
  | .resolved c, .cleanup fails =>
      if fails then some (t, .ending .failed c.totalProcessed)
      else
        some ({ t with
            filesystemIndex := cleanupStaleEntries t.filesystemIndex c.seenHashes walk.roots },
          .cleaned c)
  | .cleaned c, .createIndexes fails =>
      some (t, .ending (if fails then .failed else .success) c.totalProcessed)
  | _, _ => none

/-- What `run_aggregation` does, and how `main` takes its result; COPY fails on
a key that is there twice. -/
def aggregatorNext (d : Digest) (t : Tables) : Stage → Move → Option (Tables × Stage)
  | .aggregating, .checkWidth =>
      some (t, if widthFits t.filesystemIndex then .checked else .ending .failed 0)
  | .checked, .removeKcore =>
      some ({ t with filesystemIndex := removeKcore d t.filesystemIndex }, .trimmed)
  | .trimmed, .stream rows =>
      if rows.isPerm (indexEntries t.filesystemIndex) then some (t, .streamed rows) else none
  | .streamed rows, .commit =>
      if h : ((dirStatsRows d rows).map DirStatsRow.pathHash).Nodup ∧
          ((userStatsRows rows).map UserStatsRow.key).Nodup then
        some ({ t with
            dirStats := ⟨dirStatsRows d rows, h.1⟩, userStats := ⟨userStatsRows rows, h.2⟩ },
          .ending .success rows.length)
      else some (t, .ending .failed 0)
  | .ending _ _, _ => none
  | _, .giveUp => some (t, .ending .failed 0)
  | _, _ => none

def Job.next (job : Job d) (id : Text) (t : Tables) : Stage → Move → Option (Tables × Stage) :=
  match job with
  | .indexer walk => walk.next id t
  | .aggregator => aggregatorNext d t

/-- One move of a process. -/
def Process.next (p : Process d) (now : Int) (t : Tables) (m : Move) : Option (Tables × Phase) :=
  match p.phase, m with
  | .exited _, _ => none
  | phase, .crash => some (t, .exited phase.book?)
  | .starting, .reap fails =>
      some (if fails then t
        else { t with
          scanSessions := reapStaleScanSessions t.scanSessions p.job.scanType now },
        .swept)
  | .swept, .measure =>
      some (t, if p.job.mustClear t.filesystemIndex then .outdated else .prepared)
  | .outdated, .truncate => some ({ t with filesystemIndex := Table.empty }, .prepared)
  | .prepared, .recordStart =>
      (recordScanStart t.scanSessions p.sessionId p.job.scanType now).map fun sessions =>
        ({ t with scanSessions := sessions }, .recorded now p.job.firstStage)
  | .recorded startedAt (.ending status files), .endSession fails =>
      some (if fails then (t, .exited (some ⟨startedAt, none⟩))
        else
          ({ t with scanSessions := endScanSession t.scanSessions p.sessionId status files now },
            .exited (some ⟨startedAt, some ⟨status, files, now⟩⟩)))
  | .recorded startedAt stage, m =>
      (p.job.next p.sessionId t stage m).map fun r => (r.1, .recorded startedAt r.2)
  | _, _ => none

/-! ## the whole system -/

structure World (d : Digest) where
  tables : Tables
  clock : Int
  processes : List (Process d)

inductive Action (d : Digest) where
  | spawn (job : Job d) (sessionId : Text)
  | move (pid : Nat) (m : Move)
  | tick (n : Nat)

/-- The database before the first run; the index may hold anything. -/
def World.init (db : Db) (dirStats : DirStats) (userStats : Table UserStatsRow.key) : World d where
  tables := ⟨db, dirStats, userStats, Table.empty⟩
  clock := 0
  processes := []

def World.step (w : World d) : Action d → Option (World d)
  | .spawn job id => some { w with processes := w.processes ++ [⟨job, id, .starting⟩] }
  | .move pid m =>
      (w.processes[pid]?).bind fun p =>
        (p.next w.clock w.tables m).map fun r =>
          { w with tables := r.1, processes := w.processes.set pid { p with phase := r.2 } }
  | .tick n => some { w with clock := w.clock + n }

/-! ## an instance -/

/-- The moves of an indexer over two entries up to its cleanup. -/
def sampleScan : List Move :=
  [.reap false, .measure, .recordStart, .receive false false, .receive false true,
    .close false false, .resolve none, .cleanup false, .createIndexes false]

def sampleWorld : World kcoreDigest :=
  World.init ⟨Table.empty, ⟨Table.empty, Table.empty⟩⟩ Table.empty Table.empty

def sampleJob : Job kcoreDigest := .indexer (.ofTree fiveBytesRun)

end Cuttlefish.ScanHistory
