import Cuttlefish.Aggregator.Tables
import Cuttlefish.Handlers.Stats
import Cuttlefish.Indexer.Parents
import Cuttlefish.ScanRoot.Clean
import Cuttlefish.Search.Columns
import Cuttlefish.Search.Size

/-!
# Cuttlefish.Owners

The owner and the group of a file, from `stat` to the API.

The walker has them as `u32`, the tables store them `as i32`, Go reads signed
numbers, and a search compares with what the rule spells.  Only
`resolve_identities` casts back.  `ownersKept_iff` says which ids survive: the
ones below `2 ^ 31`.
-/

namespace Cuttlefish

open Sql

/-! ## the cast -/

theorem asI32_eq (id : UInt32) :
    asI32 id = if id.toNat < 2 ^ 31 then (id.toNat : Int) else id.toNat - 2 ^ 32 := by
  have hcond : 2 * id.toNat < 2 ^ 32 ↔ id.toNat < 2 ^ 31 := by omega
  change id.toBitVec.toInt = _
  rw [BitVec.toInt_eq_toNat_cond]
  simp only [UInt32.toNat_toBitVec, hcond]
  rfl

/-- The cast keeps the ids below `2 ^ 31` and no others. -/
theorem asI32_eq_toNat_iff {id : UInt32} : asI32 id = id.toNat ↔ id.toNat < 2 ^ 31 := by
  rw [asI32_eq]
  split_ifs <;> omega

/-- No other id is stored as a small one. -/
theorem asI32_eq_iff {id : UInt32} {n : Nat} (hn : n < 2 ^ 31) : asI32 id = n ↔ id.toNat = n := by
  have hlt := id.toNat_lt
  rw [asI32_eq]
  split_ifs <;> omega

/-- `resolve_identities` gets the id back. -/
theorem asU32_asI32 (id : UInt32) : asU32 (asI32 id) = id := by
  rw [asU32, asI32, Int32.ofInt_toInt, UInt32.toUInt32_toInt32]

/-! ## owners -/

/-- The owner or the group, as `stat` reports it. -/
def Metadata.owner (md : Metadata) : IdType → UInt32
  | .uid => md.uid
  | .gid => md.gid

/-- The column of a row. -/
def IndexRow.owner (x : IndexRow) : IdType → Int
  | .uid => x.uid
  | .gid => x.gid

/-- What the API shows. -/
def FileInfo.owner (f : FileInfo) : IdType → Int
  | .uid => f.uid
  | .gid => f.gid

def FileInfo.ownerName (f : FileInfo) : IdType → Text
  | .uid => f.user
  | .gid => f.group

/-- `uid equals …`, `gid equals …`. -/
def ownerRule (t : IdType) (id : Nat) : SearchRule where
  field := match t with
    | .uid => "uid".toList
    | .gid => "gid".toList
  operator := "equals".toList
  value := Nat.toDigits 10 id
  connector := []
  negate := false

/-! ## what was scanned -/

/-- What the walker stats: a path below an accepted root, along names that
reading a directory returns, and a size that an `off_t` holds. -/
def Statted (e : Bytes × Metadata) : Prop :=
  (∃ raw root names, normalizeScanRoot raw = .ok root ∧
    (∀ name ∈ names, FileName.bytes name ≠ dot ∧ name.bytes ≠ dotdot) ∧
    e.1 = joinNames root names) ∧ e.2.len.toNat < 2 ^ 63

theorem Statted.canonical {e : Bytes × Metadata} (h : Statted e) : Canonical e.1 := by
  obtain ⟨⟨raw, root, names, hroot, hnames, hpath⟩, _⟩ := h
  exact hpath ▸ canonical_joinNames (canonical_of_normalizeScanRoot hroot) hnames

/-- The tables, and what the last batch that held a path said of it. -/
structure Census where
  db : ScanDb
  stat : Bytes → Option Metadata

def Census.init : Census := ⟨ScanDb.init, fun _ => none⟩

/-- The newest metadata of a path. -/
def statAfter (stat : Bytes → Option Metadata) : IndexAction → Bytes → Option Metadata
  | .batch entries false => fun path => (entries.lookup path).or (stat path)
  | _ => stat

def Census.next (d : Digest) (c : Census) (a : IndexAction) : Option Census :=
  (c.db.next d a).map fun db => ⟨db, statAfter c.stat a⟩

/-- Batches hold what was statted, each path once. -/
def FromStat (paths : Set Bytes) (_ : Census) : IndexAction → Prop
  | .batch entries _ =>
      (entries.map Prod.fst).Nodup ∧ ∀ e ∈ entries, Statted e ∧ e.1 ∈ paths
  | _ => True

/-- Every row is the record of the newest metadata of its path. -/
structure Census.Faithful (d : Digest) (paths : Set Bytes) (c : Census) : Prop where
  staging : c.db.stagingIndex = []
  rows : ∀ x ∈ c.db.index, x.raw ∈ paths ∧ ∃ md, c.stat x.raw = some md ∧
    Statted (x.raw, md) ∧ x.entry = (fileRecord d x.raw md).toRow

section Scan

variable {d : Digest} {paths : Set Bytes}

theorem wf_of_entry_eq {x : IndexRow} {md : Metadata} (habs : [slash] <+: x.raw)
    (h : x.entry = (fileRecord d x.raw md).toRow) : x.Wf d where
  absolute := habs
  pathHash_eq := by
    rw [← pathHash_entry, h]
    rfl
  path_eq := by
    rw [← path_entry, h]
    rfl

theorem Census.Faithful.wf {c : Census} (h : c.Faithful d paths) {x : IndexRow}
    (hx : x ∈ c.db.index) : x.Wf d ∧ x.raw ∈ paths := by
  obtain ⟨hpath, md, _, hstatted, hentry⟩ := h.rows x hx
  exact ⟨wf_of_entry_eq hstatted.canonical.1 hentry, hpath⟩

/-- Deleting rows, and dropping the temporary tables. -/
theorem Census.Faithful.subset {c c' : Census} (h : c.Faithful d paths)
    (hstaging : c'.db.stagingIndex = []) (hstat : c'.stat = c.stat)
    (hindex : ∀ x ∈ c'.db.index, x ∈ c.db.index) : c'.Faithful d paths where
  staging := hstaging
  rows x hx := hstat ▸ h.rows x (hindex x hx)

theorem lookup_eq_some_of_mem {entries : List (Bytes × Metadata)} {e : Bytes × Metadata}
    (hnodup : (entries.map Prod.fst).Nodup) (he : e ∈ entries) :
    entries.lookup e.1 = some e.2 := by
  induction entries with
  | nil => exact absurd he List.not_mem_nil
  | cons e' entries ih =>
      obtain ⟨path, md⟩ := e'
      rw [List.map_cons, List.nodup_cons] at hnodup
      cases List.mem_cons.mp he with
      | inl heq =>
          subst heq
          exact List.lookup_cons_self
      | inr hrest =>
          have hne : e.1 ≠ path := fun h => hnodup.1 (List.mem_map.mpr ⟨e, hrest, h⟩)
          rw [List.lookup_cons, beq_false_of_ne hne]
          exact ih hnodup.2 hrest

/-- Different paths are staged under different hashes. -/
theorem nodup_pathHash_batch (hfree : CollisionFree d paths) {entries : List (Bytes × Metadata)}
    (hnodup : (entries.map Prod.fst).Nodup) (hpaths : ∀ e ∈ entries, e.1 ∈ paths) :
    ((entries.map fun e => (fileRecord d e.1 e.2).toRow).map IndexRow.pathHash).Nodup := by
  have hhashes : ((entries.map Prod.fst).map (computeHashBytes d)).Nodup := by
    refine List.Nodup.map_on (fun p hp q hq heq => ?_) hnodup
    obtain ⟨e, he, rfl⟩ := List.mem_map.mp hp
    obtain ⟨e', he', rfl⟩ := List.mem_map.mp hq
    exact hfree (hpaths e he) (hpaths e' he') heq
  rw [List.map_map] at hhashes ⊢
  exact hhashes

/-- **A committed batch** replaces what it mentions. -/
theorem Census.Faithful.batch {c : Census} (hfree : CollisionFree d paths)
    (h : c.Faithful d paths) {entries : List (Bytes × Metadata)}
    (hnodup : (entries.map Prod.fst).Nodup)
    (hentries : ∀ e ∈ entries, Statted e ∧ e.1 ∈ paths) :
    Census.Faithful d paths
      ⟨insertBatch c.db (entries.map fun e => fileRecord d e.1 e.2),
        statAfter c.stat (.batch entries false)⟩ := by
  have hhashes := nodup_pathHash_batch hfree hnodup fun e he => (hentries e he).2
  have hperm := distinctStaged_perm hhashes
  have hstaged : ∀ r ∈ distinctStaged (entries.map fun e => (fileRecord d e.1 e.2).toRow),
      ∃ e ∈ entries, (fileRecord d e.1 e.2).toRow = r := fun r hr =>
    List.mem_map.mp (hperm.subset hr)
  have hrecorded : ∀ r ∈ distinctStaged (entries.map fun e => (fileRecord d e.1 e.2).toRow),
      r.Wf d ∧ r.raw ∈ paths := by
    intro r hr
    obtain ⟨e, he, rfl⟩ := hstaged r hr
    exact ⟨wf_toRow e.2 (hentries e he).1.canonical.1, by rw [raw_toRow]; exact (hentries e he).2⟩
  refine ⟨rfl, fun x hx => ?_⟩
  rw [insertBatch_index _ h.staging, List.map_map] at hx
  cases (mem_afterBatches hfree (fun x hx => h.wf hx) hrecorded
    ((hperm.map _).nodup_iff.mpr hhashes)).1 x hx with
  | inl hold =>
      obtain ⟨hx, hno⟩ := hold
      obtain ⟨hpath, md, hstat, hrest⟩ := h.rows x hx
      refine ⟨hpath, md, ?_, hrest⟩
      have hlookup : entries.lookup x.raw = none := by
        rw [List.lookup_eq_none_iff]
        intro e he
        have hmem : (fileRecord d e.1 e.2).toRow ∈
            distinctStaged (entries.map fun e => (fileRecord d e.1 e.2).toRow) :=
          hperm.symm.subset (List.mem_map_of_mem he)
        have hne := hno _ hmem
        rw [raw_toRow] at hne
        exact bne_iff_ne.mpr hne.symm
      simp only [statAfter, hlookup, Option.none_or, hstat]
  | inr hnew =>
      obtain ⟨r, hr, hentry⟩ := hnew
      obtain ⟨e, he, rfl⟩ := hstaged r hr
      have hraw : x.raw = e.1 := by rw [← raw_entry, hentry, raw_entry, raw_toRow]
      refine ⟨hraw ▸ (hentries e he).2, e.2, ?_, hraw ▸ (hentries e he).1, ?_⟩
      · simp only [statAfter, hraw, lookup_eq_some_of_mem hnodup he, Option.some_or]
      · rw [hentry, hraw]
        rfl

/-- **What the index says is what was statted last**, after any batches,
failures and cleanups. -/
theorem faithful_of_reachable (hfree : CollisionFree d paths) {c : Census}
    (h : Reachable (Census.next d) (FromStat paths) Census.init c) : c.Faithful d paths := by
  refine h.invariant (Census.Faithful d paths)
    ⟨rfl, fun x hx => absurd hx (Table.not_mem_empty x)⟩ ?_
  intro c a c' _ hinv hstat hnext
  cases a with
  | startRun =>
      cases hnext
      exact hinv.subset rfl rfl fun x hx => mem_of_mem_migrate hx
  | batch entries fails =>
      cases hnext
      cases fails with
      | true => exact hinv
      | false => exact hinv.batch hfree hstat.1 hstat.2
  | cleanup roots =>
      cases hnext
      exact hinv.subset hinv.staging rfl fun x hx => mem_of_mem_cleanup hx
  | removeKcore =>
      cases hnext
      exact hinv.subset hinv.staging rfl fun x hx => (Table.mem_deleteWhere.mp hx).1

end Scan

/-! ## what the API shows -/

/-- `f` is the entry of `x`, with aggregates or without. -/
def ApiDb.Shows (db : ApiDb) (x : IndexRow) (f : FileInfo) : Prop :=
  f.withAggregates none = (db.entryRow x).info

theorem shows_of_scanRow {db : ApiDb} {x : IndexRow} {r : EntryRow} {includeStats : Bool}
    {f : FileInfo} (hrow : r = db.entryRow x ∨ r = db.statsRow x)
    (h : scanRow includeStats r = some f) : db.Shows x f := by
  have hinfo : r.info = (db.entryRow x).info := by
    cases hrow with
    | inl hentry => rw [hentry]
    | inr hstats =>
        rw [hstats]
        rfl
  rw [scanRow, hinfo] at h
  split_ifs at h
  · obtain ⟨a, _, rfl⟩ := Option.map_eq_some_iff.mp h
    rfl
  · cases h
    rfl

theorem exists_row_of_query {db : ApiDb} {includeStats : Bool} {r : EntryRow}
    (h : r ∈ if includeStats then fromEntriesWithStats db else fromEntries db) :
    ∃ x ∈ db.filesystemIndex, r = db.entryRow x ∨ r = db.statsRow x := by
  split_ifs at h
  · rw [fromEntriesWithStats_eq] at h
    obtain ⟨x, hx, rfl⟩ := List.mem_map.mp h
    exact ⟨x, hx, Or.inr rfl⟩
  · rw [fromEntries_eq] at h
    obtain ⟨x, hx, rfl⟩ := List.mem_map.mp h
    exact ⟨x, hx, Or.inl rfl⟩

/-- **A listing** shows rows of the index. -/
theorem shows_of_listDirectory {d : Digest} {db : ApiDb} {a : Access} {path : Bytes}
    {includeStats : Bool} {rows : List EntryRow} {files : List FileInfo}
    (hrows : rows ⊆ childrenQuery d db path includeStats)
    (h : listDirectory d db a path includeStats rows = .ok files) {f : FileInfo} (hf : f ∈ files) :
    ∃ x ∈ db.filesystemIndex, db.Shows x f := by
  rw [files_of_listDirectory h] at hf
  obtain ⟨r, hr, hscan⟩ := List.mem_filterMap.mp hf
  obtain ⟨x, hx, hrow⟩ := exists_row_of_query (List.mem_filter.mp (hrows hr)).1
  exact ⟨x, hx, shows_of_scanRow hrow hscan⟩

/-- **The metadata of a directory** is a row of the index. -/
theorem shows_of_getDirStats {d : Digest} {db : ApiDb} {a : Access} {path : Bytes}
    {includeStats : Bool} {f : FileInfo} (h : getDirStats d db a path includeStats = .ok f) :
    ∃ x ∈ db.filesystemIndex, db.Shows x f := by
  unfold getDirStats at h
  cases hfind : (fromEntries db).find? fun r => r.file.pathHash = pathHash d path with
  | none =>
      rw [hfind] at h
      split_ifs at h
  | some r =>
      have hr := List.mem_of_find?_eq_some hfind
      rw [fromEntries_eq] at hr
      obtain ⟨x, hx, rfl⟩ := List.mem_map.mp hr
      rw [hfind] at h
      dsimp only at h
      split_ifs at h <;> cases h <;> exact ⟨x, hx, rfl⟩

/-- **A search** shows rows of the index. -/
theorem shows_of_response {db : ApiDb} {req : SearchRequest} {page : List EntryRow}
    {stats : List DirStatsRow} (hpage : page ⊆ db.searchRows req) {f : FileInfo}
    (hf : f ∈ req.response page stats) : ∃ x ∈ db.filesystemIndex, db.Shows x f := by
  have hbare : f.withAggregates none ∈
      (page.filterMap (scanRow req.needsDirStats)).map (·.withAggregates none) := by
    rw [← map_withAggregates_response req page stats]
    exact List.mem_map_of_mem hf
  obtain ⟨g, hg, heq⟩ := List.mem_map.mp hbare
  obtain ⟨r, hr, hscan⟩ := List.mem_filterMap.mp hg
  obtain ⟨x, hx, hrow⟩ := exists_row_of_query (hpage hr)
  exact ⟨x, hx, heq.symm.trans (shows_of_scanRow hrow hscan)⟩

theorem ApiDb.Shows.owner {db : ApiDb} {x : IndexRow} {f : FileInfo} (h : db.Shows x f)
    (t : IdType) : f.owner t = x.owner t := by
  cases t with
  | uid => exact congrArg FileInfo.uid h
  | gid => exact congrArg FileInfo.gid h

/-- Without a name, the owner is shown by number. -/
theorem ApiDb.Shows.ownerName {db : ApiDb} {x : IndexRow} {f : FileInfo} (h : db.Shows x f)
    {t : IdType} (hname : db.identity.identityMap.find? (x.owner t, t) = none) :
    f.ownerName t = intText (x.owner t) := by
  cases t with
  | uid =>
      have huser : (f.withAggregates none).user = (db.entryRow x).info.user :=
        congrArg FileInfo.user h
      have hfind : db.identity.identityMap.find? (x.uid, .uid) = none := hname
      exact huser.trans (by simp [EntryRow.info, ApiDb.entryRow, hfind, IndexRow.owner])
  | gid =>
      have hgroup : (f.withAggregates none).group = (db.entryRow x).info.group :=
        congrArg FileInfo.group h
      have hfind : db.identity.identityMap.find? (x.gid, .gid) = none := hname
      exact hgroup.trans (by simp [EntryRow.info, ApiDb.entryRow, hfind, IndexRow.owner])

/-! ## owners that survive -/

/-- Was the owner last statted `id`? -/
def ownedBy (stat : Bytes → Option Metadata) (t : IdType) (id : Nat) (x : IndexRow) : Bool :=
  (stat x.raw).any fun md => (md.owner t).toNat = id

/-- The counted files of an owner. -/
def filesOf (db : ListDb) (stat : Bytes → Option Metadata) (t : IdType) (id : Nat) :
    List IndexEntry :=
  ((db.filesystemIndex.rows.filter IndexRow.counted).filter (ownedBy stat t id)).map
    IndexRow.indexEntry

/-- The id of a file's owner is the same everywhere: in the entries, in the
name that stands in for a missing one, in `user_stats`, and in a search. -/
structure OwnerKept (db : ListDb) (stat : Bytes → Option Metadata) (x : IndexRow) (t : IdType)
    (id : Nat) : Prop where
  shown : ∀ f, db.Shows x f → f.owner t = id
  named : ∀ f, db.Shows x f → db.identity.identityMap.find? (x.owner t, t) = none →
    f.ownerName t = Nat.toDigits 10 id
  charged : x.counted = true → x.indexEntry ∈ filesOf db stat t id ∧
    db.userStats.find? (t, (id : Int)) = some (ownerRow (t, (id : Int))
      (cappedSize (filesOf db stat t id), (filesOf db stat t id).length))
  found : ∀ float, ∃ clause args, buildSearchWhere float [ownerRule t id] = .ok (clause, args) ∧
    bindError clause args = none ∧
    ∀ m, ∀ y ∈ db.filesystemIndex,
      selects m (db.entryRow y).column clause args = true ↔ ownedBy stat t id y = true

/-- The columns of a record. -/
theorem owner_eq_asI32 {d : Digest} {x : IndexRow} {md : Metadata}
    (h : x.entry = (fileRecord d x.raw md).toRow) (t : IdType) :
    x.owner t = asI32 (md.owner t) := by
  cases t with
  | uid => exact congrArg IndexRow.uid h
  | gid => exact congrArg IndexRow.gid h

/-- The host is asked about the id that was statted. -/
theorem asU32_owner {d : Digest} {x : IndexRow} {md : Metadata}
    (h : x.entry = (fileRecord d x.raw md).toRow) (t : IdType) :
    asU32 (x.owner t) = md.owner t := by
  rw [owner_eq_asI32 h t, asU32_asI32]

theorem size_eq_toInt64 {d : Digest} {x : IndexRow} {md : Metadata}
    (h : x.entry = (fileRecord d x.raw md).toRow) :
    x.sizeBytes = md.len.toInt64.toInt := congrArg IndexRow.sizeBytes h

theorem toInt_toInt64 {n : UInt64} (h : n.toNat < 2 ^ 63) : n.toInt64.toInt = n.toNat := by
  change n.toBitVec.toInt = _
  rw [BitVec.toInt_eq_toNat_cond, if_pos]
  · rfl
  · rw [UInt64.toNat_toBitVec]
    omega

/-- The column a rule about owners compares. -/
def ownerColumn : IdType → Text
  | .uid => "f.uid".toList
  | .gid => "f.gid".toList

theorem column_ownerColumn (r : EntryRow) (t : IdType) :
    r.column (ownerColumn t) = .int (r.file.owner t) := by
  cases t <;> rfl

/-- The rule compares the column with the number it spells. -/
theorem ownerRule_bound (float : Float64) (t : IdType) {id : Nat} (hid : id < 2 ^ 31) :
    (ownerRule t id).bound float = some (ownerColumn t, .eq, .int id) := by
  have hnumber : parseInt64 (trimSpace (ownerRule t id).value) = some (id : Int) := by
    change parseInt64 (trimSpace (Nat.toDigits 10 id)) = _
    rw [trimSpace_toDigits, parseInt64_numeral (isNumeral_toDigits id), numeralValue_toDigits,
      if_pos (by omega)]
  have hop : numericOp (ownerRule t id).operator = some .eq := by
    change numericOp "equals".toList = _
    decide
  have hfield : searchFields.lookup (ownerRule t id).field =
      some ⟨ownerColumn t, true, false⟩ := by
    cases t <;> rfl
  rw [SearchRule.bound, hfield, Option.bind_some, boundCondition, if_pos rfl,
    if_neg Bool.false_ne_true, hnumber, Option.bind_some, hop]
  rfl

/-- **Searching for an owner** whose id is small finds the rows whose column
holds it, and the server does not refuse. -/
theorem selects_ownerRule (float : Float64) (t : IdType) {id : Nat} (hid : id < 2 ^ 31) :
    ∃ clause args, buildSearchWhere float [ownerRule t id] = .ok (clause, args) ∧
      bindError clause args = none ∧
      ∀ m, ∀ r : EntryRow, selects m r.column clause args = true ↔ r.file.owner t = id := by
  have hbound := ownerRule_bound float t hid
  have haccepted : ((ownerRule t id).bound float).isSome = true := by
    rw [hbound]
    rfl
  obtain ⟨⟨clause, args⟩, hbuild⟩ := exists_buildSearchWhere_singleton (ownerRule t id) haccepted
  have hfits : ColumnFits (ownerColumn t) (.int id) := by
    have hint : FitsInt32 (id : Int) := by
      unfold FitsInt32
      omega
    cases t <;> exact fun type htype => by cases htype; exact hint
  refine ⟨clause, args, hbuild, ?_, fun m r => ?_⟩
  · rw [bindError_eq_none, argumentsFit_iff_boundFits hbuild]
    intro rule hrule column op v h
    rw [List.mem_singleton.mp hrule, hbound] at h
    cases h
    exact hfits
  · rw [selects_iff_rulesHold (by simp) hbuild, rulesHold_singleton, SearchRule.Holds,
      SearchRule.comparison, hbound, Option.bind_some]
    simp [ownerRule, column_ownerColumn, CmpOp.apply]

/-! ## which owners survive -/

section Kept

variable {d : Digest} {paths : Set Bytes} {c : Census} {db : ListDb}
  (hfaithful : c.Faithful d paths) (hindex : db.filesystemIndex = c.db.index)
include hfaithful hindex

/-- The rows whose column holds a small id are the files of that owner. -/
theorem owner_eq_iff_ownedBy {x : IndexRow} (hx : x ∈ db.filesystemIndex) (t : IdType) {id : Nat}
    (hid : id < 2 ^ 31) : x.owner t = id ↔ ownedBy c.stat t id x = true := by
  obtain ⟨_, md, hstat, _, hentry⟩ := hfaithful.rows x (hindex ▸ hx)
  rw [owner_eq_asI32 hentry t, asI32_eq_iff hid, ownedBy, hstat, Option.any_some,
    decide_eq_true_eq]

theorem filter_owner_eq (t : IdType) {id : Nat} (hid : id < 2 ^ 31) :
    (indexEntries db.filesystemIndex).filter (fun r => r.owner t = (id : Int)) =
      filesOf db c.stat t id := by
  have howner (x : IndexRow) : x.indexEntry.owner t = x.owner t := by
    cases t <;> rfl
  rw [indexEntries, filesOf, List.filter_map]
  congr 1
  refine List.filter_congr fun x hx => ?_
  rw [Function.comp_apply, howner, Bool.eq_iff_iff, decide_eq_true_eq]
  exact owner_eq_iff_ownedBy hfaithful hindex (List.mem_filter.mp hx).1 t hid

theorem wf_indexEntries : ∀ r ∈ indexEntries db.filesystemIndex, r.Wf := by
  intro r hr
  obtain ⟨x, hx, _, rfl⟩ := mem_indexEntries.mp hr
  obtain ⟨_, md, _, hstatted, hentry⟩ := hfaithful.rows x (hindex ▸ hx)
  have hsize : x.sizeBytes = md.len.toNat := by
    rw [size_eq_toInt64 hentry, toInt_toInt64 hstatted.2]
  have hlen : md.len.toNat < 2 ^ 63 := hstatted.2
  refine ⟨hstatted.canonical, ?_, ?_⟩
  · change 0 ≤ x.sizeBytes
    omega
  · change x.sizeBytes ≤ i64Max
    rw [i64Max]
    omega

/-- A small id is kept. -/
theorem ownerKept_of_lt (hagg : RunAggregation d db.filesystemIndex db.dirStats db.userStats)
    {x : IndexRow} (hx : x ∈ db.filesystemIndex) (t : IdType) {id : Nat} (hid : id < 2 ^ 31)
    (howned : ownedBy c.stat t id x = true) : OwnerKept db c.stat x t id where
  shown f hf := by
    rw [hf.owner t]
    exact (owner_eq_iff_ownedBy hfaithful hindex hx t hid).mpr howned
  named f hf hname := by
    rw [hf.ownerName hname, (owner_eq_iff_ownedBy hfaithful hindex hx t hid).mpr howned, intText,
      if_neg (by omega), Int.natAbs_natCast]
  charged hcounted := by
    have hmem : x.indexEntry ∈ filesOf db c.stat t id := by
      refine List.mem_map_of_mem (List.mem_filter.mpr ⟨?_, howned⟩)
      exact List.mem_filter.mpr ⟨hx, hcounted⟩
    refine ⟨hmem, ?_⟩
    have hwf := wf_indexEntries hfaithful hindex
    rw [hagg.find?_userStats hwf, userAggregates_spec hwf]
    dsimp only
    rw [filter_owner_eq hfaithful hindex t hid, if_neg (List.ne_nil_of_mem hmem), Option.map_some]
  found float := by
    obtain ⟨clause, args, hbuild, hbind, hselects⟩ := selects_ownerRule float t hid
    refine ⟨clause, args, hbuild, hbind, fun m y hy => ?_⟩
    rw [hselects m]
    exact owner_eq_iff_ownedBy hfaithful hindex hy t hid

omit hfaithful hindex in
/-- A kept id is small. -/
theorem lt_of_ownerKept {x : IndexRow} {md : Metadata}
    (hentry : x.entry = (fileRecord d x.raw md).toRow) {t : IdType}
    {stat : Bytes → Option Metadata} (h : OwnerKept db stat x t (md.owner t).toNat) :
    (md.owner t).toNat < 2 ^ 31 := by
  have hshows : db.Shows x (db.entryRow x).info := rfl
  have hshown := h.shown _ hshows
  rw [hshows.owner t, owner_eq_asI32 hentry t] at hshown
  exact asI32_eq_toNat_iff.mp hshown

end Kept

/-- **Which owners survive** the way from `stat` through the tables to the
API, `user_stats` and the search: exactly those with ids below `2 ^ 31`. -/
theorem ownersKept_iff {d : Digest} {paths : Set Bytes} (hfree : CollisionFree d paths)
    {c : Census} (hscan : Reachable (Census.next d) (FromStat paths) Census.init c) {db : ListDb}
    (hindex : db.filesystemIndex = c.db.index)
    (hagg : RunAggregation d db.filesystemIndex db.dirStats db.userStats) {x : IndexRow}
    (hx : x ∈ db.filesystemIndex) :
    ∃ md, c.stat x.raw = some md ∧
      ((∀ t, OwnerKept db c.stat x t (md.owner t).toNat) ↔
        md.uid.toNat < 2 ^ 31 ∧ md.gid.toNat < 2 ^ 31) := by
  have hfaithful := faithful_of_reachable hfree hscan
  obtain ⟨_, md, hstat, _, hentry⟩ := hfaithful.rows x (hindex ▸ hx)
  refine ⟨md, hstat, fun h => ⟨lt_of_ownerKept hentry (h .uid), lt_of_ownerKept hentry (h .gid)⟩,
    fun h t => ?_⟩
  have hsmall : (md.owner t).toNat < 2 ^ 31 := by
    cases t with
    | uid => exact h.1
    | gid => exact h.2
  exact ownerKept_of_lt hfaithful hindex hagg hx t hsmall (by simp [ownedBy, hstat])

/-! ### an id that does not -/

/-- A file of user 1000, and one of user 4294967294, the `nobody` of NFS. -/
def sampleStatted : List (Bytes × Metadata) :=
  [(utf8 "/home/a".toList, ⟨1, 0o100644, 1000, 1000, 1, 1, 1⟩),
    (utf8 "/srv".toList, ⟨1, 0o100644, 4294967294, 1000, 1, 1, 1⟩)]

def sampleStattedPaths : Set Bytes := {p | ∃ e ∈ sampleStatted, e.1 = p}

/-- They were indexed. -/
def sampleCensus : Census where
  db := insertBatch ScanDb.init (sampleStatted.map fun e => fileRecord sampleDigest e.1 e.2)
  stat := statAfter Census.init.stat (.batch sampleStatted false)

/-- The row of a file. -/
def sampleStattedRow (path : Text) (parent : Text) (uid : Int) : IndexRow where
  path := path
  pathRaw := none
  pathHash := computeHash sampleDigest path
  parentHash := some (computeHash sampleDigest parent)
  sizeBytes := 1
  fileType := 1
  permissions := "644".toList
  uid := uid
  gid := 1000
  atime := 1
  mtime := 1
  ctime := 1
  metadata := []

def sampleStattedIndex : Index :=
  ⟨[sampleStattedRow "/home/a".toList "/home".toList 1000,
    sampleStattedRow "/srv".toList "/".toList (-2)], by decide⟩

theorem sampleStattedIndex_eq : sampleStattedIndex = sampleCensus.db.index :=
  Table.ext (by decide +kernel)

/-- They were aggregated, too. -/
def sampleCensusDb : ListDb where
  filesystemIndex := sampleStattedIndex
  identity := ⟨Table.empty, Table.empty⟩
  dirStats := ⟨dirStatsRows sampleDigest (indexEntries sampleStattedIndex), by decide⟩
  userStats := ⟨userStatsRows (indexEntries sampleStattedIndex), by decide⟩
  scanSessions := Table.empty

theorem reachable_sampleCensus :
    Reachable (Census.next sampleDigest) (FromStat sampleStattedPaths) Census.init
      sampleCensus := by
  have hroots : ∀ e ∈ sampleStatted,
      normalizeScanRoot e.1 = .ok e.1 ∧ e.2.len.toNat < 2 ^ 63 := by decide
  have hmeets : FromStat sampleStattedPaths Census.init (.batch sampleStatted false) := by
    refine ⟨by decide, fun e he => ⟨⟨?_, (hroots e he).2⟩, e, he, rfl⟩⟩
    exact ⟨e.1, e.1, [], (hroots e he).1, by simp, rfl⟩
  exact .next .init hmeets rfl

theorem collisionFree_sampleStatted : CollisionFree sampleDigest sampleStattedPaths := by
  have hfree : ∀ e ∈ sampleStatted, ∀ e' ∈ sampleStatted,
      computeHashBytes sampleDigest e.1 = computeHashBytes sampleDigest e'.1 → e.1 = e'.1 := by
    decide
  intro p hp q hq hhash
  obtain ⟨e, he, rfl⟩ := hp
  obtain ⟨e', he', rfl⟩ := hq
  exact hfree e he e' he' hhash

theorem aggregated_sampleCensus :
    RunAggregation sampleDigest sampleCensusDb.filesystemIndex sampleCensusDb.dirStats
      sampleCensusDb.userStats :=
  ⟨_, List.Perm.refl _, List.Perm.refl _, List.Perm.refl _⟩

/-- The file of user 1000. -/
def sampleStattedFile : IndexRow := sampleStattedRow "/home/a".toList "/home".toList 1000

theorem ownersKept_iff_thousand :
    ∃ md, sampleCensus.stat sampleStattedFile.raw = some md ∧
      ((∀ t, OwnerKept sampleCensusDb sampleCensus.stat sampleStattedFile t
          (md.owner t).toNat) ↔ md.uid.toNat < 2 ^ 31 ∧ md.gid.toNat < 2 ^ 31) := by
  have hindexed : sampleStattedFile ∈ sampleCensusDb.filesystemIndex := by decide
  exact ownersKept_iff collisionFree_sampleStatted reachable_sampleCensus sampleStattedIndex_eq
    aggregated_sampleCensus hindexed

/-- The file of user 4294967294. -/
def sampleStattedNobody : IndexRow := sampleStattedRow "/srv".toList "/".toList (-2)

/-- User 4294967294 becomes `-2`, and a search for it is refused. -/
theorem nobody_negative :
    ∃ (d : Digest) (paths : Set Bytes) (c : Census) (db : ListDb) (x : IndexRow) (md : Metadata),
      CollisionFree d paths ∧ Reachable (Census.next d) (FromStat paths) Census.init c ∧
        db.filesystemIndex = c.db.index ∧
        RunAggregation d db.filesystemIndex db.dirStats db.userStats ∧
        x ∈ db.filesystemIndex ∧ c.stat x.raw = some md ∧ md.uid = 4294967294 ∧
        ¬ OwnerKept db c.stat x .uid md.uid.toNat ∧
        (db.entryRow x).info.uid = -2 ∧ (db.entryRow x).info.user = "-2".toList ∧
        db.userStats.find? (.uid, 4294967294) = none ∧
        (db.userStats.find? (.uid, -2)).isSome = true ∧
        ∃ clause args, buildSearchWhere sampleFloat [ownerRule .uid 4294967294] =
          .ok (clause, args) ∧ (bindError clause args).isSome = true := by
  refine ⟨sampleDigest, sampleStattedPaths, sampleCensus, sampleCensusDb,
    sampleStattedNobody, ⟨1, 0o100644, 4294967294, 1000, 1, 1, 1⟩,
    collisionFree_sampleStatted, reachable_sampleCensus, sampleStattedIndex_eq,
    aggregated_sampleCensus, by decide, by decide, rfl, fun h => ?_, by decide, by decide,
    by decide, by decide, "(f.uid = $1)".toList, [.int 4294967294], by decide, by decide⟩
  have hshows : sampleCensusDb.Shows sampleStattedNobody
      (sampleCensusDb.entryRow sampleStattedNobody).info := rfl
  exact absurd (h.shown _ hshows) (by decide)

end Cuttlefish
