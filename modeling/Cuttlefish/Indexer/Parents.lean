import Cuttlefish.GoPath
import Cuttlefish.Indexer.Walk
import Cuttlefish.Run

/-!
# Cuttlefish.Indexer.Parents

Rows and their parents: what the columns of a row say of the path the walker
emitted, in every index that batches of a walk can lead to.

The parent is found bytewise (`getParentPath_under`), and neither an upsert,
which never rewrites `path`, nor a cleanup breaks the link
(`linked_of_reachable`).  A truncated digest has collisions, so the paths in
play are a set on which it has none.
-/

namespace Cuttlefish

/-! ## parents -/

/-- What stands before the last separator. -/
theorem getParentPath_split {up name : Bytes} (hname : name ≠ []) (hslash : slash ∉ name) :
    getParentPath (up ++ slash :: name) = some (if up = [] then [slash] else up) := by
  have hroot : up ++ slash :: name ≠ [slash] := by
    intro h
    have hlen := congrArg List.length h
    have hpos := List.length_pos_of_ne_nil hname
    simp only [List.length_append, List.length_cons, List.length_nil] at hlen
    omega
  have hplain : ∀ b ∈ name.reverse, decide (b ≠ slash) = true := by
    intro b hb
    rw [decide_eq_true_eq]
    rintro rfl
    exact hslash (List.mem_reverse.mp hb)
  have htrim : (up ++ slash :: name).rdropWhile (· = slash) = up ++ slash :: name := by
    rw [List.rdropWhile_eq_self_iff]
    intro hne
    have hlast : (up ++ slash :: name).getLast hne ∈ name := by
      rw [List.getLast_append_of_ne_nil _ (List.cons_ne_nil slash name), List.getLast_cons hname]
      exact List.getLast_mem hname
    rw [decide_eq_true_eq]
    intro heq
    exact hslash (heq ▸ hlast)
  have hdrop : (up ++ slash :: name).reverse.dropWhile (· ≠ slash) = slash :: up.reverse := by
    rw [List.reverse_append, List.reverse_cons, List.append_assoc,
      List.dropWhile_append_of_pos hplain]
    simp
  rw [getParentPath, if_neg hroot]
  simp only [htrim, hdrop, List.reverse_reverse, List.reverse_eq_nil_iff]

/-- **The parent of an entry** is its directory. -/
theorem getParentPath_under {dir name : Bytes} (hdir : dir ≠ []) (hname : name ≠ [])
    (hslash : slash ∉ name) : getParentPath (scanRootPrefix dir ++ name) = some dir := by
  by_cases hroot : dir = [slash]
  · rw [scanRootPrefix, if_pos hroot, hroot, ← List.nil_append ([slash] ++ name)]
    exact getParentPath_split hname hslash
  · rw [scanRootPrefix, if_neg hroot, List.append_assoc, List.singleton_append,
      getParentPath_split hname hslash, if_neg hdir]

theorem getParentPath_slash : getParentPath [slash] = none := rfl

/-! ## the paths the walker emits -/

/-- A path the walker emits: a normalized scan root joined with names of
directory entries. -/
def WalkerPath (path : Bytes) : Prop :=
  ∃ raw root names, normalizeScanRoot raw = .ok root ∧ path = joinNames root names

/-- `dir` is the directory of `path`. -/
def EntryOf (dir path : Bytes) : Prop :=
  ∃ name : FileName, path = name.under dir

theorem joinNames_concat (path : Bytes) (names : List FileName) (name : FileName) :
    joinNames path (names ++ [name]) = name.under (joinNames path names) := by
  simp [joinNames]

/-- A canonical path is `/`, or an entry of a directory. -/
theorem Canonical.eq_slash_or_entry {path : Bytes} (h : Canonical path) :
    path = [slash] ∨ ∃ dir, dir ≠ [] ∧ EntryOf dir path := by
  obtain ⟨cs, hcs, rfl⟩ := canonical_iff.mp h
  cases cs using List.reverseRecOn with
  | nil => exact Or.inl rfl
  | append_singleton cs c _ =>
      have hc : IsComponent c := hcs c (by simp)
      have hpre : ∀ x ∈ cs, x ≠ [] := fun x hx => (hcs x (by simp [hx])).ne_nil
      refine Or.inr ⟨absPath cs, by simp [absPath], ⟨c, hc.ne_nil, hc.slash_not_mem⟩, ?_⟩
      exact absPath_concat hpre c

theorem joinNames_ne_nil {path : Bytes} (h : path ≠ []) (names : List FileName) :
    joinNames path names ≠ [] := by
  intro hnil
  have hcovers := (covers_joinNames path names).isPrefix
  rw [hnil, List.prefix_nil] at hcovers
  exact h hcovers

theorem WalkerPath.eq_slash_or_entry {path : Bytes} (h : WalkerPath path) :
    path = [slash] ∨ ∃ dir, dir ≠ [] ∧ EntryOf dir path := by
  obtain ⟨raw, root, names, hroot, rfl⟩ := h
  have hcanonical := canonical_of_normalizeScanRoot hroot
  cases names using List.reverseRecOn with
  | nil => exact hcanonical.eq_slash_or_entry
  | append_singleton names name _ =>
      have hne : root ≠ [] := by
        rintro rfl
        exact absurd hcanonical.1 (by simp)
      exact Or.inr ⟨_, joinNames_ne_nil hne names, name, joinNames_concat root names name⟩

/-- The parent of a path the walker emits is the directory it lies in. -/
theorem WalkerPath.getParentPath_eq_some {path dir : Bytes} (h : WalkerPath path)
    (hdir : dir ≠ []) :
    getParentPath path = some dir ↔ EntryOf dir path := by
  constructor
  · intro hparent
    cases h.eq_slash_or_entry with
    | inl hslash =>
        rw [hslash, getParentPath_slash] at hparent
        contradiction
    | inr hentry =>
        obtain ⟨dir', hdir', name, rfl⟩ := hentry
        rw [FileName.under, getParentPath_under hdir' name.nonempty name.slash_not_mem] at hparent
        cases hparent
        exact ⟨name, rfl⟩
  · intro hentry
    obtain ⟨name, rfl⟩ := hentry
    exact getParentPath_under hdir name.nonempty name.slash_not_mem

theorem WalkerPath.getParentPath_eq_none {path : Bytes} (h : WalkerPath path) :
    getParentPath path = none ↔ path = [slash] := by
  constructor
  · intro hnone
    cases h.eq_slash_or_entry with
    | inl hslash => exact hslash
    | inr hentry =>
        obtain ⟨dir, hdir, hpath⟩ := hentry
        rw [(h.getParentPath_eq_some hdir).mpr hpath] at hnone
        contradiction
  · rintro rfl
    exact getParentPath_slash

/-! ## everything that writes the index -/

inductive IndexAction where
  /-- A run starts: the hash width is checked, the temporary tables are new. -/
  | startRun
  | batch (entries : List (Bytes × Metadata)) (fails : Bool)
  | cleanup (roots : List Bytes)
  /-- The aggregator drops `/proc/kcore`. -/
  | removeKcore

def ScanDb.init : ScanDb := ⟨Table.empty, [], []⟩

def ScanDb.next (d : Digest) (db : ScanDb) : IndexAction → Option ScanDb
  | .startRun => some ⟨migrateHashWidth db.index, [], []⟩
  | .batch entries fails =>
      some (tryInsertBatch fails db (entries.map fun e => fileRecord d e.1 e.2)).1
  | .cleanup roots =>
      some { db with index := cleanupStaleEntries db.index db.seenHashes roots }
  | .removeKcore =>
      some
        { db with
          index := db.index.deleteWhere fun r =>
            r.pathHash = computeHash d "/proc/kcore".toList }

/-- The batches hold what the walker emits, and that is in `emitted`. -/
def FromWalk (emitted : Set Bytes) (_ : ScanDb) : IndexAction → Prop
  | .batch entries _ => ∀ e ∈ entries, WalkerPath e.1 ∧ e.1 ∈ emitted
  | _ => True

/-- What the columns of a row say of the path it records. -/
structure IndexRow.Linked (d : Digest) (emitted : Set Bytes) (x : IndexRow) : Prop where
  walked : WalkerPath x.raw
  emitted : x.raw ∈ emitted
  path_eq : x.path = fromUtf8Lossy x.raw
  pathHash_eq : x.pathHash = computeHashBytes d x.raw
  parentHash_eq : x.parentHash = (getParentPath x.raw).map (computeHashBytes d)

section Steps

variable {d : Digest} {emitted : Set Bytes}

theorem linked_toRow {raw : Bytes} (md : Metadata) (hwalk : WalkerPath raw)
    (hmem : raw ∈ emitted) : (fileRecord d raw md).toRow.Linked d emitted where
  walked := by rwa [raw_toRow]
  emitted := by rwa [raw_toRow]
  path_eq := by rw [raw_toRow]; rfl
  pathHash_eq := by rw [raw_toRow]; rfl
  parentHash_eq := by rw [raw_toRow]; rfl

/-- The columns an update sets fit the `path` it keeps. -/
theorem IndexRow.Linked.setExcluded {old new : IndexRow} (hold : old.Linked d emitted)
    (hnew : new.Linked d emitted) (hraw : old.raw = new.raw) :
    (setExcluded.apply old new).Linked d emitted := by
  have hpath : old.path = new.path := by rw [hold.path_eq, hnew.path_eq, hraw]
  have happly : (Cuttlefish.setExcluded.apply old new).raw = new.raw := by
    simp only [IndexRow.raw, Cuttlefish.setExcluded, hpath]
  refine ⟨?_, ?_, ?_, ?_, ?_⟩
  · exact happly ▸ hnew.walked
  · exact happly ▸ hnew.emitted
  · rw [happly, ← hraw]
    exact hold.path_eq
  · rw [happly, ← hraw]
    exact hold.pathHash_eq
  · rw [happly]
    exact hnew.parentHash_eq

theorem linked_upsertAll {index : Index} {rs : List IndexRow} (hfree : CollisionFree d emitted)
    (hindex : ∀ x ∈ index, x.Linked d emitted) (hrs : ∀ r ∈ rs, r.Linked d emitted) :
    ∀ x ∈ index.upsertAll setExcluded rs, x.Linked d emitted := by
  induction rs generalizing index with
  | nil => exact hindex
  | cons r rs ih =>
      rw [List.forall_mem_cons] at hrs
      refine ih (fun x hx => ?_) hrs.2
      rcases Table.mem_upsert.mp hx with ⟨old, hold, hkey, rfl⟩ | ⟨hx, -⟩ | ⟨rfl, -⟩
      · have hlinked := hindex old hold
        rw [hlinked.pathHash_eq, hrs.1.pathHash_eq] at hkey
        exact hlinked.setExcluded hrs.1 (hfree hlinked.emitted hrs.1.emitted hkey)
      · exact hindex x hx
      · exact hrs.1

theorem mem_of_mem_distinctOn {rs : List IndexRow} {r : IndexRow}
    (h : r ∈ Table.distinctOn IndexRow.pathHash rs) : r ∈ rs := by
  induction rs with
  | nil => exact h
  | cons r' rs ih =>
      rw [Table.distinctOn, List.mem_cons] at h
      cases h with
      | inl hself => exact hself ▸ List.mem_cons_self
      | inr hrest => exact List.mem_cons_of_mem r' (ih (List.mem_filter.mp hrest).1)

/-- **A batch keeps the links.** -/
theorem linked_insertBatch {db : ScanDb} {entries : List (Bytes × Metadata)}
    (hfree : CollisionFree d emitted) (hindex : ∀ x ∈ db.index, x.Linked d emitted)
    (hstaging : db.stagingIndex = [])
    (hentries : ∀ e ∈ entries, WalkerPath e.1 ∧ e.1 ∈ emitted) :
    ∀ x ∈ (insertBatch db (entries.map fun e => fileRecord d e.1 e.2)).index,
      x.Linked d emitted := by
  rw [insertBatch_index _ hstaging]
  refine linked_upsertAll hfree hindex fun r hr => ?_
  have hstaged := (List.mem_insertionSort _).mp (mem_of_mem_distinctOn hr)
  rw [List.map_map, List.mem_map] at hstaged
  obtain ⟨e, he, rfl⟩ := hstaged
  exact linked_toRow e.2 (hentries e he).1 (hentries e he).2

/-- Deleting rows keeps the links of the others. -/
theorem mem_of_mem_cleanup {index : Index} {seenHashes roots : List Bytes} {x : IndexRow}
    (h : x ∈ cleanupStaleEntries index seenHashes roots) : x ∈ index := by
  unfold cleanupStaleEntries at h
  split_ifs at h <;> exact (Table.mem_deleteWhere.mp h).1

theorem mem_of_mem_migrate {index : Index} {x : IndexRow} (h : x ∈ migrateHashWidth index) :
    x ∈ index := by
  unfold migrateHashWidth at h
  split at h
  next =>
      split_ifs at h
      · exact absurd h (Table.not_mem_empty x)
      · exact h
  next => exact h

/-- **Every row is linked**, in every index that batches of a walk, cleanups
and failures can lead to. -/
theorem linked_of_reachable {db : ScanDb} (hfree : CollisionFree d emitted)
    (h : Reachable (ScanDb.next d) (FromWalk emitted) ScanDb.init db) :
    ∀ x ∈ db.index, x.Linked d emitted := by
  have hinv : (∀ x ∈ db.index, x.Linked d emitted) ∧ db.stagingIndex = [] := by
    refine h.invariant (fun db => (∀ x ∈ db.index, x.Linked d emitted) ∧ db.stagingIndex = [])
      ⟨fun x hx => absurd hx (Table.not_mem_empty x), rfl⟩ ?_
    intro db a db' _ hinv hwalk hnext
    obtain ⟨hindex, hstaging⟩ := hinv
    cases a with
    | startRun =>
        cases hnext
        exact ⟨fun x hx => hindex x (mem_of_mem_migrate hx), rfl⟩
    | batch entries fails =>
        cases hnext
        cases fails with
        | true => exact ⟨hindex, hstaging⟩
        | false => exact ⟨linked_insertBatch hfree hindex hstaging hwalk, rfl⟩
    | cleanup roots =>
        cases hnext
        exact ⟨fun x hx => hindex x (mem_of_mem_cleanup hx), hstaging⟩
    | removeKcore =>
        cases hnext
        exact ⟨fun x hx => hindex x (Table.mem_deleteWhere.mp hx).1, hstaging⟩
  exact hinv.1

end Steps

end Cuttlefish
