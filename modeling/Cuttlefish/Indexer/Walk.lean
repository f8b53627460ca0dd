import Cuttlefish.Indexer.Rescan

/-!
# Cuttlefish.Indexer.Walk

The walk behind a run: a filesystem tree, the parallel walker's results over
it when places of the tree fail, and the visitor that turns results into
records.

The walker is a third-party crate, so `walkNode` states what is assumed of
it: an entry is reported with its path and metadata, an unreadable entry or
directory yields one `Err` and nothing below.  A `TreeRun` is a run over
such a walk in which every batch commits and no thread panics.

`live_rows_kept_iff` says which live rows its cleanup spares: exactly those
the walker reached.  The gate in front of the cleanup looks at panics and
failed batches, not at the skipped entries the visitor counted, so the rest
are deleted (`live_row_deleted`).
-/

namespace Cuttlefish

/-! ## filesystem trees -/

/-- A directory entry's name, as the kernel allows it. -/
structure FileName where
  bytes : Bytes
  nonempty : bytes ≠ []
  slash_not_mem : slash ∉ bytes
  deriving DecidableEq, Repr

/-- The path of an entry of the directory at `path`. -/
def FileName.under (name : FileName) (path : Bytes) : Bytes := scanRootPrefix path ++ name.bytes

mutual

/-- A file, or a directory with its entries. -/
inductive FsNode where
  | file (md : Metadata)
  | dir (md : Metadata) (entries : FsEntries)

/-- The entries of a directory, in the order `readdir` returns them. -/
inductive FsEntries where
  | nil
  | cons (name : FileName) (node : FsNode) (rest : FsEntries)

end

/-- What `stat` reports of a node. -/
def FsNode.metadata : FsNode → Metadata
  | .file md => md
  | .dir md _ => md

/-- The names of a directory's entries. -/
def FsEntries.names : FsEntries → List FileName
  | .nil => []
  | .cons name _ rest => name :: rest.names

mutual

/-- No directory lists a name twice. -/
def FsNode.Wf : FsNode → Prop
  | .file _ => True
  | .dir _ entries => entries.Wf

def FsEntries.Wf : FsEntries → Prop
  | .nil => True
  | .cons name node rest => name ∉ rest.names ∧ node.Wf ∧ rest.Wf

end

mutual

/-- `node.At names n`: following `names` down from `node` leads to `n`. -/
inductive FsNode.At : FsNode → List FileName → FsNode → Prop where
  | here (n : FsNode) : FsNode.At n [] n
  | inDir {md entries name names n} (h : FsEntries.At entries name names n) :
      FsNode.At (.dir md entries) (name :: names) n

inductive FsEntries.At : FsEntries → FileName → List FileName → FsNode → Prop where
  | head {name node rest names n} (h : FsNode.At node names n) :
      FsEntries.At (.cons name node rest) name names n
  | tail {name name' node rest names n} (h : FsEntries.At rest name names n) :
      FsEntries.At (.cons name' node rest) name names n

end

theorem FsNode.at_file {md : Metadata} {names : List FileName} {n : FsNode} :
    (FsNode.file md).At names n ↔ names = [] ∧ n = .file md := by
  constructor
  · rintro ⟨⟩
    exact ⟨rfl, rfl⟩
  · rintro ⟨rfl, rfl⟩
    exact .here _

theorem FsNode.at_dir {md : Metadata} {entries : FsEntries} {names : List FileName} {n : FsNode} :
    (FsNode.dir md entries).At names n ↔
      (names = [] ∧ n = .dir md entries) ∨
        ∃ name rest, names = name :: rest ∧ entries.At name rest n := by
  constructor
  · rintro (_ | h)
    · exact Or.inl ⟨rfl, rfl⟩
    · exact Or.inr ⟨_, _, rfl, h⟩
  · rintro (⟨rfl, rfl⟩ | ⟨name, rest, rfl, h⟩)
    · exact .here _
    · exact .inDir h

/-- The path reached from `path` by following `names`. -/
def joinNames (path : Bytes) (names : List FileName) : Bytes :=
  names.foldl (fun path name => name.under path) path

mutual

/-- The node `target` resolves to, in the subtree of the node at `path`. -/
def FsNode.find (target path : Bytes) : FsNode → Option FsNode
  | .file md => if path = target then some (.file md) else none
  | .dir md entries => if path = target then some (.dir md entries) else entries.find target path

def FsEntries.find (target path : Bytes) : FsEntries → Option FsNode
  | .nil => none
  | .cons name node rest => (node.find target (name.under path)).or (rest.find target path)

end

/-! ## the walker -/

/-- An entry the walker hands over; reading its metadata may still fail. -/
structure DirEntry where
  path : Bytes
  metadata : Option Metadata
  deriving Repr

/-- One result of the walk: an entry, or an error at a path. -/
abbrev WalkResult := Except Bytes DirEntry

/-- The places where the walker fails: entries it reports as an error,
directories it cannot open, entries whose metadata it cannot read. -/
structure WalkFaults where
  unread : Bytes → Bool := fun _ => false
  unopened : Bytes → Bool := fun _ => false
  noMetadata : Bytes → Bool := fun _ => false

/-- The entry at `path`. -/
def walkEntry (faults : WalkFaults) (path : Bytes) (md : Metadata) : WalkResult :=
  .ok ⟨path, if faults.noMetadata path then none else some md⟩

mutual

/-- The results for the node at `path` and everything below it. -/
def walkNode (faults : WalkFaults) (path : Bytes) : FsNode → List WalkResult
  | .file md => if faults.unread path then [.error path] else [walkEntry faults path md]
  | .dir md entries =>
      if faults.unread path then [.error path]
      else walkEntry faults path md ::
        if faults.unopened path then [.error path] else walkEntries faults path entries

def walkEntries (faults : WalkFaults) (path : Bytes) : FsEntries → List WalkResult
  | .nil => []
  | .cons name node rest =>
      walkNode faults (name.under path) node ++ walkEntries faults path rest

end

/-- The results for all scan roots; a root that is not there is an error.
The walker's threads deliver them in any order. -/
def walk (faults : WalkFaults) (disk : FsNode) (roots : List Bytes) : List WalkResult :=
  roots.flatMap fun root =>
    match disk.find root [slash] with
    | none => [.error root]
    | some node => walkNode faults root node

/-! ## the visitor -/

/-- What the visitor reads off a result; it skips the rest. -/
def visited : WalkResult → Option (Bytes × Metadata)
  | .error _ => none
  | .ok ⟨_, none⟩ => none
  | .ok ⟨path, some md⟩ => some (path, md)

/-- One visitor call: the record it sends, or none and `skipped` grows. -/
def visitor (d : Digest) (result : WalkResult) : Option FileRecord :=
  (visited result).map fun e => fileRecord d e.1 e.2

/-- What the producer thread sends and returns: the records, and how many
entries were skipped and how many have a name that is not UTF-8. -/
structure Produced where
  records : List FileRecord
  skipped : Nat
  lossy : Nat

def produce (d : Digest) (results : List WalkResult) : Produced where
  records := results.filterMap (visitor d)
  skipped := results.countP fun r => (visitor d r).isNone
  lossy := (results.filterMap (visitor d)).countP fun r => r.pathRaw.isSome

theorem records_produce (d : Digest) (results : List WalkResult) :
    (produce d results).records =
      (results.filterMap visited).map fun e => fileRecord d e.1 e.2 := by
  rw [produce, List.map_filterMap]
  rfl

/-! ## what the walk reports -/

/-- From `path` down along `names` the walker reports no error: every
directory on the way is read and opened, the last entry and its metadata are
read. -/
def Reached (faults : WalkFaults) : Bytes → List FileName → Prop
  | path, [] => faults.unread path = false ∧ faults.noMetadata path = false
  | path, name :: names =>
      faults.unread path = false ∧ faults.unopened path = false ∧
        Reached faults (name.under path) names

@[simp] theorem visited_error (path : Bytes) : visited (.error path) = none := rfl

@[simp] theorem filterMap_visited_error (path : Bytes) :
    [Except.error path].filterMap visited = [] := rfl

theorem visited_walkEntry (faults : WalkFaults) (path : Bytes) (md : Metadata) :
    visited (walkEntry faults path md) =
      if faults.noMetadata path then none else some (path, md) := by
  unfold walkEntry
  split_ifs <;> rfl

theorem Reached.unread {faults : WalkFaults} {path : Bytes} {names : List FileName}
    (h : Reached faults path names) : faults.unread path = false := by
  cases names with
  | nil => exact h.1
  | cons name names => exact h.1

mutual

/-- **What the walk of a subtree hands to the visitor**: the places below
`path` the walker reaches, with their metadata. -/
theorem mem_walkNode {faults : WalkFaults} {path : Bytes} {e : Bytes × Metadata} :
    (node : FsNode) → (e ∈ (walkNode faults path node).filterMap visited ↔
      ∃ names n, node.At names n ∧ e = (joinNames path names, n.metadata) ∧
        Reached faults path names)
  | .file md => by
      simp only [FsNode.at_file, walkNode]
      by_cases hu : faults.unread path
      · simp [hu, Reached]
      · by_cases hm : faults.noMetadata path <;>
          simp [hu, hm, visited_walkEntry, Reached, joinNames, FsNode.metadata]
  | .dir md entries => by
      rw [walkNode]
      by_cases hu : faults.unread path = true
      · rw [if_pos hu]
        constructor
        · intro h
          simp at h
        · rintro ⟨names, n, _, _, hr⟩
          rw [hr.unread] at hu
          contradiction
      · -- the directory itself, then its entries if it can be opened
        have hself : e ∈ [walkEntry faults path md].filterMap visited ↔
            e = (path, md) ∧ faults.noMetadata path = false := by
          by_cases hm : faults.noMetadata path <;> simp [hm, visited_walkEntry]
        have hbelow : e ∈ (if faults.unopened path then [Except.error path]
            else walkEntries faults path entries).filterMap visited ↔
              faults.unopened path = false ∧
                e ∈ (walkEntries faults path entries).filterMap visited := by
          by_cases ho : faults.unopened path <;> simp [ho]
        rw [if_neg hu, ← List.singleton_append, List.filterMap_append, List.mem_append, hself,
          hbelow, mem_walkEntries entries]
        simp only [Bool.not_eq_true] at hu
        constructor
        · rintro (⟨rfl, hm⟩ | ⟨ho, name, names, n, hat, he, hr⟩)
          · exact ⟨[], _, .here _, rfl, hu, hm⟩
          · exact ⟨name :: names, n, .inDir hat, he, hu, ho, hr⟩
        · rintro ⟨names, n, hat, he, hr⟩
          rcases FsNode.at_dir.mp hat with ⟨rfl, rfl⟩ | ⟨name, rest, rfl, hbelow⟩
          · exact Or.inl ⟨he, hr.2⟩
          · exact Or.inr ⟨hr.2.1, name, rest, n, hbelow, he, hr.2.2⟩

theorem mem_walkEntries {faults : WalkFaults} {path : Bytes} {e : Bytes × Metadata} :
    (entries : FsEntries) → (e ∈ (walkEntries faults path entries).filterMap visited ↔
      ∃ name names n, entries.At name names n ∧
        e = (joinNames (name.under path) names, n.metadata) ∧
          Reached faults (name.under path) names)
  | .nil => by
      simp only [walkEntries, List.filterMap_nil, List.not_mem_nil, false_iff]
      rintro ⟨_, _, _, h, _⟩
      cases h
  | .cons name node rest => by
      rw [walkEntries, List.filterMap_append, List.mem_append, mem_walkNode node,
        mem_walkEntries rest]
      constructor
      · rintro (⟨names, n, hat, he, hr⟩ | ⟨name', names, n, hat, he, hr⟩)
        · exact ⟨name, names, n, .head hat, he, hr⟩
        · exact ⟨name', names, n, .tail hat, he, hr⟩
      · rintro ⟨name', names, n, hat, he, hr⟩
        cases hat with
        | head hat => exact Or.inl ⟨names, n, hat, he, hr⟩
        | tail hat => exact Or.inr ⟨name', names, n, hat, he, hr⟩

end

/-! ## no path twice -/

theorem length_under (name : FileName) (path : Bytes) :
    path.length < (name.under path).length ∧ 1 < (name.under path).length := by
  have hname := List.length_pos_of_ne_nil name.nonempty
  rw [FileName.under, List.length_append, scanRootPrefix]
  split_ifs with h
  · subst h
    exact ⟨by omega, by simpa using hname⟩
  · rw [List.length_append, List.length_singleton]
    omega

theorem covers_under (name : FileName) (path : Bytes) : scanRootCovers path (name.under path) :=
  Or.inr (List.prefix_append _ _)

theorem covers_joinNames (path : Bytes) (names : List FileName) :
    scanRootCovers path (joinNames path names) := by
  induction names generalizing path with
  | nil => exact scanRootCovers_self path
  | cons name names ih => exact (covers_under name path).trans (ih (name.under path))

/-- Two entries of a directory share no path. -/
theorem FileName.eq_of_covers {name name' : FileName} {path p : Bytes}
    (h : scanRootCovers (name.under path) p) (h' : scanRootCovers (name'.under path) p) :
    name = name' := by
  -- the bytes of `p` behind the directory prefix, up to the next separator
  have hkey : ∀ n : FileName, scanRootCovers (n.under path) p →
      (p.drop (scanRootPrefix path).length).takeWhile (· ≠ slash) = n.bytes := by
    intro n hn
    have hself : n.bytes.takeWhile (· ≠ slash) = n.bytes := by
      rw [List.takeWhile_eq_self_iff]
      intro b hb
      have hne : b ≠ slash := fun h => n.slash_not_mem (h ▸ hb)
      simpa using hne
    rcases hn with rfl | ⟨t, rfl⟩
    · rw [FileName.under, List.drop_left, hself]
    · have hne : n.under path ≠ [slash] := by
        intro h
        have := (length_under n path).2
        simp [h] at this
      rw [scanRootPrefix.eq_1 (n.under path), if_neg hne, FileName.under, List.append_assoc,
        List.append_assoc, List.drop_left, List.takeWhile_append_of_pos]
      · simp
      · intro b hb
        have hne : b ≠ slash := fun h => n.slash_not_mem (h ▸ hb)
        simpa using hne
  have heq : name.bytes = name'.bytes := by rw [← hkey name h, ← hkey name' h']
  cases name
  cases name'
  simpa using heq

theorem FsEntries.mem_names_of_at {name : FileName} {names : List FileName} {n : FsNode} :
    (entries : FsEntries) → entries.At name names n → name ∈ entries.names
  | .cons name' node rest, h => by
      cases h with
      | head _ => exact List.mem_cons_self
      | tail h => exact List.mem_cons_of_mem _ (mem_names_of_at rest h)

theorem covers_of_mem_walkNode {faults : WalkFaults} {path : Bytes} {node : FsNode}
    {e : Bytes × Metadata} (h : e ∈ (walkNode faults path node).filterMap visited) :
    scanRootCovers path e.1 := by
  obtain ⟨names, n, _, rfl, _⟩ := (mem_walkNode node).mp h
  exact covers_joinNames path names

theorem exists_name_of_mem_walkEntries {faults : WalkFaults} {path : Bytes} {entries : FsEntries}
    {e : Bytes × Metadata} (h : e ∈ (walkEntries faults path entries).filterMap visited) :
    ∃ name ∈ entries.names, scanRootCovers (name.under path) e.1 := by
  obtain ⟨name, names, n, hat, rfl, _⟩ := (mem_walkEntries entries).mp h
  exact ⟨name, entries.mem_names_of_at hat, covers_joinNames _ names⟩

mutual

/-- The walk of a subtree visits no path twice. -/
theorem nodup_walkNode {faults : WalkFaults} {path : Bytes} :
    (node : FsNode) → node.Wf →
      (((walkNode faults path node).filterMap visited).map Prod.fst).Nodup
  | .file md, _ => by
      rw [walkNode]
      by_cases hu : faults.unread path
      · simp [hu]
      · by_cases hm : faults.noMetadata path <;> simp [hu, hm, visited_walkEntry]
  | .dir md entries, hwf => by
      have ih : (((walkEntries faults path entries).filterMap visited).map Prod.fst).Nodup :=
        nodup_walkEntries entries hwf
      rw [walkNode]
      by_cases hu : faults.unread path = true
      · simp [hu]
      · by_cases ho : faults.unopened path = true
        · by_cases hm : faults.noMetadata path <;>
            simp [hu, ho, hm, List.filterMap_cons, visited_walkEntry]
        · rw [if_neg hu, if_neg ho, List.filterMap_cons, visited_walkEntry]
          by_cases hm : faults.noMetadata path = true
          · rwa [if_pos hm]
          · rw [if_neg hm, List.map_cons, List.nodup_cons]
            refine ⟨fun hmem => ?_, ih⟩
            -- everything below the directory has a longer path
            obtain ⟨e, he, heq⟩ := List.mem_map.mp hmem
            obtain ⟨name, _, hcov⟩ := exists_name_of_mem_walkEntries he
            have hle := hcov.isPrefix.length_le
            have hlt := (length_under name path).1
            simp only [heq] at hle
            omega

theorem nodup_walkEntries {faults : WalkFaults} {path : Bytes} :
    (entries : FsEntries) → entries.Wf →
      (((walkEntries faults path entries).filterMap visited).map Prod.fst).Nodup
  | .nil, _ => by simp [walkEntries]
  | .cons name node rest, ⟨hname, hnode, hrest⟩ => by
      rw [walkEntries, List.filterMap_append, List.map_append]
      refine List.nodup_append.mpr ⟨nodup_walkNode node hnode, nodup_walkEntries rest hrest, ?_⟩
      intro p hp q hq heq
      obtain ⟨e, he, rfl⟩ := List.mem_map.mp hp
      obtain ⟨e', he', rfl⟩ := List.mem_map.mp hq
      obtain ⟨name', hmem, hcov⟩ := exists_name_of_mem_walkEntries he'
      have hsame := FileName.eq_of_covers (covers_of_mem_walkNode he) (heq ▸ hcov)
      exact hname (hsame ▸ hmem)

end

mutual

/-- What is found at `target` is well formed. -/
theorem wf_of_find {target path : Bytes} {n : FsNode} :
    (node : FsNode) → node.Wf → node.find target path = some n → n.Wf
  | .file md, hwf, h => by
      rw [FsNode.find] at h
      split_ifs at h
      cases h
      exact hwf
  | .dir md entries, hwf, h => by
      rw [FsNode.find] at h
      split_ifs at h
      · cases h
        exact hwf
      · exact wf_of_findEntries entries hwf h

theorem wf_of_findEntries {target path : Bytes} {n : FsNode} :
    (entries : FsEntries) → entries.Wf → entries.find target path = some n → n.Wf
  | .nil, _, h => by simp [FsEntries.find] at h
  | .cons name node rest, ⟨_, hnode, hrest⟩, h => by
      rw [FsEntries.find, Option.or_eq_some_iff] at h
      rcases h with h | ⟨_, h⟩
      · exact wf_of_find node hnode h
      · exact wf_of_findEntries rest hrest h

end

/-! ## the walk of all roots -/

theorem mem_walk {faults : WalkFaults} {disk : FsNode} {roots : List Bytes}
    {e : Bytes × Metadata} :
    e ∈ (walk faults disk roots).filterMap visited ↔
      ∃ root ∈ roots, ∃ node names n, disk.find root [slash] = some node ∧ node.At names n ∧
        e = (joinNames root names, n.metadata) ∧ Reached faults root names := by
  rw [walk, List.filterMap_flatMap, List.mem_flatMap]
  refine exists_congr fun root => and_congr_right fun _ => ?_
  cases hf : disk.find root [slash] with
  | none => simp
  | some node =>
      simp only [mem_walkNode]
      constructor
      · rintro ⟨names, n, h⟩
        exact ⟨node, names, n, rfl, h⟩
      · rintro ⟨_, names, n, hnode, h⟩
        cases hnode
        exact ⟨names, n, h⟩

/-- Whatever is visited lies under a scan root. -/
theorem coveredBy_of_mem_walk {faults : WalkFaults} {disk : FsNode} {roots : List Bytes}
    {e : Bytes × Metadata} (h : e ∈ (walk faults disk roots).filterMap visited) :
    CoveredBy roots e.1 := by
  obtain ⟨root, hr, _, names, _, _, _, rfl, _⟩ := mem_walk.mp h
  exact ⟨root, hr, covers_joinNames root names⟩

/-- Disjoint roots: the whole walk visits no path twice. -/
theorem nodup_walk {faults : WalkFaults} {disk : FsNode} {roots : List Bytes} (hwf : disk.Wf)
    (hroots : roots.Pairwise fun a b => ∀ path, ¬ (scanRootCovers a path ∧ scanRootCovers b path)) :
    (((walk faults disk roots).filterMap visited).map Prod.fst).Nodup := by
  induction hroots with
  | nil => simp [walk]
  | @cons root roots hdisjoint _ ih =>
      rw [walk, List.flatMap_cons, List.filterMap_append, List.map_append]
      refine List.nodup_append.mpr ⟨?_, ih, ?_⟩
      · cases hf : disk.find root [slash] with
        | none => simp
        | some node => exact nodup_walkNode node (wf_of_find disk hwf hf)
      · intro p hp q hq heq
        obtain ⟨e, he, rfl⟩ := List.mem_map.mp hp
        obtain ⟨e', he', rfl⟩ := List.mem_map.mp hq
        obtain ⟨root', hroot', hcov⟩ := coveredBy_of_mem_walk he'
        refine hdisjoint root' hroot' e.1 ⟨?_, heq ▸ hcov⟩
        cases hf : disk.find root [slash] with
        | none => simp [hf] at he
        | some node =>
            rw [hf] at he
            exact covers_of_mem_walkNode he

/-! ## runs over a tree -/

/-- An indexer run over `disk` in which the walker fails at any places, its
results arrive in any order and are batched in any way, every batch commits
and no thread panics. -/
structure TreeRun (d : Digest) where
  config : IndexerConfig
  roots : List Bytes
  accepted : config.roots = .ok roots
  host : Host
  disk : FsNode
  wf : disk.Wf
  walkFaults : WalkFaults
  results : List WalkResult
  order : results.Perm (walk walkFaults disk roots)
  batches : List (List FileRecord)
  split : batches.flatten = (produce d results).records

namespace TreeRun

variable {d : Digest}

/-- The run as the gate sees it: nothing in it depends on how many entries
the visitor skipped. -/
def toScanRun (run : TreeRun d) : ScanRun d where
  config := run.config
  roots := run.roots
  accepted := run.accepted
  host := run.host
  entries := run.results.filterMap visited
  covered e he :=
    coveredBy_of_mem_walk ((run.order.filterMap visited).subset he)
  nodup :=
    ((run.order.filterMap visited).map Prod.fst).nodup_iff.mpr
      (nodup_walk run.wf (roots_disjoint run.accepted))
  batches := run.batches.map fun b => (b, false)
  split := by
    rw [List.map_map, show (Prod.fst ∘ fun b : List FileRecord => (b, false)) = id from rfl,
      List.map_id, run.split, records_produce]
  faults := {}

theorem clean_toScanRun (run : TreeRun d) : run.toScanRun.Clean := by
  refine ⟨⟨rfl, fun b hb => ?_⟩, rfl, rfl⟩
  obtain ⟨_, _, rfl⟩ := List.mem_map.mp hb
  rfl

/-- `path` still exists on disk under one of the run's roots. -/
def Live (run : TreeRun d) (path : Bytes) : Prop :=
  ∃ root ∈ run.roots, ∃ node names n, run.disk.find root [slash] = some node ∧
    node.At names n ∧ path = joinNames root names

/-- `path` exists on disk under one of the run's roots, and from that root
down to it the walker reports no error. -/
def Reaches (run : TreeRun d) (path : Bytes) : Prop :=
  ∃ root ∈ run.roots, ∃ node names n, run.disk.find root [slash] = some node ∧
    node.At names n ∧ path = joinNames root names ∧ Reached run.walkFaults root names

theorem Live.coveredBy {run : TreeRun d} {path : Bytes} (h : run.Live path) :
    CoveredBy run.roots path := by
  obtain ⟨root, hr, _, names, _, _, _, rfl⟩ := h
  exact ⟨root, hr, covers_joinNames root names⟩

/-- The emitted paths are those the walker reaches. -/
theorem reaches_iff (run : TreeRun d) {path : Bytes} :
    run.Reaches path ↔ ∃ e ∈ run.toScanRun.entries, e.1 = path := by
  have hmem : ∀ e, e ∈ run.toScanRun.entries ↔ _ := fun e =>
    ((run.order.filterMap visited).mem_iff).trans mem_walk
  simp only [hmem]
  constructor
  · rintro ⟨root, hr, node, names, n, hf, hat, rfl, hreach⟩
    exact ⟨_, ⟨root, hr, node, names, n, hf, hat, rfl, hreach⟩, rfl⟩
  · rintro ⟨e, ⟨root, hr, node, names, n, hf, hat, rfl, hreach⟩, rfl⟩
    exact ⟨root, hr, node, names, n, hf, hat, rfl, hreach⟩

section Kept

variable {paths : Set Bytes} {run : TreeRun d} {db : Db}
  (hfree : CollisionFree d paths)
  (hentries : ∀ e ∈ run.toScanRun.entries, e.1 ∈ paths)
  (hdb : Recorded d paths db.filesystemIndex)
include hfree hentries hdb

/-- A live row keeps its entry exactly when the walker reaches its path. -/
theorem kept_iff_reaches {x : IndexRow} (hx : x ∈ db.filesystemIndex) (hlive : run.Live x.raw) :
    (∃ y ∈ (run.toScanRun.apply db).filesystemIndex, y.pathHash = x.pathHash) ↔
      run.Reaches x.raw := by
  have hmem : ∀ y, y ∈ (run.toScanRun.apply db).filesystemIndex ↔ _ := fun y =>
    ScanRun.mem_apply_of_clean hfree hentries hdb run.clean_toScanRun
  have hrec := ScanRun.recorded_apply hfree hentries hdb
  rw [reaches_iff]
  constructor
  · rintro ⟨y, hy, hhash⟩
    have hraw := (pathHash_eq_iff hfree (hrec y hy) (hdb x hx)).mp hhash
    rcases ((hmem y).mp hy).2 with ⟨r, hr, hry⟩ | hcov
    · obtain ⟨e, he, rfl⟩ := ScanRun.exists_entry_of_mem_rows hr
      exact ⟨e, he, by rw [← hraw, ← hry, raw_toRow]⟩
    · exact absurd (hraw ▸ hlive.coveredBy) hcov
  · rintro ⟨e, he, heq⟩
    obtain ⟨y, hy, hhash, hraw, _⟩ := ScanRun.exists_afterBatches hfree hentries hdb hx
    have hrow : (fileRecord d e.1 e.2).toRow ∈ run.toScanRun.rows := by
      rw [ScanRun.rows_of_complete run.clean_toScanRun.1]
      exact List.mem_map.mpr ⟨e, he, rfl⟩
    exact ⟨y, (hmem y).mpr ⟨hy, Or.inl ⟨_, hrow, by rw [raw_toRow, heq, hraw]⟩⟩, hhash⟩

end Kept

end TreeRun

/-- **Which live rows the cleanup spares**: no row whose path still exists
under a scan root loses its entry exactly when the walker reaches the paths
of all such rows.  Every other one is deleted, with whatever lies below an
unreadable directory. -/
theorem live_rows_kept_iff {d : Digest} (run : TreeRun d) (db : Db)
    (hdb : ∀ x ∈ db.filesystemIndex, x.Wf d)
    (hfree : CollisionFree d (pathsOf db [run.toScanRun])) :
    (∀ x ∈ db.filesystemIndex, run.Live x.raw →
        ∃ y ∈ (run.toScanRun.apply db).filesystemIndex, y.pathHash = x.pathHash) ↔
      ∀ x ∈ db.filesystemIndex, run.Live x.raw → run.Reaches x.raw := by
  have hentries : ∀ e ∈ run.toScanRun.entries, e.1 ∈ pathsOf db [run.toScanRun] := fun e he =>
    Or.inr ⟨run.toScanRun, List.mem_singleton_self _, e, he, rfl⟩
  have hrec : Recorded d (pathsOf db [run.toScanRun]) db.filesystemIndex := fun x hx =>
    ⟨hdb x hx, Or.inl ⟨x, hx, rfl⟩⟩
  exact forall_congr' fun x => forall_congr' fun hx => forall_congr' fun hlive =>
    TreeRun.kept_iff_reaches hfree hentries hrec hx hlive

/-! ### an unreadable directory -/

/-- `/home` holds one file, `a`. -/
def sampleDisk : FsNode :=
  .dir sampleMetadata (.cons ⟨utf8 "home".toList, by decide, by decide⟩
    (.dir sampleMetadata (.cons ⟨utf8 "a".toList, by decide, by decide⟩
      (.file sampleMetadata) .nil)) .nil)

/-- A run over `/home` that cannot open it. -/
def sampleTreeRun : TreeRun sampleDigest where
  config := ⟨some (utf8 "/home".toList), [], 8⟩
  roots := [utf8 "/home".toList]
  accepted := by decide
  host := ⟨fun _ => none, fun _ _ => none, fun _ => none⟩
  disk := sampleDisk
  wf := by simp [sampleDisk, FsNode.Wf, FsEntries.Wf, FsEntries.names]
  walkFaults := { unopened := fun path => path = utf8 "/home".toList }
  results := walk { unopened := fun path => path = utf8 "/home".toList } sampleDisk
    [utf8 "/home".toList]
  order := List.Perm.refl _
  batches := [[fileRecord sampleDigest (utf8 "/home".toList) sampleMetadata]]
  split := by decide

/-- `/home/a` exists, but its row is deleted. -/
theorem live_row_deleted :
    sampleRow "/home/a" ∈ sampleDb.filesystemIndex ∧
      sampleTreeRun.Live (sampleRow "/home/a").raw ∧
        ¬ ∃ y ∈ (sampleTreeRun.toScanRun.apply sampleDb).filesystemIndex,
          y.pathHash = (sampleRow "/home/a").pathHash := by
  refine ⟨List.mem_cons_self, ?_, ?_⟩
  · refine ⟨utf8 "/home".toList, List.mem_singleton_self _, _,
      [⟨utf8 "a".toList, by decide, by decide⟩], _, rfl, .inDir (.head (.here _)), by decide⟩
  · rintro ⟨y, hy, hhash⟩
    have hrows : ∀ y ∈ (sampleTreeRun.toScanRun.apply sampleDb).filesystemIndex.rows,
        y.pathHash ≠ (sampleRow "/home/a").pathHash := by decide
    exact hrows y hy hhash

theorem live_rows_kept_iff_home :
    (∀ x ∈ sampleDb.filesystemIndex, sampleTreeRun.Live x.raw →
        ∃ y ∈ (sampleTreeRun.toScanRun.apply sampleDb).filesystemIndex,
          y.pathHash = x.pathHash) ↔
      ∀ x ∈ sampleDb.filesystemIndex, sampleTreeRun.Live x.raw → sampleTreeRun.Reaches x.raw := by
  refine live_rows_kept_iff sampleTreeRun sampleDb wf_of_mem_sampleDb
    (collisionFree_sample fun run hrun e he => ?_)
  obtain rfl := List.mem_singleton.mp hrun
  have hentries : ∀ e ∈ sampleTreeRun.toScanRun.entries, e.1 = utf8 "/home".toList := by decide
  exact hentries e he

end Cuttlefish
