import Cuttlefish.Indexer.Walk
import Mathlib.Data.List.Pairwise

/-!
# Cuttlefish.Indexer.Subtree

What a scan makes of one directory: among everything the walk of all roots
hands to the visitor, what lies at or below a directory is the walk of that
directory (`walk_covered_perm`), and a run leaves the index with its records
there (`TreeRun.subtree_perm`).

Both rest on the way to a place being unique: the names that lead there are
the components of its path behind the root (`covers_joinNames_iff`), and a
directory lists a name once (`FsNode.At.unique`).
-/

namespace Cuttlefish

/-! ## places in a tree -/

/-- The entries of a directory, name by name. -/
def FsEntries.toList : FsEntries → List (FileName × FsNode)
  | .nil => []
  | .cons name node rest => (name, node) :: rest.toList

theorem FsEntries.names_eq (entries : FsEntries) : entries.names = entries.toList.map Prod.fst := by
  induction entries using FsEntries.rec (motive_1 := fun _ => True) with
  | nil => rfl
  | cons name node rest _ ih => rw [names, toList, List.map_cons, ih]
  | file => trivial
  | dir => trivial

theorem FsEntries.at_iff {entries : FsEntries} {name : FileName} {names : List FileName}
    {n : FsNode} :
    entries.At name names n ↔ ∃ child, (name, child) ∈ entries.toList ∧ child.At names n := by
  induction entries using FsEntries.rec (motive_1 := fun _ => True) with
  | nil =>
      constructor
      · intro h
        cases h
      · intro h
        obtain ⟨_, hmem, _⟩ := h
        cases hmem
  | cons name' node rest _ ih =>
      constructor
      · intro h
        cases h with
        | head h => exact ⟨node, List.mem_cons_self, h⟩
        | tail h =>
            obtain ⟨child, hmem, hat⟩ := ih.mp h
            exact ⟨child, List.mem_cons_of_mem _ hmem, hat⟩
      · intro h
        obtain ⟨child, hmem, hat⟩ := h
        cases List.mem_cons.mp hmem with
        | inl hself =>
            cases hself
            exact .head hat
        | inr hrest => exact .tail (ih.mpr ⟨child, hrest, hat⟩)
  | file => trivial
  | dir => trivial

/-- A directory that lists no name twice has one entry by a name, and the
entry is well formed. -/
theorem FsEntries.Wf.unique {entries : FsEntries} (h : entries.Wf) {name : FileName}
    {child child' : FsNode} (hmem : (name, child) ∈ entries.toList)
    (hmem' : (name, child') ∈ entries.toList) : child = child' ∧ child.Wf := by
  induction entries using FsEntries.rec (motive_1 := fun _ => True) with
  | nil => cases hmem
  | cons name' node rest _ ih =>
      obtain ⟨hname, hnode, hrest⟩ := h
      rw [FsEntries.names_eq] at hname
      have hlisted : ∀ c, (name, c) ∈ rest.toList → name ≠ name' := by
        intro c hc heq
        exact hname (heq ▸ List.mem_map_of_mem (f := Prod.fst) hc)
      rw [toList, List.mem_cons] at hmem hmem'
      cases hmem with
      | inl hself =>
          cases hself
          cases hmem' with
          | inl hself' =>
              cases hself'
              exact ⟨rfl, hnode⟩
          | inr hrest' => exact absurd rfl (hlisted _ hrest')
      | inr hmem =>
          cases hmem' with
          | inl hself' =>
              cases hself'
              exact absurd rfl (hlisted _ hmem)
          | inr hmem' => exact ih hrest hmem hmem'
  | file => trivial
  | dir => trivial

theorem FsEntries.Wf.nodup_names {entries : FsEntries} (h : entries.Wf) : entries.names.Nodup := by
  induction entries using FsEntries.rec (motive_1 := fun _ => True) with
  | nil => exact List.nodup_nil
  | cons name node rest _ ih => exact List.nodup_cons.mpr ⟨h.1, ih h.2.2⟩
  | file => trivial
  | dir => trivial

/-- Names lead to one place. -/
theorem FsNode.At.unique {node n n' : FsNode} {names : List FileName} (hwf : node.Wf)
    (h : node.At names n) (h' : node.At names n') : n = n' := by
  induction names generalizing node with
  | nil =>
      cases h
      cases h'
      rfl
  | cons name names ih =>
      cases h with
      | inDir h =>
          cases h' with
          | inDir h' =>
              obtain ⟨child, hmem, hat⟩ := FsEntries.at_iff.mp h
              obtain ⟨child', hmem', hat'⟩ := FsEntries.at_iff.mp h'
              obtain ⟨hsame, hchild⟩ := FsEntries.Wf.unique hwf hmem hmem'
              subst hsame
              exact ih hchild hat hat'

theorem FsNode.At.wf {node n : FsNode} {names : List FileName} (hwf : node.Wf)
    (h : node.At names n) : n.Wf := by
  induction names generalizing node with
  | nil =>
      cases h
      exact hwf
  | cons name names ih =>
      cases h with
      | inDir h =>
          obtain ⟨child, hmem, hat⟩ := FsEntries.at_iff.mp h
          exact ih (FsEntries.Wf.unique hwf hmem hmem).2 hat

/-- A way goes on from where its first part leads. -/
theorem FsNode.at_append {node n : FsNode} {names rest : List FileName} :
    node.At (names ++ rest) n ↔ ∃ m, node.At names m ∧ m.At rest n := by
  induction names generalizing node with
  | nil =>
      constructor
      · intro h
        exact ⟨node, .here node, h⟩
      · intro h
        obtain ⟨m, hm, hn⟩ := h
        cases hm
        exact hn
  | cons name names ih =>
      constructor
      · intro h
        cases h with
        | inDir h =>
            obtain ⟨child, hmem, hat⟩ := FsEntries.at_iff.mp h
            obtain ⟨m, hm, hn⟩ := ih.mp hat
            exact ⟨m, .inDir (FsEntries.at_iff.mpr ⟨child, hmem, hm⟩), hn⟩
      · intro h
        obtain ⟨m, hm, hn⟩ := h
        cases hm with
        | inDir hm =>
            obtain ⟨child, hmem, hat⟩ := FsEntries.at_iff.mp hm
            exact .inDir (FsEntries.at_iff.mpr ⟨child, hmem, ih.mpr ⟨m, hat, hn⟩⟩)

/-! ## paths and names -/

theorem joinNames_append (path : Bytes) (names rest : List FileName) :
    joinNames path (names ++ rest) = joinNames (joinNames path names) rest :=
  List.foldl_append ..

theorem length_le_joinNames (path : Bytes) (names : List FileName) :
    path.length ≤ (joinNames path names).length :=
  (covers_joinNames path names).isPrefix.length_le

/-- **Below a path** lie the ways that go on from its own. -/
theorem covers_joinNames_iff {path : Bytes} {names names' : List FileName} :
    scanRootCovers (joinNames path names) (joinNames path names') ↔ names <+: names' := by
  induction names generalizing path names' with
  | nil => exact ⟨fun _ => List.nil_prefix, fun _ => covers_joinNames path names'⟩
  | cons name names ih =>
      cases names' with
      | nil =>
          constructor
          · intro h
            -- a name makes a path longer
            have hlen := h.isPrefix.length_le
            have hunder := (length_under name path).1
            have hle := length_le_joinNames (name.under path) names
            simp only [joinNames, List.foldl_cons, List.foldl_nil] at hlen hle
            omega
          · intro h
            simp at h
      | cons name' names' =>
          rw [List.cons_prefix_cons]
          constructor
          · intro h
            have hcovers : scanRootCovers (name.under path) (joinNames path (name' :: names')) :=
              (covers_joinNames (name.under path) names).trans h
            have hsame : name = name' :=
              FileName.eq_of_covers hcovers (covers_joinNames (name'.under path) names')
            subst hsame
            exact ⟨rfl, ih.mp h⟩
          · intro h
            obtain ⟨rfl, hprefix⟩ := h
            exact ih.mpr hprefix

theorem joinNames_inj (path : Bytes) {names names' : List FileName}
    (h : joinNames path names = joinNames path names') : names = names' := by
  have hprefix : names <+: names' := covers_joinNames_iff.mp (Or.inl h.symm)
  have hprefix' : names' <+: names := covers_joinNames_iff.mp (Or.inl h)
  exact hprefix.eq_of_length (Nat.le_antisymm hprefix.length_le hprefix'.length_le)

theorem FileName.under_inj {path : Bytes} {name name' : FileName}
    (h : name.under path = name'.under path) : name = name' := by
  have hnames : [name] = [name'] := joinNames_inj path h
  cases hnames
  rfl

/-! ## the walk below a directory -/

/-- From `path` down along `names` the walker reads and opens every directory
but the last. -/
def WayOpen (faults : WalkFaults) : Bytes → List FileName → Prop
  | _, [] => True
  | path, name :: names =>
      faults.unread path = false ∧ faults.unopened path = false ∧
        WayOpen faults (name.under path) names

theorem reached_append {faults : WalkFaults} {path : Bytes} {names rest : List FileName} :
    Reached faults path (names ++ rest) ↔
      WayOpen faults path names ∧ Reached faults (joinNames path names) rest := by
  induction names generalizing path with
  | nil => simp [WayOpen, joinNames]
  | cons name names ih =>
      rw [List.cons_append, Reached, ih, WayOpen]
      simp only [and_assoc]
      rfl

/-- A path lies under one root. -/
theorem eq_of_covers_both {roots : List Bytes} {a b path : Bytes}
    (hroots : roots.Pairwise fun a b => ∀ path, ¬ (scanRootCovers a path ∧ scanRootCovers b path))
    (ha : a ∈ roots) (hb : b ∈ roots) (hpath : scanRootCovers a path)
    (hpath' : scanRootCovers b path) : a = b := by
  have hsymm : Std.Symm fun a b : Bytes =>
      ∀ path, ¬ (scanRootCovers a path ∧ scanRootCovers b path) :=
    ⟨fun _ _ h path hp => h path hp.symm⟩
  by_contra hne
  exact hroots.forall ha hb hne path ⟨hpath, hpath'⟩

section Below

variable (faults : WalkFaults) {disk node n : FsNode} {roots : List Bytes} {root : Bytes}
  {names : List FileName} (hwf : disk.Wf)
  (hroots : roots.Pairwise fun a b => ∀ path, ¬ (scanRootCovers a path ∧ scanRootCovers b path))
  (hroot : root ∈ roots) (hfind : disk.find root [slash] = some node) (hat : node.At names n)
  (hopen : WayOpen faults root names)
include hwf hroots hroot hfind hat hopen

/-- **At and below a directory** the walk of all roots visits what the walk of
the directory visits. -/
theorem mem_walk_covered {e : Bytes × Metadata} :
    (e ∈ (walk faults disk roots).filterMap visited ∧ scanRootCovers (joinNames root names) e.1) ↔
      e ∈ (walkNode faults (joinNames root names) n).filterMap visited := by
  rw [mem_walk, mem_walkNode]
  constructor
  · intro h
    obtain ⟨⟨root', hroot', node', names', n', hfind', hat', rfl, hreached⟩, hcovers⟩ := h
    have hsame : root' = root := eq_of_covers_both hroots hroot' hroot
      (covers_joinNames root' names') ((covers_joinNames root names).trans hcovers)
    subst hsame
    rw [hfind] at hfind'
    cases hfind'
    obtain ⟨rest, rfl⟩ := covers_joinNames_iff.mp hcovers
    obtain ⟨m, hm, hrest⟩ := FsNode.at_append.mp hat'
    rw [← FsNode.At.unique (wf_of_find disk hwf hfind) hat hm] at hrest
    exact ⟨rest, n', hrest, by rw [joinNames_append], (reached_append.mp hreached).2⟩
  · intro h
    obtain ⟨rest, n', hrest, rfl, hreached⟩ := h
    refine ⟨⟨root, hroot, node, names ++ rest, n', hfind, FsNode.at_append.mpr ⟨n, hat, hrest⟩,
      by rw [joinNames_append], reached_append.mpr ⟨hopen, hreached⟩⟩, ?_⟩
    exact covers_joinNames _ rest

theorem walk_covered_perm :
    (((walk faults disk roots).filterMap visited).filter fun e =>
      scanRootCovers (joinNames root names) e.1).Perm
        ((walkNode faults (joinNames root names) n).filterMap visited) := by
  have hwalk : ((walk faults disk roots).filterMap visited).Nodup :=
    (nodup_walk hwf hroots).of_map
  have hnode : ((walkNode faults (joinNames root names) n).filterMap visited).Nodup :=
    (nodup_walkNode n (hat.wf (wf_of_find disk hwf hfind))).of_map
  rw [List.perm_ext_iff_of_nodup (hwalk.filter _) hnode]
  intro e
  rw [List.mem_filter, decide_eq_true_eq]
  exact mem_walk_covered faults hwf hroots hroot hfind hat hopen

end Below

/-! ## the index below a directory -/

namespace TreeRun

variable {d : Digest}

/-- The directory or file `n` at `path`, under a root of the run, with every
directory above it up to the root read and opened. -/
structure Finds (run : TreeRun d) (path : Bytes) (n : FsNode) where
  root : Bytes
  root_mem : root ∈ run.roots
  node : FsNode
  found : run.disk.find root [slash] = some node
  names : List FileName
  located : node.At names n
  path_eq : path = joinNames root names
  wayOpen : WayOpen run.walkFaults root names

/-- What the walker reports at and below `path`, where `n` stands. -/
def below (run : TreeRun d) (path : Bytes) (n : FsNode) : List (Bytes × Metadata) :=
  (walkNode run.walkFaults path n).filterMap visited

theorem Finds.coveredBy {run : TreeRun d} {path p : Bytes} {n : FsNode} (h : run.Finds path n)
    (hp : scanRootCovers path p) : CoveredBy run.roots p := by
  have hroot := covers_joinNames h.root h.names
  rw [← h.path_eq] at hroot
  exact ⟨h.root, h.root_mem, hroot.trans hp⟩

theorem Finds.nodup_below {run : TreeRun d} {path : Bytes} {n : FsNode} (h : run.Finds path n) :
    ((run.below path n).map Prod.fst).Nodup :=
  nodup_walkNode n (h.located.wf (wf_of_find run.disk run.wf h.found))

section Rows

variable {run : TreeRun d} {db : Db} {paths : Set Bytes} {path : Bytes} {n : FsNode}
  (hfree : CollisionFree d paths) (hentries : ∀ e ∈ run.toScanRun.entries, e.1 ∈ paths)
  (hdb : Recorded d paths db.filesystemIndex) (h : run.Finds path n)
include hfree hentries hdb h

/-- **After a run, the rows at and below a directory** are the records of what
the walker reports there. -/
theorem subtree_perm :
    (((run.toScanRun.apply db).filesystemIndex.rows.filter fun x => scanRootCovers path x.raw).map
      IndexRow.entry).Perm ((run.below path n).map fun e => (fileRecord d e.1 e.2).toRow) := by
  have hcovered := ScanRun.covered_perm hfree hentries hdb run.clean_toScanRun
  have hrows : ((run.toScanRun.apply db).filesystemIndex.rows.filter fun x =>
      scanRootCovers path x.raw).map IndexRow.entry =
        (((run.toScanRun.apply db).filesystemIndex.rows.filter fun x =>
          CoveredBy run.toScanRun.roots x.raw).map IndexRow.entry).filter fun x =>
            scanRootCovers path x.raw := by
    rw [List.filter_map, List.filter_filter]
    refine congrArg _ (List.filter_congr fun x _ => ?_)
    by_cases hx : scanRootCovers path x.raw
    · simp [hx, show CoveredBy run.toScanRun.roots x.raw from h.coveredBy hx]
    · simp [hx]
  have hentries' : ((run.toScanRun.entries.map fun e => (fileRecord d e.1 e.2).toRow).filter
      fun x => scanRootCovers path x.raw) =
        (run.toScanRun.entries.filter fun e => scanRootCovers path e.1).map
          fun e => (fileRecord d e.1 e.2).toRow := by
    rw [List.filter_map]
    refine congrArg _ (List.filter_congr fun e _ => ?_)
    simp
  rw [hrows]
  refine (hcovered.filter _).trans ?_
  rw [hentries']
  refine List.Perm.map _ (((run.order.filterMap visited).filter _).trans ?_)
  have hwalk := walk_covered_perm run.walkFaults run.wf (roots_disjoint run.accepted)
    h.root_mem h.found h.located h.wayOpen
  rw [← h.path_eq] at hwalk
  exact hwalk

/-- A row at or below `path` is the record of something the walker reports
there. -/
theorem mem_below {x : IndexRow} (hx : x ∈ (run.toScanRun.apply db).filesystemIndex)
    (hcovers : scanRootCovers path x.raw) :
    ∃ e ∈ run.below path n, x.entry = (fileRecord d e.1 e.2).toRow := by
  have hmem : x.entry ∈ ((run.toScanRun.apply db).filesystemIndex.rows.filter fun x =>
      scanRootCovers path x.raw).map IndexRow.entry :=
    List.mem_map_of_mem (List.mem_filter.mpr ⟨hx, by simpa using hcovers⟩)
  obtain ⟨e, he, heq⟩ :=
    List.mem_map.mp ((subtree_perm hfree hentries hdb h).mem_iff.mp hmem)
  exact ⟨e, he, heq.symm⟩

end Rows

end TreeRun

end Cuttlefish
