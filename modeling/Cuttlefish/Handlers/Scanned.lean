import Cuttlefish.Handlers.Listing
import Cuttlefish.Indexer.Subtree

/-!
# Cuttlefish.Handlers.Scanned

From the disk to the API: what `fs_api` answers about a directory that a scan
has walked.  Whatever the index held before, and in whatever order the
walker's threads delivered their results, a listing shows the entries the
directory has on disk, each with the metadata read there
(`listing_of_scan`).

What the walker could not read is missing, and a directory it could not open
looks empty.
-/

namespace Cuttlefish

/-! ## the paths in play -/

/-- Paths among which the truncated digest has no collision, with every
directory above one of them. -/
structure PathsInPlay (d : Digest) (paths : Set Bytes) : Prop where
  free : CollisionFree d paths
  parent : ∀ p ∈ paths, ∀ dir, getParentPath p = some dir → dir ∈ paths

theorem PathsInPlay.inPlay_subset {d : Digest} {paths : Set Bytes} (h : PathsInPlay d paths)
    {dir : Bytes} (hdir : dir ∈ paths) : inPlay paths dir ⊆ paths := by
  intro p hp
  rcases hp with hp | ⟨e, he, hparent⟩ | rfl
  · exact hp
  · exact h.parent e he p hparent
  · exact hdir

/-! ## entries on disk -/

/-- An entry on disk, as the API reports it. -/
def ApiDb.diskInfo (db : ApiDb) (e : Bytes × Metadata) : FileInfo where
  path := fromUtf8Lossy e.1
  pathRaw := if IsUtf8 e.1 then none else some e.1
  sizeBytes := e.2.len.toInt64.toInt
  fileType := fileTypeOf e.2.mode
  perms := formatPermissions (Nat.toDigits 8 (e.2.mode &&& 0o777).toNat)
  uid := asI32 e.2.uid
  gid := asI32 e.2.gid
  user := ((db.identity.identityMap.find? (asI32 e.2.uid, .uid)).map (·.name)).getD
    (intText (asI32 e.2.uid))
  group := ((db.identity.identityMap.find? (asI32 e.2.gid, .gid)).map (·.name)).getD
    (intText (asI32 e.2.gid))
  mtime := e.2.mtime
  atime := e.2.atime
  ctime := e.2.ctime

/-- The row of an entry, as the API reports it; `metadata` is not read. -/
theorem info_entryRow {d : Digest} {db : ApiDb} {x : IndexRow} {e : Bytes × Metadata}
    (h : x.entry = (fileRecord d e.1 e.2).toRow) : (db.entryRow x).info = db.diskInfo e := by
  have hentry : (db.entryRow x).info = (db.entryRow x.entry).info := rfl
  rw [hentry, h]
  rfl

/-- The walker reports the entry at `path`. -/
def WalkFaults.reports (faults : WalkFaults) (path : Bytes) : Bool :=
  !faults.unread path && !faults.noMetadata path

theorem reached_nil {faults : WalkFaults} {path : Bytes} :
    Reached faults path [] ↔ faults.reports path = true := by
  simp [Reached, WalkFaults.reports]

/-- The entries of the directory at `dir`, as far as the walker reports them;
none if the directory cannot be read or opened. -/
def shown (faults : WalkFaults) (dir : Bytes) (entries : FsEntries) : List (Bytes × Metadata) :=
  if faults.unread dir || faults.unopened dir then []
  else (entries.toList.map fun e => (e.1.under dir, e.2.metadata)).filter fun e => faults.reports e.1

/-! ## the index behind a run -/

namespace TreeRun

variable {d : Digest} {paths : Set Bytes} {db : Db} {run : TreeRun d}

theorem Finds.ne_nil {path : Bytes} {n : FsNode} (h : run.Finds path n) : path ≠ [] := by
  have habs := absolute_of_coveredBy run.accepted (h.coveredBy (scanRootCovers_self path))
  rintro rfl
  simp at habs

/-- What a directory shows is what the walker reports of its entries. -/
theorem mem_shown_iff {dir : Bytes} {md : Metadata} {entries : FsEntries} {e : Bytes × Metadata} :
    e ∈ shown run.walkFaults dir entries ↔
      e ∈ run.below dir (.dir md entries) ∧ EntryOf dir e.1 := by
  rw [below, mem_walkNode]
  constructor
  · intro he
    unfold shown at he
    split_ifs at he with hclosed
    · simp at he
    · rw [List.mem_filter, List.mem_map] at he
      obtain ⟨⟨⟨name, child⟩, hmem, rfl⟩, hreports⟩ := he
      simp only [Bool.or_eq_true, not_or, Bool.not_eq_true] at hclosed
      have hat : (FsNode.dir md entries).At [name] child :=
        .inDir (FsEntries.at_iff.mpr ⟨child, hmem, .here child⟩)
      exact ⟨⟨[name], child, hat, rfl, hclosed.1, hclosed.2, reached_nil.mpr hreports⟩, name, rfl⟩
  · intro he
    obtain ⟨⟨names, n, hat, rfl, hreached⟩, name, hname⟩ := he
    have hnames : names = [name] := joinNames_inj dir hname
    subst hnames
    cases hat with
    | inDir hat =>
        obtain ⟨child, hmem, hchild⟩ := FsEntries.at_iff.mp hat
        cases hchild
        obtain ⟨hread, hopened, hreports⟩ := hreached
        rw [shown, if_neg (by simp [hread, hopened]), List.mem_filter]
        exact ⟨List.mem_map.mpr ⟨(name, n), hmem, rfl⟩, reached_nil.mp hreports⟩

theorem nodup_shown {dir : Bytes} {md : Metadata} {entries : FsEntries}
    (h : run.Finds dir (.dir md entries)) :
    ((shown run.walkFaults dir entries).map Prod.fst).Nodup := by
  have hwf : entries.Wf := h.located.wf (wf_of_find run.disk run.wf h.found)
  have hall : ((entries.toList.map fun e => (e.1.under dir, e.2.metadata)).map Prod.fst).Nodup := by
    have hnames := hwf.nodup_names
    rw [FsEntries.names_eq] at hnames
    rw [List.map_map]
    have hcomp : (Prod.fst ∘ fun e : FileName × FsNode => (e.1.under dir, e.2.metadata)) =
        (fun name : FileName => name.under dir) ∘ Prod.fst := rfl
    rw [hcomp, ← List.map_map]
    exact hnames.map fun _ _ hsame => FileName.under_inj hsame
  unfold shown
  split_ifs
  · exact List.nodup_nil
  · exact hall.sublist (List.filter_sublist.map _)

/-- Everything the walk hands over is a walker path. -/
theorem walkerPath_of_mem_entries {e : Bytes × Metadata} (he : e ∈ run.toScanRun.entries) :
    WalkerPath e.1 := by
  obtain ⟨root, hroot, _, names, _, _, _, rfl, _⟩ :=
    mem_walk.mp ((run.order.filterMap visited).subset he)
  obtain ⟨raw, _, hraw⟩ := exists_of_mem_roots run.accepted hroot
  exact ⟨raw, root, names, hraw, rfl⟩

/-- Linked rows are recorded. -/
theorem recorded_of_linked {index : Index} (h : ∀ x ∈ index, x.Linked d paths) :
    Recorded d paths index := by
  intro x hx
  have hlinked := h x hx
  obtain ⟨raw, root, names, hroot, hpath⟩ := hlinked.walked
  refine ⟨⟨?_, hlinked.pathHash_eq, hlinked.path_eq⟩, hlinked.emitted⟩
  rw [hpath]
  exact (absolute_of_normalizeScanRoot hroot).trans (covers_joinNames root names).isPrefix

/-- A scan over an index that any scans, crashes and clean-ups of paths in play
led to. -/
structure Over (run : TreeRun d) (paths : Set Bytes) (db : Db) : Prop where
  inPlay : PathsInPlay d paths
  reachable : ∃ scan, Reachable (ScanDb.next d) (FromWalk paths) ScanDb.init scan ∧
    db.filesystemIndex = scan.index
  entries : ∀ e ∈ run.toScanRun.entries, e.1 ∈ paths

/-- The index as the run finds it. -/
theorem Over.recorded (h : run.Over paths db) : Recorded d paths db.filesystemIndex := by
  obtain ⟨scan, hscan, hdb⟩ := h.reachable
  rw [hdb]
  exact recorded_of_linked (linked_of_reachable h.inPlay.free hscan)

section Behind

variable (hscan : run.Over paths db)
include hscan

/-- **A run keeps the links**: what it finds outside its roots was linked, and
what it leaves below them it has just written. -/
theorem linked_apply :
    ∀ x ∈ (run.toScanRun.apply db).filesystemIndex, x.Linked d paths := by
  intro x hx
  by_cases hcovered : CoveredBy run.roots x.raw
  · have hperm := ScanRun.covered_perm hscan.inPlay.free hscan.entries hscan.recorded
      run.clean_toScanRun
    have hmem : x.entry ∈ run.toScanRun.entries.map fun e => (fileRecord d e.1 e.2).toRow :=
      hperm.subset (List.mem_map_of_mem (List.mem_filter.mpr ⟨hx, decide_eq_true hcovered⟩))
    obtain ⟨e, he, heq⟩ := List.mem_map.mp hmem
    have hlinked : x.entry.Linked d paths := by
      rw [← heq]
      exact linked_toRow e.2 (walkerPath_of_mem_entries he) (hscan.entries e he)
    exact ⟨hlinked.walked, hlinked.emitted, hlinked.path_eq, hlinked.pathHash_eq,
      hlinked.parentHash_eq⟩
  · have hold := (ScanRun.uncovered_iff hscan.inPlay.free hscan.entries hscan.recorded
      hcovered).mp hx
    obtain ⟨scan, hreach, hdb⟩ := hscan.reachable
    exact linked_of_reachable hscan.inPlay.free hreach x (hdb ▸ hold)

/-! ## the rows of a listing -/

section Listed

variable {dir : Bytes} {md : Metadata} {entries : FsEntries} {api : ApiDb} (kept : Bytes → Bool)
  (h : run.Finds dir (.dir md entries)) (hdir : dir ∈ paths)
  (hindex : api.filesystemIndex.rows =
    (run.toScanRun.apply db).filesystemIndex.rows.filter fun x => kept x.raw)
include h hdir hindex

/-- **The rows under a directory's hash** are the records of what it shows. -/
theorem children_perm :
    ((api.filesystemIndex.rows.filter fun x =>
      decide (x.parentHash = some (pathHash d dir))).map IndexRow.entry).Perm
        (((shown run.walkFaults dir entries).filter fun e => kept e.1).map
          fun e => (fileRecord d e.1 e.2).toRow) := by
  have hlinked := linked_apply hscan
  have hlisted : ∀ x : IndexRow, x.Linked d paths →
      (x.parentHash = some (pathHash d dir) ↔ EntryOf dir x.raw) := fun x hx =>
    parentHash_eq_iff hx h.ne_nil (hscan.inPlay.free.mono (hscan.inPlay.inPlay_subset hdir))
  have hsubtree := subtree_perm hscan.inPlay.free hscan.entries hscan.recorded h
  refine (List.perm_ext_iff_of_nodup ?_ ?_).mpr fun y => ?_
  · refine List.Nodup.of_map IndexRow.pathHash ?_
    rw [List.map_map]
    exact api.filesystemIndex.nodup.sublist (List.filter_sublist.map _)
  · refine List.Nodup.of_map IndexRow.raw ?_
    have hraw : (IndexRow.raw ∘ fun e : Bytes × Metadata => (fileRecord d e.1 e.2).toRow) =
        Prod.fst := by
      funext e
      exact raw_toRow d e.1 e.2
    rw [List.map_map, hraw]
    exact (nodup_shown h).sublist (List.filter_sublist.map _)
  · simp only [List.mem_map, List.mem_filter, hindex, decide_eq_true_eq, and_assoc]
    constructor
    · intro hy
      obtain ⟨x, hx, hkept, hparent, rfl⟩ := hy
      have hentry := (hlisted x (hlinked x hx)).mp hparent
      have hcovers : scanRootCovers dir x.raw := by
        obtain ⟨name, hname⟩ := hentry
        exact hname ▸ covers_under name dir
      obtain ⟨e, he, heq⟩ := mem_below hscan.inPlay.free hscan.entries hscan.recorded h hx
        hcovers
      have hraw : e.1 = x.raw := by rw [← raw_entry, heq, raw_toRow]
      exact ⟨e, mem_shown_iff.mpr ⟨he, hraw ▸ hentry⟩, hraw ▸ hkept, heq.symm⟩
    · intro hy
      obtain ⟨e, he, hkept, rfl⟩ := hy
      obtain ⟨hbelow, hentry⟩ := mem_shown_iff.mp he
      obtain ⟨x, hx, heq⟩ := List.mem_map.mp
        (hsubtree.mem_iff.mpr (List.mem_map_of_mem (f := fun e => (fileRecord d e.1 e.2).toRow)
          hbelow))
      have hmem := (List.mem_filter.mp hx).1
      have hraw : x.raw = e.1 := by rw [← raw_entry, heq, raw_toRow]
      exact ⟨x, hmem, hraw ▸ hkept, (hlisted x (hlinked x hmem)).mpr (hraw ▸ hentry), heq⟩

/-- The answer to a listing, entry by entry. -/
theorem files_perm {rows : List EntryRow} (hrows : rows.Perm (childrenQuery d api dir false)) :
    (rows.filterMap (scanRow false)).Perm
      (((shown run.walkFaults dir entries).filter fun e => kept e.1).map api.diskInfo) := by
  have hchildren := children_perm hscan kept h hdir hindex
  have hinfo : ∀ x : IndexRow, (api.entryRow x).info = (api.entryRow x.entry).info := fun _ => rfl
  have hscan : rows.filterMap (scanRow false) = rows.map EntryRow.info :=
    List.filterMap_eq_map_iff_forall_eq_some.mpr fun _ _ => rfl
  have hquery : (childrenQuery d api dir false).map EntryRow.info =
      ((api.filesystemIndex.rows.filter fun x =>
        decide (x.parentHash = some (pathHash d dir))).map IndexRow.entry).map
          fun x => (api.entryRow x).info := by
    simp only [childrenQuery, Bool.false_eq_true, if_false, fromEntries_eq, List.filter_map,
      List.map_map]
    rfl
  have hdisk : (((shown run.walkFaults dir entries).filter fun e => kept e.1).map
      fun e => (fileRecord d e.1 e.2).toRow).map (fun x => (api.entryRow x).info) =
        ((shown run.walkFaults dir entries).filter fun e => kept e.1).map api.diskInfo := by
    rw [List.map_map]
    rfl
  rw [hscan, ← hdisk]
  refine (hrows.map EntryRow.info).trans ?_
  rw [hquery]
  exact hchildren.map _

end Listed

/-- The row of something the walker reports. -/
theorem exists_row {path : Bytes} {n : FsNode} {e : Bytes × Metadata} (h : run.Finds path n)
    (he : e ∈ run.below path n) :
    ∃ x ∈ (run.toScanRun.apply db).filesystemIndex,
      x.entry = (fileRecord d e.1 e.2).toRow := by
  have hsubtree := subtree_perm hscan.inPlay.free hscan.entries hscan.recorded h
  obtain ⟨x, hx, heq⟩ := List.mem_map.mp (hsubtree.mem_iff.mpr
    (List.mem_map_of_mem (f := fun e => (fileRecord d e.1 e.2).toRow) he))
  exact ⟨x, (List.mem_filter.mp hx).1, heq⟩

end Behind

/-- The directory itself is reported. -/
theorem self_mem_below {path : Bytes} (n : FsNode) (h : run.walkFaults.reports path = true) :
    (path, n.metadata) ∈ run.below path n := by
  rw [below, mem_walkNode]
  exact ⟨[], n, .here n, rfl, reached_nil.mpr h⟩

/-- What is reported below a directory is emitted. -/
theorem mem_entries_of_below {path : Bytes} {n : FsNode} {e : Bytes × Metadata}
    (h : run.Finds path n) (he : e ∈ run.below path n) : e ∈ run.toScanRun.entries := by
  have hwalk := (mem_walk_covered run.walkFaults run.wf (roots_disjoint run.accepted)
    h.root_mem h.found h.located h.wayOpen (e := e)).mpr (h.path_eq ▸ he)
  exact (run.order.filterMap visited).mem_iff.mpr hwalk.1

end TreeRun

/-- **A listing shows the disk.**  Take an index that any scans, crashes and
clean-ups led to, and walk a file system over it.  Whoever may see a directory
the walker reported then gets its entries as they are on disk: all that the
walker reported, and nothing else. -/
theorem listing_of_scan {d : Digest} {paths : Set Bytes} {db : Db} {run : TreeRun d}
    (hscan : run.Over paths db) {dir : Bytes} {md : Metadata} {entries : FsEntries}
    (h : run.Finds dir (.dir md entries)) (hreports : run.walkFaults.reports dir = true)
    (api : ApiDb) (hapi : api.toDb = run.toScanRun.apply db) (a : Access)
    (hallows : a.allows dir = true) (rows : List EntryRow)
    (hrows : rows.Perm (childrenQuery d api dir false)) :
    ∃ files, listDirectory d api a dir false rows = .ok files ∧
      files.Perm ((shown run.walkFaults dir entries).map api.diskInfo) := by
  have hself := TreeRun.self_mem_below (.dir md entries) hreports
  have hdir : dir ∈ paths := hscan.entries _ (TreeRun.mem_entries_of_below h hself)
  have hindex : api.filesystemIndex.rows =
      (run.toScanRun.apply db).filesystemIndex.rows.filter fun _ => true := by
    rw [List.filter_eq_self.mpr fun _ _ => rfl, ← hapi]
  have hfiles := TreeRun.files_perm hscan (fun _ => true) h hdir hindex hrows
  rw [List.filter_eq_self.mpr fun _ _ => rfl] at hfiles
  refine ⟨_, ?_, hfiles⟩
  -- the directory has a row, so an empty listing is no error
  have hindexed : api.indexed (pathHash d dir) = true := by
    obtain ⟨x, hx, hentry⟩ := TreeRun.exists_row hscan h hself
    have hhash : x.pathHash = pathHash d dir := by
      rw [← pathHash_entry, hentry]
      rfl
    have hmem : x ∈ api.filesystemIndex := by
      rw [show api.filesystemIndex = api.toDb.filesystemIndex from rfl, hapi]
      exact hx
    rw [ApiDb.indexed, Table.find?_eq_some.mpr ⟨hmem, hhash⟩]
    rfl
  rw [listDirectory, if_neg h.ne_nil, if_neg (not_not_intro hallows)]
  dsimp only
  rw [if_neg (by simp [hindexed])]

/-! ### an instance

`/home` with its one file, scanned again over an index that knows both. -/

/-- The walk of `/home`, the file first. -/
def sampleRescan : TreeRun sampleDigest where
  config := ⟨some (utf8 "/home".toList), [], 8⟩
  roots := [utf8 "/home".toList]
  accepted := sampleTreeRun.accepted
  host := ⟨fun _ => none, fun _ _ => none, fun _ => none⟩
  disk := sampleDisk
  wf := sampleTreeRun.wf
  walkFaults := {}
  results := (walk {} sampleDisk [utf8 "/home".toList]).reverse
  order := List.reverse_perm _
  batches := [[fileRecord sampleDigest (utf8 "/home/a".toList) sampleMetadata],
    [fileRecord sampleDigest (utf8 "/home".toList) sampleMetadata]]
  split := by decide

/-- The tables the API reads after it. -/
def rescanApi : ApiDb where
  toDb := sampleRescan.toScanRun.apply ⟨sampleScan.index, ⟨Table.empty, Table.empty⟩⟩
  dirStats := Table.empty

theorem ne_nil_a : utf8 "a".toList ≠ [] := by decide

theorem slash_not_mem_a : slash ∉ utf8 "a".toList := by decide

/-- The name of the one file. -/
def nameA : FileName := ⟨utf8 "a".toList, ne_nil_a, slash_not_mem_a⟩

/-- `/home`, where the walk finds it. -/
def sampleFinds : sampleRescan.Finds (utf8 "/home".toList)
    (.dir sampleMetadata (.cons nameA (.file sampleMetadata) .nil)) where
  root := utf8 "/home".toList
  root_mem := List.mem_singleton_self _
  node := _
  found := rfl
  names := []
  located := .here _
  path_eq := rfl
  wayOpen := trivial

theorem pathsInPlay_sample :
    PathsInPlay sampleDigest (inPlay sampleEmitted (utf8 "/home".toList)) where
  free := collisionFree_sampleEmitted
  parent := by
    intro p hp dir hparent
    have hroot : getParentPath (utf8 "/".toList) = none := by decide
    have hhome : getParentPath (utf8 "/home".toList) = some (utf8 "/".toList) := by decide
    have ha : getParentPath (utf8 "/home/a".toList) = some (utf8 "/home".toList) := by decide
    rcases hp with hp | ⟨e, he, hup⟩ | rfl
    · exact Or.inr (Or.inl ⟨p, hp, hparent⟩)
    · rcases he with rfl | rfl
      · rw [hhome] at hup
        cases hup
        rw [hroot] at hparent
        cases hparent
      · rw [ha] at hup
        cases hup
        exact Or.inr (Or.inl ⟨_, Or.inl rfl, hparent⟩)
    · exact Or.inr (Or.inl ⟨_, Or.inl rfl, hparent⟩)

theorem over_sampleRescan : sampleRescan.Over (inPlay sampleEmitted (utf8 "/home".toList))
    ⟨sampleScan.index, ⟨Table.empty, Table.empty⟩⟩ where
  inPlay := pathsInPlay_sample
  reachable := by
    refine ⟨sampleScan, reachable_sampleScan.mono fun s a h => ?_, rfl⟩
    cases a with
    | batch entries fails => exact fun e he => ⟨(h e he).1, Or.inl (h e he).2⟩
    | startRun => trivial
    | cleanup roots => trivial
    | removeKcore => trivial
  entries := by
    have hentries : ∀ e ∈ sampleRescan.toScanRun.entries,
        e.1 = utf8 "/home".toList ∨ e.1 = utf8 "/home/a".toList := by decide
    exact fun e he => Or.inl (hentries e he)

theorem listing_of_scan_home :
    ∃ files, listDirectory sampleDigest rescanApi ⟨"root".toList, .admin, [], []⟩
        (utf8 "/home".toList) false
        (childrenQuery sampleDigest rescanApi (utf8 "/home".toList) false) = .ok files ∧
      files.Perm [rescanApi.diskInfo (utf8 "/home/a".toList, sampleMetadata)] := by
  exact listing_of_scan over_sampleRescan sampleFinds rfl rescanApi rfl _ rfl _ (List.Perm.refl _)

end Cuttlefish
