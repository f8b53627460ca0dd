import Cuttlefish.Aggregator.Tables

/-!
# Cuttlefish.Aggregator.Snapshot

An index in which every entry's directory is indexed too, after a run of the
aggregator.

`sizeBelow_eq` takes the total of a directory apart: the sizes of its counted
entries, plus the totals of its subdirectories.  `Snapshot.find?_dirStats`
says what `dir_stats` holds of it.
-/

namespace Cuttlefish

/-! ## snapshots -/

/-- A row as the indexer stores it. -/
structure IndexRow.Stored (d : Digest) (x : IndexRow) : Prop where
  canonical : Canonical x.raw
  pathHash_eq : x.pathHash = computeHashBytes d x.raw
  parentHash_eq : x.parentHash = (getParentPath x.raw).map (computeHashBytes d)
  size_nonneg : 0 ≤ x.sizeBytes
  size_le : x.sizeBytes ≤ i64Max

/-- The paths of an index. -/
def Index.paths (index : Index) : Set Bytes := {p | ∃ x ∈ index, x.raw = p}

/-- Every entry's directory is indexed, and `dir_stats` is fresh. -/
structure Snapshot (d : Digest) (db : ListDb) : Prop where
  stored : ∀ x ∈ db.filesystemIndex, x.Stored d
  free : CollisionFree d (Index.paths db.filesystemIndex)
  parents : ∀ x ∈ db.filesystemIndex, ∀ dir, getParentPath x.raw = some dir →
    ∃ p ∈ db.filesystemIndex, p.raw = dir ∧ p.fileType = 2
  aggregated : RunAggregation d db.filesystemIndex db.dirStats db.userStats

/-! ## the rows of a directory -/

/-- The entries of `dir`. -/
def entriesOf (index : Index) (dir : Bytes) : List IndexRow :=
  index.rows.filter fun x => getParentPath x.raw = some dir

/-- The rows that count for `dir`. -/
def countedBelow (index : Index) (dir : Bytes) : List IndexRow :=
  index.rows.filter fun x => x.counted ∧ StrictlyBelow dir x.raw

/-- The sizes of some rows, added up. -/
def sumSizes (rows : List IndexRow) : Int := (rows.map IndexRow.sizeBytes).sum

/-- The sizes that count for `dir`. -/
def sizeBelow (index : Index) (dir : Bytes) : Int := sumSizes (countedBelow index dir)

/-- The subdirectories of `dir`. -/
def subdirectories (index : Index) (dir : Bytes) : List IndexRow :=
  (entriesOf index dir).filter fun x => x.fileType = 2

/-! ## parents by components -/

/-- The parent of a canonical path drops the last component. -/
theorem Canonical.getParentPath_eq {p : Bytes} (h : Canonical p) :
    getParentPath p =
      if components p = [] then none else some (absPath (components p).dropLast) := by
  obtain ⟨cs, hcs, rfl⟩ := canonical_iff.mp h
  rw [components_absPath hcs]
  cases cs using List.reverseRecOn with
  | nil => rfl
  | append_singleton cs c _ =>
      have hc : IsComponent c := hcs c (by simp)
      have hpre : ∀ x ∈ cs, x ≠ [] := fun x hx => (hcs x (by simp [hx])).ne_nil
      rw [if_neg (by simp), List.dropLast_concat, absPath_concat hpre]
      exact getParentPath_under (by simp [absPath]) hc.ne_nil hc.slash_not_mem

theorem getParentPath_eq_some_iff {p dir : Bytes} (hp : Canonical p) (hdir : Canonical dir) :
    getParentPath p = some dir ↔ ∃ c, components p = components dir ++ [c] := by
  rw [hp.getParentPath_eq]
  constructor
  · intro h
    split_ifs at h with hnil
    cases h
    have hpre : ∀ c ∈ (components p).dropLast, IsComponent c := fun c hc =>
      hp.isComponent c ((components p).dropLast_sublist.subset hc)
    exact ⟨(components p).getLast hnil,
      by rw [components_absPath hpre, List.dropLast_append_getLast]⟩
  · intro h
    obtain ⟨c, hc⟩ := h
    rw [if_neg (by simp [hc]), hc, List.dropLast_concat, ← hdir.eq_absPath]

section Snapshot

variable {d : Digest} {db : ListDb} (hsnap : Snapshot d db)
include hsnap

/-- A path names one row. -/
theorem Snapshot.eq_of_raw_eq {x y : IndexRow} (hx : x ∈ db.filesystemIndex)
    (hy : y ∈ db.filesystemIndex) (h : x.raw = y.raw) : x = y := by
  refine List.inj_on_of_nodup_map db.filesystemIndex.nodup hx hy ?_
  rw [(hsnap.stored x hx).pathHash_eq, (hsnap.stored y hy).pathHash_eq, h]

/-- Every directory above a row is indexed. -/
theorem Snapshot.exists_directory {x : IndexRow} (hx : x ∈ db.filesystemIndex) {dir : Bytes}
    (h : StrictlyBelow dir x.raw) :
    ∃ p ∈ db.filesystemIndex, p.raw = dir ∧ p.fileType = 2 := by
  -- on the depth of the row
  induction hn : (components x.raw).length generalizing x with
  | zero =>
      have hnil := List.length_eq_zero_iff.mp hn
      exact absurd (List.prefix_nil.mp (hnil ▸ h.2.1)) fun heq => h.2.2 (heq.trans hnil.symm)
  | succ n ih =>
      have hcanonical := (hsnap.stored x hx).canonical
      have hne : components x.raw ≠ [] := by
        intro hnil
        simp [hnil] at hn
      have hparent : getParentPath x.raw = some (absPath (components x.raw).dropLast) := by
        rw [hcanonical.getParentPath_eq, if_neg hne]
      obtain ⟨p, hp, hraw, htype⟩ := hsnap.parents x hx _ hparent
      have hcomponents : components p.raw = (components x.raw).dropLast := by
        rw [hraw, components_absPath fun c hc =>
          hcanonical.isComponent c ((components x.raw).dropLast_sublist.subset hc)]
      by_cases heq : p.raw = dir
      · exact ⟨p, hp, heq, htype⟩
      · refine ih hp ⟨h.1, ?_, fun hsame => heq ?_⟩ (by simp [hcomponents, hn])
        · obtain ⟨rest, hrest⟩ := h.2.1
          have hrest' : rest ≠ [] := by
            rintro rfl
            exact h.2.2 (by simpa using hrest)
          rw [hcomponents, ← hrest, List.dropLast_append_of_ne_nil hrest']
          exact List.prefix_append _ _
        · rw [(hsnap.stored p hp).canonical.eq_absPath, ← hsame, ← h.1.eq_absPath]

theorem Snapshot.mem_subdirectories {dir : Bytes} (hdir : Canonical dir) {c : IndexRow} :
    c ∈ subdirectories db.filesystemIndex dir ↔
      c ∈ db.filesystemIndex ∧ (∃ name, components c.raw = components dir ++ [name]) ∧
        c.fileType = 2 := by
  simp only [subdirectories, entriesOf, List.mem_filter, decide_eq_true_eq, and_assoc]
  refine and_congr_right fun hc => and_congr_left fun _ => ?_
  exact getParentPath_eq_some_iff (hsnap.stored c hc).canonical hdir

/-- A row below `dir` that is no entry of it lies below a subdirectory. -/
theorem Snapshot.exists_subdirectory {dir : Bytes} {x : IndexRow}
    (hx : x ∈ db.filesystemIndex) (hbelow : StrictlyBelow dir x.raw)
    (hentry : getParentPath x.raw ≠ some dir) :
    ∃ p ∈ subdirectories db.filesystemIndex dir, StrictlyBelow p.raw x.raw := by
  have hcanonical := (hsnap.stored x hx).canonical
  obtain ⟨hdir, ⟨rest, hrest⟩, hne⟩ := hbelow
  rw [Ne, getParentPath_eq_some_iff hcanonical hdir] at hentry
  obtain ⟨name, names, rfl⟩ : ∃ name names, rest = name :: names := by
    cases rest with
    | nil => exact absurd (by simpa using hrest) hne
    | cons name names => exact ⟨name, names, rfl⟩
  have hnames : names ≠ [] := by
    rintro rfl
    exact hentry ⟨name, hrest.symm⟩
  have hproper : ∀ c ∈ components dir ++ [name], IsComponent c := by
    intro c hc
    refine hcanonical.isComponent c ?_
    rw [← hrest]
    simp only [List.mem_append, List.mem_cons, List.not_mem_nil, or_false] at hc ⊢
    exact hc.imp_right Or.inl
  have hbelow : StrictlyBelow (absPath (components dir ++ [name])) x.raw := by
    rw [StrictlyBelow, components_absPath hproper, ← hrest]
    refine ⟨canonical_iff.mpr ⟨_, hproper, rfl⟩, ⟨names, by simp⟩, ?_⟩
    simpa using hnames.symm
  obtain ⟨p, hp, hraw, htype⟩ := hsnap.exists_directory hx hbelow
  refine ⟨p, (hsnap.mem_subdirectories hdir).mpr ⟨hp, ⟨name, ?_⟩, htype⟩, hraw ▸ hbelow⟩
  rw [hraw, components_absPath hproper]

/-- It lies below one only. -/
theorem Snapshot.subdirectory_unique {dir : Bytes} (hdir : Canonical dir) {x c c' : IndexRow}
    (hc : c ∈ subdirectories db.filesystemIndex dir)
    (hc' : c' ∈ subdirectories db.filesystemIndex dir) (h : StrictlyBelow c.raw x.raw)
    (h' : StrictlyBelow c'.raw x.raw) : c = c' := by
  obtain ⟨hmem, ⟨name, hname⟩, _⟩ := (hsnap.mem_subdirectories hdir).mp hc
  obtain ⟨hmem', ⟨name', hname'⟩, _⟩ := (hsnap.mem_subdirectories hdir).mp hc'
  have hprefix : components c.raw <+: components c'.raw :=
    List.prefix_of_prefix_length_le h.2.1 h'.2.1 (by simp [hname, hname'])
  refine hsnap.eq_of_raw_eq hmem hmem' ?_
  rw [h.1.eq_absPath, h'.1.eq_absPath, hprefix.eq_of_length (by simp [hname, hname'])]

/-- What lies below a subdirectory lies below `dir` and is no entry of it. -/
theorem Snapshot.below_of_subdirectory {dir : Bytes} (hdir : Canonical dir) {x c : IndexRow}
    (hx : x ∈ db.filesystemIndex) (hc : c ∈ subdirectories db.filesystemIndex dir)
    (h : StrictlyBelow c.raw x.raw) :
    StrictlyBelow dir x.raw ∧ getParentPath x.raw ≠ some dir := by
  obtain ⟨_, ⟨name, hname⟩, _⟩ := (hsnap.mem_subdirectories hdir).mp hc
  have hlen : (components dir).length + 1 < (components x.raw).length := by
    have hle := h.2.1.length_le
    have hne : (components c.raw).length ≠ (components x.raw).length := fun heq =>
      h.2.2 (h.2.1.eq_of_length heq)
    simp only [hname, List.length_append, List.length_singleton] at hle hne
    omega
  have hprefix : components dir <+: components x.raw :=
    (hname ▸ List.prefix_append _ _).trans h.2.1
  refine ⟨⟨hdir, hprefix, fun heq => ?_⟩, fun hparent => ?_⟩
  · rw [heq] at hlen
    omega
  · obtain ⟨name', hname'⟩ :=
      (getParentPath_eq_some_iff (hsnap.stored x hx).canonical hdir).mp hparent
    rw [hname', List.length_append, List.length_singleton] at hlen
    omega

theorem Snapshot.countP_subdirectories {dir : Bytes} (hdir : Canonical dir) {x : IndexRow}
    (hx : x ∈ db.filesystemIndex) :
    (subdirectories db.filesystemIndex dir).countP (fun c => StrictlyBelow c.raw x.raw) =
      if StrictlyBelow dir x.raw ∧ getParentPath x.raw ≠ some dir then 1 else 0 := by
  split_ifs with h
  · obtain ⟨p, hp, hbelow⟩ := hsnap.exists_subdirectory hx h.1 h.2
    have hiff : ∀ c ∈ subdirectories db.filesystemIndex dir,
        (decide (StrictlyBelow c.raw x.raw) = true ↔ (c == p) = true) := by
      intro c hc
      rw [decide_eq_true_eq, beq_iff_eq]
      constructor
      · intro hcx
        exact hsnap.subdirectory_unique hdir hc hp hcx hbelow
      · rintro rfl
        exact hbelow
    have hnodup : (subdirectories db.filesystemIndex dir).Nodup :=
      (db.filesystemIndex.nodup.of_map.filter _).filter _
    rw [List.countP_congr hiff]
    exact List.count_eq_one_of_mem hnodup hp
  · rw [List.countP_eq_zero]
    intro c hc
    rw [decide_eq_true_eq]
    intro hcx
    exact h (hsnap.below_of_subdirectory hdir hx hc hcx)

/-- An entry lies below its directory. -/
theorem Snapshot.below_of_entry {dir : Bytes} (hdir : Canonical dir) {x : IndexRow}
    (hx : x ∈ db.filesystemIndex) (h : getParentPath x.raw = some dir) :
    StrictlyBelow dir x.raw := by
  obtain ⟨name, hname⟩ := (getParentPath_eq_some_iff (hsnap.stored x hx).canonical hdir).mp h
  refine ⟨hdir, ⟨[name], hname.symm⟩, ?_⟩
  rw [hname]
  simp

/-- **Totals by subdirectories.** -/
theorem Snapshot.sizeBelow_eq {dir : Bytes} (hdir : Canonical dir) :
    sizeBelow db.filesystemIndex dir =
      sumSizes ((entriesOf db.filesystemIndex dir).filter IndexRow.counted) +
        ((subdirectories db.filesystemIndex dir).map fun c =>
          sizeBelow db.filesystemIndex c.raw).sum := by
  let rows := db.filesystemIndex.rows.filter IndexRow.counted
  have hbelow : ∀ dir, countedBelow db.filesystemIndex dir =
      rows.filter fun x => StrictlyBelow dir x.raw := by
    intro dir
    rw [List.filter_filter, countedBelow]
    refine List.filter_congr fun x _ => ?_
    simp [Bool.and_comm]
  have hdeep : sumSizes (rows.filter fun x =>
      StrictlyBelow dir x.raw ∧ getParentPath x.raw ≠ some dir) =
        ((subdirectories db.filesystemIndex dir).map fun c =>
          sizeBelow db.filesystemIndex c.raw).sum := by
    simp only [sizeBelow, hbelow]
    exact sum_filter_eq fun x hx =>
      hsnap.countP_subdirectories hdir (List.mem_of_mem_filter hx)
  have hflat : (countedBelow db.filesystemIndex dir).filter
      (fun x => getParentPath x.raw = some dir) =
        (entriesOf db.filesystemIndex dir).filter IndexRow.counted := by
    rw [countedBelow, entriesOf, List.filter_filter, List.filter_filter]
    refine List.filter_congr fun x hx => ?_
    by_cases hentry : getParentPath x.raw = some dir
    · simp [hentry, hsnap.below_of_entry hdir hx hentry]
    · simp [hentry]
  have hrest : (countedBelow db.filesystemIndex dir).filter
      (fun x => !decide (getParentPath x.raw = some dir)) =
        rows.filter fun x => StrictlyBelow dir x.raw ∧ getParentPath x.raw ≠ some dir := by
    rw [hbelow, List.filter_filter]
    refine List.filter_congr fun x _ => ?_
    simp [Bool.and_comm]
  have hsplit := ((List.filter_append_perm (fun x => decide (getParentPath x.raw = some dir))
    (countedBelow db.filesystemIndex dir)).map IndexRow.sizeBytes).sum_eq
  rw [hflat, hrest, List.map_append, List.sum_append] at hsplit
  rw [← hdeep]
  exact hsplit.symm

/-! ## what `dir_stats` holds -/

theorem Snapshot.indexEntries_wf : ∀ r ∈ indexEntries db.filesystemIndex, r.Wf := by
  intro r hr
  obtain ⟨x, hx, _, rfl⟩ := mem_indexEntries.mp hr
  have hstored := hsnap.stored x hx
  exact ⟨hstored.canonical, hstored.size_nonneg, hstored.size_le⟩

/-- The row of a directory: none for `/` and for a directory without counted
rows below, else their number and capped sizes. -/
theorem Snapshot.find?_dirStats {x : IndexRow} (hx : x ∈ db.filesystemIndex) :
    ((x.raw = [slash] ∨ countedBelow db.filesystemIndex x.raw = []) ∧
        db.dirStats.find? x.pathHash = none) ∨
      (x.raw ≠ [slash] ∧ ∃ s, db.dirStats.find? x.pathHash = some s ∧
        s.totalSizeBytes = some (min i64Max (sizeBelow db.filesystemIndex x.raw)) ∧
        s.fileCount = some ((countedBelow db.filesystemIndex x.raw).length : Int)) := by
  have hwf := hsnap.indexEntries_wf
  have hpaths : ∀ r ∈ indexEntries db.filesystemIndex, ∀ p ∈ foldedInto r.rawPath,
      p ∈ Index.paths db.filesystemIndex := by
    intro r hr p hp
    obtain ⟨y, hy, _, rfl⟩ := mem_indexEntries.mp hr
    have hbelow := ((mem_foldedInto (hsnap.stored y hy).canonical).mp hp).2
    obtain ⟨q, hq, hraw, _⟩ := hsnap.exists_directory hy hbelow
    exact ⟨q, hq, hraw⟩
  have hrows : (indexEntries db.filesystemIndex).filter (fun r => StrictlyBelow x.raw r.rawPath) =
      (countedBelow db.filesystemIndex x.raw).map IndexRow.indexEntry := by
    rw [indexEntries, List.filter_map, List.filter_filter, countedBelow]
    refine congrArg _ (List.filter_congr fun y _ => ?_)
    rw [Bool.and_comm, Bool.decide_and, Bool.decide_eq_true]
    rfl
  obtain ⟨hsome, hsum⟩ := aggregates_spec hwf x.raw
  rw [(hsnap.stored x hx).pathHash_eq,
    hsnap.aggregated.find?_dirStats hwf hsnap.free hpaths ⟨x, hx, rfl⟩]
  cases hnode : (streamRows (indexEntries db.filesystemIndex)).aggregates x.raw with
  | none =>
      refine Or.inl ⟨or_iff_not_imp_left.mpr fun hroot => ?_, rfl⟩
      rw [← List.map_eq_nil_iff (f := IndexRow.indexEntry), ← hrows, List.filter_eq_nil_iff]
      intro r hr hbelow
      obtain ⟨node, hsome'⟩ := hsome.mpr ⟨hroot, r, hr, by simpa using hbelow⟩
      rw [hnode] at hsome'
      contradiction
  | some node =>
      have hsummary := hsum node hnode
      rw [hrows] at hsummary
      refine Or.inr ⟨(hsome.mp ⟨node, hnode⟩).1, _, rfl, ?_, ?_⟩
      · rw [DirNode.toRow, hsummary.size_eq, cappedSize, List.map_map]
        rfl
      · rw [DirNode.toRow, hsummary.count_eq, List.length_map]

end Snapshot

end Cuttlefish
