import Cuttlefish.Aggregator.Snapshot
import Mathlib.Algebra.Order.Field.Basic
import Mathlib.Algebra.Order.Field.Rat
import Mathlib.Data.Rat.Cast.Order

/-!
# Cuttlefish.DetailPanel

The breakdown in the detail panel of `fs_ui`: how much of a directory's total
each of its entries takes up.

The sizes come from a listing, which shows entries of every type, the total
from `dir_stats`, where the aggregator counts files and directories only.
`sharesBounded_iff` says for which directories of a snapshot the two fit
together.  JavaScript's numbers are taken as exact, and colours and rounding
of the labels are left out.
-/

namespace Cuttlefish

/-! ## the breakdown -/

/-- `path.split('/').filter(Boolean).pop() || path`. -/
def baseName (path : Text) : Text :=
  ((path.splitOn '/').filter (· ≠ [])).getLast?.getD path

/-- A child with the size it is shown by. -/
structure Sized where
  name : Text
  size : Int
  deriving DecidableEq, Repr

/-- A segment of the bar; `ratio` is what the label shows, if there is one. -/
structure BreakdownItem where
  name : Text
  ratio : Option ℚ
  flex : Int
  deriving DecidableEq

/-- `aggregates?.total_size_bytes`, with nothing read as 0. -/
def FileInfo.contentsSize (f : FileInfo) : Int := (f.aggregates.map (·.totalSize)).getD 0

/-- Directories go by their contents, everything else by its own size. -/
def effectiveSize (c : FileInfo) : Int := if c.fileType = 2 then c.contentsSize else c.sizeBytes

/-- The children, largest first; the sort is stable. -/
def sized (children : List FileInfo) : List Sized :=
  (children.map fun c => ⟨baseName c.path, effectiveSize c⟩).insertionSort
    fun a b => b.size ≤ a.size

/-- `aggregates?.total_size_bytes || sized.reduce(…) || 1`. -/
def breakdownTotal (selected : FileInfo) (children : List FileInfo) : Int :=
  let listed := ((sized children).map Sized.size).sum
  if selected.contentsSize ≠ 0 then selected.contentsSize
  else if listed ≠ 0 then listed
  else 1

/-- `c.size / total` for every child. -/
def shares (selected : FileInfo) (children : List FileInfo) : List ℚ :=
  (sized children).map fun c => (c.size : ℚ) / breakdownTotal selected children

/-- The contents breakdown of a directory: its four largest children. -/
def contentsBreakdown (selected : FileInfo) (children : List FileInfo) : List BreakdownItem :=
  ((sized children).take 4).map fun c =>
    ⟨c.name, some ((c.size : ℚ) / breakdownTotal selected children), max c.size 1⟩

/-- The share of a file in its directory, where `siblingsTotal` is known. -/
def parentBreakdown (selected : FileInfo) (siblingsTotal : Int) : List BreakdownItem :=
  let size := selected.sizeBytes
  let total := max (max siblingsTotal size) 1
  [⟨baseName selected.path, some ((size : ℚ) / total), max size 1⟩,
    ⟨"Rest of directory".toList, none, max (total - size) 1⟩]

/-- Every share lies between 0 and 1, and so does their sum. -/
def SharesBounded (selected : FileInfo) (children : List FileInfo) : Prop :=
  (∀ s ∈ shares selected children, 0 ≤ s ∧ s ≤ 1) ∧ (shares selected children).sum ≤ 1

/-- The labels show shares. -/
theorem ratio_mem_shares {selected : FileInfo} {children : List FileInfo} {item : BreakdownItem}
    (h : item ∈ contentsBreakdown selected children) :
    ∃ s ∈ shares selected children, item.ratio = some s := by
  obtain ⟨c, hc, rfl⟩ := List.mem_map.mp h
  exact ⟨_, List.mem_map_of_mem (List.mem_of_mem_take hc), rfl⟩

/-- A file's share of its directory is bounded by construction. -/
theorem parentBreakdown_le_one {selected : FileInfo} (siblingsTotal : Int)
    (hsize : 0 ≤ selected.sizeBytes) :
    ∀ item ∈ parentBreakdown selected siblingsTotal, ∀ s, item.ratio = some s → 0 ≤ s ∧ s ≤ 1 := by
  have htotal : 0 < max (max siblingsTotal selected.sizeBytes) 1 := by omega
  have hle : selected.sizeBytes ≤ max (max siblingsTotal selected.sizeBytes) 1 := by omega
  have hpos : (0 : ℚ) < ((max (max siblingsTotal selected.sizeBytes) 1 : Int) : ℚ) := by
    exact_mod_cast htotal
  intro item hitem s hs
  simp only [parentBreakdown, List.mem_cons, List.not_mem_nil, or_false] at hitem
  cases hitem with
  | inl hfile =>
      subst hfile
      cases hs
      refine ⟨div_nonneg (by exact_mod_cast hsize) hpos.le, ?_⟩
      rw [div_le_one hpos]
      exact_mod_cast hle
  | inr hrest =>
      subst hrest
      cases hs

/-! ## when the shares are bounded -/

section Shares

variable {selected : FileInfo} {children : List FileInfo}

/-- Sorting does not change what is added up. -/
theorem sum_sized (children : List FileInfo) :
    ((sized children).map Sized.size).sum = (children.map effectiveSize).sum := by
  have hperm := (List.perm_insertionSort (fun a b : Sized => b.size ≤ a.size)
    (children.map fun c => ⟨baseName c.path, effectiveSize c⟩)).map Sized.size
  rw [sized, hperm.sum_eq, List.map_map]
  rfl

theorem sum_shares (selected : FileInfo) (children : List FileInfo) :
    (shares selected children).sum =
      (((children.map effectiveSize).sum : Int) : ℚ) / breakdownTotal selected children := by
  have hdiv : ∀ (t : ℚ) (l : List Sized), (l.map fun c => (c.size : ℚ) / t).sum =
      (((l.map Sized.size).sum : Int) : ℚ) / t := by
    intro t l
    induction l with
    | nil => simp
    | cons c l ih => simp [ih, add_div]
  rw [shares, hdiv, sum_sized]

/-- Shares of sizes that are not negative add up to at most 1 exactly if the
total is as large as the sizes together; then none exceeds 1. -/
theorem sharesBounded_iff_sum_le (hsizes : ∀ c ∈ children, 0 ≤ effectiveSize c)
    (htotal : 0 < breakdownTotal selected children) :
    SharesBounded selected children ↔
      (children.map effectiveSize).sum ≤ breakdownTotal selected children := by
  have hpos : (0 : ℚ) < (breakdownTotal selected children : ℚ) := by exact_mod_cast htotal
  have hiff : (shares selected children).sum ≤ 1 ↔
      (children.map effectiveSize).sum ≤ breakdownTotal selected children := by
    rw [sum_shares, div_le_one hpos]
    exact_mod_cast Iff.rfl
  have hnonneg : ∀ s ∈ shares selected children, 0 ≤ s := by
    intro s hs
    obtain ⟨c, hc, rfl⟩ := List.mem_map.mp hs
    rw [sized, List.mem_insertionSort] at hc
    obtain ⟨f, hf, rfl⟩ := List.mem_map.mp hc
    exact div_nonneg (by exact_mod_cast hsizes f hf) hpos.le
  constructor
  · intro h
    exact hiff.mp h.2
  · intro h
    refine ⟨fun s hs => ⟨hnonneg s hs, ?_⟩, hiff.mpr h⟩
    exact (List.single_le_sum hnonneg s hs).trans (hiff.mpr h)

/-- Without a total of its own, a directory is measured by its children. -/
theorem sharesBounded_iff_contents (hsizes : ∀ c ∈ children, 0 ≤ effectiveSize c)
    (hcontents : 0 ≤ selected.contentsSize) :
    SharesBounded selected children ↔
      selected.contentsSize = 0 ∨ (children.map effectiveSize).sum ≤ selected.contentsSize := by
  have hsum : 0 ≤ (children.map effectiveSize).sum := by
    refine List.sum_nonneg fun n hn => ?_
    obtain ⟨c, hc, rfl⟩ := List.mem_map.mp hn
    exact hsizes c hc
  have htotal : breakdownTotal selected children =
      if selected.contentsSize ≠ 0 then selected.contentsSize
      else if (children.map effectiveSize).sum ≠ 0 then (children.map effectiveSize).sum
      else 1 := by
    rw [breakdownTotal, sum_sized]
  have hpos : 0 < breakdownTotal selected children := by
    rw [htotal]
    split_ifs <;> omega
  rw [sharesBounded_iff_sum_le hsizes hpos, htotal]
  by_cases hzero : selected.contentsSize = 0
  · simp only [hzero, ne_eq, not_true_eq_false, if_false, true_or, iff_true]
    split_ifs <;> omega
  · simp [hzero]

end Shares

/-! ## the breakdown of an indexed directory -/

/-- The size an entry of the index is shown by. -/
def listedSize (index : Index) (x : IndexRow) : Int :=
  if x.fileType = 2 then min i64Max (sizeBelow index x.raw) else x.sizeBytes

/-- The total of `dir` stands for its children: it has none of its own, or
what is listed and not counted is made up for by what is counted and not
listed.  Where the total is capped, what is listed stays below the cap. -/
def BreakdownFits (index : Index) (dir : Bytes) : Prop :=
  dir = [slash] ∨ sizeBelow index dir = 0 ∨ 2 ^ 31 ≤ (countedBelow index dir).length ∨
    if sizeBelow index dir ≤ i64Max then
      sumSizes ((entriesOf index dir).filter fun x => ¬ x.counted) ≤
        sumSizes (subdirectories index dir)
    else
      sumSizes ((entriesOf index dir).filter fun x => x.fileType ≠ 2) +
        ((subdirectories index dir).map fun c => min i64Max (sizeBelow index c.raw)).sum ≤ i64Max

theorem ne_slash_of_entry {index : Index} {dir : Bytes} {x : IndexRow}
    (hx : x ∈ entriesOf index dir) : x.raw ≠ [slash] := by
  intro hroot
  simp only [entriesOf, List.mem_filter, decide_eq_true_eq, hroot, getParentPath_slash] at hx
  exact absurd hx.2 (by simp)

theorem eq_decorated_of_scanRow {db : ApiDb} {x : IndexRow} {f : FileInfo}
    (h : scanRow true (db.statsRow x) = some f) :
    f = db.decorated (db.statsRow x) := by
  have hiff : scanRow true (db.statsRow x) = some (db.decorated (db.statsRow x)) ↔ _ :=
    scanRow_statsRow_iff
  by_cases hfits : ∀ s, db.dirStats.find? x.pathHash = some s → s.CountFits
  · rw [hiff.mpr hfits] at h
    exact (Option.some.inj h).symm
  · push Not at hfits
    obtain ⟨s, hs, hlarge⟩ := hfits
    have hstats : (db.statsRow x).stats = some s := hs
    rw [scanRow, if_pos rfl, hstats, scanStats] at h
    simp [hlarge] at h

/-- What is listed of a directory: its other entries, and the capped totals of
its subdirectories. -/
theorem sum_listedSize (index : Index) (dir : Bytes) :
    ((entriesOf index dir).map (listedSize index)).sum =
      sumSizes ((entriesOf index dir).filter fun x => x.fileType ≠ 2) +
        ((subdirectories index dir).map fun c => min i64Max (sizeBelow index c.raw)).sum := by
  have hsplit := List.sum_map_filter_add_sum_map_filter_not (fun x => x.fileType = 2)
    (listedSize index) (entriesOf index dir)
  have hdirs : ((entriesOf index dir).filter fun x => x.fileType = 2).map (listedSize index) =
      (subdirectories index dir).map fun c => min i64Max (sizeBelow index c.raw) := by
    refine List.map_congr_left fun x hx => ?_
    rw [listedSize, if_pos (by simpa using (List.mem_filter.mp hx).2)]
  have hothers : ((entriesOf index dir).filter fun x => ¬ x.fileType = 2).map (listedSize index) =
      ((entriesOf index dir).filter fun x => x.fileType ≠ 2).map IndexRow.sizeBytes := by
    refine List.map_congr_left fun x hx => ?_
    rw [listedSize, if_neg (by simpa using (List.mem_filter.mp hx).2)]
  rw [← hsplit, hdirs, hothers, add_comm]
  rfl

/-- Entries that are no directories are counted files, or not counted. -/
theorem sumSizes_files (index : Index) (dir : Bytes) :
    sumSizes ((entriesOf index dir).filter fun x => x.fileType ≠ 2) +
        sumSizes (subdirectories index dir) =
      sumSizes ((entriesOf index dir).filter IndexRow.counted) +
        sumSizes ((entriesOf index dir).filter fun x => ¬ x.counted) := by
  have htypes := List.sum_map_filter_add_sum_map_filter_not (fun x => x.fileType = 2)
    IndexRow.sizeBytes (entriesOf index dir)
  have hcounted := List.sum_map_filter_add_sum_map_filter_not (fun x => x.counted = true)
    IndexRow.sizeBytes (entriesOf index dir)
  rw [add_comm]
  refine (htypes.trans hcounted.symm).trans ?_
  simp [sumSizes]

section Snapshot

variable {d : Digest} {db : ListDb} (hsnap : Snapshot d db)
include hsnap

theorem Snapshot.sumSizes_nonneg {rows : List IndexRow} (h : ∀ x ∈ rows, x ∈ db.filesystemIndex) :
    0 ≤ sumSizes rows := by
  refine List.sum_nonneg fun n hn => ?_
  obtain ⟨x, hx, rfl⟩ := List.mem_map.mp hn
  exact (hsnap.stored x (h x hx)).size_nonneg

theorem Snapshot.sizeBelow_nonneg (dir : Bytes) : 0 ≤ sizeBelow db.filesystemIndex dir :=
  hsnap.sumSizes_nonneg fun _ hx => List.mem_of_mem_filter hx

theorem Snapshot.listedSize_nonneg {x : IndexRow} (hx : x ∈ db.filesystemIndex) :
    0 ≤ listedSize db.filesystemIndex x := by
  have hbelow := hsnap.sizeBelow_nonneg x.raw
  have hsize := (hsnap.stored x hx).size_nonneg
  unfold listedSize i64Max
  split_ifs <;> omega

/-- The entries of a directory are the rows a listing selects. -/
theorem Snapshot.childrenQuery_eq {x : IndexRow} (hx : x ∈ db.filesystemIndex) :
    childrenQuery d db.toApiDb x.raw true =
      (entriesOf db.filesystemIndex x.raw).map db.toApiDb.statsRow := by
  simp only [childrenQuery, if_true, fromEntriesWithStats_eq, List.filter_map, entriesOf]
  refine congrArg _ (List.filter_congr fun y hy => ?_)
  have hparent : (db.toApiDb.statsRow y).file.parentHash = y.parentHash := rfl
  rw [Function.comp_apply, isChildOf, hparent, (hsnap.stored y hy).parentHash_eq,
    decide_eq_decide, pathHash_eq]
  constructor
  · intro h
    obtain ⟨dir, hdir, hhash⟩ := Option.map_eq_some_iff.mp h
    obtain ⟨p, hp, hraw, _⟩ := hsnap.parents y hy dir hdir
    rw [hdir, hsnap.free ⟨p, hp, hraw⟩ ⟨x, hx, rfl⟩ hhash]
  · intro h
    rw [h, Option.map_some]

/-- What counts for an entry counts for its directory. -/
theorem Snapshot.countedBelow_sublist {dir : Bytes} (hdir : Canonical dir) {x : IndexRow}
    (hx : x ∈ entriesOf db.filesystemIndex dir) :
    (countedBelow db.filesystemIndex x.raw).Sublist (countedBelow db.filesystemIndex dir) := by
  simp only [entriesOf, List.mem_filter, decide_eq_true_eq] at hx
  have hbelow := hsnap.below_of_entry hdir hx.1 hx.2
  refine List.monotone_filter_right _ fun y hy => ?_
  rw [decide_eq_true_eq] at hy ⊢
  refine ⟨hy.1, hdir, hbelow.2.1.trans hy.2.2.1, fun heq => ?_⟩
  have hlen := (hbelow.2.1.trans hy.2.2.1).length_le
  refine hbelow.2.2 (hbelow.2.1.eq_of_length_le ?_)
  rw [heq]
  exact hy.2.2.1.length_le

/-- The total the API reports of a directory, where the file count scans. -/
theorem Snapshot.contentsSize_withAggregates {x : IndexRow} (hx : x ∈ db.filesystemIndex)
    (f : FileInfo) :
    (f.withAggregates (db.toApiDb.aggregatesOf x.pathHash)).contentsSize =
      if x.raw = [slash] then 0 else min i64Max (sizeBelow db.filesystemIndex x.raw) := by
  rw [FileInfo.contentsSize, FileInfo.withAggregates, ApiDb.aggregatesOf]
  cases hsnap.find?_dirStats hx with
  | inl hnone =>
      obtain ⟨hempty, hfind⟩ := hnone
      rw [hfind]
      split_ifs with hroot
      · rfl
      · simp [sizeBelow, sumSizes, hempty.resolve_left hroot, i64Max]
  | inr hsome =>
      obtain ⟨hroot, s, hfind, htotal, _⟩ := hsome
      rw [hfind, if_neg hroot]
      simp [DirStatsRow.aggregates, htotal]

/-- An entry that is listed is shown by its listed size. -/
theorem Snapshot.effectiveSize_decorated {dir : Bytes} {x : IndexRow}
    (hx : x ∈ entriesOf db.filesystemIndex dir) :
    effectiveSize (db.toApiDb.decorated (db.toApiDb.statsRow x)) =
      listedSize db.filesystemIndex x := by
  have hcontents := hsnap.contentsSize_withAggregates (List.mem_of_mem_filter hx)
    (db.toApiDb.statsRow x).info
  rw [if_neg (ne_slash_of_entry hx)] at hcontents
  rw [effectiveSize, listedSize, ← hcontents]
  rfl

section Listed

variable {a a' : Access} {x : IndexRow} {rows : List EntryRow} {files : List FileInfo}
  {selected : FileInfo} (hx : x ∈ db.filesystemIndex)
  (hrows : rows.Perm (childrenQuery d db.toApiDb x.raw true))
  (hfiles : listDirectory d db.toApiDb a x.raw true rows = .ok files)
  (hselected : getDirStats d db.toApiDb a' x.raw true = .ok selected)
include hx

include hrows hfiles in
theorem Snapshot.effectiveSize_nonneg : ∀ f ∈ files, 0 ≤ effectiveSize f := by
  intro f hf
  rw [files_of_listDirectory hfiles, List.mem_filterMap] at hf
  obtain ⟨r, hr, hscan⟩ := hf
  rw [hrows.mem_iff, hsnap.childrenQuery_eq hx, List.mem_map] at hr
  obtain ⟨y, hy, rfl⟩ := hr
  rw [eq_decorated_of_scanRow hscan, hsnap.effectiveSize_decorated hy]
  exact hsnap.listedSize_nonneg (List.mem_of_mem_filter hy)

include hselected in
/-- The directory's own total, as its page reports it. -/
theorem Snapshot.contentsSize_selected :
    selected.contentsSize =
      if x.raw = [slash] ∨ 2 ^ 31 ≤ (countedBelow db.filesystemIndex x.raw).length then 0
      else min i64Max (sizeBelow db.filesystemIndex x.raw) := by
  obtain ⟨y, hy, hhash, rfl⟩ := getDirStats_eq_ok hselected
  have hsame : x = y := by
    refine List.inj_on_of_nodup_map db.filesystemIndex.nodup hx hy ?_
    rw [(hsnap.stored x hx).pathHash_eq, hhash, pathHash_eq]
  subst hsame
  have hcontents := hsnap.contentsSize_withAggregates hx (db.toApiDb.entryRow x).info
  rw [ApiDb.aggregatesOf] at hcontents
  rw [← hhash]
  cases hsnap.find?_dirStats hx with
  | inl hnone =>
      obtain ⟨hempty, hfind⟩ := hnone
      rw [hfind] at hcontents ⊢
      rw [scanStats, Option.getD_some]
      refine hcontents.trans ?_
      by_cases hroot : x.raw = [slash]
      · simp [hroot]
      · simp [hroot, hempty.resolve_left hroot]
  | inr hsome =>
      obtain ⟨hroot, s, hfind, htotal, hcount⟩ := hsome
      rw [hfind] at hcontents ⊢
      have hfits : s.CountFits ↔ ¬ 2 ^ 31 ≤ (countedBelow db.filesystemIndex x.raw).length := by
        simp only [DirStatsRow.CountFits, hcount, Option.mem_def, Option.some.injEq, forall_eq',
          FitsInt32]
        omega
      by_cases hlarge : 2 ^ 31 ≤ (countedBelow db.filesystemIndex x.raw).length
      · rw [if_pos (Or.inr hlarge), scanStats, if_neg fun h => hfits.mp h hlarge]
        rfl
      · rw [if_neg (not_or.mpr ⟨hroot, hlarge⟩), scanStats, if_pos (hfits.mpr hlarge)]
        rw [if_neg hroot] at hcontents
        exact hcontents

include hrows hfiles in
/-- Below 2 ^ 31 counted rows every entry is listed. -/
theorem Snapshot.sum_effectiveSize
    (hcount : (countedBelow db.filesystemIndex x.raw).length < 2 ^ 31) :
    (files.map effectiveSize).sum =
      ((entriesOf db.filesystemIndex x.raw).map (listedSize db.filesystemIndex)).sum := by
  have hfits : ListedCountsFit d db.toApiDb x.raw := by
    intro y hy hparent s hs
    have hmem : db.toApiDb.statsRow y ∈ childrenQuery d db.toApiDb x.raw true :=
      mem_childrenQuery_true.mpr ⟨y, hy, hparent, rfl⟩
    rw [hsnap.childrenQuery_eq hx, List.mem_map] at hmem
    obtain ⟨z, hz, hzy⟩ := hmem
    have hzy' : z = y := congrArg EntryRow.file hzy
    subst hzy'
    have hle := (hsnap.countedBelow_sublist (hsnap.stored x hx).canonical hz).length_le
    cases hsnap.find?_dirStats hy with
    | inl hnone =>
        rw [hnone.2] at hs
        contradiction
    | inr hsome =>
        obtain ⟨_, s', hfind, _, hcount'⟩ := hsome
        rw [hfind] at hs
        cases hs
        simp only [DirStatsRow.CountFits, hcount', Option.mem_def, Option.some.injEq, forall_eq',
          FitsInt32]
        omega
  have hsizes : (entriesOf db.filesystemIndex x.raw).map
      (effectiveSize ∘ db.toApiDb.decorated ∘ db.toApiDb.statsRow) =
        (entriesOf db.filesystemIndex x.raw).map (listedSize db.filesystemIndex) :=
    List.map_congr_left fun y hy => hsnap.effectiveSize_decorated hy
  rw [files_of_listDirectory hfiles, (filterMap_scanRow_iff hrows).mpr hfits,
    ((hrows.map db.toApiDb.decorated).map effectiveSize).sum_eq, hsnap.childrenQuery_eq hx,
    List.map_map, List.map_map, Function.comp_assoc, hsizes]

end Listed

/-- The two sums compared. -/
theorem Snapshot.sum_listedSize_le_iff {dir : Bytes} (hdir : Canonical dir) :
    ((entriesOf db.filesystemIndex dir).map (listedSize db.filesystemIndex)).sum ≤
        min i64Max (sizeBelow db.filesystemIndex dir) ↔
      if sizeBelow db.filesystemIndex dir ≤ i64Max then
        sumSizes ((entriesOf db.filesystemIndex dir).filter fun x => ¬ x.counted) ≤
          sumSizes (subdirectories db.filesystemIndex dir)
      else
        sumSizes ((entriesOf db.filesystemIndex dir).filter fun x => x.fileType ≠ 2) +
          ((subdirectories db.filesystemIndex dir).map fun c =>
            min i64Max (sizeBelow db.filesystemIndex c.raw)).sum ≤ i64Max := by
  rw [sum_listedSize]
  split_ifs with hle
  · -- nothing is capped
    have hcap : ∀ c ∈ subdirectories db.filesystemIndex dir,
        min i64Max (sizeBelow db.filesystemIndex c.raw) = sizeBelow db.filesystemIndex c.raw := by
      intro c hc
      have hsub := hsnap.countedBelow_sublist hdir (List.mem_of_mem_filter hc)
      have hmono : sizeBelow db.filesystemIndex c.raw ≤ sizeBelow db.filesystemIndex dir := by
        refine (hsub.map IndexRow.sizeBytes).sum_le_sum fun n hn => ?_
        obtain ⟨x, hx, rfl⟩ := List.mem_map.mp hn
        exact (hsnap.stored x (List.mem_of_mem_filter hx)).size_nonneg
      omega
    have htotal := hsnap.sizeBelow_eq hdir
    have hfiles := sumSizes_files db.filesystemIndex dir
    rw [List.map_congr_left hcap]
    omega
  · have hlt : min i64Max (sizeBelow db.filesystemIndex dir) = i64Max := by omega
    rw [hlt]

end Snapshot

/-- **When the breakdown adds up**: for a directory of a snapshot, exactly if
its total stands for its children. -/
theorem sharesBounded_iff {d : Digest} {db : ListDb} {a a' : Access} {x : IndexRow}
    {rows : List EntryRow} {files : List FileInfo} {selected : FileInfo} (hsnap : Snapshot d db)
    (hx : x ∈ db.filesystemIndex) (hrows : rows.Perm (childrenQuery d db.toApiDb x.raw true))
    (hfiles : listDirectory d db.toApiDb a x.raw true rows = .ok files)
    (hselected : getDirStats d db.toApiDb a' x.raw true = .ok selected) :
    SharesBounded selected files ↔ BreakdownFits db.filesystemIndex x.raw := by
  have hbelow := hsnap.sizeBelow_nonneg x.raw
  have hcontents := hsnap.contentsSize_selected hx hselected
  have hnonneg : 0 ≤ selected.contentsSize := by
    rw [hcontents]
    unfold i64Max
    split_ifs <;> omega
  rw [sharesBounded_iff_contents (hsnap.effectiveSize_nonneg hx hrows hfiles) hnonneg, hcontents,
    BreakdownFits]
  by_cases hroot : x.raw = [slash]
  · simp [hroot]
  · by_cases hmany : 2 ^ 31 ≤ (countedBelow db.filesystemIndex x.raw).length
    · rw [if_pos (Or.inr hmany)]
      exact iff_of_true (Or.inl rfl) (Or.inr (Or.inr (Or.inl hmany)))
    · have hzero : min i64Max (sizeBelow db.filesystemIndex x.raw) = 0 ↔
          sizeBelow db.filesystemIndex x.raw = 0 := by
        unfold i64Max
        omega
      rw [if_neg (not_or.mpr ⟨hroot, hmany⟩), hzero,
        hsnap.sum_effectiveSize hx hrows hfiles (by omega),
        hsnap.sum_listedSize_le_iff (hsnap.stored x hx).canonical]
      simp only [hroot, hmany, false_or]

/-- `/home` holds a file of one byte and a symbolic link of nine. -/
def sampleLinkIndex : Index :=
  let row (path : Text) (parent : Option Text) (size type : Int) : IndexRow :=
    ⟨path, none, computeHash sampleDigest path, parent.map (computeHash sampleDigest), size, type,
      "755".toList, 0, 0, 0, 0, 0, []⟩
  ⟨[row "/".toList none 0 2, row "/home".toList (some "/".toList) 0 2,
    row "/home/a".toList (some "/home".toList) 1 1,
    row "/home/b".toList (some "/home".toList) 9 3], by decide⟩

/-- The statistics of it. -/
def sampleLinkDb : ListDb where
  filesystemIndex := sampleLinkIndex
  identity := ⟨Table.empty, Table.empty⟩
  dirStats := ⟨dirStatsRows sampleDigest (indexEntries sampleLinkIndex), by decide⟩
  userStats := ⟨userStatsRows (indexEntries sampleLinkIndex), by decide⟩
  scanSessions := Table.empty

theorem snapshot_sampleLink : Snapshot sampleDigest sampleLinkDb := by
  have hstored : ∀ x ∈ sampleLinkIndex.rows, Canonical x.raw ∧
      x.pathHash = computeHashBytes sampleDigest x.raw ∧
      x.parentHash = (getParentPath x.raw).map (computeHashBytes sampleDigest) ∧
      0 ≤ x.sizeBytes ∧ x.sizeBytes ≤ i64Max := by decide
  have hfree : ∀ x ∈ sampleLinkIndex.rows, ∀ y ∈ sampleLinkIndex.rows,
      computeHashBytes sampleDigest x.raw = computeHashBytes sampleDigest y.raw →
        x.raw = y.raw := by decide
  have hparents : ∀ x ∈ sampleLinkIndex.rows, ∀ dir ∈ getParentPath x.raw,
      ∃ p ∈ sampleLinkIndex.rows, p.raw = dir ∧ p.fileType = 2 := by decide
  constructor
  · intro x hx
    obtain ⟨hcanonical, hhash, hparent, hnonneg, hle⟩ := hstored x hx
    exact ⟨hcanonical, hhash, hparent, hnonneg, hle⟩
  · intro p hp q hq hhash
    obtain ⟨x, hx, rfl⟩ := hp
    obtain ⟨y, hy, rfl⟩ := hq
    exact hfree x hx y hy hhash
  · exact hparents
  · exact ⟨_, List.Perm.refl _, List.Perm.refl _, List.Perm.refl _⟩

def sampleLinkHome : IndexRow :=
  ⟨"/home".toList, none, computeHash sampleDigest "/home".toList,
    some (computeHash sampleDigest "/".toList), 0, 2, "755".toList, 0, 0, 0, 0, 0, []⟩

/-- What the panel gets for `/home`. -/
def sampleLinkFiles : List FileInfo :=
  (childrenQuery sampleDigest sampleLinkDb.toApiDb (utf8 "/home".toList) true).filterMap
    (scanRow true)

def sampleLinkSelected : FileInfo :=
  (sampleLinkDb.toApiDb.entryRow sampleLinkHome).info.withAggregates
    (sampleLinkDb.toApiDb.aggregatesOf sampleLinkHome.pathHash)

theorem sharesBounded_iff_home :
    SharesBounded sampleLinkSelected sampleLinkFiles ↔
      BreakdownFits sampleLinkIndex (utf8 "/home".toList) := by
  let admin : Access := { user := [], role := .admin, prefixes := [] }
  have hfiles : listDirectory sampleDigest sampleLinkDb.toApiDb admin sampleLinkHome.raw true
      (childrenQuery sampleDigest sampleLinkDb.toApiDb sampleLinkHome.raw true) =
        .ok sampleLinkFiles := by decide
  have hselected : getDirStats sampleDigest sampleLinkDb.toApiDb admin sampleLinkHome.raw true =
      .ok sampleLinkSelected := by decide
  exact sharesBounded_iff snapshot_sampleLink (by decide) (List.Perm.refl _) hfiles hselected

/-- The link takes up nine times what its directory holds. -/
theorem link_larger_than_directory :
    ∃ (d : Digest) (db : ListDb) (a : Access) (x : IndexRow) (rows : List EntryRow)
      (files : List FileInfo) (selected : FileInfo), Snapshot d db ∧ x ∈ db.filesystemIndex ∧
        rows.Perm (childrenQuery d db.toApiDb x.raw true) ∧
        listDirectory d db.toApiDb a x.raw true rows = .ok files ∧
        getDirStats d db.toApiDb a x.raw true = .ok selected ∧ files ≠ [] ∧
        ¬ SharesBounded selected files ∧ shares selected files = [9, 1] := by
  let admin : Access := { user := [], role := .admin, prefixes := [] }
  have hsized : sized sampleLinkFiles = [⟨"b".toList, 9⟩, ⟨"a".toList, 1⟩] := by decide
  have htotal : breakdownTotal sampleLinkSelected sampleLinkFiles = 1 := by decide
  have hshares : shares sampleLinkSelected sampleLinkFiles = [9, 1] := by
    rw [shares, hsized, htotal]
    simp
  refine ⟨sampleDigest, sampleLinkDb, admin, sampleLinkHome, _, sampleLinkFiles,
    sampleLinkSelected, snapshot_sampleLink, by decide, List.Perm.refl _, by decide, by decide,
    by decide, fun h => ?_, hshares⟩
  have hle := h.2
  rw [hshares] at hle
  exact absurd hle (by norm_num)

end Cuttlefish
