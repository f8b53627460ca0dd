import Cuttlefish.Accumulate
import Cuttlefish.GoPath
import Cuttlefish.Identity
import Mathlib.Algebra.BigOperators.Group.List.Lemmas
import Mathlib.Algebra.GroupWithZero.Nat
import Mathlib.Algebra.Order.BigOperators.Group.List
import Mathlib.Algebra.Ring.Int.Defs
import Mathlib.Order.Bounds.Basic

/-!
# Cuttlefish.Aggregator

The streaming fold of `fs_aggregator`: every index row is folded into each
of its ancestor directories and into the totals of its owner and group.

`streamRows_spec` is the result: whatever the order of the stream, a
directory's entry summarizes the rows strictly below it, `/` has none, and
the owners' counts add up to the rows processed.
-/

namespace Cuttlefish

/-! ## the fold -/

/-- `i64::MAX`. -/
def i64Max : Int := 2 ^ 63 - 1

/-- `i64::saturating_add`. -/
def saturatingAdd (a b : Int) : Int := max (-2 ^ 63) (min (a + b) i64Max)

/-- A row of the stream: the exact path bytes and the columns selected. -/
structure IndexEntry where
  rawPath : Bytes
  size : Int
  mtime : Int
  atime : Int
  ctime : Int
  uid : Int
  gid : Int
  deriving DecidableEq, Repr

/-- Aggregated statistics for a directory.  No stream reaches `2 ^ 63` rows,
so the count is a plain number. -/
@[ext] structure DirNode where
  size : Int
  mtimeFirst : Int
  mtimeLast : Int
  atimeFirst : Int
  atimeLast : Int
  ctimeFirst : Int
  ctimeLast : Int
  count : Nat
  deriving DecidableEq, Repr

/-- The entry inserted for the first row below a directory. -/
def DirNode.first (r : IndexEntry) : DirNode :=
  ⟨r.size, r.mtime, r.mtime, r.atime, r.atime, r.ctime, r.ctime, 1⟩

/-- The update for every later row. -/
def DirNode.add (node : DirNode) (r : IndexEntry) : DirNode where
  size := saturatingAdd node.size r.size
  mtimeFirst := min node.mtimeFirst r.mtime
  mtimeLast := max node.mtimeLast r.mtime
  atimeFirst := min node.atimeFirst r.atime
  atimeLast := max node.atimeLast r.atime
  ctimeFirst := min node.ctimeFirst r.ctime
  ctimeLast := max node.ctimeLast r.ctime
  count := node.count + 1

/-- `match aggregates.get_mut(anc)`. -/
def foldDir : Option DirNode → IndexEntry → DirNode
  | some node, r => node.add r
  | none, r => .first r

/-- `entry(…).or_insert((0, 0))`, then size and count go up. -/
def foldOwner (stat : Option (Int × Nat)) (r : IndexEntry) : Int × Nat :=
  let s := stat.getD (0, 0)
  (saturatingAdd s.1 r.size, s.2 + 1)

/-- The absolute path with the reversed components given, then every parent
of it up to the root. -/
def parentsFrom : List Bytes → List Bytes
  | [] => [absPath []]
  | c :: up => absPath (c :: up).reverse :: parentsFrom up

/-- `Path::ancestors` of an absolute path. -/
def ancestors (p : Bytes) : List Bytes := parentsFrom (components p).reverse

/-- The ancestor loop; it stops at the root. -/
def foldAncestors (r : IndexEntry) : List Bytes → (Bytes → Option DirNode) → Bytes → Option DirNode
  | [], aggregates => aggregates
  | anc :: rest, aggregates =>
      if anc = [] ∨ anc = [slash] then aggregates
      else foldAncestors r rest (hit foldDir r aggregates anc)

/-- The two maps and the row counter. -/
structure Totals where
  aggregates : Bytes → Option DirNode := fun _ => none
  userAggregates : IdType × Int → Option (Int × Nat) := fun _ => none
  processed : Nat := 0

/-- One row of the stream. -/
def Totals.fold (t : Totals) (r : IndexEntry) : Totals where
  userAggregates :=
    hit foldOwner r (hit foldOwner r t.userAggregates (.uid, r.uid)) (.gid, r.gid)
  aggregates := foldAncestors r ((ancestors r.rawPath).drop 1) t.aggregates
  processed := t.processed + 1

/-- The streaming fold. -/
def streamRows (rows : List IndexEntry) : Totals := rows.foldl Totals.fold {}

/-! ## the directories a row counts for -/

/-- `p` is a strict descendant of `d`, component by component. -/
def StrictlyBelow (d p : Bytes) : Prop :=
  Canonical d ∧ components d <+: components p ∧ components d ≠ components p

instance (d p : Bytes) : Decidable (StrictlyBelow d p) := inferInstanceAs (Decidable (_ ∧ _ ∧ _))

/-- The directories a row at `p` is folded into. -/
def foldedInto (p : Bytes) : List Bytes :=
  ((ancestors p).drop 1).takeWhile fun anc => ¬ (anc = [] ∨ anc = [slash])

theorem foldAncestors_eq (r : IndexEntry) (l : List Bytes) (m : Bytes → Option DirNode) :
    foldAncestors r l m =
      (l.takeWhile fun anc => ¬ (anc = [] ∨ anc = [slash])).foldl (hit foldDir r) m := by
  induction l generalizing m with
  | nil => rfl
  | cons anc rest ih =>
      rw [foldAncestors, List.takeWhile_cons]
      by_cases h : anc = [] ∨ anc = [slash]
      · rw [if_pos h, if_neg (by simp [h])]
        rfl
      · rw [if_neg h, if_pos (by simp [h]), ih]
        rfl

theorem absPath_eq_slash_iff {cs : List Bytes} (h : ∀ c ∈ cs, IsComponent c) :
    absPath cs = [slash] ↔ cs = [] := by
  constructor
  · intro heq
    rw [← components_absPath h, heq]
    rfl
  · rintro rfl
    rfl

/-- Up to the root exclusive, the parents are the non-empty prefixes. -/
theorem mem_takeWhile_parentsFrom {rev : List Bytes} (h : ∀ c ∈ rev, IsComponent c) {d : Bytes} :
    d ∈ (parentsFrom rev).takeWhile (fun anc => ¬ (anc = [] ∨ anc = [slash])) ↔
      ∃ ds, ds ≠ [] ∧ ds <:+ rev ∧ d = absPath ds.reverse := by
  induction rev with
  | nil =>
      rw [parentsFrom, List.takeWhile_cons_of_neg (by decide)]
      simp
  | cons c up ih =>
      have hne : absPath (c :: up).reverse ≠ [slash] := by
        rw [Ne, absPath_eq_slash_iff fun x hx => h x (List.mem_reverse.mp hx)]
        simp
      have hnil : absPath (c :: up).reverse ≠ [] := by simp [absPath]
      rw [parentsFrom, List.takeWhile_cons_of_pos (by simp only [hne, hnil]; decide),
        List.mem_cons, ih fun x hx => h x (List.mem_cons_of_mem c hx)]
      constructor
      · rintro (rfl | ⟨ds, hds, hsuf, rfl⟩)
        · exact ⟨c :: up, by simp, List.suffix_rfl, rfl⟩
        · exact ⟨ds, hds, hsuf.trans (List.suffix_cons c up), rfl⟩
      · rintro ⟨ds, hds, hsuf, rfl⟩
        rcases List.suffix_cons_iff.mp hsuf with rfl | hsuf
        · exact Or.inl rfl
        · exact Or.inr ⟨ds, hds, hsuf, rfl⟩

/-- **What a row counts for**: the directories strictly above it, the root
excepted. -/
theorem mem_foldedInto {p d : Bytes} (hp : Canonical p) :
    d ∈ foldedInto p ↔ d ≠ [slash] ∧ StrictlyBelow d p := by
  obtain ⟨cs, hcs, rfl⟩ := canonical_iff.mp hp
  have hrev : ∀ c ∈ cs.reverse, IsComponent c := fun c hc => hcs c (List.mem_reverse.mp hc)
  simp only [foldedInto, ancestors, StrictlyBelow, components_absPath hcs]
  -- `d` in terms of its reversed components
  have hd : (d ≠ [slash] ∧ Canonical d ∧ components d <+: cs ∧ components d ≠ cs) ↔
      ∃ ds, ds ≠ [] ∧ ds <:+ cs.reverse ∧ ds ≠ cs.reverse ∧ d = absPath ds.reverse := by
    constructor
    · rintro ⟨hroot, hcan, hpre, hne⟩
      refine ⟨(components d).reverse, ?_, List.reverse_suffix.mpr hpre, by simpa using hne, ?_⟩
      · intro hnil
        rw [List.reverse_eq_nil_iff] at hnil
        exact hroot (by rw [hcan.eq_absPath, hnil]; rfl)
      · rw [List.reverse_reverse, ← hcan.eq_absPath]
    · rintro ⟨ds, hds, hsuf, hne, rfl⟩
      have hcomp : ∀ c ∈ ds.reverse, IsComponent c := fun c hc =>
        hrev c (hsuf.subset (List.mem_reverse.mp hc))
      rw [components_absPath hcomp]
      refine ⟨?_, canonical_iff.mpr ⟨_, hcomp, rfl⟩, ?_, ?_⟩
      · rw [Ne, absPath_eq_slash_iff hcomp]
        simpa using hds
      · rw [← List.reverse_suffix, List.reverse_reverse]
        exact hsuf
      · intro heq
        exact hne (by rw [← heq, List.reverse_reverse])
  rw [hd]
  cases hcases : cs.reverse with
  | nil =>
      simp [parentsFrom]
  | cons c up =>
      rw [hcases, List.forall_mem_cons] at hrev
      rw [parentsFrom, List.drop_one, List.tail_cons, mem_takeWhile_parentsFrom hrev.2]
      refine exists_congr fun ds => and_congr_right fun _ => ?_
      rw [List.suffix_cons_iff]
      constructor
      · rintro ⟨hsuf, rfl⟩
        refine ⟨Or.inr hsuf, ?_, rfl⟩
        rintro rfl
        exact absurd hsuf.length_le (by simp)
      · rintro ⟨rfl | hsuf, hne, rfl⟩
        · exact absurd rfl hne
        · exact ⟨hsuf, rfl⟩

theorem nodup_parentsFrom {rev : List Bytes} (h : ∀ c ∈ rev, IsComponent c) :
    (parentsFrom rev).Nodup ∧ ∀ d ∈ parentsFrom rev, ∃ ds, ds <:+ rev ∧ d = absPath ds.reverse := by
  induction rev with
  | nil => simp [parentsFrom]
  | cons c up ih =>
      obtain ⟨hnodup, hmem⟩ := ih fun x hx => h x (List.mem_cons_of_mem c hx)
      rw [parentsFrom, List.nodup_cons]
      refine ⟨⟨fun hin => ?_, hnodup⟩, fun d hd => ?_⟩
      · -- a parent has fewer components
        obtain ⟨ds, hsuf, heq⟩ := hmem _ hin
        have hds : ∀ x ∈ ds.reverse, IsComponent x := fun x hx =>
          h x (List.mem_cons_of_mem c (hsuf.subset (List.mem_reverse.mp hx)))
        have hlen := congrArg (fun p => (components p).length) heq
        simp only [components_absPath fun x hx => h x (List.mem_reverse.mp hx),
          components_absPath hds, List.length_reverse, List.length_cons] at hlen
        have := hsuf.length_le
        omega
      · rcases List.mem_cons.mp hd with rfl | hd
        · exact ⟨c :: up, List.suffix_rfl, rfl⟩
        · obtain ⟨ds, hsuf, rfl⟩ := hmem d hd
          exact ⟨ds, hsuf.trans (List.suffix_cons c up), rfl⟩

/-- A row is folded into a directory once. -/
theorem nodup_foldedInto {p : Bytes} (hp : Canonical p) : (foldedInto p).Nodup := by
  have h : (parentsFrom (components p).reverse).Nodup :=
    (nodup_parentsFrom fun c hc => hp.isComponent c (List.mem_reverse.mp hc)).1
  exact h.sublist ((List.takeWhile_sublist _).trans (List.drop_sublist 1 _))

/-! ## summaries -/

/-- A row the index can hold: a canonical path and a size the column can
hold. -/
structure IndexEntry.Wf (r : IndexEntry) : Prop where
  canonical : Canonical r.rawPath
  size_nonneg : 0 ≤ r.size
  size_le : r.size ≤ i64Max

/-- The size of a set of rows, capped at the column's maximum. -/
def cappedSize (rows : List IndexEntry) : Int := min i64Max (rows.map IndexEntry.size).sum

/-- The values of a column over some rows. -/
def column (f : IndexEntry → Int) (rows : List IndexEntry) : Set Int := {t | ∃ r ∈ rows, f r = t}

/-- `node` is the summary of `rows`. -/
structure DirNode.Summarizes (node : DirNode) (rows : List IndexEntry) : Prop where
  count_eq : node.count = rows.length
  size_eq : node.size = cappedSize rows
  mtimeFirst : IsLeast (column IndexEntry.mtime rows) node.mtimeFirst
  mtimeLast : IsGreatest (column IndexEntry.mtime rows) node.mtimeLast
  atimeFirst : IsLeast (column IndexEntry.atime rows) node.atimeFirst
  atimeLast : IsGreatest (column IndexEntry.atime rows) node.atimeLast
  ctimeFirst : IsLeast (column IndexEntry.ctime rows) node.ctimeFirst
  ctimeLast : IsGreatest (column IndexEntry.ctime rows) node.ctimeLast

theorem cappedSize_perm {rows rows' : List IndexEntry} (h : rows.Perm rows') :
    cappedSize rows = cappedSize rows' := by
  rw [cappedSize, cappedSize, (h.map _).sum_eq]

theorem column_perm {f : IndexEntry → Int} {rows rows' : List IndexEntry} (h : rows.Perm rows') :
    column f rows = column f rows' := by
  ext t
  simp only [column, h.mem_iff]

theorem column_append_singleton (f : IndexEntry → Int) (rows : List IndexEntry) (r : IndexEntry) :
    column f (rows ++ [r]) = insert (f r) (column f rows) := by
  ext t
  simp only [column, Set.mem_ofPred_eq, Set.mem_insert_iff, List.mem_append, List.mem_singleton]
  constructor
  · rintro ⟨x, hx | rfl, rfl⟩
    · exact Or.inr ⟨x, hx, rfl⟩
    · exact Or.inl rfl
  · rintro (rfl | ⟨x, hx, rfl⟩)
    · exact ⟨r, Or.inr rfl, rfl⟩
    · exact ⟨x, Or.inl hx, rfl⟩

theorem isLeast_column_append {f : IndexEntry → Int} {rows : List IndexEntry} {r : IndexEntry}
    {t : Int} (h : IsLeast (column f rows) t) :
    IsLeast (column f (rows ++ [r])) (min t (f r)) := by
  rw [column_append_singleton, min_comm]
  exact h.insert _

theorem isGreatest_column_append {f : IndexEntry → Int} {rows : List IndexEntry} {r : IndexEntry}
    {t : Int} (h : IsGreatest (column f rows) t) :
    IsGreatest (column f (rows ++ [r])) (max t (f r)) := by
  rw [column_append_singleton, max_comm]
  exact h.insert _

/-- Saturating addition keeps the capped sum of sizes that are not negative. -/
theorem saturatingAdd_cappedSize {rows : List IndexEntry} {r : IndexEntry}
    (hrows : ∀ x ∈ rows, 0 ≤ x.size) (hr : 0 ≤ r.size) :
    saturatingAdd (cappedSize rows) r.size = cappedSize (rows ++ [r]) := by
  have hsum : 0 ≤ (rows.map IndexEntry.size).sum := by
    refine List.sum_nonneg fun x hx => ?_
    obtain ⟨y, hy, rfl⟩ := List.mem_map.mp hx
    exact hrows y hy
  simp only [saturatingAdd, cappedSize, i64Max, List.map_append, List.sum_append, List.map_cons,
    List.map_nil, List.sum_cons, List.sum_nil]
  omega

/-- A set of rows has one summary. -/
theorem DirNode.Summarizes.unique {a b : DirNode} {rows rows' : List IndexEntry}
    (ha : a.Summarizes rows) (hb : b.Summarizes rows') (h : rows.Perm rows') : a = b := by
  have hleast : ∀ {f s t}, IsLeast (column f rows) s → IsLeast (column f rows') t → s = t :=
    fun hs ht => (column_perm h ▸ hs).unique ht
  have hgreatest : ∀ {f s t},
      IsGreatest (column f rows) s → IsGreatest (column f rows') t → s = t :=
    fun hs ht => (column_perm h ▸ hs).unique ht
  ext
  · rw [ha.size_eq, hb.size_eq, cappedSize_perm h]
  · exact hleast ha.mtimeFirst hb.mtimeFirst
  · exact hgreatest ha.mtimeLast hb.mtimeLast
  · exact hleast ha.atimeFirst hb.atimeFirst
  · exact hgreatest ha.atimeLast hb.atimeLast
  · exact hleast ha.ctimeFirst hb.ctimeFirst
  · exact hgreatest ha.ctimeLast hb.ctimeLast
  · rw [ha.count_eq, hb.count_eq, h.length_eq]

theorem DirNode.summarizes_first {r : IndexEntry} (hr : r.Wf) :
    (DirNode.first r).Summarizes [r] := by
  have hcol : ∀ f : IndexEntry → Int, column f [r] = {f r} := by
    intro f
    ext t
    simp [column, eq_comm]
  have hsize : r.size = cappedSize [r] := by
    simp [cappedSize, hr.size_le]
  constructor <;>
    simp [DirNode.first, hcol, ← hsize, isLeast_singleton, isGreatest_singleton]

/-- One more row. -/
theorem DirNode.Summarizes.add {node : DirNode} {rows : List IndexEntry} {r : IndexEntry}
    (h : node.Summarizes rows) (hrows : ∀ x ∈ rows, x.Wf) (hr : r.Wf) :
    (node.add r).Summarizes (rows ++ [r]) where
  count_eq := by simp [DirNode.add, h.count_eq]
  size_eq := by
    rw [← saturatingAdd_cappedSize (fun x hx => (hrows x hx).size_nonneg) hr.size_nonneg,
      ← h.size_eq]
    rfl
  mtimeFirst := isLeast_column_append h.mtimeFirst
  mtimeLast := isGreatest_column_append h.mtimeLast
  atimeFirst := isLeast_column_append h.atimeFirst
  atimeLast := isGreatest_column_append h.atimeLast
  ctimeFirst := isLeast_column_append h.ctimeFirst
  ctimeLast := isGreatest_column_append h.ctimeLast

/-- The entry a directory ends with summarizes the rows folded into it. -/
theorem foldl_foldDir {rows : List IndexEntry} (hrows : ∀ r ∈ rows, r.Wf) (hne : rows ≠ []) :
    ∃ node, rows.foldl (fun acc r => some (foldDir acc r)) none = some node ∧
      node.Summarizes rows := by
  induction rows using List.reverseRecOn with
  | nil => exact absurd rfl hne
  | append_singleton rows r ih =>
      have hr : r.Wf := hrows r (by simp)
      have hrows' : ∀ x ∈ rows, x.Wf := fun x hx => hrows x (by simp [hx])
      rw [List.foldl_append]
      by_cases hnil : rows = []
      · subst hnil
        exact ⟨_, rfl, DirNode.summarizes_first hr⟩
      · obtain ⟨node, hfold, hsum⟩ := ih hrows' hnil
        rw [hfold]
        exact ⟨_, rfl, hsum.add hrows' hr⟩

theorem foldl_foldOwner {rows : List IndexEntry} (hrows : ∀ r ∈ rows, r.Wf) :
    rows.foldl (fun acc r => some (foldOwner acc r)) none =
      if rows = [] then none else some (cappedSize rows, rows.length) := by
  induction rows using List.reverseRecOn with
  | nil => rfl
  | append_singleton rows r ih =>
      have hr : r.Wf := hrows r (by simp)
      have hrows' : ∀ x ∈ rows, x.Wf := fun x hx => hrows x (by simp [hx])
      have hsize := saturatingAdd_cappedSize (fun x hx => (hrows' x hx).size_nonneg) hr.size_nonneg
      rw [List.foldl_append, ih hrows']
      by_cases hnil : rows = []
      · subst hnil
        simpa [foldOwner, cappedSize, i64Max] using hsize
      · simp [hnil, foldOwner, hsize]

/-! ## the whole stream -/

/-- The id a row is charged to. -/
def IndexEntry.owner (r : IndexEntry) : IdType → Int
  | .uid => r.uid
  | .gid => r.gid

/-- The two owner keys of a row. -/
def IndexEntry.ownerKeys (r : IndexEntry) : List (IdType × Int) := [(.uid, r.uid), (.gid, r.gid)]

theorem mem_ownerKeys {r : IndexEntry} {t : IdType} {id : Int} :
    (t, id) ∈ r.ownerKeys ↔ r.owner t = id := by
  cases t <;> simp [IndexEntry.ownerKeys, IndexEntry.owner, eq_comm]

/-- The two maps are folds of their own. -/
theorem foldl_fold (rows : List IndexEntry) (t : Totals) :
    (rows.foldl Totals.fold t).aggregates =
        rows.foldl (fun m r => (foldedInto r.rawPath).foldl (hit foldDir r) m) t.aggregates ∧
      (rows.foldl Totals.fold t).userAggregates =
        rows.foldl (fun m r => r.ownerKeys.foldl (hit foldOwner r) m) t.userAggregates ∧
      (rows.foldl Totals.fold t).processed = t.processed + rows.length := by
  induction rows generalizing t with
  | nil => exact ⟨rfl, rfl, rfl⟩
  | cons r rows ih =>
      obtain ⟨hagg, huser, hproc⟩ := ih (t.fold r)
      simp only [List.foldl_cons, hagg, huser, hproc, List.length_cons]
      refine ⟨?_, rfl, ?_⟩
      · rw [Totals.fold, foldAncestors_eq]
        rfl
      · simp only [Totals.fold]
        omega

section Stream

variable {rows : List IndexEntry} (hrows : ∀ r ∈ rows, r.Wf)
include hrows

/-- What a directory's entry is the fold of. -/
theorem aggregates_streamRows (d : Bytes) :
    (streamRows rows).aggregates d =
      (rows.filter fun r => d ≠ [slash] ∧ StrictlyBelow d r.rawPath).foldl
        (fun acc r => some (foldDir acc r)) none := by
  rw [streamRows, (foldl_fold rows {}).1,
    foldl_rows fun r hr => nodup_foldedInto (hrows r hr).canonical]
  congr 1
  refine List.filter_congr fun r hr => ?_
  rw [decide_eq_decide, mem_foldedInto (hrows r hr).canonical]

/-- **Directories**: an entry exists exactly for the directories other than
`/` above some row, and it summarizes the rows strictly below. -/
theorem aggregates_spec (d : Bytes) :
    ((∃ node, (streamRows rows).aggregates d = some node) ↔
        d ≠ [slash] ∧ ∃ r ∈ rows, StrictlyBelow d r.rawPath) ∧
      ∀ node, (streamRows rows).aggregates d = some node →
        node.Summarizes (rows.filter fun r => StrictlyBelow d r.rawPath) := by
  rw [aggregates_streamRows hrows]
  by_cases hd : d = [slash]
  · simp [hd]
  · simp only [Ne, hd, not_false_eq_true, true_and]
    by_cases hnil : (rows.filter fun r => StrictlyBelow d r.rawPath) = []
    · have hno : ¬ ∃ r ∈ rows, StrictlyBelow d r.rawPath := by
        rw [List.filter_eq_nil_iff] at hnil
        rintro ⟨r, hr, hbelow⟩
        exact hnil r hr (by simpa using hbelow)
      rw [hnil]
      exact ⟨⟨fun ⟨_, h⟩ => (nomatch h), fun h => absurd h hno⟩, fun _ h => (nomatch h)⟩
    · obtain ⟨node, hfold, hsum⟩ := foldl_foldDir
        (fun r hr => hrows r (List.mem_of_mem_filter hr)) hnil
      obtain ⟨r, hr⟩ := List.exists_mem_of_ne_nil _ hnil
      rw [List.mem_filter, decide_eq_true_eq] at hr
      rw [hfold]
      refine ⟨⟨fun _ => ⟨r, hr⟩, fun _ => ⟨node, rfl⟩⟩, fun node' h => ?_⟩
      cases h
      exact hsum

/-- **Owners**: every id some row is charged to has the capped size and the
number of its rows, no other id has an entry. -/
theorem userAggregates_spec (t : IdType) (id : Int) :
    (streamRows rows).userAggregates (t, id) =
      let owned := rows.filter fun r => r.owner t = id
      if owned = [] then none else some (cappedSize owned, owned.length) := by
  have hkeys : ∀ r ∈ rows, r.ownerKeys.Nodup := fun r _ => by simp [IndexEntry.ownerKeys]
  rw [streamRows, (foldl_fold rows {}).2.1, foldl_rows hkeys]
  simp only [mem_ownerKeys]
  exact foldl_foldOwner fun r hr => hrows r (List.mem_of_mem_filter hr)

/-- The counts of all owners of one kind add up to the rows processed. -/
theorem sum_owner_counts (t : IdType) :
    ((rows.map fun r => r.owner t).dedup.map fun id =>
      (((streamRows rows).userAggregates (t, id)).getD (0, 0)).2).sum =
        (streamRows rows).processed := by
  have hcount : ∀ id, (((streamRows rows).userAggregates (t, id)).getD (0, 0)).2 =
      (rows.map fun r => r.owner t).count id := by
    intro id
    rw [userAggregates_spec hrows, List.count, List.countP_map, List.countP_eq_length_filter]
    have hfilter : (rows.filter ((· == id) ∘ fun r => r.owner t)) =
        rows.filter fun r => r.owner t = id := by
      refine List.filter_congr fun r _ => ?_
      simp [beq_eq_decide]
    rw [hfilter]
    dsimp only
    split_ifs with hnil
    · rw [hnil]
      rfl
    · rfl
  simp only [hcount]
  rw [List.sum_map_count_dedup_eq_length, List.length_map, streamRows, (foldl_fold rows {}).2.2]
  simp

end Stream

/-- The fold's result does not depend on the order of the stream. -/
theorem streamRows_perm {rows rows' : List IndexEntry} (hrows : ∀ r ∈ rows, r.Wf)
    (h : rows'.Perm rows) : streamRows rows' = streamRows rows := by
  have hrows' : ∀ r ∈ rows', r.Wf := fun r hr => hrows r (h.subset hr)
  have hagg : (streamRows rows').aggregates = (streamRows rows).aggregates := by
    funext d
    obtain ⟨hex, hsum⟩ := aggregates_spec hrows d
    obtain ⟨hex', hsum'⟩ := aggregates_spec hrows' d
    cases hc : (streamRows rows).aggregates d with
    | none =>
        cases hc' : (streamRows rows').aggregates d with
        | none => rfl
        | some node' =>
            obtain ⟨hd, r, hr, hbelow⟩ := hex'.mp ⟨node', hc'⟩
            obtain ⟨node, hnode⟩ := hex.mpr ⟨hd, r, h.subset hr, hbelow⟩
            rw [hc] at hnode
            cases hnode
    | some node =>
        obtain ⟨hd, r, hr, hbelow⟩ := hex.mp ⟨node, hc⟩
        obtain ⟨node', hnode'⟩ := hex'.mpr ⟨hd, r, h.symm.subset hr, hbelow⟩
        rw [hnode', (hsum' node' hnode').unique (hsum node hc) (h.filter _)]
  have huser : (streamRows rows').userAggregates = (streamRows rows).userAggregates := by
    funext ⟨t, id⟩
    have hperm := h.filter fun r => r.owner t = id
    rw [userAggregates_spec hrows, userAggregates_spec hrows']
    dsimp only
    rw [cappedSize_perm hperm, hperm.length_eq]
    simp only [← List.length_eq_zero_iff, hperm.length_eq]
  have hproc : (streamRows rows').processed = (streamRows rows).processed := by
    rw [streamRows, streamRows, (foldl_fold rows' {}).2.2, (foldl_fold rows {}).2.2, h.length_eq]
  cases hs : streamRows rows'
  cases hs' : streamRows rows
  simp_all

/-- **The streaming fold computes the recursive totals**, in every order of
the rows. -/
theorem streamRows_spec (rows : List IndexEntry) (hrows : ∀ r ∈ rows, r.Wf) :
    (∀ rows', rows'.Perm rows → streamRows rows' = streamRows rows) ∧
      (∀ d, ((∃ node, (streamRows rows).aggregates d = some node) ↔
          d ≠ [slash] ∧ ∃ r ∈ rows, StrictlyBelow d r.rawPath) ∧
        ∀ node, (streamRows rows).aggregates d = some node →
          node.Summarizes (rows.filter fun r => StrictlyBelow d r.rawPath)) ∧
      (∀ t id, (streamRows rows).userAggregates (t, id) =
        let owned := rows.filter fun r => r.owner t = id
        if owned = [] then none else some (cappedSize owned, owned.length)) ∧
      (∀ t, ((rows.map fun r => r.owner t).dedup.map fun id =>
        (((streamRows rows).userAggregates (t, id)).getD (0, 0)).2).sum =
          (streamRows rows).processed) :=
  ⟨fun _ h => streamRows_perm hrows h, aggregates_spec hrows, userAggregates_spec hrows,
    sum_owner_counts hrows⟩

/-- A directory and a file in it. -/
def sampleEntries : List IndexEntry :=
  [⟨utf8 "/a".toList, 4, 2, 2, 2, 0, 0⟩, ⟨utf8 "/a/b".toList, 5, 1, 1, 1, 0, 0⟩]

theorem streamRows_spec_sample :
    (∀ rows', rows'.Perm sampleEntries → streamRows rows' = streamRows sampleEntries) ∧
      (streamRows sampleEntries).userAggregates (.uid, 0) = some (9, 2) := by
  have hwf : ∀ r ∈ sampleEntries, r.Wf := by
    have hfields : ∀ r ∈ sampleEntries, Canonical r.rawPath ∧ 0 ≤ r.size ∧ r.size ≤ i64Max := by
      decide
    exact fun r hr => ⟨(hfields r hr).1, (hfields r hr).2.1, (hfields r hr).2.2⟩
  obtain ⟨hperm, _, howners, _⟩ := streamRows_spec sampleEntries hwf
  exact ⟨hperm, (howners .uid 0).trans (by decide)⟩

end Cuttlefish
