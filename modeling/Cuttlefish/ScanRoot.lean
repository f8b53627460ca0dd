import Cuttlefish.Utf8
import Mathlib.Data.List.Sort

/-!
# Cuttlefish.ScanRoot

Scan roots (`fs_common`): normalization, coverage and the validated root
set of one indexer run.

A Rust `String` is taken at its UTF-8 bytes.  Every operation on roots —
splitting at `/`, comparing components, testing prefixes, sorting — is
bytewise in the source as well, and the paths the roots are compared with
are byte strings anyway.
-/

namespace Cuttlefish

/-- The path separator `/`. -/
def slash : UInt8 := 47

/-- The component `.`. -/
def dot : Bytes := [46]

/-- The component `..`. -/
def dotdot : Bytes := [46, 46]

/-! ## normalization -/

/-- Why a root set is refused. -/
inductive RootError where
  /-- `indexer scan root is empty` -/
  | emptyRoot
  /-- `indexer scan root … must be an absolute path` -/
  | relative (raw : Bytes)
  /-- `indexer scan root … contains a .. component` -/
  | parentComponent (raw : Bytes)
  /-- `fs_config.yml indexer section defines no scan root` -/
  | noRoots
  /-- `indexer scan roots … and … overlap` -/
  | overlap (a b : Bytes)
  deriving DecidableEq, Repr

/-- The component loop of `normalizeScanRoot`: `out` is the path so far. -/
def pushComponents (raw : Bytes) : List Bytes → Bytes → Except RootError Bytes
  | [], out => .ok out
  | c :: cs, out =>
      if c = [] ∨ c = dot then pushComponents raw cs out
      else if c = dotdot then .error (.parentComponent raw)
      else if 1 < out.length then pushComponents raw cs (out ++ [slash] ++ c)
      else pushComponents raw cs (out ++ c)

/-- Canonicalizes a configured scan root to the byte form the walker emits
for it: absolute, no repeated or trailing separators, no `.` segments. -/
def normalizeScanRoot (raw : Bytes) : Except RootError Bytes :=
  if raw = [] then .error .emptyRoot
  else if ¬ [slash] <+: raw then .error (.relative raw)
  else pushComponents raw (raw.splitOn slash) [slash]

/-! ## coverage -/

/-- The byte prefix every strict descendant of `root` starts with. -/
def scanRootPrefix (root : Bytes) : Bytes :=
  if root = [slash] then root else root ++ [slash]

/-- Does `path` lie within the subtree rooted at `root`, the root included? -/
def scanRootCovers (root path : Bytes) : Prop :=
  path = root ∨ scanRootPrefix root <+: path

instance (root path : Bytes) : Decidable (scanRootCovers root path) :=
  inferInstanceAs (Decidable (_ ∨ _))

/-- `path` lies under one of the roots. -/
def CoveredBy (roots : List Bytes) (path : Bytes) : Prop :=
  ∃ root ∈ roots, scanRootCovers root path

instance (roots : List Bytes) (path : Bytes) : Decidable (CoveredBy roots path) :=
  inferInstanceAs (Decidable (∃ root ∈ roots, _))

theorem scanRootCovers_self (root : Bytes) : scanRootCovers root root := Or.inl rfl

theorem prefix_scanRootPrefix (root : Bytes) : root <+: scanRootPrefix root := by
  unfold scanRootPrefix
  split_ifs
  · exact List.prefix_rfl
  · exact List.prefix_append _ _

theorem scanRootCovers.isPrefix {root path : Bytes} (h : scanRootCovers root path) :
    root <+: path := by
  rcases h with rfl | h
  · exact List.prefix_rfl
  · exact (prefix_scanRootPrefix root).trans h

theorem scanRootCovers.trans {a b c : Bytes} (hab : scanRootCovers a b)
    (hbc : scanRootCovers b c) : scanRootCovers a c := by
  rcases hab with rfl | hab
  · exact hbc
  · exact Or.inr (hab.trans hbc.isPrefix)

/-- Two ancestors of one path lie on one branch. -/
theorem scanRootCovers.total {a b path : Bytes} (ha : scanRootCovers a path)
    (hb : scanRootCovers b path) : scanRootCovers a b ∨ scanRootCovers b a := by
  have key : ∀ {a b : Bytes}, scanRootPrefix a <+: scanRootPrefix b →
      scanRootCovers a b ∨ scanRootCovers b a := by
    intro a b h
    by_cases hb : b = [slash]
    · rw [scanRootPrefix.eq_1 b, if_pos hb] at h
      exact Or.inl (Or.inr h)
    · rw [scanRootPrefix.eq_1 b, if_neg hb, List.prefix_concat_iff] at h
      rcases h with h | h
      · by_cases ha : a = [slash]
        · rw [scanRootPrefix, if_pos ha] at h
          refine Or.inr (Or.inr ?_)
          rw [scanRootPrefix, if_neg hb]
          exact h ▸ List.prefix_rfl
        · rw [scanRootPrefix, if_neg ha, List.append_cancel_right_eq] at h
          exact Or.inr (Or.inl h)
      · exact Or.inl (Or.inr h)
  rcases ha with rfl | ha
  · exact Or.inr hb
  · rcases hb with rfl | hb
    · exact Or.inl (Or.inr ha)
    · rcases List.prefix_or_prefix_of_prefix ha hb with h | h
      · exact key h
      · exact (key h).symm

/-! ## the root set of a run -/

/-- The `indexer` section of the configuration. -/
structure IndexerConfig where
  rootPath : Option Bytes
  rootPaths : List Bytes
  threads : Nat := 8
  deriving Repr

/-- `Vec::dedup`: drops consecutive repetitions. -/
def dedup : List Bytes → List Bytes
  | a :: b :: rest => if a = b then dedup (b :: rest) else a :: dedup (b :: rest)
  | rest => rest

/-- The overlap check: every root against every later one. -/
def firstOverlap : List Bytes → Option (Bytes × Bytes)
  | [] => none
  | a :: rest =>
      match rest.find? (fun b => scanRootCovers a b) with
      | some b => some (a, b)
      | none => firstOverlap rest

/-- The normalized, validated set of scan roots of a run, in sorted order. -/
def IndexerConfig.roots (config : IndexerConfig) : Except RootError (List Bytes) := do
  let normalized ← (config.rootPath.toList ++ config.rootPaths).mapM normalizeScanRoot
  if normalized = [] then throw .noRoots
  let sorted := dedup (normalized.insertionSort (· ≤ ·))
  match firstOverlap sorted with
  | some (a, b) => throw (.overlap a b)
  | none => return sorted

example : IndexerConfig.roots ⟨none, [utf8 "/srv".toList, utf8 "/home/".toList], 8⟩ =
    .ok [utf8 "/home".toList, utf8 "/srv".toList] := by decide

/-! ## accepted roots are absolute -/

theorem prefix_pushComponents {raw out out' : Bytes} {cs : List Bytes}
    (h : pushComponents raw cs out = .ok out') : out <+: out' := by
  induction cs generalizing out with
  | nil =>
      rw [pushComponents] at h
      exact Except.ok.inj h ▸ List.prefix_rfl
  | cons c cs ih =>
      rw [pushComponents] at h
      split_ifs at h
      · exact ih h
      · exact List.IsPrefix.trans (by simp [List.append_assoc]) (ih h)
      · exact List.IsPrefix.trans (List.prefix_append _ _) (ih h)

theorem absolute_of_normalizeScanRoot {raw out : Bytes} (h : normalizeScanRoot raw = .ok out) :
    [slash] <+: out := by
  unfold normalizeScanRoot at h
  split_ifs at h
  exact prefix_pushComponents h

theorem mem_of_mem_dedup {a : Bytes} {l : List Bytes} (h : a ∈ dedup l) : a ∈ l := by
  induction l using dedup.induct with
  | case1 b rest ih =>
      rw [dedup, if_pos rfl] at h
      exact List.mem_cons_of_mem b (ih h)
  | case2 b c rest hne ih =>
      rw [dedup, if_neg hne, List.mem_cons] at h
      rcases h with rfl | h
      · exact List.mem_cons_self
      · exact List.mem_cons_of_mem b (ih h)
  | case3 l hl =>
      rw [dedup] at h
      · exact h
      · exact hl

theorem mapM_eq_ok_iff {f : Bytes → Except RootError Bytes} {l out : List Bytes} :
    l.mapM f = .ok out ↔ l.map f = out.map .ok := by
  induction l generalizing out with
  | nil =>
      cases out with
      | nil => simp [pure, Except.pure]
      | cons b out => simp [pure, Except.pure]
  | cons a l ih =>
      rw [List.mapM_cons, List.map_cons]
      cases ha : f a with
      | error e => cases out <;> simp [bind, Except.bind]
      | ok b =>
          cases hl : l.mapM f with
          | error e =>
              have hno : ∀ out : List Bytes, l.map f ≠ out.map .ok := by
                intro out h
                rw [← ih, hl] at h
                contradiction
              cases out with
              | nil => simp [bind, Except.bind]
              | cons b' out => simp [bind, Except.bind, hno out]
          | ok bs =>
              have hbs := ih.mp hl
              cases out with
              | nil => simp [bind, Except.bind, pure, Except.pure]
              | cons b' out =>
                  simp [bind, Except.bind, pure, Except.pure, hbs,
                    List.map_inj_right fun _ _ => Except.ok.inj]

/-- Every element of a `mapM` result comes from an element of the list. -/
theorem exists_of_mem_mapM {f : Bytes → Except RootError Bytes} {l out : List Bytes} {b : Bytes}
    (h : l.mapM f = .ok out) (hb : b ∈ out) : ∃ a ∈ l, f a = .ok b := by
  have hmem : Except.ok b ∈ l.map f := by
    rw [mapM_eq_ok_iff.mp h]
    exact List.mem_map_of_mem hb
  exact List.mem_map.mp hmem

/-- What an accepted root set is: the sorted, deduplicated normal forms, none
of which overlaps a later one. -/
theorem roots_eq_ok_iff {config : IndexerConfig} {roots : List Bytes} :
    config.roots = .ok roots ↔
      ∃ normalized,
        (config.rootPath.toList ++ config.rootPaths).mapM normalizeScanRoot = .ok normalized ∧
          normalized ≠ [] ∧ roots = dedup (normalized.insertionSort (· ≤ ·)) ∧
            firstOverlap roots = none := by
  unfold IndexerConfig.roots
  cases hm : (config.rootPath.toList ++ config.rootPaths).mapM normalizeScanRoot with
  | error e => simp [bind, Except.bind]
  | ok normalized =>
      simp only [bind, Except.bind]
      by_cases hn : normalized = []
      · simp [hn, throw, throwThe, MonadExceptOf.throw]
      · cases ho : firstOverlap (dedup (normalized.insertionSort (· ≤ ·))) with
        | some p =>
            simp only [hn, throw, throwThe, MonadExceptOf.throw]
            simp only [if_false, reduceCtorEq, false_iff]
            rintro ⟨_, hx, _, rfl, hnone⟩
            rw [← Except.ok.inj hx, ho] at hnone
            contradiction
        | none =>
            simp only [hn, pure, Except.pure, if_false, Except.ok.injEq]
            constructor
            · rintro rfl
              exact ⟨normalized, rfl, hn, rfl, ho⟩
            · rintro ⟨_, rfl, _, rfl, _⟩
              rfl

/-- Every root of an accepted set is the normal form of a configured one. -/
theorem exists_of_mem_roots {config : IndexerConfig} {roots : List Bytes}
    (h : config.roots = .ok roots) {root : Bytes} (hr : root ∈ roots) :
    ∃ raw ∈ config.rootPath.toList ++ config.rootPaths, normalizeScanRoot raw = .ok root := by
  obtain ⟨normalized, hm, _, rfl, _⟩ := roots_eq_ok_iff.mp h
  exact exists_of_mem_mapM hm ((List.mem_insertionSort _).mp (mem_of_mem_dedup hr))

theorem dedup_sublist (l : List Bytes) : (dedup l).Sublist l := by
  induction l using dedup.induct with
  | case1 b rest ih =>
      rw [dedup, if_pos rfl]
      exact ih.cons b
  | case2 b c rest hne ih =>
      rw [dedup, if_neg hne]
      exact ih.cons_cons b
  | case3 l hl => rw [dedup]; exact hl

theorem pairwise_of_firstOverlap {l : List Bytes} (h : firstOverlap l = none) :
    l.Pairwise fun a b => ¬ scanRootCovers a b := by
  induction l with
  | nil => exact List.Pairwise.nil
  | cons a rest ih =>
      rw [firstOverlap] at h
      cases hf : rest.find? (fun b => scanRootCovers a b) with
      | some b => simp [hf] at h
      | none =>
          rw [hf] at h
          refine List.Pairwise.cons (fun b hb => ?_) (ih h)
          simpa using List.find?_eq_none.mp hf b hb

/-- **Accepted roots are disjoint**: no path lies under two of them.  The
overlap check only tests a root against later ones; sorting rules out the
other direction. -/
theorem roots_disjoint {config : IndexerConfig} {roots : List Bytes}
    (h : config.roots = .ok roots) :
    roots.Pairwise fun a b => ∀ path, ¬ (scanRootCovers a path ∧ scanRootCovers b path) := by
  obtain ⟨normalized, _, _, hroots, hoverlap⟩ := roots_eq_ok_iff.mp h
  have hsorted : roots.Pairwise (· ≤ ·) := by
    rw [hroots]
    exact (List.pairwise_insertionSort _ normalized).sublist (dedup_sublist _)
  refine hsorted.imp₂ ?_ (pairwise_of_firstOverlap hoverlap)
  rintro a b hle hno path ⟨ha, hb⟩
  rcases ha.total hb with hab | hba
  · exact hno hab
  · have hle' : b ≤ a := by
      obtain ⟨t, rfl⟩ := hba.isPrefix
      exact List.le_append_left
    rw [List.le_antisymm hle hle'] at hno
    exact hno (scanRootCovers_self b)

/-- Whatever an accepted root set covers is absolute. -/
theorem absolute_of_coveredBy {config : IndexerConfig} {roots : List Bytes}
    (h : config.roots = .ok roots) {path : Bytes} (hp : CoveredBy roots path) :
    [slash] <+: path := by
  obtain ⟨root, hr, hcov⟩ := hp
  obtain ⟨raw, _, hn⟩ := exists_of_mem_roots h hr
  have habs := absolute_of_normalizeScanRoot hn
  rcases hcov with rfl | hpre
  · exact habs
  · refine List.IsPrefix.trans ?_ hpre
    unfold scanRootPrefix
    split_ifs with hroot
    · exact habs
    · exact habs.trans (List.prefix_append _ _)

end Cuttlefish
