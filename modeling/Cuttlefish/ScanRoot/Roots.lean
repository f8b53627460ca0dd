import Cuttlefish.GoPath
import Mathlib.Data.List.Lex
import Mathlib.Data.List.Pairwise

/-!
# Cuttlefish.ScanRoot.Roots

Which configurations `IndexerConfig::roots` accepts, and what it returns for
them.

The overlap check looks forward only, over a sorted list.  `roots_spec` says
that this is enough: what covers a root sorts before it, and two roots that
cover one path cover one another.
-/

namespace Cuttlefish

/-- The roots of a configuration as they are written, `root_path` first. -/
def IndexerConfig.configured (config : IndexerConfig) : List Bytes :=
  config.rootPath.toList ++ config.rootPaths

/-! ## the loops -/

theorem mem_dedup_iff {a : Bytes} {l : List Bytes} : a ∈ dedup l ↔ a ∈ l := by
  refine ⟨mem_of_mem_dedup, fun h => ?_⟩
  induction l using dedup.induct with
  | case1 b rest ih =>
      rw [dedup, if_pos rfl]
      exact ih (by simpa using h)
  | case2 b c rest hne ih =>
      rw [dedup, if_neg hne, List.mem_cons]
      exact (List.mem_cons.mp h).imp_right ih
  | case3 l hl =>
      rw [dedup]
      · exact h
      · exact hl

/-- Without repetitions, a sorted list increases. -/
theorem pairwise_lt_dedup {l : List Bytes} (h : l.Pairwise (· ≤ ·)) :
    (dedup l).Pairwise (· < ·) := by
  induction l using dedup.induct with
  | case1 b rest ih =>
      rw [dedup, if_pos rfl]
      exact ih h.of_cons
  | case2 b c rest hne ih =>
      rw [dedup, if_neg hne, List.pairwise_cons]
      refine ⟨fun x hx => ?_, ih h.of_cons⟩
      have hbc : b < c := by
        cases List.le_iff_lt_or_eq.mp (List.rel_of_pairwise_cons h List.mem_cons_self) with
        | inl hlt => exact hlt
        | inr heq => exact absurd heq hne
      cases List.mem_cons.mp (mem_dedup_iff.mp hx) with
      | inl heq => exact heq ▸ hbc
      | inr hin =>
          cases List.le_iff_lt_or_eq.mp (List.rel_of_pairwise_cons h.of_cons hin) with
          | inl hlt => exact List.lt_trans hbc hlt
          | inr heq => exact heq ▸ hbc
  | case3 l hl =>
      rw [dedup]
      · cases l with
        | nil => exact List.Pairwise.nil
        | cons a l =>
            cases l with
            | nil => simp
            | cons b l => exact absurd rfl (hl a b l)
      · exact hl

theorem firstOverlap_eq_none_iff {l : List Bytes} :
    firstOverlap l = none ↔ l.Pairwise fun a b => ¬ scanRootCovers a b := by
  refine ⟨pairwise_of_firstOverlap, fun h => ?_⟩
  induction l with
  | nil => rfl
  | cons a l ih =>
      have hfind : l.find? (fun b => scanRootCovers a b) = none :=
        List.find?_eq_none.mpr fun b hb => by simpa using List.rel_of_pairwise_cons h hb
      rw [firstOverlap, hfind]
      exact ih h.of_cons

/-! ## accepted configurations -/

section Accepted

variable {config : IndexerConfig} {roots : List Bytes}

/-- What an accepted configuration yields is the set of its normal forms. -/
theorem mem_roots_iff (h : config.roots = .ok roots) {root : Bytes} :
    root ∈ roots ↔ ∃ raw ∈ config.configured, normalizeScanRoot raw = .ok root := by
  obtain ⟨normalized, hm, _, rfl, _⟩ := roots_eq_ok_iff.mp h
  have hmap := mapM_eq_ok_iff.mp hm
  rw [mem_dedup_iff, List.mem_insertionSort, ← List.mem_map, IndexerConfig.configured, hmap,
    List.mem_map]
  simp

theorem pairwise_lt_roots (h : config.roots = .ok roots) : roots.Pairwise (· < ·) := by
  obtain ⟨normalized, _, _, rfl, _⟩ := roots_eq_ok_iff.mp h
  exact pairwise_lt_dedup (List.pairwise_insertionSort _ normalized)

/-- A path lies under one root at most. -/
theorem length_filter_covers_le (h : config.roots = .ok roots) (path : Bytes) :
    (roots.filter fun root => scanRootCovers root path).length ≤ 1 := by
  have hpair : (roots.filter fun root => scanRootCovers root path).Pairwise
      fun a b => ∀ p, ¬ (scanRootCovers a p ∧ scanRootCovers b p) :=
    (roots_disjoint h).sublist List.filter_sublist
  cases hf : roots.filter fun root => scanRootCovers root path with
  | nil => simp
  | cons a rest =>
      cases rest with
      | nil => simp
      | cons b rest =>
          have hcovers : ∀ x ∈ [a, b], scanRootCovers x path := by
            intro x hx
            have hmem : x ∈ roots.filter fun root => scanRootCovers root path := by
              rw [hf]
              exact (List.sublist_append_left [a, b] rest).subset hx
            simpa using (List.mem_filter.mp hmem).2
          rw [hf] at hpair
          have hno := List.rel_of_pairwise_cons hpair List.mem_cons_self path
          exact absurd ⟨hcovers a (by simp), hcovers b (by simp)⟩ hno

/-- No two accepted normal forms cover one another. -/
theorem not_covers_of_mem_roots (h : config.roots = .ok roots) {a b : Bytes} (ha : a ∈ roots)
    (hb : b ∈ roots) (hne : a ≠ b) : ¬ scanRootCovers a b := by
  intro hcovers
  let disjoint (a b : Bytes) : Prop := ∀ p, ¬ (scanRootCovers a p ∧ scanRootCovers b p)
  have : Std.Symm disjoint := ⟨fun x y hxy p hp => hxy p ⟨hp.2, hp.1⟩⟩
  have hdisjoint : disjoint a b := (roots_disjoint h).forall ha hb hne
  exact hdisjoint b ⟨hcovers, scanRootCovers_self b⟩

end Accepted

/-- Normal forms of which none covers another pass the check. -/
theorem exists_roots {config : IndexerConfig} (hne : config.configured ≠ [])
    (habs : ∀ raw ∈ config.configured, [slash] <+: raw ∧ dotdot ∉ raw.splitOn slash)
    (hcovers : ∀ a ∈ config.configured, ∀ b ∈ config.configured, ∀ root root',
      normalizeScanRoot a = .ok root → normalizeScanRoot b = .ok root' → root ≠ root' →
        ¬ scanRootCovers root root') :
    ∃ roots, config.roots = .ok roots := by
  let normalized := config.configured.map fun raw => absPath (components raw)
  have hok : ∀ raw ∈ config.configured,
      normalizeScanRoot raw = .ok (absPath (components raw)) := fun raw hraw =>
    normalizeScanRoot_eq_ok.mpr ⟨habs raw hraw, rfl⟩
  have hm : config.configured.mapM normalizeScanRoot = .ok normalized := by
    rw [mapM_eq_ok_iff, List.map_map]
    exact List.map_congr_left hok
  refine ⟨_, roots_eq_ok_iff.mpr ⟨normalized, hm, by simpa [normalized] using hne, rfl, ?_⟩⟩
  have hlt := pairwise_lt_dedup (List.pairwise_insertionSort (· ≤ ·) normalized)
  rw [firstOverlap_eq_none_iff]
  refine hlt.imp_of_mem fun hx hy hxy => ?_
  rw [mem_dedup_iff, List.mem_insertionSort, List.mem_map] at hx hy
  obtain ⟨a, ha, rfl⟩ := hx
  obtain ⟨b, hb, rfl⟩ := hy
  exact hcovers a ha b hb _ _ (hok a ha) (hok b hb) fun heq =>
    List.lt_irrefl _ (heq ▸ hxy)

/-- **Accepted configurations** give a root at least, absolute roots only,
and none that covers another; the result is the increasing list of the normal
forms, no two of which share a path. -/
theorem roots_spec (config : IndexerConfig) :
    ((∃ roots, config.roots = .ok roots) ↔
      config.configured ≠ [] ∧
        (∀ raw ∈ config.configured, [slash] <+: raw ∧ dotdot ∉ raw.splitOn slash) ∧
          ∀ a ∈ config.configured, ∀ b ∈ config.configured, ∀ root root',
            normalizeScanRoot a = .ok root → normalizeScanRoot b = .ok root' → root ≠ root' →
              ¬ scanRootCovers root root') ∧
      ∀ roots, config.roots = .ok roots →
        roots.Pairwise (· < ·) ∧
          (∀ root, root ∈ roots ↔ ∃ raw ∈ config.configured, normalizeScanRoot raw = .ok root) ∧
            ∀ path, (roots.filter fun root => scanRootCovers root path).length ≤ 1 := by
  refine ⟨⟨fun h => ?_, fun h => exists_roots h.1 h.2.1 h.2.2⟩, fun roots h => ?_⟩
  · obtain ⟨roots, h⟩ := h
    obtain ⟨normalized, hm, hne, _⟩ := roots_eq_ok_iff.mp h
    have hmap := mapM_eq_ok_iff.mp hm
    refine ⟨fun hnil => ?_, fun raw hraw => ?_, fun a ha b hb root root' hroot hroot' => ?_⟩
    · rw [← IndexerConfig.configured, hnil] at hmap
      exact hne (by simpa using hmap)
    · have hmem : normalizeScanRoot raw ∈ normalized.map .ok := by
        rw [← hmap]
        exact List.mem_map_of_mem hraw
      obtain ⟨root, _, hroot⟩ := List.mem_map.mp hmem
      exact (normalizeScanRoot_eq_ok.mp hroot.symm).1
    · exact not_covers_of_mem_roots h ((mem_roots_iff h).mpr ⟨a, ha, hroot⟩)
        ((mem_roots_iff h).mpr ⟨b, hb, hroot'⟩)
  · exact ⟨pairwise_lt_roots h, fun _ => mem_roots_iff h, length_filter_covers_le h⟩

/-- `/a` covers `/a/b`, and `/a!` sorts between them. -/
def sampleNested : IndexerConfig :=
  ⟨some (utf8 "/a/b".toList), [utf8 "/a!".toList, utf8 "/a".toList], 8⟩

theorem roots_spec_sample :
    (¬ ∃ roots, sampleNested.roots = .ok roots) ∧
      ([utf8 "/home".toList, utf8 "/srv".toList].filter fun root =>
        scanRootCovers root (utf8 "/home/a".toList)).length ≤ 1 := by
  constructor
  · rw [(roots_spec sampleNested).1]
    intro h
    exact h.2.2 (utf8 "/a".toList) (by decide) (utf8 "/a/b".toList) (by decide)
      (utf8 "/a".toList) (utf8 "/a/b".toList) (by decide) (by decide) (by decide) (by decide)
  · have hroots : (IndexerConfig.mk none [utf8 "/srv".toList, utf8 "/home/".toList] 8).roots =
        .ok [utf8 "/home".toList, utf8 "/srv".toList] := by decide
    exact ((roots_spec _).2 _ hroots).2.2 _

end Cuttlefish
