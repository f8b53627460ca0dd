import Cuttlefish.Access
import Cuttlefish.Indexer.Walk

/-!
# Cuttlefish.ScanRoot.Clean

The indexer's normal form of a scan root is Go's: `normalize_scan_root`
agrees with `path.Clean` on everything it accepts.

What the walker appends are names of directory entries, never `.` or `..`, so
every path that is stored is canonical (`canonical_joinNames`), and `allows`
decides by the prefixes alone.
-/

namespace Cuttlefish

/-- **Both sides agree** on the roots the indexer accepts. -/
theorem normalizeScanRoot_eq_clean {raw out : Bytes} (h : normalizeScanRoot raw = .ok out) :
    out = clean raw := by
  obtain ⟨⟨habs, hup⟩, rfl⟩ := normalizeScanRoot_eq_ok.mp h
  rw [clean_eq_absPath habs, cleanStack_eq_filter hup, List.append_nil, List.reverse_reverse]
  rfl

/-- The components decide the normal form. -/
theorem normalizeScanRoot_inj_iff {raw raw' out out' : Bytes}
    (h : normalizeScanRoot raw = .ok out) (h' : normalizeScanRoot raw' = .ok out') :
    out = out' ↔ components raw = components raw' := by
  obtain ⟨⟨_, hup⟩, rfl⟩ := normalizeScanRoot_eq_ok.mp h
  obtain ⟨⟨_, hup'⟩, rfl⟩ := normalizeScanRoot_eq_ok.mp h'
  constructor
  · intro heq
    have hcomponents := congrArg components heq
    rwa [components_absPath (isComponent_of_accepted hup),
      components_absPath (isComponent_of_accepted hup')] at hcomponents
  · intro heq
    rw [heq]

/-! ## stored paths -/

/-- An entry of a canonical directory, unless its name is `.` or `..`. -/
theorem canonical_under {dir : Bytes} {name : FileName} (hdir : Canonical dir)
    (hdot : name.bytes ≠ dot) (hdotdot : name.bytes ≠ dotdot) : Canonical (name.under dir) := by
  obtain ⟨cs, hcs, rfl⟩ := canonical_iff.mp hdir
  have hname : IsComponent name.bytes := ⟨name.nonempty, name.slash_not_mem, hdot, hdotdot⟩
  refine canonical_iff.mpr ⟨cs ++ [name.bytes], fun c hc => ?_, ?_⟩
  · cases List.mem_append.mp hc with
    | inl hold => exact hcs c hold
    | inr hnew => exact List.mem_singleton.mp hnew ▸ hname
  · exact (absPath_concat (fun c hc => (hcs c hc).ne_nil) name.bytes).symm

/-- Descending keeps a path canonical. -/
theorem canonical_joinNames {path : Bytes} {names : List FileName} (hpath : Canonical path)
    (hnames : ∀ name ∈ names, name.bytes ≠ dot ∧ name.bytes ≠ dotdot) :
    Canonical (joinNames path names) := by
  induction names generalizing path with
  | nil => exact hpath
  | cons name names ih =>
      rw [List.forall_mem_cons] at hnames
      exact ih (canonical_under hpath hnames.1.1 hnames.1.2) hnames.2

/-- **One normal form**: an accepted root is cleaned as Go cleans it, once and
for all, and by its components; what the walker stores below it starts with
`/` and is clean, so a restricted user is refused for the prefixes only. -/
theorem normalizeScanRoot_spec :
    (∀ raw out, normalizeScanRoot raw = .ok out →
        out = clean raw ∧ normalizeScanRoot out = .ok out) ∧
      (∀ raw raw' out out', normalizeScanRoot raw = .ok out → normalizeScanRoot raw' = .ok out' →
        (out = out' ↔ components raw = components raw')) ∧
      ∀ raw root names, normalizeScanRoot raw = .ok root →
        (∀ name ∈ names, name.bytes ≠ dot ∧ name.bytes ≠ dotdot) →
          [slash] <+: joinNames root names ∧
            clean (joinNames root names) = joinNames root names ∧
            ∀ a : Access, a.role = .restricted →
              (a.allows (joinNames root names) = true ↔
                CoveredBy (a.prefixes.map utf8) (joinNames root names)) := by
  refine ⟨fun raw out h => ?_, fun raw raw' out out' => normalizeScanRoot_inj_iff,
    fun raw root names h hnames => ?_⟩
  · exact ⟨normalizeScanRoot_eq_clean h, (canonical_of_normalizeScanRoot h).normalizeScanRoot_eq⟩
  · have hcanonical := canonical_joinNames (canonical_of_normalizeScanRoot h) hnames
    exact ⟨hcanonical.1, hcanonical.2, fun a hrole => allows_iff_coveredBy hrole hcanonical⟩

theorem normalizeScanRoot_spec_home :
    utf8 "/home".toList = clean (utf8 "//home/./".toList) ∧
      (({ user := [], role := .restricted, prefixes := ["/home".toList] } : Access).allows
          (utf8 "/home/a".toList) = true ↔
        CoveredBy [utf8 "/home".toList] (utf8 "/home/a".toList)) := by
  have hroot : normalizeScanRoot (utf8 "//home/./".toList) = .ok (utf8 "/home".toList) := by decide
  obtain ⟨hclean, _, hstored⟩ := normalizeScanRoot_spec
  exact ⟨(hclean _ _ hroot).1, (hstored _ _ [⟨[97], by decide, by decide⟩] hroot (by decide)).2.2
    { user := [], role := .restricted, prefixes := ["/home".toList] } rfl⟩

end Cuttlefish
