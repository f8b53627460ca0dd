import Cuttlefish.ScanRoot

/-!
# Cuttlefish.GoPath

Go's `path.Clean` on byte strings — the shortest equivalent path by lexical
processing alone — and the paths it leaves alone.

A canonical absolute path is determined by its components:
`canonical_iff` says that it is `absPath cs` for components that are neither
empty, nor `.`, nor `..`, and `components_absPath` reads them back.
-/

namespace Cuttlefish

/-- What `..` does to the stack of components, innermost first: it drops the
last one, is kept where there is none to drop, and is ignored at a root. -/
def parentStack (rooted : Bool) : List Bytes → List Bytes
  | [] => if rooted then [] else [dotdot]
  | top :: rest => if top = dotdot then dotdot :: top :: rest else rest

/-- Drops `.` and empty components and resolves `..` against the stack. -/
def cleanStack (rooted : Bool) : List Bytes → List Bytes → List Bytes
  | [], out => out
  | c :: cs, out =>
      if c = [] ∨ c = dot then cleanStack rooted cs out
      else if c = dotdot then cleanStack rooted cs (parentStack rooted out)
      else cleanStack rooted cs (c :: out)

/-- `path.Clean`. -/
def clean (p : Bytes) : Bytes :=
  let rooted := decide ([slash] <+: p)
  let out := (cleanStack rooted (p.splitOn slash) []).reverse
  if rooted then slash :: [slash].intercalate out
  else if out = [] then dot
  else [slash].intercalate out

example : clean (utf8 "/a//../b/".toList) = utf8 "/b".toList := by decide

theorem intercalate_concat {α : Type} (sep : List α) {l : List (List α)} (hl : l ≠ [])
    (x : List α) : sep.intercalate (l ++ [x]) = sep.intercalate l ++ sep ++ x := by
  induction l with
  | nil => exact absurd rfl hl
  | cons y l ih =>
      cases l with
      | nil => simp [List.intercalate_cons_cons]
      | cons z l =>
          rw [List.cons_append, List.cons_append, List.intercalate_cons_cons,
            List.intercalate_cons_cons, ← List.cons_append, ih (by simp)]
          simp

/-! ## components -/

/-- The components of a path: what lies between separators, but for empty
ones and `.`. -/
def components (p : Bytes) : List Bytes := (p.splitOn slash).filter fun c => c ≠ [] ∧ c ≠ dot

/-- The absolute path with the given components. -/
def absPath (cs : List Bytes) : Bytes := slash :: [slash].intercalate cs

/-- One proper component of a path. -/
structure IsComponent (c : Bytes) : Prop where
  ne_nil : c ≠ []
  slash_not_mem : slash ∉ c
  ne_dot : c ≠ dot
  ne_dotdot : c ≠ dotdot

/-- An absolute path `path.Clean` leaves alone. -/
def Canonical (p : Bytes) : Prop := [slash] <+: p ∧ clean p = p

instance (p : Bytes) : Decidable (Canonical p) := inferInstanceAs (Decidable (_ ∧ _))

theorem not_mem_of_mem_splitOn {α : Type} [DecidableEq α] {x : α} {p c : List α}
    (h : c ∈ p.splitOn x) : x ∉ c := by
  induction p generalizing c with
  | nil =>
      rw [List.splitOn_nil, List.mem_singleton] at h
      simp [h]
  | cons b p ih =>
      rw [List.splitOn_cons_eq_if_modifyHead] at h
      split_ifs at h with hb
      · cases List.mem_cons.mp h with
        | inl hc => simp [hc]
        | inr hc => exact ih hc
      · cases hs : p.splitOn x with
        | nil => exact absurd hs (List.splitOn_ne_nil x p)
        | cons c' cs =>
            rw [hs] at h ih
            cases List.mem_cons.mp h with
            | inl hc =>
                have hne : b ≠ x := by simpa using hb
                have hin : x ∉ c' := ih List.mem_cons_self
                simp [hc, hne.symm, hin]
            | inr hc => exact ih (List.mem_cons_of_mem c' hc)

theorem splitOn_absPath {cs : List Bytes} (h : ∀ c ∈ cs, IsComponent c) :
    (absPath cs).splitOn slash = [] :: if cs = [] then [[]] else cs := by
  rw [absPath, List.splitOn_cons_eq_if_modifyHead, if_pos (by simp)]
  split_ifs with hcs
  · subst hcs
    rfl
  · rw [List.splitOn_intercalate slash (fun c hc => (h c hc).slash_not_mem) hcs]

/-- The components of a joined path. -/
theorem components_absPath {cs : List Bytes} (h : ∀ c ∈ cs, IsComponent c) :
    components (absPath cs) = cs := by
  have hself : cs.filter (fun c => c ≠ [] ∧ c ≠ dot) = cs :=
    List.filter_eq_self.mpr fun c hc => by simp [(h c hc).ne_nil, (h c hc).ne_dot]
  rw [components, splitOn_absPath h]
  split_ifs with hcs
  · subst hcs
    rfl
  · simpa using hself

theorem dotdot_not_mem_splitOn_absPath {cs : List Bytes} (h : ∀ c ∈ cs, IsComponent c) :
    dotdot ∉ (absPath cs).splitOn slash := by
  rw [splitOn_absPath h]
  split_ifs with hnil
  · decide
  · intro hmem
    cases List.mem_cons.mp hmem with
    | inl heq => exact absurd heq (by decide)
    | inr hin => exact (h dotdot hin).ne_dotdot rfl

/-- What is dropped from the components. -/
theorem filter_cons_skipped {c : Bytes} {cs : List Bytes} (hskip : c = [] ∨ c = dot) :
    (c :: cs).filter (fun c => c ≠ [] ∧ c ≠ dot) = cs.filter fun c => c ≠ [] ∧ c ≠ dot :=
  List.filter_cons_of_neg (by rw [decide_eq_true_eq, ← not_or]; exact not_not_intro hskip)

/-- At a root the stack holds proper components only. -/
theorem isComponent_of_mem_cleanStack {cs out : List Bytes} (hcs : ∀ c ∈ cs, slash ∉ c)
    (hout : ∀ c ∈ out, IsComponent c) : ∀ c ∈ cleanStack true cs out, IsComponent c := by
  induction cs generalizing out with
  | nil => exact hout
  | cons c cs ih =>
      rw [List.forall_mem_cons] at hcs
      rw [cleanStack]
      split_ifs with hskip hup
      · exact ih hcs.2 hout
      · refine ih hcs.2 ?_
        cases out with
        | nil => simp [parentStack]
        | cons top rest =>
            rw [List.forall_mem_cons] at hout
            rw [parentStack, if_neg hout.1.ne_dotdot]
            exact hout.2
      · rw [not_or] at hskip
        exact ih hcs.2 (List.forall_mem_cons.mpr ⟨⟨hskip.1, hcs.1, hskip.2, hup⟩, hout⟩)

/-- Without a `..` the stack keeps the components. -/
theorem cleanStack_eq_filter {rooted : Bool} {cs out : List Bytes} (h : dotdot ∉ cs) :
    cleanStack rooted cs out = (cs.filter fun c => c ≠ [] ∧ c ≠ dot).reverse ++ out := by
  induction cs generalizing out with
  | nil => rfl
  | cons c cs ih =>
      rw [List.mem_cons, not_or] at h
      rw [cleanStack]
      split_ifs with hskip hup
      · rw [ih h.2, filter_cons_skipped hskip]
      · exact absurd hup.symm h.1
      · have hkeep : (c :: cs).filter (fun c => c ≠ [] ∧ c ≠ dot) =
            c :: cs.filter fun c => c ≠ [] ∧ c ≠ dot :=
          List.filter_cons_of_pos (by rw [decide_eq_true_eq, ← not_or]; exact hskip)
        rw [ih h.2, hkeep]
        simp

theorem clean_eq_absPath {p : Bytes} (h : [slash] <+: p) :
    clean p = absPath (cleanStack true (p.splitOn slash) []).reverse := by
  simp [clean, h, absPath]

/-- **Canonical paths** are those joined from proper components. -/
theorem canonical_iff {p : Bytes} :
    Canonical p ↔ ∃ cs, (∀ c ∈ cs, IsComponent c) ∧ p = absPath cs := by
  constructor
  · rintro ⟨habs, hclean⟩
    refine ⟨(cleanStack true (p.splitOn slash) []).reverse, fun c hc => ?_, ?_⟩
    · exact isComponent_of_mem_cleanStack (fun c hc => not_mem_of_mem_splitOn hc) (by simp)
        c (List.mem_reverse.mp hc)
    · rw [← clean_eq_absPath habs, hclean]
  · rintro ⟨cs, h, rfl⟩
    have habs : [slash] <+: absPath cs := ⟨[slash].intercalate cs, rfl⟩
    have hup : dotdot ∉ (absPath cs).splitOn slash := dotdot_not_mem_splitOn_absPath h
    refine ⟨habs, ?_⟩
    rw [clean_eq_absPath habs, cleanStack_eq_filter hup, List.append_nil, List.reverse_reverse]
    exact congrArg absPath (components_absPath h)

theorem canonical_clean {p : Bytes} (h : [slash] <+: p) : Canonical (clean p) := by
  rw [clean_eq_absPath h]
  refine canonical_iff.mpr ⟨_, fun c hc => ?_, rfl⟩
  exact isComponent_of_mem_cleanStack (fun c hc => not_mem_of_mem_splitOn hc) (by simp) c
    (List.mem_reverse.mp hc)

theorem Canonical.eq_absPath {p : Bytes} (h : Canonical p) : p = absPath (components p) := by
  obtain ⟨cs, hcs, rfl⟩ := canonical_iff.mp h
  rw [components_absPath hcs]

theorem Canonical.isComponent {p : Bytes} (h : Canonical p) :
    ∀ c ∈ components p, IsComponent c := by
  obtain ⟨cs, hcs, rfl⟩ := canonical_iff.mp h
  rwa [components_absPath hcs]

/-- What a path covers starts with its components. -/
theorem components_prefix_of_scanRootCovers {root path : Bytes} (h : scanRootCovers root path) :
    components root <+: components path := by
  cases h with
  | inl heq => simp [heq]
  | inr hpre =>
      rw [scanRootPrefix] at hpre
      split_ifs at hpre with hroot
      · have hnil : components root = [] := by
          rw [hroot]
          decide
        rw [hnil]
        exact List.nil_prefix
      · obtain ⟨rest, rfl⟩ := hpre
        rw [List.append_assoc, List.singleton_append, components, components,
          List.splitOn_append_cons_self, List.filter_append]
        exact List.prefix_append _ _

/-! ## joining -/

theorem absPath_ne_slash {cs : List Bytes} (h : ∀ c ∈ cs, c ≠ []) (hne : cs ≠ []) :
    absPath cs ≠ [slash] := by
  cases cs with
  | nil => exact absurd rfl hne
  | cons c cs =>
      have hc : c ≠ [] := h c List.mem_cons_self
      rw [absPath, Ne, List.cons_eq_cons]
      cases cs with
      | nil => simpa using hc
      | cons c' cs => simp [List.intercalate_cons_cons]

/-- A path joined with one more name. -/
theorem absPath_concat {cs : List Bytes} (h : ∀ c ∈ cs, c ≠ []) (c : Bytes) :
    absPath (cs ++ [c]) = scanRootPrefix (absPath cs) ++ c := by
  by_cases hcs : cs = []
  · subst hcs
    simp [absPath, scanRootPrefix]
  · rw [scanRootPrefix, if_neg (absPath_ne_slash h hcs), absPath, absPath,
      intercalate_concat _ hcs]
    simp

/-- The component loop joins what is left of the components, and refuses a `..`. -/
theorem pushComponents_absPath {raw : Bytes} {cs done : List Bytes} (hcs : ∀ c ∈ cs, slash ∉ c)
    (hdone : ∀ c ∈ done, IsComponent c) :
    pushComponents raw cs (absPath done) =
      if dotdot ∈ cs then .error (.parentComponent raw)
      else .ok (absPath (done ++ cs.filter fun c => c ≠ [] ∧ c ≠ dot)) := by
  induction cs generalizing done with
  | nil => simp [pushComponents]
  | cons c cs ih =>
      rw [List.forall_mem_cons] at hcs
      rw [pushComponents]
      by_cases hskip : c = [] ∨ c = dot
      · have hup : dotdot ≠ c := by
          rintro rfl
          exact absurd hskip (by decide)
        rw [if_pos hskip, ih hcs.2 hdone, filter_cons_skipped hskip]
        simp [hup]
      · by_cases hup : c = dotdot
        · simp [hup, dot, dotdot]
        · rw [not_or] at hskip
          have hc : IsComponent c := ⟨hskip.1, hcs.1, hskip.2, hup⟩
          have hpush : (if 1 < (absPath done).length then
              pushComponents raw cs (absPath done ++ [slash] ++ c)
              else pushComponents raw cs (absPath done ++ c)) =
                pushComponents raw cs (absPath (done ++ [c])) := by
            rw [absPath_concat fun x hx => (hdone x hx).ne_nil]
            by_cases hnil : done = []
            · subst hnil
              rfl
            · have hslash := absPath_ne_slash (fun x hx => (hdone x hx).ne_nil) hnil
              have hlen : 1 < (absPath done).length := by
                rw [absPath, List.length_cons, Nat.lt_add_left_iff_pos, List.length_pos_iff]
                intro hinter
                exact hslash (by rw [absPath, hinter])
              rw [if_pos hlen, scanRootPrefix, if_neg hslash]
          have hdone' : ∀ x ∈ done ++ [c], IsComponent x := by
            intro x hx
            cases List.mem_append.mp hx with
            | inl hold => exact hdone x hold
            | inr hnew => exact List.mem_singleton.mp hnew ▸ hc
          rw [if_neg (not_or.mpr hskip), if_neg hup, hpush, ih hcs.2 hdone']
          simp [hskip.1, hskip.2, Ne.symm hup]

/-- **Accepted roots**: absolute, without a `..`, and joined anew from their
components. -/
theorem normalizeScanRoot_eq_ok {raw out : Bytes} :
    normalizeScanRoot raw = .ok out ↔
      ([slash] <+: raw ∧ dotdot ∉ raw.splitOn slash) ∧ out = absPath (components raw) := by
  have hloop : pushComponents raw (raw.splitOn slash) (absPath []) =
      if dotdot ∈ raw.splitOn slash then .error (.parentComponent raw)
      else .ok (absPath (components raw)) :=
    pushComponents_absPath (fun c hc => not_mem_of_mem_splitOn hc) (by simp)
  unfold normalizeScanRoot
  by_cases habs : [slash] <+: raw
  · have hne : raw ≠ [] := by
      rintro rfl
      exact absurd habs (by simp)
    have hslash : ([slash] : Bytes) = absPath [] := rfl
    rw [if_neg hne, if_neg (not_not_intro habs), hslash, hloop, ← hslash]
    split_ifs with hup
    · simp [hup]
    · rw [Except.ok.injEq, eq_comm, iff_and_self]
      exact fun _ => ⟨habs, hup⟩
  · split_ifs
    · simp [habs]
    · simp [habs]

theorem isComponent_of_accepted {raw : Bytes} (h : dotdot ∉ raw.splitOn slash) :
    ∀ c ∈ components raw, IsComponent c := by
  intro c hc
  rw [components, List.mem_filter, decide_eq_true_eq] at hc
  refine ⟨hc.2.1, not_mem_of_mem_splitOn hc.1, hc.2.2, ?_⟩
  rintro rfl
  exact h hc.1

/-- **Accepted roots are canonical.** -/
theorem canonical_of_normalizeScanRoot {raw out : Bytes} (h : normalizeScanRoot raw = .ok out) :
    Canonical out := by
  obtain ⟨hraw, rfl⟩ := normalizeScanRoot_eq_ok.mp h
  exact canonical_iff.mpr ⟨components raw, isComponent_of_accepted hraw.2, rfl⟩

/-- A canonical path is its own normal form. -/
theorem Canonical.normalizeScanRoot_eq {p : Bytes} (h : Canonical p) :
    normalizeScanRoot p = .ok p := by
  obtain ⟨cs, hcs, rfl⟩ := canonical_iff.mp h
  exact normalizeScanRoot_eq_ok.mpr
    ⟨⟨h.1, dotdot_not_mem_splitOn_absPath hcs⟩, by rw [components_absPath hcs]⟩

end Cuttlefish
