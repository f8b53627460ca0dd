import Cuttlefish.Admin

/-!
# Cuttlefish.Admin.Template

A grant's prefix is a template: `{user}` stands for the mapped name of
whoever the grant is resolved for.

Filling it in happens after the prefix was cleaned, so the result has to be
canonical by itself.  It is, segment by segment: a name `grantUser` accepts
contains no separator, and no segment it occurs in can be empty, `.` or `..`.
-/

namespace Cuttlefish

/-! ## replacing -/

section

variable {old new : Text}

theorem prefix_of_prefix_append_cons {sep : Char} (hsep : sep ∉ old) {s t : Text}
    (h : old <+: s ++ sep :: t) : old <+: s := by
  induction s generalizing old with
  | nil =>
      cases old with
      | nil => simp
      | cons c old =>
          have hc : c = sep := (List.cons_prefix_cons.mp h).1
          simp [hc] at hsep
  | cons c s ih =>
      cases old with
      | nil => simp
      | cons c' old =>
          rw [List.cons_append, List.cons_prefix_cons] at h
          rw [List.mem_cons, not_or] at hsep
          exact List.cons_prefix_cons.mpr ⟨h.1, ih hsep.2 h.2⟩

/-- Nothing is replaced across a separator. -/
theorem replaceAll_append_cons {sep : Char} (hsep : sep ∉ old) (hold : old ≠ []) {skip : Nat}
    {s : Text} (t : Text) (hskip : skip ≤ s.length) :
    replaceAll old new skip (s ++ sep :: t) =
      replaceAll old new skip s ++ sep :: replaceAll old new 0 t := by
  induction s generalizing skip with
  | nil =>
      have hzero : skip = 0 := by simpa using hskip
      have hmiss : ¬ old <+: sep :: t := fun h => hold (by
        simpa using prefix_of_prefix_append_cons (s := []) hsep h)
      simp [hzero, replaceAll, hmiss]
  | cons c s ih =>
      cases skip with
      | succ skip => simpa [replaceAll] using ih (by simpa using hskip)
      | zero =>
          rw [List.cons_append, replaceAll, replaceAll]
          by_cases hpre : old <+: c :: s
          · have hlen : old.length - 1 ≤ s.length := by
              have hle := hpre.length_le
              rw [List.length_cons] at hle
              omega
            have hlong : old <+: c :: (s ++ sep :: t) :=
              hpre.trans (List.prefix_append (c :: s) (sep :: t))
            rw [if_pos hpre, if_pos hlong, ih hlen, List.append_assoc]
          · have hlong : ¬ old <+: c :: (s ++ sep :: t) := fun h =>
              hpre (prefix_of_prefix_append_cons (s := c :: s) hsep h)
            rw [if_neg hpre, if_neg hlong, ih (Nat.zero_le _), List.cons_append]

/-- A joined text is replaced part by part. -/
theorem replaceAll_intercalate {sep : Char} (hsep : sep ∉ old) (hold : old ≠ [])
    (segs : List Text) :
    replaceAll old new 0 ([sep].intercalate segs) =
      [sep].intercalate (segs.map (replaceAll old new 0)) := by
  induction segs with
  | nil => rfl
  | cons s segs ih =>
      cases segs with
      | nil => simp
      | cons s' segs =>
          rw [List.intercalate_cons_cons, List.append_assoc, List.singleton_append,
            replaceAll_append_cons hsep hold _ (Nat.zero_le _), ih]
          simp [List.intercalate_cons_cons]

theorem replaceAll_eq_self {s : Text} (h : ¬ old <:+: s) : replaceAll old new 0 s = s := by
  induction s with
  | nil => rfl
  | cons c s ih =>
      rw [List.infix_cons_iff, not_or] at h
      rw [replaceAll, if_neg h.1, ih h.2]

theorem infix_intercalate {sep s : Text} {segs : List Text} (h : s ∈ segs) :
    s <:+: sep.intercalate segs := by
  induction segs with
  | nil => simp at h
  | cons s' segs ih =>
      cases segs with
      | nil =>
          rw [List.mem_singleton.mp h, List.intercalate_singleton]
      | cons s'' segs =>
          rw [List.intercalate_cons_cons]
          cases List.mem_cons.mp h with
          | inl hhead =>
              rw [hhead, List.append_assoc]
              exact (List.prefix_append _ _).isInfix
          | inr htail => exact (ih htail).trans (List.suffix_append _ _).isInfix

theorem infix_replaceAll {s : Text} (hold : old ≠ []) (h : old <:+: s) :
    new <:+: replaceAll old new 0 s := by
  induction s with
  | nil => exact absurd (by simpa using h) hold
  | cons c s ih =>
      rw [replaceAll]
      split_ifs with hpre
      · exact (List.prefix_append _ _).isInfix
      · have hin : old <:+: s := (List.infix_cons_iff.mp h).resolve_left hpre
        exact (ih hin).trans (List.suffix_cons _ _).isInfix

theorem not_mem_replaceAll {sep : Char} (hnew : sep ∉ new) {skip : Nat} {s : Text}
    (hs : sep ∉ s) : sep ∉ replaceAll old new skip s := by
  induction s generalizing skip with
  | nil => cases skip <;> simp [replaceAll]
  | cons c s ih =>
      rw [List.mem_cons, not_or] at hs
      cases skip with
      | succ skip => exact ih hs.2
      | zero =>
          rw [replaceAll]
          split_ifs
          · simp [hnew, ih hs.2]
          · simp [hs.1, ih hs.2]

end

/-! ## segments -/

/-- The segments of a path: what lies between separators, but for empty
ones. -/
def segments (p : Text) : List Text := (p.splitOn '/').filter (· ≠ [])

/-- One proper segment of a path. -/
structure IsSegment (s : Text) : Prop where
  ne_nil : s ≠ []
  slash_not_mem : '/' ∉ s
  ne_dot : s ≠ ['.']
  ne_dotdot : s ≠ ['.', '.']

theorem slash_mem_utf8 {s : Text} : slash ∈ utf8 s ↔ '/' ∈ s := by
  constructor
  · intro h
    by_contra hs
    exact slash_not_mem_utf8 hs h
  · intro h
    exact List.mem_flatMap.mpr ⟨'/', h, by decide⟩

theorem isComponent_utf8 {s : Text} : IsComponent (utf8 s) ↔ IsSegment s := by
  have hnil : utf8 s = [] ↔ s = [] := utf8_inj (t := [])
  have hdot : utf8 s = dot ↔ s = ['.'] := utf8_inj (t := ['.'])
  have hdotdot : utf8 s = dotdot ↔ s = ['.', '.'] := utf8_inj (t := ['.', '.'])
  constructor
  · intro h
    exact ⟨mt hnil.mpr h.ne_nil, mt slash_mem_utf8.mpr h.slash_not_mem, mt hdot.mpr h.ne_dot,
      mt hdotdot.mpr h.ne_dotdot⟩
  · intro h
    exact ⟨mt hnil.mp h.ne_nil, mt slash_mem_utf8.mp h.slash_not_mem, mt hdot.mp h.ne_dot,
      mt hdotdot.mp h.ne_dotdot⟩

theorem segments_textPath {segs : List Text} (h : ∀ s ∈ segs, IsSegment s) :
    segments (textPath segs) = segs := by
  have hself : segs.filter (· ≠ []) = segs :=
    List.filter_eq_self.mpr fun s hs => by simp [(h s hs).ne_nil]
  rw [segments, textPath, List.splitOn_cons_eq_if_modifyHead, if_pos (by simp)]
  by_cases hsegs : segs = []
  · subst hsegs
    rfl
  · rw [List.splitOn_intercalate '/' (fun s hs => (h s hs).slash_not_mem) hsegs]
    simpa using hself

theorem canonical_textPath {segs : List Text} (h : ∀ s ∈ segs, IsSegment s) :
    Canonical (utf8 (textPath segs)) := by
  rw [utf8_textPath]
  refine canonical_iff.mpr ⟨_, fun c hc => ?_, rfl⟩
  obtain ⟨s, hs, rfl⟩ := List.mem_map.mp hc
  exact isComponent_utf8.mpr (h s hs)

/-- A canonical text is joined from its segments. -/
theorem exists_textPath {p : Text} (h : Canonical (utf8 p)) :
    ∃ segs, (∀ s ∈ segs, IsSegment s) ∧ p = textPath segs := by
  obtain ⟨segs, hsegs⟩ : ∃ segs : List Text, components (utf8 p) = segs.map utf8 := by
    rw [components, splitOn_utf8, List.filter_map]
    exact ⟨_, rfl⟩
  have heq : p = textPath segs := by
    apply utf8_injective
    rw [utf8_textPath, ← hsegs]
    exact h.eq_absPath
  refine ⟨segs, fun s hs => isComponent_utf8.mp (h.isComponent (utf8 s) ?_), heq⟩
  rw [hsegs]
  exact List.mem_map_of_mem hs

/-! ## filling in -/

theorem userPlaceholder_ne_nil : userPlaceholder ≠ [] := by decide

theorem slash_not_mem_userPlaceholder : '/' ∉ userPlaceholder := by decide

theorem grantUser_eq_some {name n : Text} (h : grantUser name = some n) :
    n = name ∧ name ≠ [] ∧ name ≠ ['.'] ∧ name ≠ ['.', '.'] ∧ '/' ∉ name := by
  unfold grantUser at h
  split_ifs at h with hbad
  simp only [not_or] at hbad
  exact ⟨(Option.some.inj h).symm, hbad.1, hbad.2.1, hbad.2.2.1, hbad.2.2.2.1⟩

/-- An accepted name does not occur in `.` or `..`. -/
theorem not_infix_dots {name n : Text} (h : grantUser name = some n) {k : Nat} (hk : k ≤ 2) :
    ¬ name <:+: List.replicate k '.' := by
  intro hin
  obtain ⟨-, hnil, hdot, hdotdot, -⟩ := grantUser_eq_some h
  have hdots : name = List.replicate name.length '.' :=
    List.eq_replicate_of_mem fun c hc => List.eq_of_mem_replicate (hin.subset hc)
  have hlen : name.length ≤ 2 := by
    have hle := hin.length_le
    rw [List.length_replicate] at hle
    omega
  have hcases : name.length = 0 ∨ name.length = 1 ∨ name.length = 2 := by omega
  rcases hcases with h0 | h1 | h2
  · exact hnil (by rw [hdots, h0]; rfl)
  · exact hdot (by rw [hdots, h1]; rfl)
  · exact hdotdot (by rw [hdots, h2]; rfl)

/-- **A filled segment is proper**, wherever the name went in it. -/
theorem isSegment_replaceAll {name n s : Text} (h : grantUser name = some n)
    (hs : IsSegment s) : IsSegment (replaceAll userPlaceholder name 0 s) := by
  by_cases hin : userPlaceholder <:+: s
  · have hname : name <:+: replaceAll userPlaceholder name 0 s :=
      infix_replaceAll userPlaceholder_ne_nil hin
    obtain ⟨-, hnil, -, -, hslash⟩ := grantUser_eq_some h
    refine ⟨?_, not_mem_replaceAll hslash hs.slash_not_mem, ?_, ?_⟩
    · intro heq
      rw [heq] at hname
      exact hnil (by simpa using hname)
    · intro heq
      rw [heq] at hname
      exact not_infix_dots h (k := 1) (by decide) hname
    · intro heq
      rw [heq] at hname
      exact not_infix_dots h (k := 2) (by decide) hname
  · rw [replaceAll_eq_self hin]
    exact hs

/-- A path is filled segment by segment. -/
theorem replaceAll_textPath (name : Text) (segs : List Text) :
    replaceAll userPlaceholder name 0 (textPath segs) =
      textPath (segs.map (replaceAll userPlaceholder name 0)) := by
  have hpath : ∀ segs : List Text, textPath segs = [] ++ '/' :: ['/'].intercalate segs :=
    fun _ => rfl
  rw [hpath, replaceAll_append_cons slash_not_mem_userPlaceholder userPlaceholder_ne_nil _
    (Nat.zero_le _), replaceAll_intercalate slash_not_mem_userPlaceholder userPlaceholder_ne_nil]
  rfl

/-- The path of a filled grant, when it has one. -/
theorem fillGrant_path (name : Text) (g : Grant) :
    (fillGrant name g).path = [] ∨
      (fillGrant name g).path = g.pathPrefix ∧ ¬ userPlaceholder <:+: g.pathPrefix ∨
      (fillGrant name g).path = replaceAll userPlaceholder name 0 g.pathPrefix ∧
        grantUser name = some name := by
  unfold fillGrant
  dsimp only
  split_ifs with hin
  · cases hname : grantUser name with
    | none => simp
    | some n =>
        obtain ⟨rfl, -⟩ := grantUser_eq_some hname
        simp
  · simp [hin]

/-- What a matched grant lets a user see: the stored prefix, filled in
segment by segment, is canonical, and all the paths it covers start with it. -/
structure FilledPath (name : Text) (m : MatchedGrant) : Prop where
  canonical : Canonical (utf8 m.path)
  segments_eq : segments m.path = (segments m.pathPrefix).map (replaceAll userPlaceholder name 0)
  allows : ∀ (user : Text) (p : Bytes),
    Access.allows ⟨user, .restricted, [m.path], name⟩ p = true →
      (segments m.path).map utf8 <+: components p

theorem filledPath_of_segments {name : Text} {m : MatchedGrant} {segs : List Text}
    (hsegs : ∀ s ∈ segs, IsSegment s) (hpre : m.pathPrefix = textPath segs)
    (hproper : ∀ s ∈ segs.map (replaceAll userPlaceholder name 0), IsSegment s)
    (hpath : m.path = textPath (segs.map (replaceAll userPlaceholder name 0))) :
    FilledPath name m where
  canonical := by
    rw [hpath]
    exact canonical_textPath hproper
  segments_eq := by rw [hpath, segments_textPath hproper, hpre, segments_textPath hsegs]
  allows := by
    intro user p h
    have hp : Canonical p := Access.allows_eq_true rfl h
    obtain ⟨root, hroot, hcovers⟩ := (allows_iff_coveredBy rfl hp).mp h
    rw [List.map_singleton, List.mem_singleton] at hroot
    have hcomponents := components_prefix_of_scanRootCovers hcovers
    rw [hroot, hpath, utf8_textPath, components_absPath fun c hc => ?_] at hcomponents
    · rwa [hpath, segments_textPath hproper]
    · obtain ⟨s, hs, rfl⟩ := List.mem_map.mp hc
      exact isComponent_utf8.mpr (hproper s hs)

theorem filledPath_fillGrant {name : Text} {g : Grant} (hg : Canonical (utf8 g.pathPrefix)) :
    (fillGrant name g).path = [] ∨ FilledPath name (fillGrant name g) := by
  obtain ⟨segs, hsegs, hpre⟩ := exists_textPath hg
  rcases fillGrant_path name g with hempty | ⟨hpath, hin⟩ | ⟨hpath, hname⟩
  · exact Or.inl hempty
  · -- nothing to fill in, in any segment
    have hsame : segs.map (replaceAll userPlaceholder name 0) = segs := by
      refine (List.map_congr_left fun s hs => ?_).trans (List.map_id segs)
      have hseg : s <:+: g.pathPrefix := by
        rw [hpre]
        exact (infix_intercalate hs).trans (List.suffix_cons _ _).isInfix
      exact replaceAll_eq_self fun hs' => hin (hs'.trans hseg)
    refine Or.inr (filledPath_of_segments hsegs hpre ?_ ?_)
    · rwa [hsame]
    · rw [hsame, hpath, hpre]
  · refine Or.inr (filledPath_of_segments hsegs hpre ?_ ?_)
    · intro s hs
      obtain ⟨s', hs', rfl⟩ := List.mem_map.mp hs
      exact isSegment_replaceAll hname (hsegs s' hs')
    · rw [hpath, hpre, replaceAll_textPath]

/-- What a canonical prefix yields for a user it matches. -/
theorem filledPath_of_mem_matchingGrants {grants : List Grant} {identity : IdentityTables}
    {groups : List Text} {name : Text} (h : ∀ g ∈ grants, Canonical (utf8 g.pathPrefix))
    {m : MatchedGrant} (hm : m ∈ matchingGrants grants identity groups name) :
    m.path = [] ∨ FilledPath name m := by
  rw [matchingGrants, List.mem_map] at hm
  obtain ⟨g, hg, rfl⟩ := hm
  rw [List.mem_insertionSort, List.mem_filter] at hg
  exact filledPath_fillGrant (h g hg.1)

/-- **`{user}` is filled in safely.**  For any identity and any rules, a
stored prefix yields no path at all or a canonical one that differs from it
within its segments only, so that a grant covers nothing outside the
directory level it was written for. -/
theorem filledPath_of_grantsReachable {grants : List Grant} (h : GrantsReachable grants)
    (identity : IdentityTables) (groups : List Text) (lower : Text → Text)
    (rules : List IdentityRule) (user : Text) :
    ∀ m ∈ matchingGrants grants identity groups (mapIdentity lower user rules),
      m.path = [] ∨ FilledPath (mapIdentity lower user rules) m := by
  intro m hm
  rw [matchingGrants, List.mem_map] at hm
  obtain ⟨g, hg, rfl⟩ := hm
  rw [List.mem_insertionSort, List.mem_filter] at hg
  exact filledPath_fillGrant (canonical_of_grantsReachable h g hg.1)

theorem filledPath_alice :
    ∃ grants, GrantsReachable grants ∧
      ∃ m ∈ matchingGrants grants ⟨Table.empty, Table.empty⟩ []
          (mapIdentity id "alice@example.org".toList []),
        m.path = "/home/.alice".toList ∧
          (m.path = [] ∨ FilledPath (mapIdentity id "alice@example.org".toList []) m) := by
  let stored : Text := "/home/.".toList ++ userPlaceholder
  obtain ⟨grants, hreach, hgrants⟩ := exists_reachable grantsNext (fun _ _ => True) []
    (fun grants => grants = [⟨.idp, grantEveryone, stored⟩])
    [.post ⟨[], grantEveryone, "/home//./.".toList ++ userPlaceholder ++ "/".toList⟩]
    (by decide)
  have hmem : ⟨.idp, grantEveryone, stored, "/home/.alice".toList⟩ ∈
      matchingGrants grants ⟨Table.empty, Table.empty⟩ []
        (mapIdentity id "alice@example.org".toList []) := by
    rw [hgrants]
    decide
  exact ⟨grants, hreach, _, hmem, rfl, filledPath_of_grantsReachable hreach _ _ _ _ _ _ hmem⟩

end Cuttlefish
