import Cuttlefish.Config.Common

/-!
# Cuttlefish.Config.References

What the references in a text are, and whether the two loaders agree on them.

A text falls into characters and references in one way only, leftmost
references first.  `replaceRefs` (`fs_api`) and `expandEnvStr` (`fs_common`)
both substitute along these chunks; `agree_iff` says when they also agree on
whether the text is one bare reference.
-/

namespace Cuttlefish

/-! ## chunks -/

/-- A character that is kept, or a reference. -/
inductive Chunk where
  | char (c : Char)
  | ref (name : Text)
  deriving DecidableEq, Repr

def Chunk.text : Chunk → Text
  | .char c => [c]
  | .ref name => refText name

/-- The variable a chunk refers to. -/
def Chunk.name? : Chunk → Option Text
  | .char _ => none
  | .ref name => some name

/-- What stands for a chunk afterwards. -/
def Chunk.value (env : Text → Option Text) : Chunk → Text
  | .char c => [c]
  | .ref name => (env name).getD []

/-- The text of some chunks. -/
def textOf (ps : List Chunk) : Text := ps.flatMap Chunk.text

/-- The variables some chunks refer to. -/
def refsOf (ps : List Chunk) : List Text := ps.filterMap Chunk.name?

/-- The chunks with every reference replaced, once; none if a variable is not
set. -/
def substitute (env : Text → Option Text) (ps : List Chunk) : Option Text :=
  if ∀ name ∈ refsOf ps, (env name).isSome then some (ps.flatMap (Chunk.value env)) else none

/-- Does a text begin with a well-formed reference? -/
def BeginsWithRef (s : Text) : Prop :=
  ∃ name rest, isVarName name = true ∧ s = refText name ++ rest

/-- No character is kept where a reference begins. -/
inductive Leftmost : List Chunk → Prop
  | nil : Leftmost []
  | char {c : Char} {ps : List Chunk} (h : ¬ BeginsWithRef (c :: textOf ps))
      (rest : Leftmost ps) : Leftmost (.char c :: ps)
  | ref {name : Text} {ps : List Chunk} (h : isVarName name = true) (rest : Leftmost ps) :
      Leftmost (.ref name :: ps)

/-- The chunks of a text, `skip` characters being left out in front. -/
def chunks : Nat → Text → List Chunk
  | _, [] => []
  | skip + 1, _ :: s => chunks skip s
  | 0, c :: s =>
      match refAt (c :: s) with
      | none => .char c :: chunks 0 s
      | some name => .ref name :: chunks (name.length + 2) s

@[simp] theorem textOf_nil : textOf [] = [] := rfl

@[simp] theorem textOf_cons (p : Chunk) (ps : List Chunk) :
    textOf (p :: ps) = p.text ++ textOf ps := by
  simp [textOf]

@[simp] theorem refsOf_nil : refsOf [] = [] := rfl

@[simp] theorem refsOf_char (c : Char) (ps : List Chunk) :
    refsOf (.char c :: ps) = refsOf ps := rfl

@[simp] theorem refsOf_ref (name : Text) (ps : List Chunk) :
    refsOf (.ref name :: ps) = name :: refsOf ps := rfl

@[simp] theorem substitute_nil (env : Text → Option Text) : substitute env [] = some [] := by
  simp [substitute]

@[simp] theorem substitute_char (env : Text → Option Text) (c : Char) (ps : List Chunk) :
    substitute env (.char c :: ps) = (substitute env ps).map (c :: ·) := by
  unfold substitute
  rw [refsOf_char]
  split_ifs <;> simp [Chunk.value]

theorem substitute_ref (env : Text → Option Text) (name : Text) (ps : List Chunk) :
    substitute env (.ref name :: ps) =
      (env name).bind fun v => (substitute env ps).map (v ++ ·) := by
  unfold substitute
  rw [refsOf_ref]
  simp only [List.forall_mem_cons]
  cases hvalue : env name with
  | none => simp
  | some v => split_ifs <;> simp_all [Chunk.value]

/-- A reference at the front, as the scanners look for it. -/
theorem refAt_eq_none {s : Text} : refAt s = none ↔ ¬ BeginsWithRef s := by
  rw [Option.eq_none_iff_forall_ne_some]
  constructor
  · intro h hbegins
    obtain ⟨name, rest, hname, rfl⟩ := hbegins
    exact h name (refAt_refText hname rest)
  · intro h name href
    obtain ⟨hname, rest, hrest⟩ := refAt_eq_some href
    exact h ⟨name, rest, hname, hrest⟩

theorem chunks_drop (skip : Nat) (s : Text) : chunks skip s = chunks 0 (s.drop skip) := by
  induction s generalizing skip with
  | nil => simp [chunks]
  | cons c s ih =>
      cases skip with
      | zero => rfl
      | succ skip =>
          rw [chunks, ih skip, List.drop_succ_cons]

theorem chunks_ref {name : Text} (hname : isVarName name = true) (rest : Text) :
    chunks 0 (refText name ++ rest) = .ref name :: chunks 0 rest := by
  have href := refAt_refText hname rest
  have hshape : refText name ++ rest = '$' :: ('{' :: name ++ ['}'] ++ rest) := rfl
  rw [hshape] at href ⊢
  rw [chunks, href]
  dsimp only
  rw [chunks_drop, drop_ref hshape.symm]

/-- The chunks make up the text. -/
theorem textOf_chunks (skip : Nat) (s : Text) : textOf (chunks skip s) = s.drop skip := by
  induction s generalizing skip with
  | nil => simp [chunks]
  | cons c s ih =>
      cases skip with
      | succ skip =>
          rw [chunks, ih, List.drop_succ_cons]
      | zero =>
          rw [chunks]
          cases href : refAt (c :: s) with
          | none => simp [Chunk.text, ih]
          | some name =>
              obtain ⟨_, rest, hrest⟩ := refAt_eq_some href
              dsimp only
              rw [textOf_cons, Chunk.text, ih, drop_ref hrest, List.drop_zero, hrest]

theorem leftmost_chunks (skip : Nat) (s : Text) : Leftmost (chunks skip s) := by
  induction s generalizing skip with
  | nil =>
      rw [chunks]
      exact .nil
  | cons c s ih =>
      cases skip with
      | succ skip =>
          rw [chunks]
          exact ih skip
      | zero =>
          rw [chunks]
          cases href : refAt (c :: s) with
          | none =>
              refine .char ?_ (ih 0)
              rw [textOf_chunks, List.drop_zero]
              exact refAt_eq_none.mp href
          | some name => exact .ref (refAt_eq_some href).1 (ih _)

/-- **A text has one division into chunks.** -/
theorem chunks_textOf {ps : List Chunk} (h : Leftmost ps) : chunks 0 (textOf ps) = ps := by
  induction h with
  | nil => rfl
  | @char c ps h _ ih =>
      have href := refAt_eq_none.mpr h
      have hshape : textOf (.char c :: ps) = c :: textOf ps := rfl
      rw [hshape, chunks, href]
      dsimp only
      rw [ih]
  | @ref name ps h _ ih => rw [textOf_cons, Chunk.text, chunks_ref h, ih]

/-- No reference is left among the chunks exactly if none begins anywhere. -/
theorem refsOf_chunks_eq_nil {t : Text} :
    refsOf (chunks 0 t) = [] ↔ ∀ u, u <:+ t → ¬ BeginsWithRef u := by
  have hps := leftmost_chunks 0 t
  have htext := textOf_chunks 0 t
  rw [List.drop_zero] at htext
  rw [← htext]
  generalize chunks 0 t = ps at hps
  rw [chunks_textOf hps]
  induction hps with
  | nil =>
      refine ⟨fun _ u hu hbegins => ?_, fun _ => rfl⟩
      obtain ⟨name, rest, _, rfl⟩ := hbegins
      simp [refText] at hu
  | @char c ps h _ ih =>
      have hshape : textOf (.char c :: ps) = c :: textOf ps := rfl
      simp only [hshape, List.suffix_cons_iff, forall_eq_or_imp]
      exact ih.trans ⟨fun hrest => ⟨h, hrest⟩, fun hboth => hboth.2⟩
  | @ref name ps h _ ih =>
      refine ⟨fun hnil => absurd hnil (by simp), fun hnone => ?_⟩
      exact absurd ⟨name, textOf ps, h, rfl⟩ (hnone _ (List.suffix_refl _))

/-! ## substituting -/

theorem toOption_map {ε α β : Type} (f : α → β) (e : Except ε α) :
    (e.map f).toOption = e.toOption.map f := by
  cases e <;> rfl

/-- **`fs_api` substitutes along the chunks.** -/
theorem toOption_replaceRefs (env : Text → Option Text) (skip : Nat) (s : Text) :
    (replaceRefs env skip s).toOption = substitute env (chunks skip s) := by
  induction s generalizing skip with
  | nil => simp [replaceRefs, chunks, Except.toOption]
  | cons c s ih =>
      cases skip with
      | succ skip => rw [replaceRefs, chunks, ih]
      | zero =>
          rw [replaceRefs, chunks]
          cases href : refAt (c :: s) with
          | none => rw [toOption_map, ih, substitute_char]
          | some name =>
              dsimp only
              rw [substitute_ref]
              cases hvalue : env name with
              | none => rfl
              | some v =>
                  dsimp only
                  rw [toOption_map, ih, Option.bind_some]

/-- No reference begins with a brace. -/
theorem replaceRefs_brace (env : Text → Option Text) (s : Text) :
    replaceRefs env 0 ('{' :: s) = (replaceRefs env 0 s).map ('{' :: ·) := by
  have href : refAt ('{' :: s) = none := by
    refine refAt_eq_none.mpr fun hbegins => ?_
    obtain ⟨name, rest, _, hrest⟩ := hbegins
    simp [refText] at hrest
  rw [replaceRefs, href]

theorem except_map_map {ε α β γ : Type} (f : α → β) (g : β → γ) (e : Except ε α) :
    (e.map f).map g = e.map (g ∘ f) := by
  cases e <;> rfl

/-- The loop outputs what `fs_api` does, behind what it has output before. -/
theorem map_out_scanRefs (env : Text → Option Text) (skip : Nat) (s : Text) (st : RefScan) :
    (scanRefs env skip s st).map RefScan.out = (replaceRefs env skip s).map (st.out ++ ·) := by
  induction s generalizing skip st with
  | nil => simp [scanRefs, replaceRefs, Except.map]
  | cons c s ih =>
      cases skip with
      | succ skip => rw [scanRefs, replaceRefs, ih]
      | zero =>
          rw [scanRefs, replaceRefs]
          cases href : refAt (c :: s) with
          | none =>
              dsimp only
              split_ifs with hopen
              · obtain ⟨t, ht⟩ := hopen
                have hshape : '$' :: '{' :: t = c :: s := ht
                cases hshape
                rw [ih, replaceRefs, replaceRefs_brace, except_map_map, except_map_map]
                congr 1
                funext r
                simp [openRef]
              · rw [ih, except_map_map]
                congr 1
                funext r
                simp
          | some name =>
              rw [if_pos (open_of_refAt href)]
              dsimp only
              cases hvalue : env name with
              | none => rfl
              | some v =>
                  dsimp only
                  rw [ih, except_map_map]
                  congr 1
                  funext r
                  simp

/-- **Both loaders produce the same text**, or fail at the same variable. -/
theorem map_fst_expandEnvStr (env : Text → Option Text) (s : Text) :
    (expandEnvStr env s).map Prod.fst = replaceRefs env 0 s := by
  have hout := map_out_scanRefs env 0 s { rest := s }
  rw [expandEnvStr, except_map_map]
  exact hout.trans (by cases replaceRefs env 0 s <;> rfl)

/-! ## the verdict -/

section Verdict

variable {env : Text → Option Text} {skip : Nat} {s : Text} {st st' : RefScan}

/-- The loop counts the references. -/
theorem refs_scanRefs (h : scanRefs env skip s st = .ok st') :
    st'.refs = st.refs + (refsOf (chunks skip s)).length := by
  induction s generalizing skip st with
  | nil =>
      rw [scanRefs] at h
      cases h
      simp [chunks]
  | cons c s ih =>
      cases skip with
      | succ skip =>
          rw [scanRefs] at h
          rw [chunks, ih h]
      | zero =>
          rw [chunks]
          cases href : refAt (c :: s) with
          | some name =>
              obtain ⟨v, _, hscan⟩ := scanRefs_ref href h
              rw [ih hscan]
              simp only [refsOf_ref, List.length_cons]
              omega
          | none =>
              rw [scanRefs] at h
              split_ifs at h with hopen
              · obtain ⟨t, ht⟩ := hopen
                have hshape : '$' :: '{' :: t = c :: s := ht
                cases hshape
                rw [href] at h
                have hbrace : refAt ('{' :: t) = none := by
                  refine refAt_eq_none.mpr fun hbegins => ?_
                  obtain ⟨name, rest, _, hrest⟩ := hbegins
                  simp [refText] at hrest
                rw [ih h]
                simp [chunks, hbrace]
              · rw [ih h]
                simp

/-- Without references the loop goes through, and what ends in `${` leaves
nothing behind. -/
theorem scanRefs_of_no_refs (st : RefScan) (hnone : ∀ u, u <:+ s.drop skip → ¬ BeginsWithRef u)
    (hend : openRef <:+ s.drop skip ∨ (s.drop skip = [] ∧ st.rest = [])) :
    ∃ st', scanRefs env skip s st = .ok st' ∧ st'.refs = st.refs ∧
      st'.startsWithRef = st.startsWithRef ∧ st'.rest = [] := by
  induction s generalizing skip st with
  | nil =>
      have hrest : st.rest = [] := by simpa [openRef] using hend
      exact ⟨st, by rw [scanRefs], rfl, rfl, hrest⟩
  | cons c s ih =>
      cases skip with
      | succ skip =>
          rw [scanRefs]
          exact ih st hnone hend
      | zero =>
          rw [List.drop_zero] at hnone hend
          have href : refAt (c :: s) = none :=
            refAt_eq_none.mpr (hnone _ (List.suffix_refl _))
          have hlater : ∀ u, u <:+ s → ¬ BeginsWithRef u := fun u hu =>
            hnone u (hu.trans (List.suffix_cons c s))
          have hopens : openRef <:+ c :: s := hend.resolve_right (by simp)
          rw [scanRefs]
          split_ifs with hopen
          · obtain ⟨t, ht⟩ := hopen
            have hshape : '$' :: '{' :: t = c :: s := ht
            cases hshape
            rw [href]
            refine ih _ (fun u hu => hlater u (hu.trans (List.drop_suffix 1 _))) ?_
            -- the text ends with this `${`, or with a later one
            simp only [openRef, List.suffix_cons_iff] at hopens
            simpa [openRef, or_comm] using hopens
          · refine ih _ hlater (Or.inl ?_)
            rw [List.suffix_cons_iff] at hopens
            exact hopens.resolve_left fun heq => hopen ⟨[], by rw [heq, List.append_nil]⟩

/-- What follows a reference that stands for the whole string. -/
theorem expandEnvStr_ref {name t : Text} {r : Text × Bool} (hname : isVarName name = true)
    (h : expandEnvStr env (refText name ++ t) = .ok r) :
    r.2 = true ↔ (t = [] ∨ openRef <:+ t) ∧ ∀ u, u <:+ t → ¬ BeginsWithRef u := by
  obtain ⟨st, hscan, hst⟩ := map_eq_ok h
  have hrefs := refs_scanRefs hscan
  rw [chunks_ref hname, refsOf_ref, List.length_cons] at hrefs
  have href := refAt_refText hname t
  have hshape : refText name ++ t = '$' :: ('{' :: name ++ ['}'] ++ t) := rfl
  rw [hshape] at hscan href
  obtain ⟨v, _, hafter⟩ := scanRefs_ref href hscan
  have hdrop := drop_ref hshape.symm
  rw [hdrop] at hafter
  rw [← hst]
  dsimp only
  constructor
  · intro hwhole
    simp only [Bool.and_eq_true, decide_eq_true_eq] at hwhole
    obtain ⟨⟨hone, _⟩, hrest⟩ := hwhole
    refine ⟨?_, refsOf_chunks_eq_nil.mp (List.length_eq_zero_iff.mp ?_)⟩
    · have hleft := (rest_of_scanRefs hafter).2 hone
      rw [hrest, hdrop, List.append_nil] at hleft
      exact hleft.imp_left Eq.symm
    · dsimp only at hrefs
      omega
  · intro hboth
    obtain ⟨hend, hnone⟩ := hboth
    have hskipped : ∀ u, u <:+ ('{' :: name ++ ['}'] ++ t).drop (name.length + 2) →
        ¬ BeginsWithRef u := by rwa [hdrop]
    have hends : openRef <:+ ('{' :: name ++ ['}'] ++ t).drop (name.length + 2) ∨
        (('{' :: name ++ ['}'] ++ t).drop (name.length + 2) = [] ∧ t = []) := by
      rw [hdrop, and_self]
      exact hend.symm
    obtain ⟨st', hscan', hcount, hstart, hrest⟩ :=
      scanRefs_of_no_refs ⟨[] ++ v, 0 + 1, false || List.isEmpty [], t⟩ hskipped hends
    rw [hafter] at hscan'
    cases hscan'
    simp [hcount, hstart, hrest]

end Verdict

/-! ## agreement -/

/-- The two loaders agree on a string: its chunks, of which there is one
division, say what both produce and whether both fail, and both tell alike
whether it is one bare reference. -/
structure Agree (env : Text → Option Text) (s : Text) (ps : List Chunk) : Prop where
  leftmost : Leftmost ps
  text : textOf ps = s
  unique : ∀ ps', Leftmost ps' → textOf ps' = s → ps' = ps
  api : ∀ secret tag line, (expandEnv env secret (.scalarNode tag s line)).toOption =
    (substitute env ps).map fun out =>
      (.scalarNode tag out line, secret && s ≠ [] && !isRefOnly s)
  common : (expandEnvStr env s).toOption.map Prod.fst = substitute env ps
  fails : substitute env ps = none ↔ ∃ name ∈ refsOf ps, env name = none
  verdict : ∀ r, expandEnvStr env s = .ok r → r.2 = isRefOnly s
  bare : isRefOnly s = true ↔ ∃ name, ps = [.ref name]

/-- A reference to a variable that is set, and behind it a text without
references that ends in `${`. -/
def Overreads (env : Text → Option Text) (s : Text) : Prop :=
  ∃ name t, isVarName name = true ∧ (env name).isSome ∧ s = refText name ++ t ∧
    openRef <:+ t ∧ ∀ u, u <:+ t → ¬ BeginsWithRef u

theorem toOption_expandEnv_scalar (env : Text → Option Text) (s : Text) (secret : Bool)
    (tag : Text) (line : Nat) :
    (expandEnv env secret (.scalarNode tag s line)).toOption =
      (substitute env (chunks 0 s)).map fun out =>
        (.scalarNode tag out line, secret && s ≠ [] && !isRefOnly s) := by
  rw [expandEnv, ← toOption_replaceRefs]
  cases replaceRefs env 0 s <;> rfl

theorem substitute_eq_none {env : Text → Option Text} {ps : List Chunk} :
    substitute env ps = none ↔ ∃ name ∈ refsOf ps, env name = none := by
  unfold substitute
  split_ifs with hset
  · refine ⟨fun h => by contradiction, fun h => ?_⟩
    obtain ⟨name, hname, hnone⟩ := h
    have hsome := hset name hname
    rw [hnone] at hsome
    contradiction
  · simpa using hset

theorem isRefOnly_textOf {ps : List Chunk} (h : Leftmost ps) :
    isRefOnly (textOf ps) = true ↔ ∃ name, ps = [.ref name] := by
  rw [isRefOnly_iff]
  constructor
  · intro hbare
    obtain ⟨name, hname, htext⟩ := hbare
    have hchunks := chunks_ref hname []
    rw [List.append_nil, ← htext, chunks_textOf h] at hchunks
    exact ⟨name, hchunks⟩
  · intro hone
    obtain ⟨name, rfl⟩ := hone
    cases h with
    | ref hname _ => exact ⟨name, hname, by simp [Chunk.text]⟩

/-- `fs_common` succeeds where every variable is set. -/
theorem expandEnvStr_ok_iff {env : Text → Option Text} {s : Text} :
    (∃ r, expandEnvStr env s = .ok r) ↔ ∀ name ∈ refsOf (chunks 0 s), (env name).isSome := by
  have hsame : ((expandEnvStr env s).map Prod.fst).toOption = substitute env (chunks 0 s) := by
    rw [map_fst_expandEnvStr, toOption_replaceRefs]
  have hset : (∀ name ∈ refsOf (chunks 0 s), (env name).isSome) ↔
      (substitute env (chunks 0 s)).isSome = true := by
    unfold substitute
    split_ifs with hall
    · simpa using hall
    · simpa using hall
  rw [hset, ← hsame]
  cases expandEnvStr env s <;> simp [Except.map, Except.toOption]

/-- Nothing follows a reference that is all of the string. -/
theorem eq_nil_of_isRefOnly {name t : Text} (hname : isVarName name = true)
    (h : isRefOnly (refText name ++ t) = true) : t = [] := by
  obtain ⟨name', hname', heq⟩ := isRefOnly_iff.mp h
  have hchunks := chunks_ref hname t
  rw [heq, ← List.append_nil (refText name'), chunks_ref hname'] at hchunks
  have htext := textOf_chunks 0 t
  rw [← (List.cons.inj hchunks).2, List.drop_zero] at htext
  exact htext.symm

/-- The verdicts differ on a string that overreads. -/
theorem verdict_iff {env : Text → Option Text} {s : Text} :
    (∀ r, expandEnvStr env s = .ok r → r.2 = isRefOnly s) ↔ ¬ Overreads env s := by
  constructor
  · intro hverdict hover
    obtain ⟨name, t, hname, hset, rfl, hend, hnone⟩ := hover
    have hrefs : refsOf (chunks 0 (refText name ++ t)) = [name] := by
      rw [chunks_ref hname, refsOf_ref, refsOf_chunks_eq_nil.mpr hnone]
    -- nothing can fail: the one variable is set
    obtain ⟨r, hexpand⟩ : ∃ r, expandEnvStr env (refText name ++ t) = .ok r := by
      rw [expandEnvStr_ok_iff, hrefs]
      simpa using hset
    have hwhole := (expandEnvStr_ref hname hexpand).mpr ⟨Or.inr hend, hnone⟩
    rw [hverdict r hexpand] at hwhole
    rw [eq_nil_of_isRefOnly hname hwhole] at hend
    simp [openRef] at hend
  · intro hover r hexpand
    rw [Bool.eq_iff_iff]
    constructor
    · intro hwhole
      obtain ⟨s', whole⟩ := r
      subst hwhole
      cases expandEnvStr_whole hexpand with
      | inl hbare => exact hbare
      | inr hruns =>
          obtain ⟨name, t, hname, rfl, hend⟩ := hruns
          have hnone := ((expandEnvStr_ref hname hexpand).mp rfl).2
          have hset : (env name).isSome := by
            refine expandEnvStr_ok_iff.mp ⟨_, hexpand⟩ name ?_
            rw [chunks_ref hname, refsOf_ref]
            exact List.mem_cons_self
          exact absurd ⟨name, t, hname, hset, rfl, hend, hnone⟩ hover
    · intro hbare
      obtain ⟨name, hname, rfl⟩ := isRefOnly_iff.mp hbare
      rw [← List.append_nil (refText name)] at hexpand
      refine (expandEnvStr_ref hname hexpand).mpr ⟨Or.inl rfl, fun u hu hbegins => ?_⟩
      obtain ⟨name', rest, _, rfl⟩ := hbegins
      simp [refText] at hu

/-- **When the two loaders agree** on a string: unless it is a reference
followed by a text that has none and ends in `${`. -/
theorem agree_iff (env : Text → Option Text) (s : Text) :
    (∃ ps, Agree env s ps) ↔ ¬ Overreads env s := by
  rw [← verdict_iff]
  constructor
  · intro h
    obtain ⟨ps, hagree⟩ := h
    exact hagree.verdict
  · intro hverdict
    have hleftmost := leftmost_chunks 0 s
    have htext : textOf (chunks 0 s) = s := by rw [textOf_chunks, List.drop_zero]
    refine ⟨chunks 0 s, hleftmost, htext, fun ps' hps' htext' => ?_,
      toOption_expandEnv_scalar env s, ?_, substitute_eq_none, hverdict, ?_⟩
    · rw [← htext', chunks_textOf hps']
    · rw [← toOption_map, map_fst_expandEnvStr, toOption_replaceRefs]
    · have hbare := isRefOnly_textOf hleftmost
      rwa [htext] at hbare

/-- `${P}${`, which is no bare reference, counts as one in `fs_common`. -/
theorem overread_counts_as_bare :
    expandEnvStr (fun _ => some ['x']) "$\x7bP\x7d$\x7b".toList = .ok ("x$\x7b".toList, true) ∧
      isRefOnly "$\x7bP\x7d$\x7b".toList = false ∧
      ¬ ∃ ps, Agree (fun _ => some ['x']) "$\x7bP\x7d$\x7b".toList ps := by
  have hexpand : expandEnvStr (fun _ => some ['x']) "$\x7bP\x7d$\x7b".toList =
      .ok ("x$\x7b".toList, true) := by decide
  have hbare : isRefOnly "$\x7bP\x7d$\x7b".toList = false := by decide
  refine ⟨hexpand, hbare, fun h => ?_⟩
  obtain ⟨ps, hagree⟩ := h
  have hverdict := hagree.verdict _ hexpand
  rw [hbare] at hverdict
  contradiction

end Cuttlefish
