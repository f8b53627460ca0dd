import Mathlib.Data.List.Basic

/-!
# Cuttlefish.Conninfo

The `keyword=value` grammar of libpq's connection strings, over any alphabet:
pairs separated by spaces, spaces around `=`, values with or without single
quotes, and a backslash that takes the next character as it is.

`parse_render` is the round trip: whatever the values are, quoting and
escaping them gives a string that parses to the pairs it was made of.
-/

namespace Cuttlefish

namespace Conninfo

/-- The characters with a meaning. -/
structure Alphabet (α : Type) where
  quote : α
  backslash : α
  equals : α
  space : α
  isSpace : α → Bool
  isSpace_space : isSpace space = true
  isSpace_quote : isSpace quote = false
  isSpace_equals : isSpace equals = false
  quote_ne_backslash : quote ≠ backslash

variable {α : Type} [DecidableEq α] (A : Alphabet α)

/-! ## the grammar -/

/-- A keyword ends before `=` or a space. -/
def isKeywordChar (c : α) : Bool := c ≠ A.equals && !A.isSpace c

/-- A keyword and its `=`; the rest is what follows. -/
def keyword (s : List α) : Option (List α × List α) :=
  match (s.dropWhile (isKeywordChar A)).dropWhile A.isSpace with
  | [] => none
  | c :: rest => if c = A.equals then some (s.takeWhile (isKeywordChar A), rest) else none

/-- A quoted value, behind its first quote; none if the last is missing. -/
def quoted : List α → Option (List α × List α)
  | [] => none
  | c :: s =>
      if c = A.backslash then
        match s with
        | [] => none
        | c' :: s' => (quoted s').map fun r => (c' :: r.1, r.2)
      else if c = A.quote then some ([], s)
      else (quoted s).map fun r => (c :: r.1, r.2)

/-- A value without quotes ends at a space. -/
def unquoted : List α → List α × List α
  | [] => ([], [])
  | c :: s =>
      if A.isSpace c then ([], s)
      else if c = A.backslash then
        match s with
        | [] => ([], [])
        | c' :: s' => (c' :: (unquoted s').1, (unquoted s').2)
      else (c :: (unquoted s).1, (unquoted s).2)

/-- A value, behind the spaces that follow the `=`. -/
def value (s : List α) : Option (List α × List α) :=
  match s.dropWhile A.isSpace with
  | [] => some ([], [])
  | c :: s' => if c = A.quote then quoted A s' else some (unquoted A (c :: s'))

/-- A keyword with its value. -/
def pair (s : List α) : Option ((List α × List α) × List α) :=
  (keyword A s).bind fun k => (value A k.2).map fun v => ((k.1, v.1), v.2)

section Quoted

variable {A} {c : α} {s : List α}

theorem quoted_escaped : quoted A (A.backslash :: c :: s) =
    (quoted A s).map fun r => (c :: r.1, r.2) := by
  rw [quoted.eq_def]
  simp

theorem quoted_end (h : A.quote ≠ A.backslash) : quoted A (A.quote :: s) = some ([], s) := by
  rw [quoted.eq_def]
  simp [h]

theorem quoted_plain (hback : c ≠ A.backslash) (hquote : c ≠ A.quote) :
    quoted A (c :: s) = (quoted A s).map fun r => (c :: r.1, r.2) := by
  rw [quoted.eq_def]
  simp [hback, hquote]

end Quoted

theorem length_quoted {s : List α} {r : List α × List α} (h : quoted A s = some r) :
    r.2.length ≤ s.length := by
  induction s using quoted.induct A generalizing r with
  | case1 => contradiction
  | case2 => simp [quoted] at h
  | case3 c' s' ih =>
      rw [quoted_escaped] at h
      obtain ⟨r', hr', rfl⟩ := Option.map_eq_some_iff.mp h
      have hle := ih hr'
      simp only [List.length_cons]
      omega
  | case4 s hne =>
      rw [quoted_end hne] at h
      cases h
      simp
  | case5 c s hback hquote ih =>
      rw [quoted_plain hback hquote] at h
      obtain ⟨r', hr', rfl⟩ := Option.map_eq_some_iff.mp h
      have hle := ih hr'
      simp only [List.length_cons]
      omega

theorem length_unquoted (s : List α) : (unquoted A s).2.length ≤ s.length := by
  induction s using unquoted.induct A with
  | case1 => simp [unquoted]
  | case2 c s hspace =>
      rw [unquoted.eq_def]
      simp [hspace]
  | case3 hspace => simp [unquoted, hspace]
  | case4 c' s' hspace ih =>
      simp only [unquoted, hspace, Bool.false_eq_true, if_false, if_true, List.length_cons]
      omega
  | case5 c s hspace hback ih =>
      rw [unquoted.eq_def]
      simp only [hspace, Bool.false_eq_true, if_false, hback, List.length_cons]
      omega

/-- A pair takes up at least its `=`. -/
theorem length_pair {s : List α} {r : (List α × List α) × List α} (h : pair A s = some r) :
    r.2.length < s.length := by
  obtain ⟨⟨name, afterName⟩, hkey, hmap⟩ := Option.bind_eq_some_iff.mp h
  obtain ⟨⟨v, rest⟩, hvalue, rfl⟩ := Option.map_eq_some_iff.mp hmap
  have hname : afterName.length < s.length := by
    have hskip : ((s.dropWhile (isKeywordChar A)).dropWhile A.isSpace).length ≤ s.length :=
      ((List.dropWhile_sublist _).trans (List.dropWhile_sublist _)).length_le
    unfold keyword at hkey
    split at hkey
    next => contradiction
    next c rest' heq =>
      split_ifs at hkey
      cases hkey
      rw [heq, List.length_cons] at hskip
      omega
  have hrest : rest.length ≤ afterName.length := by
    have hskip : (afterName.dropWhile A.isSpace).length ≤ afterName.length :=
      (List.dropWhile_sublist _).length_le
    unfold value at hvalue
    split at hvalue
    next =>
      cases hvalue
      simp
    next c s' heq =>
      rw [heq, List.length_cons] at hskip
      split_ifs at hvalue
      · have hle := length_quoted A hvalue
        dsimp only at hle
        omega
      · have hle := length_unquoted A (c :: s')
        rw [Option.some.inj hvalue, List.length_cons] at hle
        dsimp only at hle
        omega
  exact Nat.lt_of_le_of_lt hrest hname

/-- The pairs of a connection string, in their order; none if it is malformed. -/
def parse (s : List α) : Option (List (List α × List α)) :=
  if s.dropWhile A.isSpace = [] then some []
  else
    match _h : pair A (s.dropWhile A.isSpace) with
    | none => none
    | some (p, rest) => (parse rest).map (p :: ·)
termination_by s.length
decreasing_by
  have hpair := length_pair A _h
  have hskip : (s.dropWhile A.isSpace).length ≤ s.length := (List.dropWhile_sublist _).length_le
  dsimp only at hpair
  omega

/-! ## rendering -/

/-- A value in quotes, with quotes and backslashes escaped. -/
def escape (v : List α) : List α :=
  A.quote :: v.flatMap (fun c =>
    if c = A.quote ∨ c = A.backslash then [A.backslash, c] else [c]) ++ [A.quote]

/-- `keyword='value'`. -/
def renderPair (p : List α × List α) : List α := p.1 ++ [A.equals] ++ escape A p.2

/-- The pairs, separated by a space. -/
def render : List (List α × List α) → List α
  | [] => []
  | [p] => renderPair A p
  | p :: ps => renderPair A p ++ [A.space] ++ render ps

/-- Escaping a value closes it and nothing before. -/
theorem quoted_escape (v rest : List α) :
    quoted A (v.flatMap (fun c =>
      if c = A.quote ∨ c = A.backslash then [A.backslash, c] else [c]) ++ A.quote :: rest) =
        some (v, rest) := by
  induction v with
  | nil => exact quoted_end A.quote_ne_backslash
  | cons c v ih =>
      rw [List.flatMap_cons, List.append_assoc]
      split_ifs with hspecial
      · rw [List.cons_append, List.cons_append, List.nil_append, quoted_escaped, ih,
          Option.map_some]
      · rw [not_or] at hspecial
        rw [List.cons_append, List.nil_append, quoted_plain hspecial.2 hspecial.1, ih,
          Option.map_some]

/-- A word that can stand in front of `=`. -/
def IsKeyword (k : List α) : Prop := ∀ c ∈ k, isKeywordChar A c = true

theorem keyword_append {k : List α} (h : IsKeyword A k) (rest : List α) :
    keyword A (k ++ A.equals :: rest) = some (k, rest) := by
  have hequals : isKeywordChar A A.equals = false := by simp [isKeywordChar]
  rw [keyword, List.dropWhile_append_of_pos h, List.dropWhile_cons_of_neg (by simp [hequals]),
    List.dropWhile_cons_of_neg (by simp [A.isSpace_equals]), List.takeWhile_append_of_pos h,
    List.takeWhile_cons_of_neg (by simp [hequals]), List.append_nil]
  simp

/-- A rendered pair is read back, whatever follows it. -/
theorem pair_renderPair {p : List α × List α} (h : IsKeyword A p.1) (rest : List α) :
    pair A (renderPair A p ++ rest) = some (p, rest) := by
  have hshape : renderPair A p ++ rest = p.1 ++ A.equals :: (A.quote :: (p.2.flatMap (fun c =>
      if c = A.quote ∨ c = A.backslash then [A.backslash, c] else [c]) ++ A.quote :: rest)) := by
    simp [renderPair, escape]
  rw [hshape, pair, keyword_append A h, Option.bind_some, value,
    List.dropWhile_cons_of_neg (by simp [A.isSpace_quote])]
  dsimp only
  rw [if_pos rfl, quoted_escape, Option.map_some]

/-- A pair at the front of a string. -/
theorem parse_renderPair {p : List α × List α} (h : IsKeyword A p.1) (rest : List α) :
    parse A (renderPair A p ++ rest) = (parse A rest).map (p :: ·) := by
  have hskip : (renderPair A p ++ rest).dropWhile A.isSpace = renderPair A p ++ rest := by
    obtain ⟨k, v⟩ := p
    cases k with
    | nil => simp [renderPair, A.isSpace_equals]
    | cons c k =>
        have hc := h c List.mem_cons_self
        simp only [isKeywordChar, Bool.and_eq_true, Bool.not_eq_true'] at hc
        simp [renderPair, hc.2]
  have hne : renderPair A p ++ rest ≠ [] := by simp [renderPair]
  rw [parse.eq_def, hskip, if_neg hne, pair_renderPair A h]

theorem parse_space (s : List α) : parse A (A.space :: s) = parse A s := by
  have hskip : (A.space :: s).dropWhile A.isSpace = s.dropWhile A.isSpace :=
    List.dropWhile_cons_of_pos A.isSpace_space
  rw [parse.eq_def, hskip, parse.eq_def A s]

/-- **The round trip**: rendered pairs are read back, whatever the values. -/
theorem parse_render {ps : List (List α × List α)} (h : ∀ p ∈ ps, IsKeyword A p.1) :
    parse A (render A ps) = some ps := by
  induction ps with
  | nil =>
      rw [render, parse.eq_def]
      simp
  | cons p ps ih =>
      rw [List.forall_mem_cons] at h
      have hrest := ih h.2
      cases ps with
      | nil =>
          have hshape : render A [p] = renderPair A p ++ render A [] := by simp [render]
          rw [hshape, parse_renderPair A h.1, hrest, Option.map_some]
      | cons p' ps =>
          have hshape : render A (p :: p' :: ps) =
              renderPair A p ++ A.space :: render A (p' :: ps) := by
            simp [render]
          rw [hshape, parse_renderPair A h.1, parse_space, hrest, Option.map_some]

end Conninfo

end Cuttlefish
