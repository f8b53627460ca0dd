import Cuttlefish.Config

/-!
# Cuttlefish.Config.Common

The configuration of the indexer and the aggregator (`fs_common`): the same
references and the same verdict as in `fs_api`, over the values `serde_yaml`
parses, in which aliases are already resolved.

`expand_env_str` finds out for itself whether a string is one bare reference.
`expandEnvStr_whole` says what it takes for one: a reference, and also a
reference before any text that ends in `${`.
-/

namespace Cuttlefish

/-! ## strings -/

/-- What a reference begins with. -/
def openRef : Text := ['$', '{']

/-- The variables of the loop in `expand_env_str`; `rest` is what is left behind
the last `${` looked at. -/
structure RefScan where
  out : Text := []
  refs : Nat := 0
  startsWithRef : Bool := false
  rest : Text
  deriving DecidableEq, Repr

/-- The loop, character by character: what stands between two `${` is output
on the way and not when the second is found. -/
def scanRefs (env : Text → Option Text) : Nat → Text → RefScan → Except Text RefScan
  | _, [], st => .ok st
  | skip + 1, _ :: s, st => scanRefs env skip s st
  | 0, c :: s, st =>
      if openRef <+: c :: s then
        match refAt (c :: s) with
        | none => scanRefs env 1 s { st with out := st.out ++ openRef, rest := s.drop 1 }
        | some name =>
            match env name with
            | none => .error name
            | some v =>
                scanRefs env (name.length + 2) s
                  { out := st.out ++ v, refs := st.refs + 1
                    startsWithRef := st.startsWithRef || st.out.isEmpty
                    rest := s.drop (name.length + 2) }
      else scanRefs env 0 s { st with out := st.out ++ [c] }

/-- Replaces the references in a string, and tells whether it was exactly one
bare reference. -/
def expandEnvStr (env : Text → Option Text) (s : Text) : Except Text (Text × Bool) :=
  (scanRefs env 0 s { rest := s }).map fun st =>
    (st.out, st.refs = 1 && st.startsWithRef && st.rest = [])

/-- The two characters of a `${` and what follows them. -/
theorem open_drop {c : Char} {s : Text} (h : openRef <+: c :: s) :
    openRef ++ s.drop 1 = c :: s := by
  obtain ⟨t, ht⟩ := h
  have hshape : '$' :: '{' :: t = c :: s := ht
  cases hshape
  rfl

/-- A text that starts with a reference starts with `${`. -/
theorem open_of_refAt {c : Char} {s name : Text} (h : refAt (c :: s) = some name) :
    openRef <+: c :: s := by
  obtain ⟨-, rest, hrest⟩ := refAt_eq_some h
  exact ⟨name ++ '}' :: rest, by simp [hrest, refText, openRef]⟩

section Scan

variable {env : Text → Option Text} {skip : Nat} {s : Text} {st st' : RefScan}

/-- What the loop does at a reference. -/
theorem scanRefs_ref {c : Char} {name : Text} (href : refAt (c :: s) = some name)
    (h : scanRefs env 0 (c :: s) st = .ok st') :
    ∃ v, env name = some v ∧ scanRefs env (name.length + 2) s
      { out := st.out ++ v, refs := st.refs + 1
        startsWithRef := st.startsWithRef || st.out.isEmpty
        rest := s.drop (name.length + 2) } = .ok st' := by
  rw [scanRefs, if_pos (open_of_refAt href), href] at h
  dsimp only at h
  cases hvalue : env name with
  | none =>
      rw [hvalue] at h
      contradiction
  | some v =>
      rw [hvalue] at h
      exact ⟨v, rfl, h⟩

/-- What the loop does anywhere else: something is output. -/
theorem scanRefs_char {c : Char} (href : refAt (c :: s) = none)
    (h : scanRefs env 0 (c :: s) st = .ok st') :
    ∃ skip out rest, out ≠ [] ∧
      scanRefs env skip s { st with out := st.out ++ out, rest := rest } = .ok st' ∧
      (rest = st.rest ∨ openRef ++ rest = c :: s) := by
  rw [scanRefs] at h
  split_ifs at h with hopen
  · rw [href] at h
    exact ⟨1, openRef, s.drop 1, by simp [openRef], h, Or.inr (open_drop hopen)⟩
  · exact ⟨0, [c], st.rest, by simp, h, Or.inl rfl⟩

/-- Without a further reference, `rest` stays or is what follows a `${`. -/
theorem rest_of_scanRefs (h : scanRefs env skip s st = .ok st') :
    st.refs ≤ st'.refs ∧
      (st'.refs = st.refs → st'.rest = st.rest ∨ openRef ++ st'.rest <:+ s.drop skip) := by
  induction s generalizing skip st with
  | nil =>
      rw [scanRefs] at h
      cases h
      exact ⟨Nat.le_refl _, fun _ => Or.inl rfl⟩
  | cons c s ih =>
      cases skip with
      | succ skip =>
          rw [scanRefs] at h
          simpa using ih h
      | zero =>
          cases href : refAt (c :: s) with
          | none =>
              obtain ⟨skip, out, rest, -, hscan, hrest⟩ := scanRefs_char href h
              obtain ⟨hle, hlater⟩ := ih hscan
              refine ⟨hle, fun heq => ?_⟩
              cases hlater heq with
              | inl hsame =>
                  dsimp only at hsame
                  rw [hsame, List.drop_zero]
                  exact hrest.imp_right fun hopen => ⟨[], hopen⟩
              | inr hsuffix =>
                  exact Or.inr ((hsuffix.trans (List.drop_suffix skip s)).trans
                    (List.suffix_cons c s))
          | some name =>
              obtain ⟨v, -, hscan⟩ := scanRefs_ref href h
              have hle := (ih hscan).1
              dsimp only at hle
              exact ⟨by omega, fun heq => by omega⟩

/-- Behind other output, a reference is not the start. -/
theorem startsWithRef_of_scanRefs (h : scanRefs env skip s st = .ok st') (hout : st.out ≠ [])
    (hstart : st.startsWithRef = false) : st'.startsWithRef = false := by
  induction s generalizing skip st with
  | nil =>
      rw [scanRefs] at h
      cases h
      exact hstart
  | cons c s ih =>
      cases skip with
      | succ skip =>
          rw [scanRefs] at h
          exact ih h hout hstart
      | zero =>
          cases href : refAt (c :: s) with
          | none =>
              obtain ⟨skip, out, rest, -, hscan, -⟩ := scanRefs_char href h
              exact ih hscan (by simp [hout]) hstart
          | some name =>
              obtain ⟨v, -, hscan⟩ := scanRefs_ref href h
              exact ih hscan (by simp [hout]) (by simp [hstart, hout])

theorem scanRefs_skip (h : s.length ≤ skip) : scanRefs env skip s st = .ok st := by
  induction s generalizing skip with
  | nil => simp [scanRefs]
  | cons c s ih =>
      cases skip with
      | zero => simp at h
      | succ skip =>
          rw [scanRefs]
          exact ih (by simpa using h)

end Scan

/-- A reference and behind it a text that ends in `${`: the loop drops what it
output since the reference from `rest`. -/
def Overruns (s : Text) : Prop :=
  ∃ name t, isVarName name = true ∧ s = refText name ++ t ∧ openRef <:+ t

/-- **What counts as one bare reference**: one, or a reference that overruns. -/
theorem expandEnvStr_whole {env : Text → Option Text} {s s' : Text}
    (h : expandEnvStr env s = .ok (s', true)) : isRefOnly s = true ∨ Overruns s := by
  obtain ⟨st, hscan, hst⟩ := map_eq_ok h
  have hwhole := (Prod.mk.inj hst).2
  simp only [Bool.and_eq_true, decide_eq_true_eq] at hwhole
  obtain ⟨⟨hrefs, hstart⟩, hrest⟩ := hwhole
  cases s with
  | nil =>
      rw [scanRefs] at hscan
      cases hscan
      contradiction
  | cons c s =>
      cases href : refAt (c :: s) with
      | none =>
          obtain ⟨skip, out, rest, hout, hscan, -⟩ := scanRefs_char href hscan
          have hnot := startsWithRef_of_scanRefs hscan (by simpa using hout) rfl
          rw [hnot] at hstart
          contradiction
      | some name =>
          obtain ⟨hname, t, ht⟩ := refAt_eq_some href
          obtain ⟨v, -, hscan⟩ := scanRefs_ref href hscan
          have hdrop := drop_ref ht
          cases (rest_of_scanRefs hscan).2 hrefs with
          | inl hsame =>
              dsimp only at hsame
              rw [hrest, hdrop] at hsame
              refine Or.inl (isRefOnly_iff.mpr ⟨name, hname, ?_⟩)
              rw [ht, ← hsame, List.append_nil]
          | inr hopen =>
              rw [hrest, hdrop, List.append_nil] at hopen
              exact Or.inr ⟨name, t, hname, ht, hopen⟩

/-- **A bare reference** becomes the value of its variable. -/
theorem expandEnvStr_refText {env : Text → Option Text} {name s' : Text} {whole : Bool}
    (hname : isVarName name = true) (h : expandEnvStr env (refText name) = .ok (s', whole)) :
    env name = some s' := by
  have href := refAt_refText hname []
  rw [List.append_nil] at href
  obtain ⟨st, hscan, hst⟩ := map_eq_ok h
  have hshape : refText name = '$' :: ('{' :: name ++ ['}']) := rfl
  rw [hshape] at hscan href
  obtain ⟨v, hvalue, hscan⟩ := scanRefs_ref href hscan
  rw [scanRefs_skip (by simp)] at hscan
  cases hscan
  have hout := (Prod.mk.inj hst).1
  rw [hvalue, ← hout]
  rfl

/-! ## values -/

/-- A `serde_yaml::Value`; a number is kept as its text. -/
inductive YamlValue where
  | null
  | bool (b : Bool)
  | number (text : Text)
  | string (s : Text)
  | sequence (items : List YamlValue)
  | mapping (map : List (YamlValue × YamlValue))
  | tagged (tag : Text) (value : YamlValue)

/-- The values under a value; the keys of a mapping are none of them. -/
def YamlValue.content : YamlValue → List YamlValue
  | .null => []
  | .bool _ => []
  | .number _ => []
  | .string _ => []
  | .sequence items => items
  | .mapping map => map.map Prod.snd
  | .tagged _ value => [value]

/-- The value at a position. -/
abbrev YamlValue.at? (v : YamlValue) (p : List Nat) : Option YamlValue :=
  nodeAt? YamlValue.content v p

section Expand

variable (asStr : YamlValue → Option Text) (env : Text → Option Text)

/-- `SECRET_KEYS.contains`, of a key that `as_str` gives a text. -/
def YamlValue.isSecret (key : YamlValue) : Bool := (asStr key).any isSecretKey

mutual

/-- `expand_env`: replaces the references in the strings under a value, and
tells whether a secret key holds a literal value. -/
def YamlValue.expandEnv (secret : Bool) : YamlValue → Except Text (YamlValue × Bool)
  | .null => .ok (.null, false)
  | .bool b => .ok (.bool b, secret)
  | .number text => .ok (.number text, secret)
  | .string s =>
      match expandEnvStr env s with
      | .error name => .error name
      | .ok (expanded, wholeRef) => .ok (.string expanded, secret && s ≠ [] && !wholeRef)
  | .sequence items => (expandItems secret items).map fun r => (.sequence r.1, r.2)
  | .mapping map => (expandEntries map).map fun r => (.mapping r.1, r.2)
  | .tagged tag value => (expandEnv secret value).map fun r => (.tagged tag r.1, r.2)

/-- The items of a sequence. -/
def YamlValue.expandItems (secret : Bool) :
    List YamlValue → Except Text (List YamlValue × Bool)
  | [] => .ok ([], false)
  | item :: items =>
      match expandEnv secret item with
      | .error e => .error e
      | .ok (item', lit) => (expandItems secret items).map fun r => (item' :: r.1, lit || r.2)

/-- The values of a mapping; keys stay as they are. -/
def YamlValue.expandEntries :
    List (YamlValue × YamlValue) → Except Text (List (YamlValue × YamlValue) × Bool)
  | [] => .ok ([], false)
  | e :: map =>
      match expandEntry e with
      | .error e => .error e
      | .ok (e', lit) => (expandEntries map).map fun r => (e' :: r.1, lit || r.2)

def YamlValue.expandEntry :
    YamlValue × YamlValue → Except Text ((YamlValue × YamlValue) × Bool)
  | (k, item) => (expandEnv (isSecret asStr k) item).map fun r => ((k, r.1), r.2)

end

end Expand

/-! ## what the walk visits -/

section Visit

variable (asStr : YamlValue → Option Text)

/-- The flag `expand_env` passes on. -/
def YamlValue.childFlag (secret : Bool) (v : YamlValue) (i : Nat) : Option Bool :=
  match v with
  | .null => none
  | .bool _ => none
  | .number _ => none
  | .string _ => none
  | .sequence _ => some secret
  | .mapping map => (map[i]?).map fun e => e.1.isSecret asStr
  | .tagged _ _ => some secret

/-- How `expand_env` walks a value. -/
def YamlValue.walk : TreeWalk YamlValue Bool where
  content := YamlValue.content
  childFlag secret v i := v.childFlag asStr secret i

/-- How `expand_env` comes to the value at a position. -/
abbrev YamlValue.visit (secret : Bool) (v : YamlValue) (p : List Nat) : Option Bool :=
  (YamlValue.walk asStr).visit secret v p

end Visit

namespace YamlValue

variable {asStr : YamlValue → Option Text} {env : Text → Option Text}

theorem expandItems_getElem {secret lit : Bool} {items items' : List YamlValue} {i : Nat}
    {c : YamlValue} (h : expandItems asStr env secret items = .ok (items', lit))
    (hc : items[i]? = some c) :
    ∃ c' l, expandEnv asStr env secret c = .ok (c', l) ∧ items'[i]? = some c' ∧
      (l = true → lit = true) := by
  induction items generalizing items' lit i with
  | nil => simp at hc
  | cons item items ih =>
      rw [expandItems] at h
      cases hitem : expandEnv asStr env secret item with
      | error e =>
          rw [hitem] at h
          contradiction
      | ok r =>
          rw [hitem] at h
          obtain ⟨rest, hrest, heq⟩ := map_eq_ok h
          cases heq
          cases i with
          | zero =>
              cases hc
              exact ⟨r.1, r.2, hitem, rfl, fun hl => by simp [hl]⟩
          | succ i =>
              obtain ⟨c', l, hexpand, hget, hlit⟩ := ih hrest hc
              exact ⟨c', l, hexpand, hget, fun hl => by simp [hlit hl]⟩

theorem expandEntries_getElem {lit : Bool} {map map' : List (YamlValue × YamlValue)} {i : Nat}
    {k c : YamlValue} (h : expandEntries asStr env map = .ok (map', lit))
    (hc : map[i]? = some (k, c)) :
    ∃ c' l, expandEnv asStr env (k.isSecret asStr) c = .ok (c', l) ∧
      map'[i]? = some (k, c') ∧ (l = true → lit = true) := by
  induction map generalizing map' lit i with
  | nil => simp at hc
  | cons e map ih =>
      rw [expandEntries] at h
      cases hentry : expandEntry asStr env e with
      | error e =>
          rw [hentry] at h
          contradiction
      | ok r =>
          rw [hentry] at h
          obtain ⟨rest, hrest, heq⟩ := map_eq_ok h
          cases heq
          cases i with
          | zero =>
              cases hc
              rw [expandEntry] at hentry
              obtain ⟨r', hexpand, heq'⟩ := map_eq_ok hentry
              cases heq'
              exact ⟨r'.1, r'.2, hexpand, rfl, fun hl => by simp [hl]⟩
          | succ i =>
              obtain ⟨c', l, hexpand, hget, hlit⟩ := ih hrest hc
              exact ⟨c', l, hexpand, hget, fun hl => by simp [hlit hl]⟩

/-- What `expand_env` makes of a value, it makes of the values it visits below. -/
theorem expandEnv_rebuilds (asStr : YamlValue → Option Text) (env : Text → Option Text) :
    (walk asStr).Rebuilds fun secret v v' lit =>
      expandEnv asStr env secret v = .ok (v', lit) := by
  intro secret v v' lit i flag c h hflag hc
  cases v with
  | null => contradiction
  | bool b => contradiction
  | number text => contradiction
  | string s => contradiction
  | sequence items =>
      obtain ⟨r, hitems, hr⟩ := map_eq_ok h
      cases hr
      cases hflag
      exact expandItems_getElem hitems hc
  | mapping map =>
      obtain ⟨r, hmap, hr⟩ := map_eq_ok h
      cases hr
      obtain ⟨e, he, hsecret⟩ := Option.map_eq_some_iff.mp hflag
      subst hsecret
      have hsnd : c = e.2 := by simpa [walk, content, he] using hc.symm
      subst hsnd
      obtain ⟨c', l, hexpand, hget, hlit⟩ := expandEntries_getElem hmap he
      exact ⟨c', l, hexpand, by simp [walk, content, hget], hlit⟩
  | tagged tag value =>
      obtain ⟨r, hvalue, hr⟩ := map_eq_ok h
      cases hr
      cases hflag
      have hi : i = 0 := by
        have hlt := (List.getElem?_eq_some_iff.mp hc).1
        simpa [walk, content] using hlt
      subst hi
      cases hc
      exact ⟨r.1, r.2, hvalue, rfl, id⟩

/-- **What the walk visits**, it expands where it stands. -/
theorem expandEnv_at {secret lit flag : Bool} {v v' c : YamlValue} {p : List Nat}
    (h : expandEnv asStr env secret v = .ok (v', lit))
    (hvisit : v.visit asStr secret p = some flag) (hc : v.at? p = some c) :
    ∃ c' l, expandEnv asStr env flag c = .ok (c', l) ∧ v'.at? p = some c' ∧
      (l = true → lit = true) :=
  (expandEnv_rebuilds asStr env).nodeAt?_of_visit h hvisit hc

/-- A string the walk visits has its references replaced; a literal one under a
secret key sets the verdict. -/
theorem expandEnv_string {secret lit flag : Bool} {v v' : YamlValue} {p : List Nat} {s : Text}
    (h : expandEnv asStr env secret v = .ok (v', lit))
    (hvisit : v.visit asStr secret p = some flag) (hc : v.at? p = some (.string s)) :
    ∃ s' whole, expandEnvStr env s = .ok (s', whole) ∧ v'.at? p = some (.string s') ∧
      (flag = true → s ≠ [] → whole = false → lit = true) := by
  obtain ⟨c', l, hexpand, hget, hlit⟩ := expandEnv_at h hvisit hc
  rw [expandEnv] at hexpand
  cases hstr : expandEnvStr env s with
  | error name =>
      rw [hstr] at hexpand
      contradiction
  | ok r =>
      rw [hstr] at hexpand
      cases hexpand
      exact ⟨r.1, r.2, rfl, hget, fun hflag hne hwhole => hlit (by simp [hflag, hne, hwhole])⟩

end YamlValue

end Cuttlefish
