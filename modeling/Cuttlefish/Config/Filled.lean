import Cuttlefish.Config.References

/-!
# Cuttlefish.Config.Filled

What the two walks do, said of the document and the environment alone.

A walk fails exactly if it comes to a text that names a variable that is not
set (`HasUnset`).  Else it leaves the document filled in (`fill`), which is
what the decoders read, and its verdict is that some secret it comes to is
literal.
-/

namespace Cuttlefish

/-! ## texts -/

/-- A text with its references replaced; a variable that is not set gives
nothing. -/
def fillText (env : Text → Option Text) (s : Text) : Text :=
  (chunks 0 s).flatMap (Chunk.value env)

/-- A text refers to a variable that is not set. -/
def NamesUnset (env : Text → Option Text) (s : Text) : Prop :=
  ∃ name ∈ refsOf (chunks 0 s), env name = none

section Texts

variable {env : Text → Option Text} {s s' name : Text} {r : Text × Bool}

theorem substitute_eq_some {ps : List Chunk} (h : substitute env ps = some s) :
    s = ps.flatMap (Chunk.value env) ∧ ∀ name ∈ refsOf ps, (env name).isSome := by
  unfold substitute at h
  split_ifs at h with hset
  exact ⟨(Option.some.inj h).symm, hset⟩

theorem replaceRefs_eq_ok (h : replaceRefs env 0 s = .ok s') :
    s' = fillText env s ∧ ¬ NamesUnset env s := by
  have hsome : substitute env (chunks 0 s) = some s' := by
    rw [← toOption_replaceRefs, h]
    rfl
  obtain ⟨hfill, hset⟩ := substitute_eq_some hsome
  refine ⟨hfill, fun hunset => ?_⟩
  obtain ⟨name, hname, hnone⟩ := hunset
  have hisSome := hset name hname
  rw [hnone] at hisSome
  contradiction

theorem namesUnset_of_error (h : replaceRefs env 0 s = .error name) : NamesUnset env s := by
  have hnone : substitute env (chunks 0 s) = none := by
    rw [← toOption_replaceRefs, h]
    rfl
  exact substitute_eq_none.mp hnone

theorem expandEnvStr_eq_ok (h : expandEnvStr env s = .ok r) :
    r.1 = fillText env s ∧ ¬ NamesUnset env s := by
  refine replaceRefs_eq_ok ?_
  rw [← map_fst_expandEnvStr, h]
  rfl

theorem namesUnset_of_expandEnvStr (h : expandEnvStr env s = .error name) : NamesUnset env s := by
  have hreplace : replaceRefs env 0 s = .error name := by
    rw [← map_fst_expandEnvStr, h]
    rfl
  exact namesUnset_of_error hreplace

/-- **What counts as one bare reference** in `fs_common`: one, or one that
overreads. -/
theorem whole_iff (h : expandEnvStr env s = .ok r) :
    r.2 = true ↔ isRefOnly s = true ∨ Overreads env s := by
  by_cases hover : Overreads env s
  · refine iff_of_true ?_ (Or.inr hover)
    obtain ⟨name, t, hname, -, rfl, hend, hnone⟩ := hover
    exact (expandEnvStr_ref hname h).mpr ⟨Or.inr hend, hnone⟩
  · rw [verdict_iff.mpr hover r h, or_iff_left hover]

end Texts

/-! ## `fs_api` -/

mutual

/-- A document with the references in its scalars replaced, where `expandEnv`
comes to them. -/
def YamlNode.fill (env : Text → Option Text) : YamlNode → YamlNode
  | .documentNode ns => .documentNode (fillAll env ns)
  | .sequenceNode ns => .sequenceNode (fillAll env ns)
  | .mappingNode ns => .mappingNode (fillValues env ns)
  | .scalarNode tag value line => .scalarNode tag (fillText env value) line
  | .aliasNode value target => .aliasNode value target

def YamlNode.fillAll (env : Text → Option Text) : List YamlNode → List YamlNode
  | [] => []
  | n :: ns => n.fill env :: fillAll env ns

def YamlNode.fillValues (env : Text → Option Text) : List YamlNode → List YamlNode
  | key :: n :: ns => key :: n.fill env :: fillValues env ns
  | ns => ns

end

/-- A scalar that names a variable that is not set. -/
def YamlNode.IsUnset (env : Text → Option Text) : YamlNode → Prop
  | .documentNode _ => False
  | .sequenceNode _ => False
  | .mappingNode _ => False
  | .scalarNode _ value _ => NamesUnset env value
  | .aliasNode _ _ => False

/-- Some scalar the walk visits names a variable that is not set. -/
def YamlNode.HasUnset (env : Text → Option Text) : Bool → YamlNode → Prop :=
  YamlNode.walk.Meets fun _ n => n.IsUnset env

section Api

variable {env : Text → Option Text}

mutual

/-- **The walk** fails at a variable that is not set, or fills in the document. -/
theorem YamlNode.expandEnv_cases {secret : Bool} : (n : YamlNode) →
    ((∃ e, expandEnv env secret n = .error e) ∧ n.HasUnset env secret) ∨
      ∃ lit, expandEnv env secret n = .ok (n.fill env, lit)
  | .documentNode ns => by
      rcases expandAll_cases ns with ⟨⟨e, he⟩, i, c, hc, hunset⟩ | ⟨lit, hok⟩
      · exact Or.inl ⟨⟨e, by rw [expandEnv, he]; rfl⟩, hunset.of_child rfl hc⟩
      · exact Or.inr ⟨lit, by rw [expandEnv, hok]; rfl⟩
  | .sequenceNode ns => by
      rcases expandAll_cases ns with ⟨⟨e, he⟩, i, c, hc, hunset⟩ | ⟨lit, hok⟩
      · exact Or.inl ⟨⟨e, by rw [expandEnv, he]; rfl⟩, hunset.of_child rfl hc⟩
      · exact Or.inr ⟨lit, by rw [expandEnv, hok]; rfl⟩
  | .mappingNode ns => by
      rcases expandValues_cases ns with ⟨⟨e, he⟩, i, key, c, hodd, hkey, hc, hunset⟩ | ⟨lit, hok⟩
      · have hflag : YamlNode.walk.childFlag secret (.mappingNode ns) i =
            some (isSecretKey key.value) := by
          simp [YamlNode.walk, YamlNode.childFlag, hodd, hkey]
        exact Or.inl ⟨⟨e, by rw [expandEnv, he]; rfl⟩, hunset.of_child hflag hc⟩
      · exact Or.inr ⟨lit, by rw [expandEnv, hok]; rfl⟩
  | .scalarNode tag value line => by
      cases hreplace : replaceRefs env 0 value with
      | error name =>
          exact Or.inl ⟨⟨⟨line, name⟩, by rw [expandEnv, hreplace]⟩,
            TreeWalk.Meets.of_self (namesUnset_of_error hreplace)⟩
      | ok s =>
          rw [expandEnv, hreplace, YamlNode.fill, ← (replaceRefs_eq_ok hreplace).1]
          exact Or.inr ⟨_, rfl⟩
  | .aliasNode value target => Or.inr ⟨false, rfl⟩

theorem YamlNode.expandAll_cases {secret : Bool} : (ns : List YamlNode) →
    ((∃ e, expandAll env secret ns = .error e) ∧
        ∃ (i : Nat) (c : YamlNode), ns[i]? = some c ∧ c.HasUnset env secret) ∨
      ∃ lit, expandAll env secret ns = .ok (YamlNode.fillAll env ns, lit)
  | [] => Or.inr ⟨false, rfl⟩
  | n :: ns => by
      rcases YamlNode.expandEnv_cases n with ⟨⟨e, he⟩, hunset⟩ | ⟨lit, hn⟩
      · exact Or.inl ⟨⟨e, by rw [expandAll, he]⟩, 0, n, rfl, hunset⟩
      rcases expandAll_cases ns with ⟨⟨e, he⟩, i, c, hc, hunset⟩ | ⟨lit', hns⟩
      · exact Or.inl ⟨⟨e, by rw [expandAll, hn, he]; rfl⟩, i + 1, c, hc, hunset⟩
      · exact Or.inr ⟨lit || lit', by rw [expandAll, hn, hns]; rfl⟩

theorem YamlNode.expandValues_cases : (ns : List YamlNode) →
    ((∃ e, expandValues env ns = .error e) ∧
        ∃ (i : Nat) (key c : YamlNode), i % 2 = 1 ∧ ns[i - 1]? = some key ∧ ns[i]? = some c ∧
          c.HasUnset env (isSecretKey key.value)) ∨
      ∃ lit, expandValues env ns = .ok (YamlNode.fillValues env ns, lit)
  | [] => Or.inr ⟨false, rfl⟩
  | [_] => Or.inr ⟨false, rfl⟩
  | key :: n :: ns => by
      rcases YamlNode.expandEnv_cases n with ⟨⟨e, he⟩, hunset⟩ | ⟨lit, hn⟩
      · exact Or.inl ⟨⟨e, by rw [expandValues, he]⟩, 1, key, n, rfl, rfl, rfl, hunset⟩
      rcases expandValues_cases ns with ⟨⟨e, he⟩, i, key', c, hodd, hkey, hc, hunset⟩ | ⟨lit', hns⟩
      · have hshift : i + 2 - 1 = (i - 1) + 2 := by omega
        exact Or.inl ⟨⟨e, by rw [expandValues, hn, he]; rfl⟩, i + 2, key', c, by omega,
          by simpa [hshift] using hkey, hc, hunset⟩
      · exact Or.inr ⟨lit || lit', by rw [expandValues, hn, hns]; rfl⟩

end

/-- A walk that comes through met no unset variable. -/
theorem YamlNode.not_hasUnset {secret lit : Bool} {n n' : YamlNode}
    (h : expandEnv env secret n = .ok (n', lit)) : ¬ n.HasUnset env secret := by
  rintro ⟨p, flag, c, hvisit, hc, hunset⟩
  cases c with
  | scalarNode tag value line =>
      obtain ⟨s, hreplace, -⟩ := expandEnv_scalar h hvisit hc
      exact (replaceRefs_eq_ok hreplace).2 hunset
  | documentNode ns => exact hunset.elim
  | sequenceNode ns => exact hunset.elim
  | mappingNode ns => exact hunset.elim
  | aliasNode value target => exact hunset.elim

theorem YamlNode.eq_fill {secret lit : Bool} {n n' : YamlNode}
    (h : expandEnv env secret n = .ok (n', lit)) : n' = n.fill env := by
  obtain ⟨⟨e, he⟩, -⟩ | ⟨lit', hok⟩ :
      ((∃ e, expandEnv env secret n = .error e) ∧ _) ∨ _ := YamlNode.expandEnv_cases n
  · rw [he] at h
    contradiction
  · rw [hok] at h
    cases h
    rfl

end Api

/-! ## `fs_common` -/

mutual

/-- A value with the references in its strings replaced; keys stay as they
are. -/
def YamlValue.fill (env : Text → Option Text) : YamlValue → YamlValue
  | .null => .null
  | .bool b => .bool b
  | .number text => .number text
  | .string s => .string (fillText env s)
  | .sequence items => .sequence (fillItems env items)
  | .mapping map => .mapping (fillEntries env map)
  | .tagged tag value => .tagged tag (value.fill env)

def YamlValue.fillItems (env : Text → Option Text) : List YamlValue → List YamlValue
  | [] => []
  | item :: items => item.fill env :: fillItems env items

def YamlValue.fillEntries (env : Text → Option Text) :
    List (YamlValue × YamlValue) → List (YamlValue × YamlValue)
  | [] => []
  | e :: map => fillEntry env e :: fillEntries env map

def YamlValue.fillEntry (env : Text → Option Text) :
    YamlValue × YamlValue → YamlValue × YamlValue
  | (k, item) => (k, item.fill env)

end

namespace YamlValue

/-- A string that names a variable that is not set. -/
def IsUnset (env : Text → Option Text) : YamlValue → Prop
  | .null => False
  | .bool _ => False
  | .number _ => False
  | .string s => NamesUnset env s
  | .sequence _ => False
  | .mapping _ => False
  | .tagged _ _ => False

/-- Some string the walk visits names a variable that is not set. -/
def HasUnset (asStr : YamlValue → Option Text) (env : Text → Option Text) :
    Bool → YamlValue → Prop :=
  (walk asStr).Meets fun _ v => v.IsUnset env

variable {asStr : YamlValue → Option Text} {env : Text → Option Text}

mutual

/-- **The walk** fails at a variable that is not set, or fills in the value. -/
theorem expandEnv_cases {secret : Bool} : (v : YamlValue) →
    ((∃ e, expandEnv asStr env secret v = .error e) ∧ HasUnset asStr env secret v) ∨
      ∃ lit, expandEnv asStr env secret v = .ok (v.fill env, lit)
  | .null => Or.inr ⟨_, rfl⟩
  | .bool _ => Or.inr ⟨_, rfl⟩
  | .number _ => Or.inr ⟨_, rfl⟩
  | .string s => by
      cases hstr : expandEnvStr env s with
      | error name =>
          exact Or.inl ⟨⟨name, by rw [expandEnv, hstr]⟩,
            TreeWalk.Meets.of_self (namesUnset_of_expandEnvStr hstr)⟩
      | ok r =>
          rw [expandEnv, hstr, fill, ← (expandEnvStr_eq_ok hstr).1]
          exact Or.inr ⟨_, rfl⟩
  | .sequence items => by
      rcases expandItems_cases items with ⟨⟨e, he⟩, i, c, hc, hunset⟩ | ⟨lit, hok⟩
      · exact Or.inl ⟨⟨e, by rw [expandEnv, he]; rfl⟩, hunset.of_child rfl hc⟩
      · exact Or.inr ⟨lit, by rw [expandEnv, hok]; rfl⟩
  | .mapping map => by
      rcases expandEntries_cases map with ⟨⟨e, he⟩, i, en, hen, hunset⟩ | ⟨lit, hok⟩
      · exact Or.inl ⟨⟨e, by rw [expandEnv, he]; rfl⟩, hunset.of_child (i := i)
          (by simp [walk, childFlag, hen]) (by simp [walk, content, hen])⟩
      · exact Or.inr ⟨lit, by rw [expandEnv, hok]; rfl⟩
  | .tagged tag value => by
      rcases expandEnv_cases value with ⟨⟨e, he⟩, hunset⟩ | ⟨lit, hok⟩
      · exact Or.inl ⟨⟨e, by rw [expandEnv, he]; rfl⟩, hunset.of_child (i := 0) rfl rfl⟩
      · exact Or.inr ⟨lit, by rw [expandEnv, hok]; rfl⟩

theorem expandItems_cases {secret : Bool} : (items : List YamlValue) →
    ((∃ e, expandItems asStr env secret items = .error e) ∧
        ∃ (i : Nat) (c : YamlValue), items[i]? = some c ∧ HasUnset asStr env secret c) ∨
      ∃ lit, expandItems asStr env secret items = .ok (fillItems env items, lit)
  | [] => Or.inr ⟨_, rfl⟩
  | item :: items => by
      rcases expandEnv_cases item with ⟨⟨e, he⟩, hunset⟩ | ⟨lit, hitem⟩
      · exact Or.inl ⟨⟨e, by rw [expandItems, he]⟩, 0, item, rfl, hunset⟩
      rcases expandItems_cases items with ⟨⟨e, he⟩, i, c, hc, hunset⟩ | ⟨lit', hitems⟩
      · exact Or.inl ⟨⟨e, by rw [expandItems, hitem, he]; rfl⟩, i + 1, c, hc, hunset⟩
      · exact Or.inr ⟨lit || lit', by rw [expandItems, hitem, hitems]; rfl⟩

theorem expandEntries_cases : (map : List (YamlValue × YamlValue)) →
    ((∃ e, expandEntries asStr env map = .error e) ∧
        ∃ (i : Nat) (en : YamlValue × YamlValue), map[i]? = some en ∧
          HasUnset asStr env (en.1.isSecret asStr) en.2) ∨
      ∃ lit, expandEntries asStr env map = .ok (fillEntries env map, lit)
  | [] => Or.inr ⟨_, rfl⟩
  | (k, item) :: map => by
      rcases expandEnv_cases item with ⟨⟨e, he⟩, hunset⟩ | ⟨lit, hitem⟩
      · exact Or.inl ⟨⟨e, by rw [expandEntries, expandEntry, he]; rfl⟩, 0, (k, item), rfl, hunset⟩
      rcases expandEntries_cases map with ⟨⟨e, he⟩, i, en, hen, hunset⟩ | ⟨lit', hmap⟩
      · exact Or.inl ⟨⟨e, by rw [expandEntries, expandEntry, hitem, he]; rfl⟩, i + 1, en, hen, hunset⟩
      · exact Or.inr ⟨lit || lit', by rw [expandEntries, expandEntry, hitem, hmap]; rfl⟩

end

/-- A walk that comes through met no unset variable. -/
theorem not_hasUnset {secret lit : Bool} {v v' : YamlValue}
    (h : expandEnv asStr env secret v = .ok (v', lit)) : ¬ HasUnset asStr env secret v := by
  rintro ⟨p, flag, c, hvisit, hc, hunset⟩
  cases c with
  | string s =>
      obtain ⟨s', whole, hstr, -⟩ := expandEnv_string h hvisit hc
      exact (expandEnvStr_eq_ok hstr).2 hunset
  | null => exact hunset.elim
  | bool b => exact hunset.elim
  | number text => exact hunset.elim
  | sequence items => exact hunset.elim
  | mapping map => exact hunset.elim
  | tagged tag value => exact hunset.elim

theorem eq_fill {secret lit : Bool} {v v' : YamlValue}
    (h : expandEnv asStr env secret v = .ok (v', lit)) : v' = v.fill env := by
  obtain ⟨⟨e, he⟩, -⟩ | ⟨lit', hok⟩ :
      ((∃ e, expandEnv asStr env secret v = .error e) ∧ _) ∨ _ := expandEnv_cases v
  · rw [he] at h
    contradiction
  · rw [hok] at h
    cases h
    rfl

/-! ## the verdict -/

/-- `expand_env` calls a value literal: a string that is neither empty nor one
bare reference and does not overread, a number or a boolean. -/
def IsLiteral (env : Text → Option Text) : YamlValue → Prop
  | .null => False
  | .bool _ => True
  | .number _ => True
  | .string s => s ≠ [] ∧ isRefOnly s = false ∧ ¬ Overreads env s
  | .sequence _ => False
  | .mapping _ => False
  | .tagged _ _ => False

/-- Some secret the walk visits is a literal. -/
def HasLiteralSecret (asStr : YamlValue → Option Text) (env : Text → Option Text) :
    Bool → YamlValue → Prop :=
  (walk asStr).Meets fun flag v => flag = true ∧ v.IsLiteral env

mutual

theorem hasLiteralSecret_of_literal {secret : Bool} : (v : YamlValue) → {v' : YamlValue} →
    expandEnv asStr env secret v = .ok (v', true) → HasLiteralSecret asStr env secret v
  | .null, _, h => by
      have hlit := (Prod.mk.inj (Except.ok.inj h)).2
      contradiction
  | .bool b, _, h => by
      have hsecret := (Prod.mk.inj (Except.ok.inj h)).2
      exact TreeWalk.Meets.of_self ⟨hsecret, trivial⟩
  | .number text, _, h => by
      have hsecret := (Prod.mk.inj (Except.ok.inj h)).2
      exact TreeWalk.Meets.of_self ⟨hsecret, trivial⟩
  | .string s, _, h => by
      rw [expandEnv] at h
      cases hstr : expandEnvStr env s with
      | error name =>
          rw [hstr] at h
          contradiction
      | ok r =>
          rw [hstr] at h
          have hlit := (Prod.mk.inj (Except.ok.inj h)).2
          simp only [Bool.and_eq_true, decide_eq_true_eq, Bool.not_eq_true'] at hlit
          obtain ⟨⟨hsecret, hne⟩, hwhole⟩ := hlit
          obtain ⟨href, hover⟩ := not_or.mp fun h => by
            rw [(whole_iff hstr).mpr h] at hwhole
            contradiction
          exact TreeWalk.Meets.of_self ⟨hsecret, hne, Bool.not_eq_true _ ▸ href, hover⟩
  | .sequence items, _, h => by
      obtain ⟨r, hitems, hr⟩ := map_eq_ok h
      have hlit : expandItems asStr env secret items = .ok (r.1, true) := by
        rw [hitems, ← (Prod.mk.inj hr).2]
      obtain ⟨i, c, hc, hliteral⟩ := exists_of_literal_items items hlit
      exact hliteral.of_child rfl hc
  | .mapping map, _, h => by
      obtain ⟨r, hmap, hr⟩ := map_eq_ok h
      have hlit : expandEntries asStr env map = .ok (r.1, true) := by
        rw [hmap, ← (Prod.mk.inj hr).2]
      obtain ⟨i, e, he, hliteral⟩ := exists_of_literal_entries map hlit
      exact hliteral.of_child (i := i) (by simp [walk, childFlag, he]) (by simp [walk, content, he])
  | .tagged tag value, _, h => by
      obtain ⟨r, hvalue, hr⟩ := map_eq_ok h
      have hlit : expandEnv asStr env secret value = .ok (r.1, true) := by
        rw [hvalue, ← (Prod.mk.inj hr).2]
      exact (hasLiteralSecret_of_literal value hlit).of_child (i := 0) rfl rfl

theorem exists_of_literal_items {secret : Bool} : (items : List YamlValue) →
    {items' : List YamlValue} → expandItems asStr env secret items = .ok (items', true) →
      ∃ (i : Nat) (c : YamlValue), items[i]? = some c ∧ HasLiteralSecret asStr env secret c
  | [], _, h => by
      have hlit := (Prod.mk.inj (Except.ok.inj h)).2
      contradiction
  | item :: items, _, h => by
      rw [expandItems] at h
      cases hitem : expandEnv asStr env secret item with
      | error e =>
          rw [hitem] at h
          contradiction
      | ok r =>
          obtain ⟨item', l⟩ := r
          rw [hitem] at h
          obtain ⟨rest, hrest, heq⟩ := map_eq_ok h
          have hor := (Prod.mk.inj heq).2
          cases l with
          | true => exact ⟨0, item, rfl, hasLiteralSecret_of_literal item hitem⟩
          | false =>
              have hlit : expandItems asStr env secret items = .ok (rest.1, true) := by
                rw [hrest, ← hor]
                rfl
              obtain ⟨i, c, hc, hliteral⟩ := exists_of_literal_items items hlit
              exact ⟨i + 1, c, hc, hliteral⟩

theorem exists_of_literal_entries : (map : List (YamlValue × YamlValue)) →
    {map' : List (YamlValue × YamlValue)} → expandEntries asStr env map = .ok (map', true) →
      ∃ (i : Nat) (e : YamlValue × YamlValue), map[i]? = some e ∧
        HasLiteralSecret asStr env (e.1.isSecret asStr) e.2
  | [], _, h => by
      have hlit := (Prod.mk.inj (Except.ok.inj h)).2
      contradiction
  | (k, item) :: map, _, h => by
      rw [expandEntries, expandEntry] at h
      cases hitem : expandEnv asStr env (k.isSecret asStr) item with
      | error e =>
          rw [hitem] at h
          contradiction
      | ok r =>
          obtain ⟨item', l⟩ := r
          rw [hitem] at h
          obtain ⟨rest, hrest, heq⟩ := map_eq_ok h
          have hor := (Prod.mk.inj heq).2
          cases l with
          | true => exact ⟨0, (k, item), rfl, hasLiteralSecret_of_literal item hitem⟩
          | false =>
              have hlit : expandEntries asStr env map = .ok (rest.1, true) := by
                rw [hrest, ← hor]
                rfl
              obtain ⟨i, e, he, hliteral⟩ := exists_of_literal_entries map hlit
              exact ⟨i + 1, e, he, hliteral⟩

end

/-- **The verdict** is that some secret the walk visits is a literal. -/
theorem expandEnv_literal_iff {secret lit : Bool} {v v' : YamlValue}
    (h : expandEnv asStr env secret v = .ok (v', lit)) :
    lit = true ↔ HasLiteralSecret asStr env secret v := by
  constructor
  · intro hlit
    exact hasLiteralSecret_of_literal v (hlit ▸ h)
  · intro hliteral
    obtain ⟨p, flag, c, hvisit, hc, hflag, hliteral⟩ := hliteral
    subst hflag
    obtain ⟨c', l, hexpand, -, hlit⟩ := expandEnv_at h hvisit hc
    refine hlit ?_
    cases c with
    | null => exact hliteral.elim
    | bool b => exact (Prod.mk.inj (Except.ok.inj hexpand)).2.symm
    | number text => exact (Prod.mk.inj (Except.ok.inj hexpand)).2.symm
    | string s =>
        obtain ⟨hne, href, hover⟩ := hliteral
        rw [expandEnv] at hexpand
        cases hstr : expandEnvStr env s with
        | error name =>
            rw [hstr] at hexpand
            contradiction
        | ok r =>
            rw [hstr] at hexpand
            have hwhole : ¬ r.2 = true := fun h => ((whole_iff hstr).mp h).elim (by simp [href]) hover
            rw [← (Prod.mk.inj (Except.ok.inj hexpand)).2]
            simp [hne, hwhole]
    | sequence items => exact hliteral.elim
    | mapping map => exact hliteral.elim
    | tagged tag value => exact hliteral.elim

end YamlValue

end Cuttlefish
