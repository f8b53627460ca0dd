import Cuttlefish.TreeWalk
import Cuttlefish.Utf8
import Mathlib.Data.List.Induction

/-!
# Cuttlefish.Config

The configuration of `fs_api`: `${VAR}` references in the values of a YAML
document, and whether the document itself holds a secret.

A document is the tree of `yaml.Node`s the parser returns.  An alias points to
the node that carries its anchor; a pointer is the position of the node, the
way to it from the root.  `expandEnv` walks the tree in place, so what an alias
points to is expanded where it stands, if at all.

* `expandEnv_scalar` — what becomes of a scalar the walk visits.
* `expandEnv_literal_iff` — the verdict: some secret the walk visits is
  literal.
-/

namespace Cuttlefish

/-! ## references -/

/-- `[A-Za-z0-9_]`. -/
def isNameChar (c : Char) : Bool := c = '_' || c.isAlphanum

/-- `[A-Za-z_][A-Za-z0-9_]*`. -/
def isVarName (name : Text) : Bool :=
  match name with
  | [] => false
  | c :: _ => (c = '_' || c.isAlpha) && name.all isNameChar

/-- `${name}`. -/
def refText (name : Text) : Text := '$' :: '{' :: name ++ ['}']

/-- The name of the reference a text starts with, if it starts with one. -/
def refAt (s : Text) : Option Text :=
  match s with
  | '$' :: '{' :: after =>
      let name := after.takeWhile (· ≠ '}')
      if name.length < after.length ∧ isVarName name then some name else none
  | _ => none

/-- `envRefOnly`: is the text a bare reference? -/
def isRefOnly (s : Text) : Bool :=
  match refAt s with
  | none => false
  | some name => s = refText name

/-- `envRef.ReplaceAllStringFunc`: every reference gives way to the value of its
variable; the name of the first that is not set is the error. -/
def replaceRefs (env : Text → Option Text) : Nat → Text → Except Text Text
  | _, [] => .ok []
  | skip + 1, _ :: s => replaceRefs env skip s
  | 0, c :: s =>
      match refAt (c :: s) with
      | none => (replaceRefs env 0 s).map (c :: ·)
      | some name =>
          match env name with
          | none => .error name
          | some v => (replaceRefs env (name.length + 2) s).map (v ++ ·)

theorem brace_not_mem {name : Text} (h : isVarName name = true) : '}' ∉ name := by
  intro hmem
  cases name with
  | nil => contradiction
  | cons c s =>
      rw [isVarName, Bool.and_eq_true, List.all_eq_true] at h
      have hchar := h.2 '}' hmem
      revert hchar
      decide

/-- A reference is read back. -/
theorem refAt_refText {name : Text} (h : isVarName name = true) (rest : Text) :
    refAt (refText name ++ rest) = some name := by
  have htake : (name ++ '}' :: rest).takeWhile (· ≠ '}') = name := by
    have hname : ∀ c ∈ name, (decide (c ≠ '}')) = true := by
      intro c hc
      have hne : c ≠ '}' := fun heq => brace_not_mem h (heq ▸ hc)
      simpa using hne
    rw [List.takeWhile_append_of_pos hname]
    simp
  have hshape : refText name ++ rest = '$' :: '{' :: (name ++ '}' :: rest) := by simp [refText]
  rw [hshape, refAt, htake, if_pos ⟨by simp, h⟩]

theorem refAt_eq_some {s name : Text} (h : refAt s = some name) :
    isVarName name = true ∧ ∃ rest, s = refText name ++ rest := by
  unfold refAt at h
  split at h
  · next after =>
      dsimp only at h
      split_ifs at h with hname
      have hsome := Option.some.inj h
      rw [hsome] at hname
      refine ⟨hname.2, ?_⟩
      have hsplit := List.takeWhile_append_dropWhile (p := fun c => decide (c ≠ '}')) (l := after)
      rw [hsome] at hsplit
      cases hdrop : after.dropWhile fun c => decide (c ≠ '}') with
      | nil =>
          rw [hdrop, List.append_nil] at hsplit
          have hlength := hname.1
          rw [hsplit] at hlength
          omega
      | cons c rest =>
          have hc : c = '}' := by
            have hhead := List.head?_dropWhile_not (fun c => decide (c ≠ '}')) after
            rw [hdrop] at hhead
            simpa using hhead
          refine ⟨rest, ?_⟩
          rw [← hsplit, hdrop, hc]
          simp [refText]
  · contradiction

/-- Skipping a reference. -/
theorem drop_ref {c : Char} {s name rest : Text} (h : c :: s = refText name ++ rest) :
    s.drop (name.length + 2) = rest := by
  have hs : s = '{' :: name ++ ['}'] ++ rest := by
    have htail := congrArg List.tail h
    simpa [refText] using htail
  have hsplit : ('{' :: name ++ ['}'] ++ rest).drop ('{' :: name ++ ['}']).length = rest :=
    List.drop_left
  rw [hs, ← hsplit]
  simp

theorem isRefOnly_iff {s : Text} :
    isRefOnly s = true ↔ ∃ name, isVarName name = true ∧ s = refText name := by
  constructor
  · intro h
    unfold isRefOnly at h
    cases href : refAt s with
    | none => simp [href] at h
    | some name => exact ⟨name, (refAt_eq_some href).1, by simpa [href] using h⟩
  · intro h
    obtain ⟨name, hname, rfl⟩ := h
    have href := refAt_refText hname []
    rw [List.append_nil] at href
    simp [isRefOnly, href]

theorem replaceRefs_skip {env : Text → Option Text} {skip : Nat} {s : Text}
    (h : s.length ≤ skip) : replaceRefs env skip s = .ok [] := by
  induction s generalizing skip with
  | nil => simp [replaceRefs]
  | cons c s ih =>
      cases skip with
      | zero => simp at h
      | succ skip =>
          rw [replaceRefs]
          exact ih (by simpa using h)

/-- **A bare reference** becomes the value of its variable. -/
theorem replaceRefs_refText {env : Text → Option Text} {name s : Text}
    (hname : isVarName name = true) (h : replaceRefs env 0 (refText name) = .ok s) :
    env name = some s := by
  have href := refAt_refText hname []
  rw [List.append_nil] at href
  have hshape : refText name = '$' :: ('{' :: name ++ ['}']) := rfl
  rw [hshape] at h href
  rw [replaceRefs, href] at h
  dsimp only at h
  cases hvalue : env name with
  | none =>
      rw [hvalue] at h
      contradiction
  | some v =>
      rw [hvalue] at h
      dsimp only at h
      rw [replaceRefs_skip (by simp)] at h
      simpa [Except.map] using h

/-! ## documents -/

/-- A `yaml.Node`.  The content of a mapping alternates keys and values; the
value of an alias is the name of the anchor. -/
inductive YamlNode where
  | documentNode (content : List YamlNode)
  | sequenceNode (content : List YamlNode)
  | mappingNode (content : List YamlNode)
  | scalarNode (tag value : Text) (line : Nat)
  | aliasNode (value : Text) (target : List Nat)

/-- `n.Value`. -/
def YamlNode.value : YamlNode → Text
  | .documentNode _ => []
  | .sequenceNode _ => []
  | .mappingNode _ => []
  | .scalarNode _ value _ => value
  | .aliasNode value _ => value

/-- `n.Content`. -/
def YamlNode.content : YamlNode → List YamlNode
  | .documentNode ns => ns
  | .sequenceNode ns => ns
  | .mappingNode ns => ns
  | .scalarNode _ _ _ => []
  | .aliasNode _ _ => []

/-! ## expanding -/

/-- Keys whose values are secrets wherever they appear. -/
def secretKeys : List Text :=
  ["password".toList, "session_secret".toList, "client_secret".toList]

def isSecretKey (key : Text) : Bool := secretKeys.any fun k => key = k

/-- `line %d references environment variable %s, which is not set`. -/
structure Unset where
  line : Nat
  name : Text
  deriving DecidableEq, Repr

mutual

/-- Replaces the references in the scalar values under a node, and tells whether
a secret key holds a literal value. -/
def expandEnv (env : Text → Option Text) (secret : Bool) :
    YamlNode → Except Unset (YamlNode × Bool)
  | .documentNode ns => (expandAll env secret ns).map fun r => (.documentNode r.1, r.2)
  | .sequenceNode ns => (expandAll env secret ns).map fun r => (.sequenceNode r.1, r.2)
  | .mappingNode ns => (expandValues env ns).map fun r => (.mappingNode r.1, r.2)
  | .scalarNode tag value line =>
      match replaceRefs env 0 value with
      | .error name => .error ⟨line, name⟩
      | .ok s => .ok (.scalarNode tag s line, secret && value ≠ [] && !isRefOnly value)
  | .aliasNode value target => .ok (.aliasNode value target, false)

/-- The children of a document or a sequence. -/
def expandAll (env : Text → Option Text) (secret : Bool) :
    List YamlNode → Except Unset (List YamlNode × Bool)
  | [] => .ok ([], false)
  | n :: ns =>
      match expandEnv env secret n with
      | .error e => .error e
      | .ok (n', lit) => (expandAll env secret ns).map fun r => (n' :: r.1, lit || r.2)

/-- The values of a mapping; keys stay as they are. -/
def expandValues (env : Text → Option Text) :
    List YamlNode → Except Unset (List YamlNode × Bool)
  | key :: n :: ns =>
      match expandEnv env (isSecretKey key.value) n with
      | .error e => .error e
      | .ok (n', lit) => (expandValues env ns).map fun r => (key :: n' :: r.1, lit || r.2)
  | ns => .ok (ns, false)

end

/-! ## what the walk visits -/

/-- The flag `expandEnv` passes to a child; none if it passes it over. -/
def YamlNode.childFlag (secret : Bool) (n : YamlNode) (i : Nat) : Option Bool :=
  match n with
  | .documentNode _ => some secret
  | .sequenceNode _ => some secret
  | .mappingNode ns =>
      if i % 2 = 1 then (ns[i - 1]?).map fun key => isSecretKey key.value else none
  | .scalarNode _ _ _ => none
  | .aliasNode _ _ => none

/-- How `expandEnv` walks a document. -/
def YamlNode.walk : TreeWalk YamlNode Bool where
  content := YamlNode.content
  childFlag secret n i := n.childFlag secret i

/-- The node at a position. -/
abbrev YamlNode.at? (n : YamlNode) (p : List Nat) : Option YamlNode :=
  nodeAt? YamlNode.content n p

/-- How `expandEnv` comes to the node at a position: with the flag of a secret
or without; none if it does not. -/
abbrev YamlNode.visit (secret : Bool) (n : YamlNode) (p : List Nat) : Option Bool :=
  YamlNode.walk.visit secret n p

theorem expandAll_getElem {env : Text → Option Text} {secret lit : Bool}
    {ns ns' : List YamlNode} {i : Nat} {c : YamlNode}
    (h : expandAll env secret ns = .ok (ns', lit)) (hc : ns[i]? = some c) :
    ∃ c' l, expandEnv env secret c = .ok (c', l) ∧ ns'[i]? = some c' ∧ (l = true → lit = true) := by
  induction ns generalizing ns' lit i with
  | nil => simp at hc
  | cons n ns ih =>
      rw [expandAll] at h
      cases hn : expandEnv env secret n with
      | error e =>
          rw [hn] at h
          contradiction
      | ok r =>
          cases hrest : expandAll env secret ns with
          | error e =>
              rw [hn, hrest] at h
              contradiction
          | ok rest =>
              rw [hn, hrest] at h
              cases h
              cases i with
              | zero =>
                  cases hc
                  exact ⟨r.1, r.2, hn, rfl, fun hl => by simp [hl]⟩
              | succ i =>
                  obtain ⟨c', l, hexpand, hget, hlit⟩ := ih hrest hc
                  exact ⟨c', l, hexpand, hget, fun hl => by simp [hlit hl]⟩

theorem expandValues_getElem {env : Text → Option Text} {lit : Bool} {ns ns' : List YamlNode}
    {i : Nat} {key c : YamlNode} (h : expandValues env ns = .ok (ns', lit))
    (hodd : i % 2 = 1) (hkey : ns[i - 1]? = some key) (hc : ns[i]? = some c) :
    ∃ c' l, expandEnv env (isSecretKey key.value) c = .ok (c', l) ∧ ns'[i]? = some c' ∧
      (l = true → lit = true) := by
  induction ns using List.twoStepInduction generalizing ns' lit i with
  | nil => simp at hc
  | singleton n =>
      have hi : i = 0 := by
        have hlt := (List.getElem?_eq_some_iff.mp hc).1
        simpa using hlt
      omega
  | cons_cons k n ns ih _ =>
      rw [expandValues] at h
      cases hn : expandEnv env (isSecretKey k.value) n with
      | error e =>
          rw [hn] at h
          contradiction
      | ok r =>
          cases hrest : expandValues env ns with
          | error e =>
              rw [hn, hrest] at h
              contradiction
          | ok rest =>
              rw [hn, hrest] at h
              cases h
              by_cases hone : i = 1
              · subst hone
                cases hkey
                cases hc
                exact ⟨r.1, r.2, hn, rfl, fun hl => by simp [hl]⟩
              · obtain ⟨j, rfl⟩ : ∃ j, i = j + 3 := ⟨i - 3, by omega⟩
                obtain ⟨c', l, hexpand, hget, hlit⟩ :=
                  ih hrest (i := j + 1) (by omega) (by simpa using hkey) (by simpa using hc)
                exact ⟨c', l, hexpand, by simpa using hget, fun hl => by simp [hlit hl]⟩

theorem map_eq_ok {ε α β : Type} {x : Except ε α} {f : α → β} {b : β} (h : x.map f = .ok b) :
    ∃ a, x = .ok a ∧ f a = b := by
  cases x with
  | error e => contradiction
  | ok a => exact ⟨a, rfl, Except.ok.inj h⟩

/-- What `expandEnv` makes of a node, it makes of the nodes it visits below. -/
theorem expandEnv_rebuilds (env : Text → Option Text) :
    YamlNode.walk.Rebuilds fun secret n n' lit => expandEnv env secret n = .ok (n', lit) := by
  intro secret n n' lit i flag c h hflag hc
  cases n with
  | documentNode ns =>
      obtain ⟨r, hall, hr⟩ := map_eq_ok h
      cases hr
      cases hflag
      exact expandAll_getElem hall hc
  | sequenceNode ns =>
      obtain ⟨r, hall, hr⟩ := map_eq_ok h
      cases hr
      cases hflag
      exact expandAll_getElem hall hc
  | mappingNode ns =>
      obtain ⟨r, hall, hr⟩ := map_eq_ok h
      cases hr
      have hkeyed : (if i % 2 = 1 then (ns[i - 1]?).map fun key => isSecretKey key.value
          else none) = some flag := hflag
      split_ifs at hkeyed with hodd
      obtain ⟨key, hkey, hsecret⟩ := Option.map_eq_some_iff.mp hkeyed
      subst hsecret
      exact expandValues_getElem hall hodd hkey hc
  | scalarNode tag value line => contradiction
  | aliasNode value target => contradiction

/-- **What the walk visits**, it expands where it stands. -/
theorem expandEnv_at {env : Text → Option Text} {secret lit flag : Bool} {n n' c : YamlNode}
    {p : List Nat} (h : expandEnv env secret n = .ok (n', lit))
    (hvisit : n.visit secret p = some flag) (hc : n.at? p = some c) :
    ∃ c' l, expandEnv env flag c = .ok (c', l) ∧ n'.at? p = some c' ∧ (l = true → lit = true) :=
  (expandEnv_rebuilds env).nodeAt?_of_visit h hvisit hc

/-- A scalar the walk visits has its references replaced; a literal one under a
secret key sets the verdict. -/
theorem expandEnv_scalar {env : Text → Option Text} {secret lit flag : Bool} {n n' : YamlNode}
    {p : List Nat} {tag value : Text} {line : Nat} (h : expandEnv env secret n = .ok (n', lit))
    (hvisit : n.visit secret p = some flag) (hc : n.at? p = some (.scalarNode tag value line)) :
    ∃ s, replaceRefs env 0 value = .ok s ∧ n'.at? p = some (.scalarNode tag s line) ∧
      (flag = true → value ≠ [] → isRefOnly value = false → lit = true) := by
  obtain ⟨c', l, hexpand, hget, hlit⟩ := expandEnv_at h hvisit hc
  rw [expandEnv] at hexpand
  cases hreplace : replaceRefs env 0 value with
  | error name =>
      rw [hreplace] at hexpand
      contradiction
  | ok s =>
      rw [hreplace] at hexpand
      cases hexpand
      exact ⟨s, rfl, hget, fun hflag hne href => hlit (by simp [hflag, hne, href])⟩

/-! ## the verdict -/

/-- A scalar that is neither empty nor a bare reference. -/
def YamlNode.IsLiteral : YamlNode → Prop
  | .documentNode _ => False
  | .sequenceNode _ => False
  | .mappingNode _ => False
  | .scalarNode _ value _ => value ≠ [] ∧ isRefOnly value = false
  | .aliasNode _ _ => False

/-- Some secret the walk visits is a literal. -/
def YamlNode.HasLiteralSecret : Bool → YamlNode → Prop :=
  YamlNode.walk.Meets fun flag n => flag = true ∧ n.IsLiteral

section Verdict

variable {env : Text → Option Text}

mutual

theorem hasLiteralSecret_of_literal {secret : Bool} : (n : YamlNode) → {n' : YamlNode} →
    expandEnv env secret n = .ok (n', true) → n.HasLiteralSecret secret
  | .documentNode ns, _, h => by
      obtain ⟨r, hall, hr⟩ := map_eq_ok h
      have hlit : expandAll env secret ns = .ok (r.1, true) := by rw [hall, ← (Prod.mk.inj hr).2]
      obtain ⟨i, c, hc, hliteral⟩ := exists_of_literal_all ns hlit
      exact hliteral.of_child rfl hc
  | .sequenceNode ns, _, h => by
      obtain ⟨r, hall, hr⟩ := map_eq_ok h
      have hlit : expandAll env secret ns = .ok (r.1, true) := by rw [hall, ← (Prod.mk.inj hr).2]
      obtain ⟨i, c, hc, hliteral⟩ := exists_of_literal_all ns hlit
      exact hliteral.of_child rfl hc
  | .mappingNode ns, _, h => by
      obtain ⟨r, hall, hr⟩ := map_eq_ok h
      have hlit : expandValues env ns = .ok (r.1, true) := by rw [hall, ← (Prod.mk.inj hr).2]
      obtain ⟨i, key, c, hodd, hkey, hc, hliteral⟩ := exists_of_literal_values ns hlit
      have hflag : YamlNode.walk.childFlag secret (.mappingNode ns) i =
          some (isSecretKey key.value) := by
        simp [YamlNode.walk, YamlNode.childFlag, hodd, hkey]
      exact hliteral.of_child hflag hc
  | .scalarNode tag value line, _, h => by
      rw [expandEnv] at h
      cases hreplace : replaceRefs env 0 value with
      | error name =>
          rw [hreplace] at h
          contradiction
      | ok s =>
          rw [hreplace] at h
          have hlit := (Prod.mk.inj (Except.ok.inj h)).2
          simp only [Bool.and_eq_true, decide_eq_true_eq, Bool.not_eq_true'] at hlit
          obtain ⟨⟨hsecret, hne⟩, href⟩ := hlit
          exact TreeWalk.Meets.of_self ⟨hsecret, hne, href⟩
  | .aliasNode value target, _, h => by
      have hlit := (Prod.mk.inj (Except.ok.inj h)).2
      contradiction

theorem exists_of_literal_all {secret : Bool} : (ns : List YamlNode) → {ns' : List YamlNode} →
    expandAll env secret ns = .ok (ns', true) →
      ∃ (i : Nat) (c : YamlNode), ns[i]? = some c ∧ c.HasLiteralSecret secret
  | [], _, h => by
      have hlit := (Prod.mk.inj (Except.ok.inj h)).2
      contradiction
  | n :: ns, _, h => by
      rw [expandAll] at h
      cases hn : expandEnv env secret n with
      | error e =>
          rw [hn] at h
          contradiction
      | ok r =>
          obtain ⟨n', l⟩ := r
          rw [hn] at h
          obtain ⟨rest, hrest, heq⟩ := map_eq_ok h
          have hor := (Prod.mk.inj heq).2
          cases l with
          | true => exact ⟨0, n, rfl, hasLiteralSecret_of_literal n hn⟩
          | false =>
              have hlit : expandAll env secret ns = .ok (rest.1, true) := by
                rw [hrest, ← hor]
                rfl
              obtain ⟨i, c, hc, hliteral⟩ := exists_of_literal_all ns hlit
              exact ⟨i + 1, c, hc, hliteral⟩

theorem exists_of_literal_values : (ns : List YamlNode) → {ns' : List YamlNode} →
    expandValues env ns = .ok (ns', true) →
      ∃ (i : Nat) (key c : YamlNode), i % 2 = 1 ∧ ns[i - 1]? = some key ∧ ns[i]? = some c ∧
        c.HasLiteralSecret (isSecretKey key.value)
  | [], _, h => by
      have hlit := (Prod.mk.inj (Except.ok.inj h)).2
      contradiction
  | [_], _, h => by
      have hlit := (Prod.mk.inj (Except.ok.inj h)).2
      contradiction
  | key :: n :: ns, _, h => by
      rw [expandValues] at h
      cases hn : expandEnv env (isSecretKey key.value) n with
      | error e =>
          rw [hn] at h
          contradiction
      | ok r =>
          obtain ⟨n', l⟩ := r
          rw [hn] at h
          obtain ⟨rest, hrest, heq⟩ := map_eq_ok h
          have hor := (Prod.mk.inj heq).2
          cases l with
          | true => exact ⟨1, key, n, rfl, rfl, rfl, hasLiteralSecret_of_literal n hn⟩
          | false =>
              have hlit : expandValues env ns = .ok (rest.1, true) := by
                rw [hrest, ← hor]
                rfl
              obtain ⟨i, key', c, hodd, hkey, hc, hliteral⟩ := exists_of_literal_values ns hlit
              have hshift : i + 2 - 1 = (i - 1) + 2 := by omega
              exact ⟨i + 2, key', c, by omega, by simpa [hshift] using hkey, hc, hliteral⟩

end

/-- **The verdict** is that some secret the walk visits is a literal. -/
theorem expandEnv_literal_iff {secret lit : Bool} {n n' : YamlNode}
    (h : expandEnv env secret n = .ok (n', lit)) : lit = true ↔ n.HasLiteralSecret secret := by
  constructor
  · intro hlit
    exact hasLiteralSecret_of_literal n (hlit ▸ h)
  · intro hliteral
    obtain ⟨p, flag, c, hvisit, hc, hflag, hc'⟩ := hliteral
    cases c with
    | scalarNode tag value line =>
        obtain ⟨-, -, -, hlit⟩ := expandEnv_scalar h hvisit hc
        exact hlit hflag hc'.1 hc'.2
    | documentNode ns => exact hc'.elim
    | sequenceNode ns => exact hc'.elim
    | mappingNode ns => exact hc'.elim
    | aliasNode value target => exact hc'.elim

end Verdict

end Cuttlefish
