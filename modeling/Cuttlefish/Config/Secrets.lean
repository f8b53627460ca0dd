import Cuttlefish.Config.Filled

/-!
# Cuttlefish.Config.Secrets

When the configuration is loaded whatever the permissions of its file: both
loaders skip the check if the walk found no literal secret.  Then the file
should contribute no secret, which is to say that the variables of the
environment supply them all.

The decoders are parameters.  They tell from which scalar of the document a
field takes its value, aliases and merges followed, and what text it shows.

* `loaded_unchecked_iff` — the file contributes no secret when the walk misses
  none (`SeesSecrets`), and what it takes where it does, for `fs_api` and for
  `fs_common`.
* `literal_secret_loaded` — an aliased secret and a reference that overruns,
  both loaded without the check.
-/

namespace Cuttlefish

/-! ## loading -/

/-- Why a configuration is not loaded. -/
inductive LoadError (ε : Type) where
  | reference (e : ε)
  | unreadable
  | permissions (mode : Nat)

/-- `checkConfigPermissions`: nobody but the owner may write, nobody but the
owner and the group may read. -/
def checkConfigPermissions {ε : Type} (stat : Option Nat) : Except (LoadError ε) Unit :=
  match stat with
  | none => .error .unreadable
  | some mode =>
      if mode &&& 0o777 &&& 0o027 ≠ 0 then .error (.permissions (mode &&& 0o777)) else .ok ()

/-- With every secret supplied by the environment, the permissions of the file
do not matter. -/
def loadExpanded {ε τ : Type} (expanded : Except ε (τ × Bool)) (stat : Option Nat) :
    Except (LoadError ε) τ :=
  match expanded with
  | .error e => .error (.reference e)
  | .ok (root, literalSecret) =>
      if literalSecret then (checkConfigPermissions stat).map fun _ => root else .ok root

/-- `loadConfig` of `fs_api`, from the parsed document to the one it decodes. -/
def YamlNode.loadConfig (env : Text → Option Text) (stat : Option Nat) (root : YamlNode) :
    Except (LoadError Unset) YamlNode :=
  loadExpanded (expandEnv env false root) stat

/-- `load_config` of `fs_common`, from the parsed value to the one it decodes. -/
def YamlValue.loadConfig (asStr : YamlValue → Option Text) (env : Text → Option Text)
    (stat : Option Nat) (value : YamlValue) : Except (LoadError Text) YamlValue :=
  loadExpanded (value.expandEnv asStr env false) stat

/-- A file that cannot be looked at is rejected. -/
theorem checkConfigPermissions_none {ε : Type} :
    (checkConfigPermissions none : Except (LoadError ε) Unit) ≠ .ok () := by
  simp [checkConfigPermissions]

/-- A file the check rejects is loaded when the check is skipped. -/
theorem loadExpanded_rejected {ε τ : Type} {expanded : Except ε (τ × Bool)} {stat : Option Nat}
    {root : τ} (hstat : (checkConfigPermissions stat : Except (LoadError ε) Unit) ≠ .ok ()) :
    loadExpanded expanded stat = .ok root ↔ expanded = .ok (root, false) := by
  cases expanded with
  | error e => simp [loadExpanded]
  | ok r =>
      obtain ⟨root₁, lit⟩ := r
      cases lit with
      | false => simp [loadExpanded]
      | true =>
          cases hcheck : (checkConfigPermissions stat : Except (LoadError ε) Unit) with
          | error e => simp [loadExpanded, hcheck, Except.map]
          | ok u => exact absurd hcheck hstat

/-! ## what is decoded -/

/-- The fields of the configuration under the key of a secret. -/
inductive SecretField where
  | databasePassword
  | sessionSecret
  | localPassword
  | clientSecret
  deriving DecidableEq, Repr

/-- The keys that lead to a field. -/
def SecretField.path : SecretField → List Text
  | .databasePassword => ["database".toList, "password".toList]
  | .sessionSecret => ["auth".toList, "session_secret".toList]
  | .localPassword => ["auth".toList, "local".toList, "password".toList]
  | .clientSecret => ["auth".toList, "oidc".toList, "client_secret".toList]

/-- `yaml.v3` as `loadConfig` uses it. -/
structure YamlDecoder where
  /-- The string a scalar is decoded to, by its tag and its value. -/
  text : Text → Text → Text
  text_nil : ∀ tag, text tag [] = []
  /-- Where the scalar stands that a field is decoded from. -/
  source : YamlNode → SecretField → Option (List Nat)

/-- What a field shows that is decoded from the node at a position. -/
def YamlDecoder.textAt (lib : YamlDecoder) (root : YamlNode) (p : List Nat) : Text :=
  match root.at? p with
  | some (.scalarNode tag value _) => lib.text tag value
  | _ => []

/-- `serde_yaml` as `load_config` uses it; the one secret of its configuration
is the password of the database. -/
structure SerdeYaml where
  asStr : YamlValue → Option Text
  source : YamlValue → Option (List Nat)

def YamlValue.textAt (v : YamlValue) (p : List Nat) : Text :=
  match v.at? p with
  | some (.string s) => s
  | _ => []

/-! ## `fs_api` -/

section Api

variable (lib : YamlDecoder) (env : Text → Option Text)

/-- The scalar at a position is a bare reference. -/
def YamlNode.IsReferenceAt (root : YamlNode) (p : List Nat) : Prop :=
  ∃ tag name line, isVarName name = true ∧
    root.at? p = some (.scalarNode tag (refText name) line)

/-- What was a bare reference is now the value of its variable. -/
def YamlNode.FromReference (root root' : YamlNode) (p : List Nat) : Prop :=
  root.visit false p ≠ none ∧ ∃ tag name line v, isVarName name = true ∧
    root.at? p = some (.scalarNode tag (refText name) line) ∧ env name = some v ∧
    root'.at? p = some (.scalarNode tag v line)

/-- A configuration that `loadConfig` loads without checking the permissions of
its file has every secret from the environment. -/
def YamlNode.SecretsFromEnv (root : YamlNode) : Prop :=
  ∀ stat root', (checkConfigPermissions stat : Except (LoadError Unset) Unit) ≠ .ok () →
    root.loadConfig env stat = .ok root' →
    ∀ f p, lib.source root' f = some p → lib.textAt root' p ≠ [] →
      root.FromReference env root' p

/-- The walk misses a secret: a field that is not empty is decoded from a scalar
that it does not visit as one. -/
def YamlNode.Misses (root : YamlNode) (p : List Nat) : Prop :=
  (∃ f, lib.source (root.fill env) f = some p) ∧ lib.textAt (root.fill env) p ≠ [] ∧
    root.visit false p ≠ some true

/-- The walk visits as a secret whatever is decoded as one. -/
def YamlNode.SeesSecrets (root : YamlNode) : Prop := ∀ p, ¬ root.Misses lib env p

/-- What it misses are bare references, which it visits as something else. -/
def YamlNode.MissesReferences (root : YamlNode) : Prop :=
  ∀ p, root.Misses lib env p → root.visit false p ≠ none ∧ root.IsReferenceAt p

end Api

section Api

variable {lib : YamlDecoder} {env : Text → Option Text} {root root' : YamlNode} {p : List Nat}

/-- A bare reference the walk visits gives way to the value of its variable. -/
theorem YamlNode.IsReferenceAt.fromReference {lit : Bool} (h : root.IsReferenceAt p)
    (hvisit : root.visit false p ≠ none) (hexpand : expandEnv env false root = .ok (root', lit)) :
    root.FromReference env root' p := by
  obtain ⟨tag, name, line, hname, hat⟩ := h
  obtain ⟨flag, hflag⟩ := Option.ne_none_iff_exists'.mp hvisit
  obtain ⟨s, hreplace, hat', -⟩ := expandEnv_scalar hexpand hflag hat
  exact ⟨hvisit, tag, name, line, s, hname, hat, replaceRefs_refText hname hreplace, hat'⟩

/-- Where the walk visits a secret and finds nothing literal, only a bare
reference shows a text. -/
theorem YamlNode.isReferenceAt_of_secret
    (hexpand : expandEnv env false root = .ok (root', false))
    (hvisit : root.visit false p = some true) (htext : lib.textAt root' p ≠ []) :
    root.IsReferenceAt p := by
  obtain ⟨c, hc⟩ := TreeWalk.nodeAt?_of_visit hvisit
  obtain ⟨c', l, hc', hat', -⟩ := expandEnv_at hexpand hvisit hc
  rw [YamlDecoder.textAt, hat'] at htext
  cases c with
  | documentNode ns =>
      obtain ⟨r, -, hr⟩ := map_eq_ok hc'
      cases hr
      exact absurd rfl htext
  | sequenceNode ns =>
      obtain ⟨r, -, hr⟩ := map_eq_ok hc'
      cases hr
      exact absurd rfl htext
  | mappingNode ns =>
      obtain ⟨r, -, hr⟩ := map_eq_ok hc'
      cases hr
      exact absurd rfl htext
  | aliasNode value target =>
      cases hc'
      exact absurd rfl htext
  | scalarNode tag value line =>
      obtain ⟨s, hreplace, hat, hliteral⟩ := expandEnv_scalar hexpand hvisit hc
      have heq : c' = .scalarNode tag s line := Option.some.inj (hat'.symm.trans hat)
      subst heq
      have hvalue : value ≠ [] := by
        intro hnil
        rw [hnil, replaceRefs] at hreplace
        cases hreplace
        exact htext (lib.text_nil tag)
      have href : isRefOnly value = true := by
        cases hvalueRef : isRefOnly value with
        | true => rfl
        | false => exact absurd (hliteral rfl hvalue hvalueRef) (by simp)
      obtain ⟨name, hname, hshape⟩ := isRefOnly_iff.mp href
      exact ⟨tag, name, line, hname, hshape ▸ hc⟩

/-- **`fs_api`** spells no secret itself exactly if it loads nothing, checks the
file, or misses references only. -/
theorem YamlNode.secretsFromEnv_iff :
    root.SecretsFromEnv lib env ↔
      root.HasUnset env false ∨ root.HasLiteralSecret false ∨ root.MissesReferences lib env := by
  constructor
  · intro h
    obtain ⟨-, hunset⟩ | ⟨lit, hexpand⟩ :
        _ ∨ ∃ lit, expandEnv env false root = .ok (root.fill env, lit) :=
      YamlNode.expandEnv_cases root
    · exact Or.inl hunset
    by_cases hliteral : root.HasLiteralSecret false
    · exact Or.inr (Or.inl hliteral)
    · have hlit : lit = false :=
        Bool.eq_false_iff.mpr fun hlit => hliteral ((expandEnv_literal_iff hexpand).mp hlit)
      subst hlit
      refine Or.inr (Or.inr fun p hmisses => ?_)
      obtain ⟨⟨f, hsource⟩, htext, -⟩ := hmisses
      obtain ⟨hvisit, tag, name, line, -, hname, hat, -, -⟩ :=
        h none _ checkConfigPermissions_none
          ((loadExpanded_rejected checkConfigPermissions_none).mpr hexpand) f p hsource htext
      exact ⟨hvisit, tag, name, line, hname, hat⟩
  · intro h stat root' hstat hload f p hsource htext
    have hexpand := (loadExpanded_rejected hstat).mp hload
    rcases h with hunset | hliteral | hmissed
    · exact absurd hunset (YamlNode.not_hasUnset hexpand)
    · have hlit := (expandEnv_literal_iff hexpand).mpr hliteral
      contradiction
    · by_cases hsecret : root.visit false p = some true
      · have hne : root.visit false p ≠ none := by simp [hsecret]
        exact (isReferenceAt_of_secret hexpand hsecret htext).fromReference hne hexpand
      · have hfill := YamlNode.eq_fill hexpand
        obtain ⟨hvisit, href⟩ := hmissed p ⟨⟨f, hfill ▸ hsource⟩, hfill ▸ htext, hsecret⟩
        exact href.fromReference hvisit hexpand

end Api

/-! ## `fs_common` -/

section Common

variable (serde : SerdeYaml) (env : Text → Option Text)

/-- The string at a position is a bare reference. -/
def YamlValue.IsReferenceAt (v : YamlValue) (p : List Nat) : Prop :=
  ∃ name, isVarName name = true ∧ v.at? p = some (.string (refText name))

/-- What was a bare reference is now the value of its variable. -/
def YamlValue.FromReference (v v' : YamlValue) (p : List Nat) : Prop :=
  v.visit serde.asStr false p ≠ none ∧ ∃ name s, isVarName name = true ∧
    v.at? p = some (.string (refText name)) ∧ env name = some s ∧ v'.at? p = some (.string s)

/-- The same of `load_config`. -/
def YamlValue.SecretsFromEnv (v : YamlValue) : Prop :=
  ∀ stat v', (checkConfigPermissions stat : Except (LoadError Text) Unit) ≠ .ok () →
    v.loadConfig serde.asStr env stat = .ok v' →
    ∀ p, serde.source v' = some p → v'.textAt p ≠ [] → v.FromReference serde env v' p

/-- The walk visits a secret, and takes its text for what it is. -/
def YamlValue.Sees (v : YamlValue) (p : List Nat) : Prop :=
  v.visit serde.asStr false p = some true ∧
    ∀ s, v.at? p = some (.string s) → ¬ Overreads env s

/-- The walk misses a password that is not empty. -/
def YamlValue.Misses (v : YamlValue) (p : List Nat) : Prop :=
  serde.source (v.fill env) = some p ∧ (v.fill env).textAt p ≠ [] ∧ ¬ v.Sees serde env p

def YamlValue.SeesSecrets (v : YamlValue) : Prop := ∀ p, ¬ v.Misses serde env p

def YamlValue.MissesReferences (v : YamlValue) : Prop :=
  ∀ p, v.Misses serde env p → v.visit serde.asStr false p ≠ none ∧ v.IsReferenceAt p

end Common

section Common

variable {serde : SerdeYaml} {env : Text → Option Text} {v v' : YamlValue} {p : List Nat}

/-- A bare reference the walk visits gives way to the value of its variable. -/
theorem YamlValue.IsReferenceAt.fromReference {lit : Bool} (h : v.IsReferenceAt p)
    (hvisit : v.visit serde.asStr false p ≠ none)
    (hexpand : v.expandEnv serde.asStr env false = .ok (v', lit)) :
    v.FromReference serde env v' p := by
  obtain ⟨name, hname, hat⟩ := h
  obtain ⟨flag, hflag⟩ := Option.ne_none_iff_exists'.mp hvisit
  obtain ⟨s, whole, hstr, hat', -⟩ := expandEnv_string hexpand hflag hat
  exact ⟨hvisit, name, s, hname, hat, expandEnvStr_refText hname hstr, hat'⟩

/-- Only a string becomes a string. -/
theorem YamlValue.eq_string_of_expandEnv {asStr : YamlValue → Option Text} {secret lit : Bool}
    {s' : Text} (h : v.expandEnv asStr env secret = .ok (.string s', lit)) :
    ∃ s, v = .string s := by
  cases v with
  | null => cases h
  | bool b => cases h
  | number text => cases h
  | string s => exact ⟨s, rfl⟩
  | sequence items =>
      obtain ⟨r, -, hr⟩ := map_eq_ok h
      cases hr
  | mapping map =>
      obtain ⟨r, -, hr⟩ := map_eq_ok h
      cases hr
  | tagged tag value =>
      obtain ⟨r, -, hr⟩ := map_eq_ok h
      cases hr

/-- Where the walk visits a secret and finds nothing literal, only a bare
reference shows a text, or one that overreads. -/
theorem YamlValue.isReferenceAt_of_secret
    (hexpand : v.expandEnv serde.asStr env false = .ok (v', false)) (hsees : v.Sees serde env p)
    (htext : v'.textAt p ≠ []) : v.IsReferenceAt p := by
  obtain ⟨hvisit, hover⟩ := hsees
  obtain ⟨c, hc⟩ := TreeWalk.nodeAt?_of_visit hvisit
  obtain ⟨c', l, hc', hat', -⟩ := expandEnv_at hexpand hvisit hc
  have hstring : ∃ s', c' = .string s' := by
    rw [textAt, hat'] at htext
    cases c' with
    | string s' => exact ⟨s', rfl⟩
    | null => exact absurd rfl htext
    | bool b => exact absurd rfl htext
    | number text => exact absurd rfl htext
    | sequence items => exact absurd rfl htext
    | mapping map => exact absurd rfl htext
    | tagged tag value => exact absurd rfl htext
  obtain ⟨s₁, rfl⟩ := hstring
  obtain ⟨s, rfl⟩ := eq_string_of_expandEnv hc'
  obtain ⟨s', whole, hstr, hat, hliteral⟩ := expandEnv_string hexpand hvisit hc
  rw [textAt, hat] at htext
  have hne : s ≠ [] := by
    intro hnil
    subst hnil
    cases hstr
    exact htext rfl
  have hwhole : whole = true := by
    cases whole with
    | true => rfl
    | false => exact absurd (hliteral rfl hne rfl) (by simp)
  subst hwhole
  cases (whole_iff hstr).mp rfl with
  | inl href =>
      obtain ⟨name, hname, hshape⟩ := isRefOnly_iff.mp href
      exact ⟨name, hname, hshape ▸ hc⟩
  | inr hbad => exact absurd hbad (hover s hc)

/-- **`fs_common`**: the same, where what overreads is missed too. -/
theorem YamlValue.secretsFromEnv_iff :
    v.SecretsFromEnv serde env ↔ HasUnset serde.asStr env false v ∨
      HasLiteralSecret serde.asStr env false v ∨ v.MissesReferences serde env := by
  constructor
  · intro h
    obtain ⟨-, hunset⟩ | ⟨lit, hexpand⟩ :
        _ ∨ ∃ lit, expandEnv serde.asStr env false v = .ok (v.fill env, lit) :=
      expandEnv_cases v
    · exact Or.inl hunset
    by_cases hliteral : HasLiteralSecret serde.asStr env false v
    · exact Or.inr (Or.inl hliteral)
    · have hlit : lit = false :=
        Bool.eq_false_iff.mpr fun hlit => hliteral ((expandEnv_literal_iff hexpand).mp hlit)
      subst hlit
      refine Or.inr (Or.inr fun p hmisses => ?_)
      obtain ⟨hsource, htext, -⟩ := hmisses
      obtain ⟨hvisit, name, s, hname, hat, -, -⟩ :=
        h none _ checkConfigPermissions_none
          ((loadExpanded_rejected checkConfigPermissions_none).mpr hexpand) p hsource htext
      exact ⟨hvisit, name, hname, hat⟩
  · intro h stat v' hstat hload p hsource htext
    have hexpand := (loadExpanded_rejected hstat).mp hload
    rcases h with hunset | hliteral | hmissed
    · exact absurd hunset (not_hasUnset hexpand)
    · have hlit := (expandEnv_literal_iff hexpand).mpr hliteral
      contradiction
    · by_cases hsees : v.Sees serde env p
      · have hne : v.visit serde.asStr false p ≠ none := by simp [hsees.1]
        exact (isReferenceAt_of_secret hexpand hsees htext).fromReference hne hexpand
      · have hfill := eq_fill hexpand
        obtain ⟨hvisit, href⟩ := hmissed p ⟨hfill ▸ hsource, hfill ▸ htext, hsees⟩
        exact href.fromReference hvisit hexpand

end Common

/-! ## both -/

/-- **The file contributes no secret** to a configuration loaded without the
check when the walk sees every secret there is.  When it misses one, the file
contributes none only if it names a variable that is not set, so that nothing
is loaded, if another secret is literal, so that the check is made, or if all
that is missed is a reference. -/
theorem loaded_unchecked_iff (lib : YamlDecoder) (serde : SerdeYaml) (env : Text → Option Text)
    (root : YamlNode) (v : YamlValue) :
    ((root.SeesSecrets lib env → root.SecretsFromEnv lib env) ∧
      (root.SecretsFromEnv lib env ↔ root.HasUnset env false ∨ root.HasLiteralSecret false ∨
        root.MissesReferences lib env)) ∧
    (v.SeesSecrets serde env → v.SecretsFromEnv serde env) ∧
      (v.SecretsFromEnv serde env ↔ v.HasUnset serde.asStr env false ∨
        v.HasLiteralSecret serde.asStr env false ∨ v.MissesReferences serde env) := by
  have hapi : root.SecretsFromEnv lib env ↔ _ := YamlNode.secretsFromEnv_iff
  have hcommon : v.SecretsFromEnv serde env ↔ _ := YamlValue.secretsFromEnv_iff
  refine ⟨⟨fun hsees => ?_, hapi⟩, fun hsees => ?_, hcommon⟩
  · exact hapi.mpr (Or.inr (Or.inr fun p hmisses => absurd hmisses (hsees p)))
  · exact hcommon.mpr (Or.inr (Or.inr fun p hmisses => absurd hmisses (hsees p)))

/-- What an alias points to; any other node stands for itself. -/
def YamlNode.resolve (root : YamlNode) (p : List Nat) : List Nat :=
  match root.at? p with
  | some (.aliasNode _ target) => target
  | _ => p

/-- Where the value of a key stands. -/
def YamlNode.lookup (root : YamlNode) (p : List Nat) (key : Text) : Option (List Nat) :=
  (root.at? p).bind fun n =>
    let isKey := fun i => i % 2 = 0 ∧ ((n.content[i]?).any fun k => k.value = key) = true
    ((List.range n.content.length).find? isKey).map fun i => root.resolve (p ++ [i + 1])

/-- Decoding without merges and without tags. -/
def plainDecoder : YamlDecoder where
  text _ value := value
  text_nil _ := rfl
  source root f := f.path.foldl (fun p key => p.bind fun p => root.lookup p key) (some [0])

def YamlValue.plainStr : YamlValue → Option Text
  | .string s => some s
  | .tagged _ value => value.plainStr
  | _ => none

def YamlValue.lookup (v : YamlValue) (p : List Nat) (key : Text) : Option (List Nat) :=
  (v.at? p).bind fun c =>
    match c with
    | .mapping map => (map.findIdx? fun e => e.1.plainStr = some key).map fun i => p ++ [i]
    | _ => none

/-- Decoding without tags on mappings. -/
def plainSerde : SerdeYaml where
  asStr := YamlValue.plainStr
  source v :=
    SecretField.databasePassword.path.foldl (fun p key => p.bind fun p => v.lookup p key) (some [])

/-- The variables of the two documents. -/
def sampleEnv (name : Text) : Option Text :=
  if name = "SESSION_SECRET".toList then some "0123456789abcdef0123456789abcdef".toList
  else if name = "PASSWORD".toList then some "s3cret".toList
  else none

def textNode (s : String) (line : Nat) : YamlNode := .scalarNode "!!str".toList s.toList line

/-- A document whose database password is an alias of a scalar with no secret
key:

```
shared: &shared hunter2
database:
  host: db
  user: cuttlefish
  password: *shared
  dbname: cuttlefish
  sslmode: require
auth:
  session_secret: ${SESSION_SECRET}
  local:
    username: reader
    password: ${PASSWORD}
```

The two references are parameters, to write down the expanded document too. -/
def aliasDocument (sessionSecret password : String) : YamlNode :=
  .documentNode [.mappingNode [
    textNode "shared" 1, textNode "hunter2" 1,
    textNode "database" 2, .mappingNode [
      textNode "host" 3, textNode "db" 3,
      textNode "user" 4, textNode "cuttlefish" 4,
      textNode "password" 5, .aliasNode "shared".toList [0, 1],
      textNode "dbname" 6, textNode "cuttlefish" 6,
      textNode "sslmode" 7, textNode "require" 7],
    textNode "auth" 8, .mappingNode [
      textNode "session_secret" 9, textNode sessionSecret 9,
      textNode "local" 10, .mappingNode [
        textNode "username" 11, textNode "reader" 11,
        textNode "password" 12, textNode password 12]]]]

def stringPair (key value : String) : YamlValue × YamlValue :=
  (.string key.toList, .string value.toList)

/-- A configuration with the given database password. -/
def databaseDocument (password : String) : YamlValue :=
  .mapping [(.string "database".toList, .mapping [
    stringPair "host" "db", stringPair "user" "cuttlefish", stringPair "password" password,
    stringPair "dbname" "cuttlefish", stringPair "sslmode" "require"])]

/-- A file that any user can read holds `hunter2` and is loaded: an alias hides
it from the one loader, a `${` behind it from the other. -/
theorem literal_secret_loaded :
    ¬ (aliasDocument "${SESSION_SECRET}" "${PASSWORD}").SecretsFromEnv plainDecoder sampleEnv ∧
    ¬ (databaseDocument "${PASSWORD}hunter2$\x7b").SecretsFromEnv plainSerde sampleEnv := by
  constructor
  · intro h
    have hstat :
        (checkConfigPermissions (some 0o644) : Except (LoadError Unset) Unit) ≠ .ok () := by
      intro hok
      contradiction
    let expanded := aliasDocument "0123456789abcdef0123456789abcdef" "s3cret"
    have hload : (aliasDocument "${SESSION_SECRET}" "${PASSWORD}").loadConfig sampleEnv
        (some 0o644) = .ok expanded := by rfl
    obtain ⟨-, tag, name, line, v, -, hat, -, -⟩ :=
      h (some 0o644) expanded hstat hload .databasePassword [0, 1] rfl (by decide)
    have hscalar : textNode "hunter2" 1 = .scalarNode tag (refText name) line :=
      Option.some.inj hat
    injection hscalar with _ hvalue
    cases hvalue
  · intro h
    have hstat :
        (checkConfigPermissions (some 0o644) : Except (LoadError Text) Unit) ≠ .ok () := by
      intro hok
      contradiction
    have hload : (databaseDocument "${PASSWORD}hunter2$\x7b").loadConfig plainSerde.asStr sampleEnv
        (some 0o644) = .ok (databaseDocument "s3crethunter2$\x7b") := by rfl
    obtain ⟨-, name, s, hname, hat, -, -⟩ :=
      h (some 0o644) (databaseDocument "s3crethunter2$\x7b") hstat hload [0, 2] rfl (by decide)
    have hvalue : "${PASSWORD}hunter2$\x7b".toList = refText name :=
      YamlValue.string.inj (Option.some.inj hat)
    have href := isRefOnly_iff.mpr ⟨name, hname, hvalue⟩
    revert href
    decide

end Cuttlefish
