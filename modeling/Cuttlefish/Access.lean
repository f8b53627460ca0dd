import Cuttlefish.GoPath
import Cuttlefish.Identity
import Mathlib.Data.Char
import Mathlib.Data.List.Infix
import Mathlib.Data.List.Lex

/-!
# Cuttlefish.Access

Roles and path access (`fs_api`): the role a session's groups give, the
grants that apply to a restricted user, and the prefix test every path
endpoint makes.

Texts come from `TEXT` columns and the configuration, paths from requests:
`allows` compares the bytes of both.  Unicode lower-casing is a parameter.
-/

namespace Cuttlefish

/-! ## configuration -/

/-- How users sign in. -/
inductive Mode where
  | localAccount
  | oidc
  deriving DecidableEq, Repr

/-- The `auth.oidc` section, as far as sessions and roles read it. -/
structure OIDCConfig where
  issuer : Text := []
  allowedUsers : List Text := []
  allowedDomains : List Text := []
  groupsClaim : Text := []
  usernameClaim : Text := []
  adminGroups : List Text := []
  viewerGroups : List Text := []
  recheckInterval : Int := 0
  deriving DecidableEq, Repr

/-- The `auth` section. -/
structure AuthConfig where
  localUsername : Text := []
  localPassword : Text := []
  oidc : OIDCConfig := {}
  deriving DecidableEq, Repr

def AuthConfig.mode (config : AuthConfig) : Mode :=
  if config.oidc.issuer ≠ [] then .oidc else .localAccount

/-! ## roles -/

inductive Role where
  | admin
  | viewer
  | restricted
  deriving DecidableEq, Repr

/-- The role a session's groups give.  In local mode there is one account,
and it has no groups to map. -/
def roleFor (config : AuthConfig) (groups : List Text) : Role :=
  if config.mode = .localAccount then .admin
  else if groups.any fun g => g ∈ config.oidc.adminGroups then .admin
  else if groups.any fun g => g ∈ config.oidc.viewerGroups then .viewer
  else .restricted

/-- What a request may see; `unixUser` is set for restricted users only. -/
structure Access where
  user : Text
  role : Role
  prefixes : List Text := []
  unixUser : Text := []
  deriving DecidableEq, Repr

/-- Is `p` inside one of a restricted user's prefixes?  Non-canonical paths
are refused outright. -/
def Access.allows (a : Access) (p : Bytes) : Bool :=
  if a.role ≠ .restricted then true
  else if ¬ [slash] <+: p ∨ clean p ≠ p then false
  else a.prefixes.any fun pre =>
    utf8 pre = [slash] ∨ p = utf8 pre ∨ utf8 pre ++ [slash] <+: p

/-! ## identity mapping -/

/-- Rewrites an IdP identity's suffix into a Unix username's. -/
structure IdentityRule where
  matchSuffix : Text
  replaceWith : Text
  deriving DecidableEq, Repr

/-- The best rule so far, with its lowered suffix, against the next one. -/
def betterRule (lower : Text → Text) (id : Text) (best : Option (IdentityRule × Text))
    (r : IdentityRule) : Option (IdentityRule × Text) :=
  let s := lower r.matchSuffix
  if s <:+ id then
    match best with
    | none => some (r, s)
    | some (_, bestSuffix) =>
        if (utf8 bestSuffix).length < (utf8 s).length then some (r, s) else best
  else best

/-- The Unix username an IdP identity corresponds to: the longest matching
suffix is replaced, and with no matching rule the `@domain` is dropped. -/
def mapIdentity (lower : Text → Text) (identity : Text) (rules : List IdentityRule) : Text :=
  let id := lower identity
  match rules.foldl (betterRule lower id) none with
  | none => id.takeWhile (· ≠ '@')
  | some (r, s) => id.take (id.length - s.length) ++ lower r.replaceWith

/-! ## grants -/

/-- The two kinds of groups a grant names; `idp` sorts first. -/
inductive GroupType where
  | idp
  | unix
  deriving DecidableEq, Repr

/-- A row of `access_grants`. -/
structure Grant where
  groupType : GroupType
  groupName : Text
  pathPrefix : Text
  deriving DecidableEq, Repr

/-- An access grant that applies to a user, with `{user}` filled in; `path`
is empty if that cannot be done safely. -/
structure MatchedGrant where
  groupType : GroupType
  groupName : Text
  pathPrefix : Text
  path : Text
  deriving DecidableEq, Repr

/-- The `access_grants` group name that matches every user. -/
def grantEveryone : Text := ['*']

/-- The placeholder `{user}`. -/
def userPlaceholder : Text := ['\x7b', 'u', 's', 'e', 'r', '\x7d']

/-- A mapped name usable as one path segment. -/
def grantUser (name : Text) : Option Text :=
  if name = [] ∨ name = ['.'] ∨ name = ['.', '.'] ∨ '/' ∈ name ∨ '\x00' ∈ name then none
  else some name

/-- `strings.ReplaceAll` for a non-empty `old`; `skip` characters still
belong to the last match. -/
def replaceAll (old new : Text) : Nat → Text → Text
  | _, [] => []
  | skip + 1, _ :: s => replaceAll old new skip s
  | 0, c :: s =>
      if old <+: c :: s then new ++ replaceAll old new (old.length - 1) s
      else c :: replaceAll old new 0 s

/-- A grant with `{user}` filled in. -/
def fillGrant (unixUser : Text) (g : Grant) : MatchedGrant where
  groupType := g.groupType
  groupName := g.groupName
  pathPrefix := g.pathPrefix
  path :=
    if userPlaceholder <:+: g.pathPrefix then
      match grantUser unixUser with
      | some name => replaceAll userPlaceholder name 0 g.pathPrefix
      | none => []
    else g.pathPrefix

/-- The sub-select over `identity_membership` and `identity_map`: the names
of the groups of every user recorded under the name `unixUser`. -/
def unixGroups (identity : IdentityTables) (unixUser : Text) : List Text :=
  identity.identityMembership.rows.flatMap fun m =>
    (identity.identityMap.rows.filter fun u =>
        u.id = m.uid ∧ u.idType = .uid ∧ u.name = unixUser).flatMap fun _ =>
      (identity.identityMap.rows.filter fun g => g.id = m.gid ∧ g.idType = .gid).map (·.name)

/-- The `WHERE` clause of the grant query. -/
def grantMatches (identity : IdentityTables) (groups : List Text) (unixUser : Text)
    (g : Grant) : Bool :=
  match g.groupType with
  | .idp => g.groupName ∈ groups ∨ g.groupName = grantEveryone
  | .unix => g.groupName ∈ unixGroups identity unixUser

/-- `ORDER BY path_prefix, group_type, group_name`. -/
def Grant.sortKey (g : Grant) : List Text :=
  [g.pathPrefix, match g.groupType with | .idp => ['i'] | .unix => ['u'], g.groupName]

/-- The grants that apply to a user with IdP groups `groups` and Unix name
`unixUser`. -/
def matchingGrants (grants : List Grant) (identity : IdentityTables) (groups : List Text)
    (unixUser : Text) : List MatchedGrant :=
  ((grants.filter (grantMatches identity groups unixUser)).insertionSort
    fun a b => a.sortKey ≤ b.sortKey).map (fillGrant unixUser)

/-- The access of a user: roles above restricted need no grants, and a grant
whose `{user}` cannot be filled is skipped. -/
def resolveAccess (config : AuthConfig) (lower : Text → Text) (rules : List IdentityRule)
    (grants : List Grant) (identity : IdentityTables) (user : Text) (groups : List Text) :
    Access :=
  if roleFor config groups ≠ .restricted then ⟨user, roleFor config groups, [], []⟩
  else
    let unixUser := mapIdentity lower user rules
    let paths := ((matchingGrants grants identity groups unixUser).map (·.path)).filter (· ≠ [])
    ⟨user, .restricted, (paths.insertionSort (· ≤ ·)).destutter (· ≠ ·), unixUser⟩

/-! ## what the grants depend on -/

theorem mem_unixGroups {identity : IdentityTables} {unixUser G : Text} :
    G ∈ unixGroups identity unixUser ↔
      ∃ m ∈ identity.identityMembership,
        ⟨m.uid, .uid, unixUser⟩ ∈ identity.identityMap ∧
          ⟨m.gid, .gid, G⟩ ∈ identity.identityMap := by
  simp only [unixGroups, List.mem_flatMap, List.mem_filter, List.mem_map, decide_eq_true_eq]
  constructor
  · rintro ⟨m, hm, u, ⟨hu, hid, htype, hname⟩, g, ⟨hg, hgid, hgtype⟩, rfl⟩
    refine ⟨m, hm, ?_, ?_⟩
    · rwa [← hid, ← htype, ← hname]
    · rwa [← hgid, ← hgtype]
  · rintro ⟨m, hm, hu, hg⟩
    exact ⟨m, hm, _, ⟨hu, rfl, rfl, rfl⟩, _, ⟨hg, rfl, rfl⟩, rfl⟩

/-- **Unix-group grants are a join**: one is returned exactly when it is
stored and the tables connect the user's name to the group's. -/
theorem exists_unix_matchingGrants {grants : List Grant} {identity : IdentityTables}
    {groups : List Text} {unixUser G : Text} :
    (∃ g ∈ matchingGrants grants identity groups unixUser,
        g.groupType = .unix ∧ g.groupName = G) ↔
      (∃ g ∈ grants, g.groupType = .unix ∧ g.groupName = G) ∧
        G ∈ unixGroups identity unixUser := by
  simp only [matchingGrants, List.mem_map, List.mem_insertionSort, List.mem_filter]
  constructor
  · rintro ⟨_, ⟨g, ⟨hg, hm⟩, rfl⟩, htype, rfl⟩
    simp only [fillGrant] at htype ⊢
    refine ⟨⟨g, hg, htype, rfl⟩, ?_⟩
    simpa [grantMatches, htype] using hm
  · rintro ⟨⟨g, hg, htype, rfl⟩, hmem⟩
    exact ⟨_, ⟨g, ⟨hg, by simpa [grantMatches, htype] using hmem⟩, rfl⟩, htype, rfl⟩

/-! ## the prefix test -/

theorem Access.allows_eq_true {a : Access} {p : Bytes} (hrole : a.role = .restricted)
    (h : a.allows p = true) : Canonical p := by
  by_contra hp
  have hrefused : ¬ [slash] <+: p ∨ clean p ≠ p := by
    rw [Canonical, not_and_or] at hp
    exact hp
  rw [Access.allows, if_neg (by simp [hrole]), if_pos hrefused] at h
  contradiction

/-- The prefix test of the path endpoints is coverage, as the indexer
defines it for scan roots. -/
theorem allows_iff_coveredBy {a : Access} (hrole : a.role = .restricted) {p : Bytes}
    (hp : Canonical p) : a.allows p = true ↔ CoveredBy (a.prefixes.map utf8) p := by
  have habs : ¬ (¬ [slash] <+: p ∨ clean p ≠ p) := by simp [hp.1, hp.2]
  rw [Access.allows, if_neg (by simp [hrole]), if_neg habs, List.any_eq_true]
  simp only [CoveredBy, List.mem_map, exists_exists_and_eq_and, decide_eq_true_eq]
  refine exists_congr fun pre => and_congr_right fun _ => ?_
  by_cases hroot : utf8 pre = [slash]
  · simp [scanRootCovers, scanRootPrefix, hroot, hp.1]
  · simp [scanRootCovers, scanRootPrefix, hroot]

end Cuttlefish
