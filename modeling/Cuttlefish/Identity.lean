import Cuttlefish.Index
import Mathlib.Data.List.Dedup

/-!
# Cuttlefish.Identity

`resolve_identities`: the name and membership tables the indexer derives
from the host's user and group databases.

`identity_membership` is rebuilt wholesale; `identity_map` only ever grows
(`ON CONFLICT DO NOTHING`).  The host is a parameter: what its databases
answer may differ from run to run.
-/

namespace Cuttlefish

/-! ## the host's databases -/

/-- A group as `getgrouplist` and `getgrgid` report it. -/
structure Group where
  gid : UInt32
  name : Bytes
  deriving DecidableEq, Repr

/-- A user as `getpwuid` reports it. -/
structure User where
  name : Bytes
  primaryGroupId : UInt32
  deriving DecidableEq, Repr

/-- What the host answers during one run. -/
structure Host where
  getUserByUid : UInt32 → Option User
  getUserGroups : Bytes → UInt32 → Option (List Group)
  getGroupByGid : UInt32 → Option Group

/-- The groups of a user, none when the lookup fails. -/
def Host.groupsOf (host : Host) (user : User) : List Group :=
  (host.getUserGroups user.name user.primaryGroupId).getD []

/-! ## the tables -/

/-- `id_type`: does an id name a user or a group? -/
inductive IdType where
  | uid
  | gid
  deriving DecidableEq, Repr

/-- A row of `identity_map`. -/
structure IdentityRow where
  id : Int
  idType : IdType
  name : Text
  deriving DecidableEq, Repr

/-- `PRIMARY KEY (id, id_type)`. -/
def IdentityRow.key (r : IdentityRow) : Int × IdType := (r.id, r.idType)

abbrev IdentityMap := Table IdentityRow.key

/-- A row of `identity_membership`, which is all key. -/
structure MembershipRow where
  uid : Int
  gid : Int
  deriving DecidableEq, Repr

abbrev IdentityMembership := Table fun r : MembershipRow => r

/-! ## resolving -/

/-- `id as u32` for an id read back from an `INTEGER` column. -/
def asU32 (id : Int) : UInt32 := (Int32.ofInt id).toUInt32

/-- `gid as i32`, as written to an `INTEGER` column. -/
def asI32 (id : UInt32) : Int := id.toInt32.toInt

/-- The two tables `resolveIdentities` maintains. -/
structure IdentityTables where
  identityMap : IdentityMap
  identityMembership : IdentityMembership

/-- One group of a user: the membership, and the group's name. -/
def resolveMembership (uid : Int) (t : IdentityTables) (group : Group) : IdentityTables where
  identityMembership := t.identityMembership.insertDoNothing ⟨uid, asI32 group.gid⟩
  identityMap := t.identityMap.insertDoNothing
    ⟨asI32 group.gid, .gid, fromUtf8Lossy group.name⟩

/-- One indexed uid: nothing when the host does not know it. -/
def resolveUser (host : Host) (t : IdentityTables) (uid : Int) : IdentityTables :=
  match host.getUserByUid (asU32 uid) with
  | none => t
  | some user =>
      let named := t.identityMap.insertDoNothing ⟨uid, .uid, fromUtf8Lossy user.name⟩
      (host.groupsOf user).foldl (resolveMembership uid) { t with identityMap := named }

/-- The membership transaction: `identity_membership` rebuilt wholesale. -/
def resolveUsers (host : Host) (uids : List Int) (t : IdentityTables) : IdentityTables :=
  uids.foldl (resolveUser host) { t with identityMembership := Table.empty }

/-- One indexed gid. -/
def resolveGroup (host : Host) (map : IdentityMap) (gid : Int) : IdentityMap :=
  match host.getGroupByGid (asU32 gid) with
  | none => map
  | some group => map.insertDoNothing ⟨gid, .gid, fromUtf8Lossy group.name⟩

/-- `SELECT DISTINCT uid FROM filesystem_index`. -/
def distinctUids (index : Index) : List Int := (index.rows.map IndexRow.uid).dedup

/-- `SELECT DISTINCT gid FROM filesystem_index`. -/
def distinctGids (index : Index) : List Int := (index.rows.map IndexRow.gid).dedup

/-- How a failing `resolveIdentities` leaves the tables: before the
membership transaction commits, or after it with the first `n` group names
written. -/
inductive IdentityFault where
  | membership
  | groupNames (n : Nat)
  deriving DecidableEq, Repr

/-- Resolves the indexed uids and gids against the host. -/
def resolveIdentities (host : Host) (index : Index) (t : IdentityTables) : IdentityTables :=
  let users := resolveUsers host (distinctUids index) t
  { users with
    identityMap := (distinctGids index).foldl (resolveGroup host) users.identityMap }

/-- The tables after `resolveIdentities` failed at `fault`. -/
def resolveIdentitiesFailing (host : Host) (index : Index) (t : IdentityTables) :
    IdentityFault → IdentityTables
  | .membership => t
  | .groupNames n =>
      let users := resolveUsers host (distinctUids index) t
      { users with
        identityMap := ((distinctGids index).take n).foldl (resolveGroup host) users.identityMap }

/-! ## what a pass writes -/

/-- The names a resolvable user proposes: its own, then its groups'. -/
def userNames (host : Host) (uid : Int) : List IdentityRow :=
  match host.getUserByUid (asU32 uid) with
  | none => []
  | some user =>
      ⟨uid, .uid, fromUtf8Lossy user.name⟩ ::
        (host.groupsOf user).map fun g => ⟨asI32 g.gid, .gid, fromUtf8Lossy g.name⟩

/-- The memberships of a resolvable user. -/
def userMemberships (host : Host) (uid : Int) : List MembershipRow :=
  match host.getUserByUid (asU32 uid) with
  | none => []
  | some user => (host.groupsOf user).map fun g => ⟨uid, asI32 g.gid⟩

/-- The name a resolvable gid proposes. -/
def groupNames (host : Host) (gid : Int) : List IdentityRow :=
  match host.getGroupByGid (asU32 gid) with
  | none => []
  | some group => [⟨gid, .gid, fromUtf8Lossy group.name⟩]

/-- Every name one run proposes, in the order of the inserts. -/
def proposedNames (host : Host) (index : Index) : List IdentityRow :=
  (distinctUids index).flatMap (userNames host) ++ (distinctGids index).flatMap (groupNames host)

theorem foldl_resolveMembership (uid : Int) (gs : List Group) (t : IdentityTables) :
    gs.foldl (resolveMembership uid) t =
      { identityMap := t.identityMap.insertAll
          (gs.map fun g => ⟨asI32 g.gid, .gid, fromUtf8Lossy g.name⟩)
        identityMembership := t.identityMembership.insertAll
          (gs.map fun g => ⟨uid, asI32 g.gid⟩) } := by
  induction gs generalizing t with
  | nil => rfl
  | cons g gs ih => rw [List.foldl_cons, ih]; rfl

theorem resolveUser_eq (host : Host) (t : IdentityTables) (uid : Int) :
    resolveUser host t uid =
      { identityMap := t.identityMap.insertAll (userNames host uid)
        identityMembership := t.identityMembership.insertAll (userMemberships host uid) } := by
  unfold resolveUser userNames userMemberships
  cases host.getUserByUid (asU32 uid) with
  | none => rfl
  | some user => simp only [foldl_resolveMembership, Table.insertAll_cons]

theorem foldl_resolveUser (host : Host) (uids : List Int) (t : IdentityTables) :
    uids.foldl (resolveUser host) t =
      { identityMap := t.identityMap.insertAll (uids.flatMap (userNames host))
        identityMembership := t.identityMembership.insertAll
          (uids.flatMap (userMemberships host)) } := by
  induction uids generalizing t with
  | nil => rfl
  | cons uid uids ih =>
      rw [List.foldl_cons, ih, resolveUser_eq]
      simp only [List.flatMap_cons, Table.insertAll_append]

theorem foldl_resolveGroup (host : Host) (gids : List Int) (map : IdentityMap) :
    gids.foldl (resolveGroup host) map = map.insertAll (gids.flatMap (groupNames host)) := by
  induction gids generalizing map with
  | nil => rfl
  | cons gid gids ih =>
      rw [List.foldl_cons, ih, List.flatMap_cons, Table.insertAll_append]
      congr 1
      unfold resolveGroup groupNames
      cases host.getGroupByGid (asU32 gid) <;> rfl

/-- **Names only accumulate**: a run inserts its proposals into
`identity_map`, each one losing against a row already there. -/
theorem resolveIdentities_identityMap (host : Host) (index : Index) (t : IdentityTables) :
    (resolveIdentities host index t).identityMap =
      t.identityMap.insertAll (proposedNames host index) := by
  rw [resolveIdentities, resolveUsers, foldl_resolveUser]
  simp only [foldl_resolveGroup, proposedNames, Table.insertAll_append]

/-- **Memberships are rebuilt**: after a run they are those of the users it
resolved. -/
theorem mem_resolveIdentities_membership {host : Host} {index : Index} {t : IdentityTables}
    {m : MembershipRow} :
    m ∈ (resolveIdentities host index t).identityMembership ↔
      ∃ uid ∈ distinctUids index, m ∈ userMemberships host uid := by
  rw [resolveIdentities, resolveUsers, foldl_resolveUser]
  simp only
  rw [Table.mem_insertAll_of_agree (fun _ h => absurd h (Table.not_mem_empty _))
    (fun _ _ _ _ h => h)]
  simp

end Cuttlefish
