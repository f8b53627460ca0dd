import Cuttlefish.Access
import Cuttlefish.Indexer.Rescan

/-!
# Cuttlefish.Indexer.Grants

Unix-group grants behind any history of successful runs.

`matchingGrants` joins two tables the indexer refreshes by different rules:
`identity_membership` is that of the last run, `identity_map` keeps the
first name ever written for an id.  `unix_grants_follow_host` says when the
join is still the host's own answer: as long as no id the last run names
ever had another name.
-/

namespace Cuttlefish

variable {d : Digest}

/-! ## the identity tables along runs -/

namespace ScanRun

/-- The index when `resolveIdentities` reads it: behind the batches, in front
of the cleanup. -/
def resolvedIndex (run : ScanRun d) (db : Db) : Index :=
  (runBatches run.batches ⟨migrateHashWidth db.filesystemIndex, [], []⟩).1.index

/-- The names a run proposes for ids. -/
def proposals (run : ScanRun d) (db : Db) : List IdentityRow :=
  proposedNames run.host (run.resolvedIndex db)

theorem identity_apply {run : ScanRun d} (hc : run.Clean) (db : Db) :
    (run.apply db).identity = resolveIdentities run.host (run.resolvedIndex db) db.identity := by
  obtain ⟨⟨hwalk, hbatches⟩, hidentity, hcleanup⟩ := hc
  have hfailed := runBatches_failed run.batches ⟨migrateHashWidth db.filesystemIndex, [], []⟩
  rw [List.any_eq_false.mpr fun b hb => by simp [hbatches b hb]] at hfailed
  unfold apply indexerRun resolvedIndex
  simp [hwalk, hidentity, hcleanup, hfailed]

end ScanRun

/-- Every name the runs of a sequence propose, in order. -/
def proposalsOf : List (ScanRun d) → Db → List IdentityRow
  | [], _ => []
  | run :: runs, db => run.proposals db ++ proposalsOf runs (run.apply db)

theorem proposalsOf_append_singleton (runs : List (ScanRun d)) (run : ScanRun d) (db : Db) :
    proposalsOf (runs ++ [run]) db = proposalsOf runs db ++ run.proposals (applyRuns runs db) := by
  induction runs generalizing db with
  | nil => simp [proposalsOf, applyRuns]
  | cons r runs ih => rw [List.cons_append, proposalsOf, ih, proposalsOf, List.append_assoc]; rfl

/-- Along successful runs `identity_map` takes one long insert. -/
theorem identityMap_applyRuns (runs : List (ScanRun d)) (hclean : ∀ run ∈ runs, run.Clean)
    (db : Db) :
    (applyRuns runs db).identity.identityMap =
      db.identity.identityMap.insertAll (proposalsOf runs db) := by
  induction runs generalizing db with
  | nil => rfl
  | cons run runs ih =>
      rw [List.forall_mem_cons] at hclean
      change (applyRuns runs (run.apply db)).identity.identityMap = _
      rw [ih hclean.2, ScanRun.identity_apply hclean.1, resolveIdentities_identityMap, proposalsOf,
        Table.insertAll_append]
      rfl

/-! ## the host's answer -/

/-- The host resolves the uid of some row of `index` to the user name `n`,
and lists that user in a group named `G`. -/
def HostLists (host : Host) (index : Index) (n G : Text) : Prop :=
  ∃ x ∈ index, ∃ user, host.getUserByUid (asU32 x.uid) = some user ∧
    fromUtf8Lossy user.name = n ∧ ∃ g ∈ host.groupsOf user, fromUtf8Lossy g.name = G

theorem mem_distinctUids {index : Index} {uid : Int} :
    uid ∈ distinctUids index ↔ ∃ x ∈ index, x.uid = uid := by
  simp [distinctUids, Table.mem_def]

theorem mem_userNames {host : Host} {uid : Int} {user : User}
    (h : host.getUserByUid (asU32 uid) = some user) :
    (⟨uid, .uid, fromUtf8Lossy user.name⟩ : IdentityRow) ∈ userNames host uid ∧
      ∀ g ∈ host.groupsOf user,
        (⟨asI32 g.gid, .gid, fromUtf8Lossy g.name⟩ : IdentityRow) ∈ userNames host uid := by
  unfold userNames
  rw [h]
  exact ⟨List.mem_cons_self, fun g hg =>
    List.mem_cons_of_mem _ (List.mem_map.mpr ⟨g, hg, rfl⟩)⟩

theorem mem_userMemberships {host : Host} {uid : Int} {m : MembershipRow} :
    m ∈ userMemberships host uid ↔
      ∃ user, host.getUserByUid (asU32 uid) = some user ∧
        ∃ g ∈ host.groupsOf user, m = ⟨uid, asI32 g.gid⟩ := by
  unfold userMemberships
  cases h : host.getUserByUid (asU32 uid) with
  | none => simp
  | some user => simp [eq_comm]

/-- **The join is the host's answer**: when the name stored for every id a run
names is the one the run proposed, the tables connect `n` to `G` exactly when
the host does. -/
theorem mem_unixGroups_resolveIdentities {host : Host} {index : Index} {t : IdentityTables}
    (hstored : ∀ row ∈ proposedNames host index, ∀ row',
      row' ∈ (resolveIdentities host index t).identityMap ∧ row'.key = row.key ↔ row' = row)
    {n G : Text} :
    G ∈ unixGroups (resolveIdentities host index t) n ↔ HostLists host index n G := by
  have hproposed : ∀ {uid : Int}, uid ∈ distinctUids index → ∀ row ∈ userNames host uid,
      row ∈ proposedNames host index := fun huid row hrow =>
    List.mem_append_left _ (List.mem_flatMap.mpr ⟨_, huid, hrow⟩)
  rw [mem_unixGroups]
  constructor
  · rintro ⟨m, hm, hu, hg⟩
    obtain ⟨uid, huid, hm⟩ := mem_resolveIdentities_membership.mp hm
    obtain ⟨user, huser, g, hgroup, rfl⟩ := mem_userMemberships.mp hm
    obtain ⟨hself, hgroups⟩ := mem_userNames huser
    obtain ⟨x, hx, rfl⟩ := mem_distinctUids.mp huid
    have hn := (hstored _ (hproposed huid _ hself) _).mp ⟨hu, rfl⟩
    have hG := (hstored _ (hproposed huid _ (hgroups g hgroup)) _).mp ⟨hg, rfl⟩
    exact ⟨x, hx, user, huser, (congrArg IdentityRow.name hn).symm, g, hgroup,
      (congrArg IdentityRow.name hG).symm⟩
  · rintro ⟨x, hx, user, huser, rfl, g, hgroup, rfl⟩
    have huid : x.uid ∈ distinctUids index := mem_distinctUids.mpr ⟨x, hx, rfl⟩
    obtain ⟨hself, hgroups⟩ := mem_userNames huser
    refine ⟨⟨x.uid, asI32 g.gid⟩, ?_, ?_, ?_⟩
    · exact mem_resolveIdentities_membership.mpr
        ⟨x.uid, huid, mem_userMemberships.mpr ⟨user, huser, g, hgroup, rfl⟩⟩
    · exact ((hstored _ (hproposed huid _ hself) _).mpr rfl).1
    · exact ((hstored _ (hproposed huid _ (hgroups g hgroup)) _).mpr rfl).1

/-- **Unix-group grants follow the host**, after any sequence of successful
runs over which no id the last run names had another name: a grant for `G` is
returned for `n` exactly when it is stored and the host, at the last run,
resolves an indexed uid to `n` and lists that user in a group named `G`. -/
theorem unix_grants_follow_host (db : Db) (runs : List (ScanRun d)) (run : ScanRun d)
    (hclean : ∀ r ∈ runs ++ [run], r.Clean)
    (hagree : ∀ row ∈ run.proposals (applyRuns runs db),
      ∀ row', row' ∈ db.identity.identityMap ∨ row' ∈ proposalsOf (runs ++ [run]) db →
        row'.key = row.key → row' = row)
    (grants : List Grant) (groups : List Text) (n G : Text) :
    (∃ g ∈ matchingGrants grants (applyRuns (runs ++ [run]) db).identity groups n,
        g.groupType = .unix ∧ g.groupName = G) ↔
      (∃ g ∈ grants, g.groupType = .unix ∧ g.groupName = G) ∧
        HostLists run.host (run.resolvedIndex (applyRuns runs db)) n G := by
  have hmap := identityMap_applyRuns (runs ++ [run]) hclean db
  have hlast : (applyRuns (runs ++ [run]) db).identity =
      resolveIdentities run.host (run.resolvedIndex (applyRuns runs db))
        (applyRuns runs db).identity := by
    rw [← ScanRun.identity_apply (hclean run (by simp))]
    simp [applyRuns, List.foldl_append]
  rw [exists_unix_matchingGrants]
  refine and_congr_right fun _ => ?_
  rw [hlast]
  refine mem_unixGroups_resolveIdentities fun row hrow row' => ?_
  rw [← hlast, hmap]
  constructor
  · rintro ⟨hmem, hkey⟩
    exact hagree row hrow row' (Table.mem_of_mem_insertAll hmem) hkey
  · rintro rfl
    have hin : row' ∈ proposalsOf (runs ++ [run]) db := by
      rw [proposalsOf_append_singleton]
      exact List.mem_append_right _ hrow
    obtain ⟨y, hy, hkey⟩ := Table.exists_mem_insertAll (t := db.identity.identityMap) (Or.inr hin)
    rw [← hagree row' hrow y (Table.mem_of_mem_insertAll hy) hkey]
    exact ⟨hy, rfl⟩

/-! ### a uid handed on

The host knows uid 0 first as `alice`, then as `bob`, both in group
`staff`. -/

/-- A host that knows one user. -/
def sampleHost (name : String) : Host where
  getUserByUid uid := if uid = 0 then some ⟨utf8 name.toList, 50⟩ else none
  getUserGroups _ _ := some [⟨50, utf8 "staff".toList⟩]
  getGroupByGid _ := none

/-- A clean run on that host. -/
def sampleRunOn (name : String) : ScanRun sampleDigest :=
  { sampleRun false with host := sampleHost name }

theorem clean_sampleRunOn (name : String) : (sampleRunOn name).Clean :=
  ⟨⟨rfl, by simp [sampleRunOn, sampleRun]⟩, rfl, rfl⟩

/-- A grant for the Unix group `staff`. -/
def sampleGrant : Grant := ⟨.unix, "staff".toList, "/srv".toList⟩

/-- The host lists `bob` in `staff`, but the grant is `alice`'s. -/
theorem reassigned_uid_keeps_old_name :
    let identity := (applyRuns ([sampleRunOn "alice"] ++ [sampleRunOn "bob"]) sampleDb).identity
    let index := (sampleRunOn "bob").resolvedIndex (applyRuns [sampleRunOn "alice"] sampleDb)
    (∀ run ∈ [sampleRunOn "alice"] ++ [sampleRunOn "bob"], run.Clean) ∧
      HostLists (sampleHost "bob") index "bob".toList "staff".toList ∧
      ¬ HostLists (sampleHost "bob") index "alice".toList "staff".toList ∧
      (¬ ∃ g ∈ matchingGrants [sampleGrant] identity [] "bob".toList,
        g.groupType = .unix ∧ g.groupName = "staff".toList) ∧
      ∃ g ∈ matchingGrants [sampleGrant] identity [] "alice".toList,
        g.groupType = .unix ∧ g.groupName = "staff".toList := by
  dsimp only
  refine ⟨?_, ?_, ?_, by decide, by decide⟩
  · intro run hrun
    have hcases : run = sampleRunOn "alice" ∨ run = sampleRunOn "bob" := by simpa using hrun
    rcases hcases with rfl | rfl <;> exact clean_sampleRunOn _
  · exact ⟨sampleRow "/home", by decide, ⟨utf8 "bob".toList, 50⟩, by decide, by decide,
      ⟨50, utf8 "staff".toList⟩, by decide, by decide⟩
  · rintro ⟨x, _, user, huser, hname, _⟩
    unfold sampleHost at huser
    dsimp only at huser
    split_ifs at huser
    cases huser
    exact absurd hname (by decide)

/-- The grant follows the host as long as `alice` keeps the uid. -/
theorem unix_grants_follow_host_alice :
    (∃ g ∈ matchingGrants [sampleGrant]
        (applyRuns ([sampleRunOn "alice"] ++ [sampleRunOn "alice"]) sampleDb).identity []
          "alice".toList,
        g.groupType = .unix ∧ g.groupName = "staff".toList) ↔
      (∃ g ∈ [sampleGrant], g.groupType = .unix ∧ g.groupName = "staff".toList) ∧
        HostLists (sampleHost "alice")
          ((sampleRunOn "alice").resolvedIndex (applyRuns [sampleRunOn "alice"] sampleDb))
          "alice".toList "staff".toList := by
  refine unix_grants_follow_host sampleDb [sampleRunOn "alice"] (sampleRunOn "alice") ?_ ?_ _ _ _ _
  · intro run hrun
    have hcases : run = sampleRunOn "alice" := by simpa using hrun
    exact hcases ▸ clean_sampleRunOn _
  · have hproposals :
        ∀ row ∈ (sampleRunOn "alice").proposals (applyRuns [sampleRunOn "alice"] sampleDb),
        ∀ row' ∈ sampleDb.identity.identityMap.rows ++
          proposalsOf ([sampleRunOn "alice"] ++ [sampleRunOn "alice"]) sampleDb,
          row'.key = row.key → row' = row := by decide
    intro row hrow row' hrow'
    exact hproposals row hrow row' (List.mem_append.mpr hrow')

end Cuttlefish
