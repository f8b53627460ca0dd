import Cuttlefish.Handlers
import Cuttlefish.Indexer.Parents
import Cuttlefish.ScanRoot.Clean

/-!
# Cuttlefish.Handlers.Listing

What a listing shows of an index: the indexer and `fs_api` hash paths alike,
so the rows under the hash of a directory are the entries of the directory,
none missing and none foreign, and whoever may see a directory may see them.
-/

namespace Cuttlefish

/-- Both sides compute the same hash. -/
theorem pathHash_eq (d : Digest) (path : Bytes) : pathHash d path = computeHashBytes d path := rfl

/-- The paths that are hashed when the directory `dir` of an index of
`emitted` paths is listed. -/
def inPlay (emitted : Set Bytes) (dir : Bytes) : Set Bytes :=
  {p | p ∈ emitted ∨ (∃ e ∈ emitted, getParentPath e = some p) ∨ p = dir}

/-- The rows of a listing, entry by entry. -/
theorem file_childrenQuery (d : Digest) (db : ApiDb) (dir : Bytes) (includeStats : Bool) :
    (childrenQuery d db dir includeStats).map (·.file) =
      db.filesystemIndex.rows.filter fun x => isChildOf (pathHash d dir) (db.entryRow x) := by
  cases includeStats with
  | false =>
      have hfile : (fun r : EntryRow => r.file) ∘ db.entryRow = id := rfl
      simp only [childrenQuery, Bool.false_eq_true, if_false]
      rw [fromEntries_eq, List.filter_map, List.map_map, hfile, List.map_id]
      rfl
  | true =>
      have hfile : (fun r : EntryRow => r.file) ∘ db.statsRow = id := rfl
      simp only [childrenQuery, if_true]
      rw [fromEntriesWithStats_eq, List.filter_map, List.map_map, hfile, List.map_id]
      rfl

/-- The entries a listing selects, with statistics or without. -/
theorem mem_childrenQuery {d : Digest} {db : ApiDb} {dir : Bytes} {includeStats : Bool}
    {x : IndexRow} :
    (∃ r ∈ childrenQuery d db dir includeStats, r.file = x) ↔
      x ∈ db.filesystemIndex ∧ x.parentHash = some (pathHash d dir) := by
  rw [← List.mem_map (f := fun r : EntryRow => r.file), file_childrenQuery, List.mem_filter,
    isChildOf, decide_eq_true_eq]
  exact Iff.rfl

section Listing

variable {d : Digest} {emitted : Set Bytes} {dir : Bytes} {x : IndexRow}

/-- The row of an entry is found under the hash of its directory only. -/
theorem parentHash_eq_iff (hx : x.Linked d emitted) (hdir : dir ≠ [])
    (hfree : CollisionFree d (inPlay emitted dir)) :
    x.parentHash = some (pathHash d dir) ↔ EntryOf dir x.raw := by
  rw [hx.parentHash_eq, pathHash_eq, ← hx.walked.getParentPath_eq_some hdir]
  constructor
  · intro h
    obtain ⟨parent, hparent, hhash⟩ := Option.map_eq_some_iff.mp h
    have hplay : parent ∈ inPlay emitted dir := Or.inr (Or.inl ⟨x.raw, hx.emitted, hparent⟩)
    rw [hparent, hfree hplay (Or.inr (Or.inr rfl)) hhash]
  · intro h
    rw [h, Option.map_some]

/-- An entry of a directory that may be seen may be seen. -/
theorem allows_entry {a : Access} {path : Bytes} (hrole : a.role = .restricted)
    (hdir : a.allows dir = true) (hpath : Canonical path) (hentry : EntryOf dir path) :
    a.allows path = true := by
  obtain ⟨root, hroot, hcovers⟩ :=
    (allows_iff_coveredBy hrole (Access.allows_eq_true hrole hdir)).mp hdir
  obtain ⟨name, rfl⟩ := hentry
  rw [allows_iff_coveredBy hrole hpath]
  exact ⟨root, hroot, hcovers.trans (covers_under name dir)⟩

end Listing

/-- The last name of a path is neither `.` nor `..`, which reading a
directory never returns. -/
def NotDotEntry (path : Bytes) : Prop :=
  ∀ dir (name : FileName), path = name.under dir → name.bytes ≠ dot ∧ name.bytes ≠ dotdot

/-- **A listing shows the entries of its directory**, in every index that
batches of a walk can lead to. -/
theorem listing_of_reachable {d : Digest} {emitted : Set Bytes} {dir : Bytes} {db : ScanDb}
    (hdir : dir ≠ []) (hfree : CollisionFree d (inPlay emitted dir))
    (h : Reachable (ScanDb.next d) (FromWalk emitted) ScanDb.init db) :
    (∀ x ∈ db.index, x.raw ∈ emitted ∧ x.pathHash = computeHashBytes d x.raw ∧
      x.parentHash = (getParentPath x.raw).map (computeHashBytes d) ∧
        (x.parentHash = none ↔ x.raw = [slash])) ∧
      ∀ (api : ApiDb) (includeStats : Bool), api.filesystemIndex = db.index →
        (∀ x, (∃ r ∈ childrenQuery d api dir includeStats, r.file = x) ↔
          x ∈ db.index ∧ EntryOf dir x.raw) ∧
        ∀ a : Access, a.role = .restricted → a.allows dir = true →
          ∀ r ∈ childrenQuery d api dir includeStats, NotDotEntry r.file.raw →
            a.allows r.file.raw = true := by
  have hemitted : CollisionFree d emitted := hfree.mono fun p hp => Or.inl hp
  have hlinked := linked_of_reachable hemitted h
  refine ⟨fun x hx => ?_, fun api includeStats hapi => ?_⟩
  · have hrow := hlinked x hx
    refine ⟨hrow.emitted, hrow.pathHash_eq, hrow.parentHash_eq, ?_⟩
    rw [hrow.parentHash_eq, Option.map_eq_none_iff, hrow.walked.getParentPath_eq_none]
  · have hchildren : ∀ x, (∃ r ∈ childrenQuery d api dir includeStats, r.file = x) ↔
        x ∈ db.index ∧ EntryOf dir x.raw := by
      intro x
      rw [mem_childrenQuery, hapi]
      exact and_congr_right fun hx => parentHash_eq_iff (hlinked x hx) hdir hfree
    refine ⟨hchildren, fun a hrole hallows r hr hdots => ?_⟩
    have hentry := ((hchildren r.file).mp ⟨r, hr, rfl⟩).2
    obtain ⟨name, hname⟩ := hentry
    obtain ⟨hdot, hdotdot⟩ := hdots dir name hname
    have hcanonical : Canonical r.file.raw :=
      hname ▸ canonical_under (Access.allows_eq_true hrole hallows) hdot hdotdot
    exact allows_entry hrole hallows hcanonical ⟨name, hname⟩

/-- A walk of `/home`. -/
def sampleHome : List (Bytes × Metadata) :=
  [(utf8 "/home".toList, sampleMetadata), (utf8 "/home/a".toList, sampleMetadata)]

/-- It was indexed twice. -/
def sampleScan : ScanDb :=
  let records := sampleHome.map fun e => fileRecord sampleDigest e.1 e.2
  insertBatch (insertBatch ScanDb.init records) records

def sampleEmitted : Set Bytes := {p | p = utf8 "/home".toList ∨ p = utf8 "/home/a".toList}

theorem walkerPath_of_mem_sampleEmitted {p : Bytes} (h : p ∈ sampleEmitted) : WalkerPath p := by
  have hroot : normalizeScanRoot (utf8 "/home/".toList) = .ok (utf8 "/home".toList) := by decide
  cases h with
  | inl hhome => exact ⟨_, _, [], hroot, hhome⟩
  | inr ha => exact ⟨_, _, [⟨[97], by decide, by decide⟩], hroot, ha⟩

theorem collisionFree_sampleEmitted :
    CollisionFree sampleDigest (inPlay sampleEmitted (utf8 "/home".toList)) := by
  have hfree : ∀ p ∈ ["/", "/home", "/home/a"], ∀ q ∈ ["/", "/home", "/home/a"],
      computeHashBytes sampleDigest (utf8 p.toList) =
        computeHashBytes sampleDigest (utf8 q.toList) → p = q := by decide
  have hpaths : ∀ p ∈ inPlay sampleEmitted (utf8 "/home".toList),
      ∃ q ∈ ["/", "/home", "/home/a"], p = utf8 q.toList := by
    intro p hp
    rcases hp with (rfl | rfl) | ⟨e, rfl | rfl, hparent⟩ | rfl
    · exact ⟨"/home", by decide, rfl⟩
    · exact ⟨"/home/a", by decide, rfl⟩
    · refine ⟨"/", by decide, (Option.some.inj (hparent.symm.trans ?_))⟩
      decide
    · refine ⟨"/home", by decide, (Option.some.inj (hparent.symm.trans ?_))⟩
      decide
    · exact ⟨"/home", by decide, rfl⟩
  intro a ha b hb hhash
  obtain ⟨p, hp, rfl⟩ := hpaths a ha
  obtain ⟨q, hq, rfl⟩ := hpaths b hb
  rw [hfree p hp q hq hhash]

theorem reachable_sampleScan :
    Reachable (ScanDb.next sampleDigest) (FromWalk sampleEmitted) ScanDb.init sampleScan := by
  have hentries : ∀ e ∈ sampleHome, WalkerPath e.1 ∧ e.1 ∈ sampleEmitted := by
    intro e he
    have hmem : e.1 ∈ sampleEmitted := by
      simp only [sampleHome, List.mem_cons, List.not_mem_nil, or_false] at he
      exact he.imp (congrArg Prod.fst) (congrArg Prod.fst)
    exact ⟨walkerPath_of_mem_sampleEmitted hmem, hmem⟩
  have hbatch : ∀ db, FromWalk sampleEmitted db (.batch sampleHome false) := fun _ => hentries
  exact .next (.next .init (hbatch _) rfl) (hbatch _) rfl

/-- The API over these rows. -/
def sampleApi : ApiDb := ⟨⟨sampleScan.index, ⟨Table.empty, Table.empty⟩⟩, Table.empty⟩

theorem listing_of_reachable_home :
    ∃ r ∈ childrenQuery sampleDigest sampleApi (utf8 "/home".toList) true,
      r.file.raw = utf8 "/home/a".toList := by
  have hlisting := listing_of_reachable (by decide) collisionFree_sampleEmitted
    reachable_sampleScan
  obtain ⟨x, hx, hraw⟩ : ∃ x ∈ sampleScan.index, x.raw = utf8 "/home/a".toList := by decide
  have hentry : EntryOf (utf8 "/home".toList) x.raw := ⟨⟨[97], by decide, by decide⟩, hraw⟩
  obtain ⟨r, hr, rfl⟩ := ((hlisting.2 sampleApi true rfl).1 x).mpr ⟨hx, hentry⟩
  exact ⟨r, hr, hraw⟩

/-- SHA-256 as far as `/home/..` goes, too. -/
def dotdotDigest : Digest where
  sha256 b :=
    if b = [47, 104, 111, 109, 101, 47, 46, 46] then
      [55, 133, 109, 181, 109, 227, 134, 98, 105, 97, 45, 205, 115, 250, 189, 29,
        122, 245, 168, 195, 12, 154, 46, 201, 224, 234, 144, 226, 92, 97, 245, 57]
    else sampleDigest.sha256 b
  length_sha256 b := by
    split_ifs
    · rfl
    · exact sampleDigest.length_sha256 b

/-- The index of a walk that takes `..` for an entry. -/
def dotdotScan : ScanDb :=
  insertBatch ScanDb.init [fileRecord dotdotDigest (utf8 "/home/..".toList) sampleMetadata]

/-- A listing shows such an entry to whoever may see the directory, though no
restricted user may see its path, which is not canonical. -/
theorem dotdot_entry_not_allowed :
    ∃ (emitted : Set Bytes) (a : Access) (api : ApiDb),
      (∀ p ∈ emitted, WalkerPath p) ∧
      CollisionFree dotdotDigest (inPlay emitted (utf8 "/home".toList)) ∧
      Reachable (ScanDb.next dotdotDigest) (FromWalk emitted) ScanDb.init dotdotScan ∧
      api.filesystemIndex = dotdotScan.index ∧
      a.role = .restricted ∧ a.allows (utf8 "/home".toList) = true ∧
      ∃ r ∈ childrenQuery dotdotDigest api (utf8 "/home".toList) false,
        a.allows r.file.raw = false := by
  let path : Bytes := utf8 "/home/..".toList
  have hroot : normalizeScanRoot (utf8 "/home/".toList) = .ok (utf8 "/home".toList) := by decide
  have hwalk : WalkerPath path := ⟨_, _, [⟨[46, 46], by decide, by decide⟩], hroot, by decide⟩
  have hplay : ∀ p ∈ inPlay {path} (utf8 "/home".toList), p = path ∨ p = utf8 "/home".toList := by
    intro p hp
    cases hp with
    | inl hemitted => exact Or.inl hemitted
    | inr hother =>
        cases hother with
        | inl hparent =>
            obtain ⟨e, he, hparent⟩ := hparent
            cases he
            exact Or.inr (Option.some.inj (hparent.symm.trans (by decide)))
        | inr hdir => exact Or.inr hdir
  have hdistinct : computeHashBytes dotdotDigest path ≠
      computeHashBytes dotdotDigest (utf8 "/home".toList) := by decide
  have hfree : CollisionFree dotdotDigest (inPlay {path} (utf8 "/home".toList)) := by
    intro p hp q hq hhash
    cases hplay p hp with
    | inl hp =>
        cases hplay q hq with
        | inl hq => rw [hp, hq]
        | inr hq => exact absurd (hp ▸ hq ▸ hhash) hdistinct
    | inr hp =>
        cases hplay q hq with
        | inl hq => exact absurd (hp ▸ hq ▸ hhash).symm hdistinct
        | inr hq => rw [hp, hq]
  have hbatch : FromWalk {path} ScanDb.init (.batch [(path, sampleMetadata)] false) := by
    intro e he
    rw [List.mem_singleton.mp he]
    exact ⟨hwalk, rfl⟩
  refine ⟨{path}, { user := "alice".toList, role := .restricted, prefixes := ["/home".toList] },
    ⟨⟨dotdotScan.index, ⟨Table.empty, Table.empty⟩⟩, Table.empty⟩, ?_, hfree,
    .next .init hbatch rfl, rfl, rfl, by decide, by decide⟩
  intro p hp
  cases hp
  exact hwalk

end Cuttlefish
