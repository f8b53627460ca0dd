import Mathlib.Data.List.Nodup
import Mathlib.Tactic.Common

/-!
# Cuttlefish.Table

Keyed tables: the fragment of PostgreSQL's row operations the project
stands on, over an arbitrary row type and primary key.

A `Table key` carries the uniqueness of its keys, so a duplicate row
cannot be built and no operation re-proves it.  The statements modelled are

* `INSERT … ON CONFLICT (key) DO UPDATE SET … WHERE …` — `upsert`, with the
  conflict action a `ConflictUpdate`;
* `INSERT … ON CONFLICT DO NOTHING` — `insertDoNothing`;
* `UPDATE … SET … WHERE …` — `update`;
* `DELETE … WHERE …` — `deleteWhere`;
* `SELECT DISTINCT ON (key)` — `distinctOn`;
* `LEFT JOIN … ON key = …` — `leftJoin`.

Each comes with its membership lemma, which is all later proofs use.
-/

namespace Cuttlefish

variable {ρ κ : Type*}

/-- Rows with a primary key. -/
@[ext] structure Table (key : ρ → κ) where
  rows : List ρ
  nodup : (rows.map key).Nodup

namespace Table

variable {key : ρ → κ}

instance : Membership ρ (Table key) := ⟨fun t r => r ∈ t.rows⟩

instance [DecidableEq ρ] (r : ρ) (t : Table key) : Decidable (r ∈ t) :=
  inferInstanceAs (Decidable (r ∈ t.rows))

/-- The table with no rows. -/
def empty : Table key := ⟨[], List.nodup_nil⟩

@[simp] theorem not_mem_empty (r : ρ) : r ∉ (empty : Table key) := List.not_mem_nil

theorem mem_def {t : Table key} {r : ρ} : r ∈ t ↔ r ∈ t.rows := Iff.rfl

/-! ## looking up -/

/-- The row under a key. -/
def find? [DecidableEq κ] (t : Table key) (k : κ) : Option ρ := t.rows.find? fun r => key r = k

theorem find?_eq_some [DecidableEq κ] {t : Table key} {k : κ} {r : ρ} :
    t.find? k = some r ↔ r ∈ t ∧ key r = k := by
  constructor
  · intro h
    exact ⟨List.mem_of_find?_eq_some h, by simpa using List.find?_some h⟩
  · intro h
    obtain ⟨hr, rfl⟩ := h
    cases hfind : t.find? (key r) with
    | none =>
        have hno := List.find?_eq_none.mp hfind r hr
        simp at hno
    | some r' =>
        have hkey : key r' = key r := by simpa using List.find?_some hfind
        rw [List.inj_on_of_nodup_map t.nodup (List.mem_of_find?_eq_some hfind) hr hkey]

/-- `LEFT JOIN t ON key = k`: the rows a row of the left side is joined
with. -/
def leftJoin [DecidableEq κ] (t : Table key) (k : κ) : List (Option ρ) :=
  match t.rows.filter fun r => key r = k with
  | [] => [none]
  | rs => rs.map some

/-- A join on the primary key neither drops nor repeats the left row. -/
theorem leftJoin_eq [DecidableEq κ] (t : Table key) (k : κ) : t.leftJoin k = [t.find? k] := by
  have hnodup : ((t.rows.filter fun r => key r = k).map key).Nodup :=
    t.nodup.sublist (List.filter_sublist.map key)
  rw [find?, ← List.head?_filter, leftJoin]
  cases hrs : t.rows.filter fun r => key r = k with
  | nil => rfl
  | cons r rs =>
      have hrest : rs = [] := by
        cases rs with
        | nil => rfl
        | cons r' rs =>
            have hmem : ∀ x ∈ [r, r'], key x = k := by
              intro x hx
              have hfilter : x ∈ t.rows.filter fun r => key r = k := by
                rw [hrs]
                exact (List.sublist_append_left [r, r'] rs).subset hx
              simpa using (List.mem_filter.mp hfilter).2
            rw [hrs] at hnodup
            simp [hmem r (by simp), hmem r' (by simp)] at hnodup
      rw [hrest]
      rfl

/-! ## deleting -/

/-- `DELETE FROM t WHERE p`. -/
def deleteWhere (t : Table key) (p : ρ → Bool) : Table key where
  rows := t.rows.filter fun r => !p r
  nodup := t.nodup.sublist (List.filter_sublist.map key)

@[simp] theorem mem_deleteWhere {t : Table key} {p : ρ → Bool} {r : ρ} :
    r ∈ t.deleteWhere p ↔ r ∈ t ∧ p r = false := by
  simp [deleteWhere, mem_def]

/-! ## updating in place -/

/-- `UPDATE t SET f WHERE p`, for an `f` that keeps the key. -/
def update (t : Table key) (p : ρ → Bool) (f : ρ → ρ) (hf : ∀ r, key (f r) = key r) :
    Table key where
  rows := t.rows.map fun r => if p r then f r else r
  nodup := by
    have hkey : (key ∘ fun r => if p r then f r else r) = key := by
      funext r
      simp only [Function.comp_apply]
      split_ifs
      · exact hf r
      · rfl
    rw [List.map_map, hkey]
    exact t.nodup

@[simp] theorem mem_update {t : Table key} {p : ρ → Bool} {f : ρ → ρ}
    {hf : ∀ r, key (f r) = key r} {r : ρ} :
    r ∈ t.update p f hf ↔ ∃ old ∈ t, (if p old then f old else old) = r := by
  simp [update, mem_def]

/-! ## inserting -/

variable [DecidableEq κ]

/-- `INSERT INTO t VALUES r ON CONFLICT (key) DO NOTHING`. -/
def insertDoNothing (t : Table key) (r : ρ) : Table key :=
  if h : key r ∈ t.rows.map key then t
  else ⟨t.rows ++ [r], by
    rw [List.map_append, List.map_singleton]
    exact List.nodup_append_comm.mp (List.nodup_cons.mpr ⟨h, t.nodup⟩)⟩

theorem mem_insertDoNothing {t : Table key} {r x : ρ} :
    x ∈ t.insertDoNothing r ↔ x ∈ t ∨ (x = r ∧ ∀ old ∈ t, key old ≠ key r) := by
  unfold insertDoNothing
  split_ifs with h
  · obtain ⟨old, hold, hk⟩ := List.mem_map.mp h
    constructor
    · exact Or.inl
    · rintro (hx | ⟨_, hno⟩)
      · exact hx
      · exact absurd hk (hno old hold)
  · have hno : ∀ old ∈ t, key old ≠ key r := fun old hold hk =>
      h (List.mem_map.mpr ⟨old, hold, hk⟩)
    rw [mem_def, List.mem_append, List.mem_singleton]
    constructor
    · rintro (hx | hx)
      · exact Or.inl hx
      · exact Or.inr ⟨hx, hno⟩
    · rintro (hx | ⟨hx, _⟩)
      · exact Or.inl hx
      · exact Or.inr hx

/-- What `ON CONFLICT … DO UPDATE` makes of the old row and the proposed
one.  The key is not among the columns set. -/
structure ConflictUpdate (key : ρ → κ) where
  apply : ρ → ρ → ρ
  key_apply : ∀ old new, key (apply old new) = key old

/-- `DO UPDATE SET … WHERE c`: rows the condition rejects stay as they are. -/
def ConflictUpdate.onlyWhere (u : ConflictUpdate key) (c : ρ → ρ → Bool) :
    ConflictUpdate key where
  apply old new := if c old new then u.apply old new else old
  key_apply old new := by
    split_ifs
    · exact u.key_apply old new
    · rfl

/-- `INSERT INTO t VALUES r ON CONFLICT (key) DO UPDATE u`. -/
def upsert (t : Table key) (u : ConflictUpdate key) (r : ρ) : Table key :=
  if key r ∈ t.rows.map key then
    t.update (fun old => key old = key r) (fun old => u.apply old r) (u.key_apply · r)
  else t.insertDoNothing r

theorem mem_upsert {t : Table key} {u : ConflictUpdate key} {r x : ρ} :
    x ∈ t.upsert u r ↔
      (∃ old ∈ t, key old = key r ∧ x = u.apply old r) ∨ (x ∈ t ∧ key x ≠ key r) ∨
        (x = r ∧ ∀ old ∈ t, key old ≠ key r) := by
  unfold upsert
  split_ifs with h
  · obtain ⟨dup, hdup, hdk⟩ := List.mem_map.mp h
    rw [mem_update]
    constructor
    · rintro ⟨old, hold, rfl⟩
      by_cases hk : key old = key r
      · exact Or.inl ⟨old, hold, hk, by simp [hk]⟩
      · exact Or.inr (Or.inl (by simpa [hk] using hold))
    · rintro (⟨old, hold, hk, rfl⟩ | ⟨hx, hk⟩ | ⟨_, hno⟩)
      · exact ⟨old, hold, by simp [hk]⟩
      · exact ⟨x, hx, by simp [hk]⟩
      · exact absurd hdk (hno dup hdup)
  · have hno : ∀ old ∈ t, key old ≠ key r := fun old hold hk =>
      h (List.mem_map.mpr ⟨old, hold, hk⟩)
    rw [mem_insertDoNothing]
    constructor
    · rintro (hx | ⟨hx, _⟩)
      · exact Or.inr (Or.inl ⟨hx, hno x hx⟩)
      · exact Or.inr (Or.inr ⟨hx, hno⟩)
    · rintro (⟨old, hold, hk, _⟩ | ⟨hx, _⟩ | ⟨hx, _⟩)
      · exact absurd hk (hno old hold)
      · exact Or.inl hx
      · exact Or.inr ⟨hx, hno⟩

theorem mem_upsert_of_key_ne {t : Table key} {u : ConflictUpdate key} {r x : ρ}
    (h : key x ≠ key r) : x ∈ t.upsert u r ↔ x ∈ t := by
  rw [mem_upsert]
  constructor
  · rintro (⟨old, _, hk, rfl⟩ | ⟨hx, _⟩ | ⟨rfl, _⟩)
    · exact absurd ((u.key_apply old r).trans hk) h
    · exact hx
    · exact absurd rfl h
  · intro hx
    exact Or.inr (Or.inl ⟨hx, h⟩)

/-- **A guard that only skips no-ops changes nothing**: when every rejected
update would have left the row as it is, the conditional upsert is the
unconditional one. -/
theorem upsert_onlyWhere {t : Table key} {u : ConflictUpdate key} {c : ρ → ρ → Bool}
    (h : ∀ old new, c old new = false → u.apply old new = old) (r : ρ) :
    t.upsert (u.onlyWhere c) r = t.upsert u r := by
  have happly : (u.onlyWhere c).apply = u.apply := by
    funext old new
    simp only [ConflictUpdate.onlyWhere]
    split_ifs with hc
    · rfl
    · exact (h old new (by simpa using hc)).symm
  unfold upsert
  simp only [happly]

/-! ## inserting a whole result set -/

/-- `INSERT INTO t SELECT … ON CONFLICT (key) DO UPDATE u`, row by row. -/
def upsertAll (t : Table key) (u : ConflictUpdate key) (rs : List ρ) : Table key :=
  rs.foldl (fun t r => t.upsert u r) t

/-- The rows after a whole result set with distinct keys went in. -/
theorem mem_upsertAll {t : Table key} {u : ConflictUpdate key} {rs : List ρ} {x : ρ}
    (hrs : (rs.map key).Nodup) :
    x ∈ t.upsertAll u rs ↔
      (∃ r ∈ rs, ∃ old ∈ t, key old = key r ∧ x = u.apply old r) ∨
        (x ∈ t ∧ ∀ r ∈ rs, key x ≠ key r) ∨ (x ∈ rs ∧ ∀ old ∈ t, key old ≠ key x) := by
  induction rs generalizing t with
  | nil => simp [upsertAll]
  | cons r rs ih =>
      rw [List.map_cons, List.nodup_cons, List.mem_map] at hrs
      obtain ⟨hr, hrs⟩ := hrs
      have hne : ∀ r' ∈ rs, key r' ≠ key r := fun r' hr' hk => hr ⟨r', hr', hk⟩
      change x ∈ (t.upsert u r).upsertAll u rs ↔ _
      -- rows under the keys still to come are untouched by the first insert
      have hold : ∀ y, key y ≠ key r → (y ∈ t.upsert u r ↔ y ∈ t) := fun _ =>
        mem_upsert_of_key_ne
      rw [ih hrs, mem_upsert]
      constructor
      · rintro (⟨r', hr', old, ho, hk, rfl⟩ | ⟨⟨old, ho, hk, rfl⟩ | ⟨hx, hk⟩ | ⟨rfl, hno⟩, hrest⟩ |
          ⟨hx, hno⟩)
        · exact Or.inl ⟨r', by simp [hr'], old, (hold old (hk ▸ hne r' hr')).mp ho, hk, rfl⟩
        · exact Or.inl ⟨r, by simp, old, ho, hk, rfl⟩
        · exact Or.inr (Or.inl ⟨hx, by simpa [hk] using hrest⟩)
        · exact Or.inr (Or.inr ⟨by simp, hno⟩)
        · refine Or.inr (Or.inr ⟨by simp [hx], fun old ho hk => ?_⟩)
          exact hno old ((hold old (hk ▸ hne x hx)).mpr ho) hk
      · rintro (⟨r', hr', old, ho, hk, rfl⟩ | ⟨hx, hrest⟩ | ⟨hx, hno⟩)
        · rcases List.mem_cons.mp hr' with rfl | hr'
          · refine Or.inr (Or.inl ⟨Or.inl ⟨old, ho, hk, rfl⟩, fun r'' hr'' => ?_⟩)
            rw [u.key_apply, hk]
            exact (hne r'' hr'').symm
          · exact Or.inl ⟨r', hr', old, (hold old (hk ▸ hne r' hr')).mpr ho, hk, rfl⟩
        · rw [List.forall_mem_cons] at hrest
          exact Or.inr (Or.inl ⟨Or.inr (Or.inl ⟨hx, hrest.1⟩), hrest.2⟩)
        · rcases List.mem_cons.mp hx with rfl | hx
          · exact Or.inr (Or.inl ⟨Or.inr (Or.inr ⟨rfl, hno⟩), fun r' hr' => (hne r' hr').symm⟩)
          · refine Or.inr (Or.inr ⟨hx, fun old ho hk => ?_⟩)
            exact hno old ((hold old (hk ▸ hne x hx)).mp ho) hk

/-- `INSERT … ON CONFLICT DO NOTHING`, row by row. -/
def insertAll (t : Table key) (rs : List ρ) : Table key := rs.foldl insertDoNothing t

@[simp] theorem insertAll_nil (t : Table key) : t.insertAll [] = t := rfl

@[simp] theorem insertAll_cons (t : Table key) (r : ρ) (rs : List ρ) :
    t.insertAll (r :: rs) = (t.insertDoNothing r).insertAll rs := rfl

theorem insertAll_append (t : Table key) (rs rs' : List ρ) :
    t.insertAll (rs ++ rs') = (t.insertAll rs).insertAll rs' := List.foldl_append

/-- What is in the table afterwards was there before or went in. -/
theorem mem_of_mem_insertAll {t : Table key} {rs : List ρ} {x : ρ} (h : x ∈ t.insertAll rs) :
    x ∈ t ∨ x ∈ rs := by
  induction rs generalizing t with
  | nil => exact Or.inl h
  | cons r rs ih =>
      rcases ih h with h | h
      · rcases mem_insertDoNothing.mp h with h | ⟨rfl, _⟩
        · exact Or.inl h
        · exact Or.inr List.mem_cons_self
      · exact Or.inr (List.mem_cons_of_mem r h)

/-- Every key of the old rows and of the new ones is taken afterwards. -/
theorem exists_mem_insertAll {t : Table key} {rs : List ρ} {x : ρ} (h : x ∈ t ∨ x ∈ rs) :
    ∃ y ∈ t.insertAll rs, key y = key x := by
  induction rs generalizing t x with
  | nil => exact ⟨x, h.resolve_right List.not_mem_nil, rfl⟩
  | cons r rs ih =>
      rw [List.mem_cons] at h
      rcases h with h | rfl | h
      · exact ih (Or.inl (mem_insertDoNothing.mpr (Or.inl h)))
      · by_cases hdup : ∃ old ∈ t, key old = key x
        · obtain ⟨old, ho, hk⟩ := hdup
          obtain ⟨y, hy, hky⟩ := ih (t := t.insertDoNothing x) (x := old)
            (Or.inl (mem_insertDoNothing.mpr (Or.inl ho)))
          exact ⟨y, hy, hky.trans hk⟩
        · refine ih (Or.inl (mem_insertDoNothing.mpr (Or.inr ⟨rfl, fun old ho hk => ?_⟩)))
          exact hdup ⟨old, ho, hk⟩
      · exact ih (Or.inr h)

/-- Rows that agree with the table and with each other on shared keys all go
in, and nothing is lost. -/
theorem mem_insertAll_of_agree {t : Table key} {rs : List ρ} {x : ρ}
    (hold : ∀ old ∈ t, ∀ r ∈ rs, key old = key r → old = r)
    (hnew : ∀ r ∈ rs, ∀ r' ∈ rs, key r = key r' → r = r') :
    x ∈ t.insertAll rs ↔ x ∈ t ∨ x ∈ rs := by
  induction rs generalizing t with
  | nil => simp
  | cons r rs ih =>
      have hmem : ∀ y, y ∈ t.insertDoNothing r ↔ y ∈ t ∨ y = r := by
        intro y
        rw [mem_insertDoNothing]
        constructor
        · rintro (hy | ⟨hy, _⟩)
          · exact Or.inl hy
          · exact Or.inr hy
        · rintro (hy | rfl)
          · exact Or.inl hy
          · by_cases hdup : ∃ old ∈ t, key old = key y
            · obtain ⟨old, ho, hk⟩ := hdup
              exact Or.inl (hold old ho y (by simp) hk ▸ ho)
            · exact Or.inr ⟨rfl, fun old ho hk => hdup ⟨old, ho, hk⟩⟩
      rw [insertAll_cons, ih]
      · rw [hmem, List.mem_cons, or_assoc]
      · intro old ho r' hr' hk
        rcases (hmem old).mp ho with ho | rfl
        · exact hold old ho r' (by simp [hr']) hk
        · exact hnew old (by simp) r' (by simp [hr']) hk
      · intro r' hr' r'' hr''
        exact hnew r' (by simp [hr']) r'' (by simp [hr''])

/-- `SELECT DISTINCT ON (key)`: the first row of every key. -/
def distinctOn (key : ρ → κ) : List ρ → List ρ
  | [] => []
  | r :: rs => r :: (distinctOn key rs).filter fun r' => key r' ≠ key r

theorem distinctOn_of_nodup {rs : List ρ} (h : (rs.map key).Nodup) : distinctOn key rs = rs := by
  induction rs with
  | nil => rfl
  | cons r rs ih =>
      rw [List.map_cons, List.nodup_cons] at h
      rw [distinctOn, ih h.2, List.filter_eq_self.mpr]
      intro r' hr'
      have hne : key r' ≠ key r := fun hk => h.1 (List.mem_map.mpr ⟨r', hr', hk⟩)
      simpa using hne

end Table

end Cuttlefish
