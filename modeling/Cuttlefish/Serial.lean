import Mathlib.Data.List.Nodup
import Mathlib.Tactic.Common

/-!
# Cuttlefish.Serial

Tables whose rows are numbered by a sequence, and what a history of requests
says about them.

A `Serial ρ` carries that its numbers are distinct and below the next one.  A
history is a list of events of any kind, of which some insert a numbered row
and some delete a number; `Live` are the rows that were inserted and have not
been deleted since.  `Follows.step` is the rule for one more event, whatever
became of it.
-/

namespace Cuttlefish

/-- Rows under the numbers of a sequence. -/
structure Serial (ρ : Type) where
  rows : List (Nat × ρ)
  next : Nat
  nodup : (rows.map Prod.fst).Nodup
  lt : ∀ r ∈ rows, r.1 < next

namespace Serial

variable {ρ ε : Type} {t t' : Serial ρ}

/-- No rows, and nothing drawn. -/
def empty (first : Nat) : Serial ρ := ⟨[], first, List.nodup_nil, fun r hr => by cases hr⟩

theorem not_mem_fst (t : Serial ρ) : t.next ∉ t.rows.map Prod.fst := by
  intro h
  obtain ⟨r, hr, hnext⟩ := List.mem_map.mp h
  have hlt := t.lt r hr
  omega

/-- A row under the next number. -/
def insert (t : Serial ρ) (r : ρ) : Serial ρ where
  rows := t.rows ++ [(t.next, r)]
  next := t.next + 1
  nodup := by
    rw [List.map_append, List.map_singleton]
    exact List.Nodup.append t.nodup (List.nodup_singleton _)
      (List.disjoint_singleton.mpr t.not_mem_fst)
  lt r' hr' := by
    cases List.mem_append.mp hr' with
    | inl hold => exact Nat.lt_succ_of_lt (t.lt r' hold)
    | inr hnew =>
        rw [List.mem_singleton.mp hnew]
        exact Nat.lt_succ_self _

/-- A number is drawn for a row that does not get in. -/
def skip (t : Serial ρ) : Serial ρ where
  rows := t.rows
  next := t.next + 1
  nodup := t.nodup
  lt r hr := Nat.lt_succ_of_lt (t.lt r hr)

/-- `DELETE … WHERE id = …`. -/
def delete (t : Serial ρ) (id : Int) : Serial ρ where
  rows := t.rows.filter fun r => (r.1 : Int) ≠ id
  next := t.next
  nodup := t.nodup.sublist (List.filter_sublist.map _)
  lt r hr := t.lt r (List.mem_of_mem_filter hr)

theorem mem_insert {r : Nat × ρ} {x : ρ} :
    r ∈ (t.insert x).rows ↔ r = (t.next, x) ∨ r ∈ t.rows := by
  simp [insert, or_comm]

theorem mem_delete {r : Nat × ρ} {id : Int} :
    r ∈ (t.delete id).rows ↔ r ∈ t.rows ∧ (r.1 : Int) ≠ id := by
  simp [delete]

/-! ## histories -/

section History

variable (inserts : ε → Option (Nat × ρ)) (deletes : ε → Option Int)

/-- The row was inserted, and its number has not been deleted since. -/
def Live (log : List ε) (r : Nat × ρ) : Prop :=
  ∃ before e since, log = before ++ e :: since ∧ inserts e = some r ∧
    ∀ e' ∈ since, deletes e' ≠ some (r.1 : Int)

variable {inserts deletes} {log : List ε} {e : ε} {r : Nat × ρ}

theorem not_live_nil : ¬ Live inserts deletes [] r := by
  rintro ⟨before, e, since, h, -⟩
  simp at h

/-- One more event. -/
theorem live_append_iff : Live inserts deletes (log ++ [e]) r ↔
    inserts e = some r ∨ Live inserts deletes log r ∧ deletes e ≠ some (r.1 : Int) := by
  constructor
  · rintro ⟨before, x, since, hlog, hx, hsince⟩
    rcases List.eq_nil_or_concat since with rfl | ⟨since', last, rfl⟩
    · obtain ⟨-, hsame⟩ := List.append_inj' hlog rfl
      exact Or.inl (List.singleton_inj.mp hsame ▸ hx)
    · rw [List.concat_eq_append, ← List.cons_append, ← List.append_assoc] at hlog
      obtain ⟨hinit, hsame⟩ := List.append_inj' hlog rfl
      obtain rfl := List.singleton_inj.mp hsame
      rw [List.concat_eq_append] at hsince
      exact Or.inr ⟨⟨before, x, since', hinit, hx, fun e' he' =>
        hsince e' (List.mem_append_left _ he')⟩,
        hsince e (List.mem_append_right _ List.mem_cons_self)⟩
  · rintro (he | ⟨⟨before, x, since, rfl, hx, hsince⟩, he⟩)
    · exact ⟨log, e, [], rfl, he, fun e' he' => by cases he'⟩
    · refine ⟨before, x, since ++ [e], by simp, hx, fun e' he' => ?_⟩
      cases List.mem_append.mp he' with
      | inl hold => exact hsince e' hold
      | inr hnew => exact List.mem_singleton.mp hnew ▸ he

theorem Live.exists_mem (h : Live inserts deletes log r) : ∃ e ∈ log, inserts e = some r := by
  obtain ⟨before, e, since, rfl, he, -⟩ := h
  exact ⟨e, by simp, he⟩

variable (inserts deletes)

/-- What one event did to the table. -/
inductive Does (t t' : Serial ρ) (e : ε) : Prop
  | insert (r : ρ) (htable : t' = t.insert r) (hinserts : inserts e = some (t.next, r))
      (hdeletes : deletes e = none)
  | delete (id : Int) (htable : t' = t.delete id) (hinserts : inserts e = none)
      (hdeletes : deletes e = some id)
  | skip (htable : t' = t.skip) (hinserts : inserts e = none) (hdeletes : deletes e = none)
  | nothing (htable : t' = t) (hinserts : inserts e = none) (hdeletes : deletes e = none)

/-- The table is what the history says, and no number was given out twice. -/
structure Follows (t : Serial ρ) (log : List ε) : Prop where
  mem_iff : ∀ r, r ∈ t.rows ↔ Live inserts deletes log r
  drawn : ∀ r ∈ log.filterMap inserts, r.1 < t.next
  once : ((log.filterMap inserts).map Prod.fst).Nodup

variable {inserts deletes}

theorem follows_empty (first : Nat) : Follows inserts deletes (empty first) ([] : List ε) where
  mem_iff r := ⟨fun h => absurd h List.not_mem_nil, fun h => absurd h not_live_nil⟩
  drawn r hr := by cases hr
  once := List.nodup_nil

theorem filterMap_append_none (h : inserts e = none) :
    (log ++ [e]).filterMap inserts = log.filterMap inserts := by
  simp [h]

/-- **One more event**, whatever it did. -/
theorem Follows.step (h : Follows inserts deletes t log) (hdoes : Does inserts deletes t t' e) :
    Follows inserts deletes t' (log ++ [e]) := by
  cases hdoes with
  | insert x htable hinserts hdeletes =>
      subst htable
      refine ⟨fun r => ?_, fun r hr => ?_, ?_⟩
      · rw [mem_insert, live_append_iff, hinserts, h.mem_iff r, hdeletes]
        simp [eq_comm]
      · rw [List.filterMap_append, List.mem_append] at hr
        cases hr with
        | inl hold => exact Nat.lt_succ_of_lt (h.drawn r hold)
        | inr hnew =>
            simp only [List.filterMap_cons, hinserts, List.filterMap_nil,
              List.mem_singleton] at hnew
            rw [hnew]
            exact Nat.lt_succ_self _
      · rw [List.filterMap_append, List.map_append]
        refine List.Nodup.append h.once ?_ ?_
        · simp [hinserts]
        · simp only [List.filterMap_cons, hinserts, List.filterMap_nil, List.map_cons,
            List.map_nil]
          refine List.disjoint_singleton.mpr fun hmem => ?_
          obtain ⟨r, hr, hnext⟩ := List.mem_map.mp hmem
          have hlt := h.drawn r hr
          omega
  | delete id htable hinserts hdeletes =>
      subst htable
      refine ⟨fun r => ?_, ?_, ?_⟩
      · rw [mem_delete, live_append_iff, hinserts, h.mem_iff r, hdeletes]
        simp [eq_comm]
      · rw [filterMap_append_none hinserts]
        exact h.drawn
      · rw [filterMap_append_none hinserts]
        exact h.once
  | skip htable hinserts hdeletes =>
      subst htable
      refine ⟨fun r => ?_, fun r hr => ?_, ?_⟩
      · rw [live_append_iff, hinserts, hdeletes, ← h.mem_iff r]
        simp [skip]
      · rw [filterMap_append_none hinserts] at hr
        exact Nat.lt_succ_of_lt (h.drawn r hr)
      · rw [filterMap_append_none hinserts]
        exact h.once
  | nothing htable hinserts hdeletes =>
      subst htable
      refine ⟨fun r => ?_, ?_, ?_⟩
      · rw [live_append_iff, hinserts, hdeletes, ← h.mem_iff r]
        simp
      · rw [filterMap_append_none hinserts]
        exact h.drawn
      · rw [filterMap_append_none hinserts]
        exact h.once

end History

end Serial

end Cuttlefish
