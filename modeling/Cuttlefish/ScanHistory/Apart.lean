import Cuttlefish.ScanHistory.Fresh

/-!
# Cuttlefish.ScanHistory.Apart

Scans of different parts of the disk at the same time.

Any number of runs of the indexer take turns statement by statement, as long as
two of them that are under way at once have no path in common.  A batch of one
run and the cleanup of another then go over the same table without meeting:
neither writes outside its own roots (`sameOutside_next`), so what a run keeps
track of is not disturbed by the others (`Walk.Tracks.same`), and once it has
recorded a success its roots show what its walk reported (`scans_apart`).

All of this is on an index whose hashes have the current width.  On another, a
run that looked at it first and truncates it late clears away what others wrote.
-/

namespace Cuttlefish.ScanHistory

variable {d : Digest}

/-! ## two walks -/

/-- No path is under the roots of both. -/
def Walk.Apart (a b : Walk d) : Prop := ∀ p, CoveredBy a.roots p → ¬ CoveredBy b.roots p

theorem Walk.Apart.symm {a b : Walk d} (h : a.Apart b) : b.Apart a :=
  fun p hb ha => h p ha hb

/-- It is enough to look at the roots: none of them may cover another. -/
theorem Walk.apart_iff {a b : Walk d} : a.Apart b ↔
    ∀ x ∈ a.roots, ∀ y ∈ b.roots, ¬ scanRootCovers x y ∧ ¬ scanRootCovers y x := by
  constructor
  · intro h x hx y hy
    exact ⟨fun hcov => h y ⟨x, hx, hcov⟩ ⟨y, hy, scanRootCovers_self y⟩,
      fun hcov => h x ⟨x, hx, scanRootCovers_self x⟩ ⟨y, hy, hcov⟩⟩
  · rintro h p ⟨x, hx, hxp⟩ ⟨y, hy, hyp⟩
    rcases hxp.total hyp with hcov | hcov
    · exact (h x hx y hy).1 hcov
    · exact (h x hx y hy).2 hcov

instance (a b : Walk d) : Decidable (a.Apart b) := decidable_of_iff _ Walk.apart_iff.symm

def Job.Apart : Job d → Job d → Prop
  | .indexer a, .indexer b => a.Apart b
  | _, _ => True

instance : (a b : Job d) → Decidable (a.Apart b)
  | .indexer a, .indexer b => inferInstanceAs (Decidable (a.Apart b))
  | .indexer _, .aggregator => .isTrue trivial
  | .aggregator, _ => .isTrue trivial

/-- Outside these roots the two indexes have the same rows. -/
def SameOutside (roots : List Bytes) (index index' : Index) : Prop :=
  ∀ x : IndexRow, ¬ CoveredBy roots x.raw → (x ∈ index' ↔ x ∈ index)

/-- Under these roots the two indexes have the same rows. -/
def SameUnder (roots : List Bytes) (index index' : Index) : Prop :=
  ∀ x : IndexRow, CoveredBy roots x.raw → (x ∈ index' ↔ x ∈ index)

theorem SameOutside.refl (roots : List Bytes) (index : Index) : SameOutside roots index index :=
  fun _ _ => Iff.rfl

/-- What one run writes is out of sight of a run that is apart from it. -/
theorem SameOutside.under {a b : Walk d} {index index' : Index} (hapart : a.Apart b)
    (h : SameOutside a.roots index index') : SameUnder b.roots index index' :=
  fun x hb => h x (hapart.symm x.raw hb)

/-! ## a statement of one run -/

section Statements

variable {paths : Set Bytes} {index : Index} {walk : Walk d}

theorem sameOutside_insertBatch (hfree : CollisionFree d paths) (hindex : Recorded d paths index)
    (hwalk : ∀ e ∈ walk.entries, e.1 ∈ paths) {pending : List (Bytes × Metadata)}
    (hsub : pending.Sublist walk.entries) (seen : List Bytes) :
    SameOutside walk.roots index
      (insertBatch ⟨index, [], seen⟩ (pending.map fun e => fileRecord d e.1 e.2)).index := by
  have hentries : ∀ e ∈ (walk.batchRun pending hsub).entries, e.1 ∈ paths :=
    fun e he => hwalk e (hsub.subset he)
  rw [← afterBatches_batchRun hsub seen]
  exact fun x hx => ScanRun.mem_afterBatches_of_not_covered hfree hentries hindex hx

theorem sameOutside_flush (hfree : CollisionFree d paths)
    (hwalk : ∀ e ∈ walk.entries, e.1 ∈ paths) {k : Consumer}
    {done pending : List (Bytes × Metadata)} (hindex : Recorded d paths k.db.index)
    (h : walk.Follows k done pending) (hstaging : k.db.stagingIndex = []) (fails : Nat → Bool) :
    SameOutside walk.roots k.db.index (k.flush fails).db.index := by
  obtain ⟨⟨index, staging, seen⟩, batch, flushed, total, failed⟩ := k
  cases hstaging
  obtain ⟨hreceived, rfl, -⟩ := h
  have hsub : pending.Sublist walk.entries := by
    have happend : (done ++ pending).Sublist walk.entries := hreceived ▸ List.take_sublist _ _
    exact (List.sublist_append_right done pending).trans happend
  unfold Consumer.flush tryInsertBatch
  dsimp only at hindex ⊢
  cases fails flushed with
  | true => exact .refl _ _
  | false => exact sameOutside_insertBatch hfree hindex hwalk hsub seen

theorem sameOutside_receive (hfree : CollisionFree d paths)
    (hwalk : ∀ e ∈ walk.entries, e.1 ∈ paths) {k : Consumer}
    {done pending : List (Bytes × Metadata)} (hindex : Recorded d paths k.db.index)
    (h : walk.Follows k done pending) (hstaging : k.db.stagingIndex = []) (fails : Nat → Bool)
    {e : Bytes × Metadata} (he : walk.entries[k.totalProcessed]? = some e) :
    SameOutside walk.roots k.db.index (k.receive fails (fileRecord d e.1 e.2)).db.index := by
  have hpush := h.push he
  unfold Consumer.receive
  dsimp only
  split_ifs
  · exact sameOutside_flush (k := { k with
      batch := k.batch ++ [fileRecord d e.1 e.2], totalProcessed := k.totalProcessed + 1 })
      hfree hwalk hindex hpush hstaging fails
  · exact .refl _ _

theorem sameOutside_drain (hfree : CollisionFree d paths)
    (hwalk : ∀ e ∈ walk.entries, e.1 ∈ paths) {c : Intake} (hindex : Recorded d paths index)
    {done pending : List (Bytes × Metadata)} (h : walk.Follows (c.consumer index) done pending)
    (fails : Bool) : SameOutside walk.roots index (c.drain fails index).db.index := by
  unfold Intake.drain
  split_ifs
  · exact .refl _ _
  · exact sameOutside_flush hfree hwalk hindex h rfl fun _ => fails

theorem sameOutside_cleanup (hindex : Recorded d paths index) (seen : List Bytes) :
    SameOutside walk.roots index (cleanupStaleEntries index seen walk.roots) := by
  intro x hx
  rw [mem_cleanupStaleEntries fun y hy => (hindex y hy).1.absolute]
  exact ⟨fun h => h.1, fun h => ⟨h, Or.inr hx⟩⟩

/-- **A run writes under its own roots only.** -/
theorem sameOutside_next (hfree : CollisionFree d paths)
    (hwalk : ∀ e ∈ walk.entries, e.1 ∈ paths) {id : Text} {t t' : Tables} {s s' : Stage}
    {m : Move} (hindex : Recorded d paths t.filesystemIndex)
    (h : walk.Tracks t.filesystemIndex s) (hnext : walk.next id t s m = some (t', s')) :
    SameOutside walk.roots t.filesystemIndex t'.filesystemIndex := by
  unfold Walk.next at hnext
  split at hnext
  next c fails reports =>
      obtain ⟨e, he, hnext⟩ := Option.map_eq_some_iff.mp hnext
      cases hnext
      obtain ⟨done, pending, hfollows⟩ := h
      exact sameOutside_receive hfree hwalk hindex hfollows rfl (fun _ => fails) he
  next c panics fails =>
      split_ifs at hnext
      cases hnext
      obtain ⟨done, pending, hfollows⟩ := h
      exact sameOutside_drain hfree hwalk hindex hfollows fails
  next =>
      cases hnext
      exact .refl _ _
  next =>
      cases hnext
      exact .refl _ _
  next c fails =>
      split_ifs at hnext <;> cases hnext
      · exact .refl _ _
      · exact sameOutside_cleanup hindex c.seenHashes
  next =>
      cases hnext
      exact .refl _ _
  next => contradiction

end Statements

/-! ## what a run keeps track of -/

section Same

variable {walk : Walk d} {index index' : Index}

theorem Present.same {entries : List (Bytes × Metadata)} (h : Present d index entries)
    (hcovered : ∀ e ∈ entries, CoveredBy walk.roots e.1)
    (hsame : SameUnder walk.roots index index') : Present d index' entries := by
  intro e he hne
  obtain ⟨x, hx, hentry⟩ := h e he hne
  have hcov : CoveredBy walk.roots x.raw := raw_of_entry hentry ▸ hcovered e he
  exact ⟨x, (hsame x hcov).mpr hx, hentry⟩

theorem Reflects.same (h : Reflects index walk) (hsame : SameUnder walk.roots index index') :
    Reflects index' walk where
  present := h.present.same walk.covered hsame
  only x hx hcov := h.only x ((hsame x hcov).mp hx) hcov

theorem Walk.Follows.covered {k : Consumer} {done pending : List (Bytes × Metadata)}
    (h : walk.Follows k done pending) : ∀ e ∈ done, CoveredBy walk.roots e.1 := by
  intro e he
  have hmem : e ∈ walk.entries.take k.totalProcessed :=
    h.received ▸ List.mem_append_left pending he
  exact walk.covered e (List.mem_of_mem_take hmem)

/-- **A run does not notice** what happens outside its roots. -/
theorem Walk.Tracks.same {s : Stage} (h : walk.Tracks index s)
    (hsame : SameUnder walk.roots index index') : walk.Tracks index' s := by
  cases s with
  | consuming c =>
      obtain ⟨done, pending, hfollows⟩ := h
      exact ⟨done, pending, hfollows.received, hfollows.batch_eq, fun hok =>
        ⟨(hfollows.written hok).1, (hfollows.written hok).2.same hfollows.covered hsame⟩⟩
  | walked c => exact ⟨h.1, h.2.same walk.covered hsame⟩
  | resolved c => exact ⟨h.1, h.2.same walk.covered hsame⟩
  | cleaned c => exact Reflects.same h hsame
  | ending status files =>
      cases status with
      | success => exact Reflects.same h hsame
      | failed => trivial
  | _ => trivial

end Same

/-! ## what a process was before it moved -/

/-- A run under way was about to be recorded, or was under way already. -/
theorem Process.next_recorded {p : Process d} {now : Int} {t t' : Tables} {m : Move} {s : Int}
    {stage' : Stage} (h : p.next now t m = some (t', .recorded s stage')) :
    (stage' = p.job.firstStage ∧ t'.filesystemIndex = t.filesystemIndex) ∨
      ∃ stage, p.phase = .recorded s stage ∧
        p.job.next p.sessionId t stage m = some (t', stage') := by
  obtain ⟨job, id, phase⟩ := p
  unfold Process.next at h
  split at h
  next => contradiction
  next => cases h
  next => cases h
  next =>
      have hphase := congrArg Prod.snd (Option.some.inj h)
      dsimp only at hphase
      split_ifs at hphase
  next => cases h
  next =>
      obtain ⟨sessions, -, h⟩ := Option.map_eq_some_iff.mp h
      cases h
      exact Or.inl ⟨rfl, rfl⟩
  next =>
      split_ifs at h <;> cases h
  next startedAt stage heq _ _ =>
      cases heq
      obtain ⟨⟨t₁, s₁⟩, hnext, h⟩ := Option.map_eq_some_iff.mp h
      cases h
      exact Or.inr ⟨stage, rfl, hnext⟩
  next => contradiction

/-- A run that has recorded its end was about to. -/
theorem Process.next_ended {p : Process d} {now : Int} {t t' : Tables} {m : Move} {s : Int}
    {e : Ended} (h : p.next now t m = some (t', .exited (some ⟨s, some e⟩))) :
    p.phase = .recorded s (.ending e.status e.files) ∧
      t'.filesystemIndex = t.filesystemIndex := by
  obtain ⟨job, id, phase⟩ := p
  unfold Process.next at h
  split at h
  next => contradiction
  next hnot =>
      have hbook : phase.book? = some ⟨s, some e⟩ := by
        have hphase := congrArg Prod.snd (Option.some.inj h)
        exact Phase.exited.inj hphase
      have hexited := isExited_of_ended hbook rfl
      cases phase with
      | exited book => exact absurd rfl (hnot book)
      | _ => contradiction
  next => cases h
  next =>
      have hphase := congrArg Prod.snd (Option.some.inj h)
      dsimp only at hphase
      split_ifs at hphase
  next => cases h
  next =>
      obtain ⟨sessions, -, h⟩ := Option.map_eq_some_iff.mp h
      cases h
  next startedAt status files fails heq =>
      cases heq
      split_ifs at h <;> cases h
      exact ⟨rfl, rfl⟩
  next =>
      obtain ⟨r, -, h⟩ := Option.map_eq_some_iff.mp h
      cases h
  next => contradiction

/-- Whoever moves is not gone. -/
theorem Process.not_exited_of_next {p : Process d} {now : Int} {t : Tables} {m : Move}
    {r : Tables × Phase} (h : p.next now t m = some r) : p.phase.isExited = false := by
  obtain ⟨job, id, phase⟩ := p
  cases phase with
  | exited book => contradiction
  | _ => rfl

/-! ## over whole runs -/

/-- A run of the indexer starts when no other is under way that has a path in
common with it. -/
def StartsApart (w : World d) : Action d → Prop
  | .spawn job _ => ∀ p ∈ w.processes, p.phase.isExited = false → p.job.Apart job
  | _ => True

instance (w : World d) : (a : Action d) → Decidable (StartsApart w a)
  | .spawn job _ =>
      inferInstanceAs (Decidable (∀ p ∈ w.processes, p.phase.isExited = false → p.job.Apart job))
  | .move .. => .isTrue trivial
  | .tick _ => .isTrue trivial

/-- Runs of the indexer keep apart, and the walks stay within `paths`. -/
def KeptApart (paths : Set Bytes) (w : World d) (a : Action d) : Prop :=
  StartsApart w a ∧ ∀ e ∈ a.entries, e.1 ∈ paths

/-- Every later run of the indexer has no path in common with this one. -/
def LaterApart (processes : List (Process d)) (pid : Nat) (walk : Walk d) : Prop :=
  ∀ q r walk', pid < q → processes[q]? = some r → r.job = .indexer walk' → walk.Apart walk'

/-- What the index owes to a run of the indexer. -/
structure Kept (w : World d) (pid : Nat) (p : Process d) (walk : Walk d) : Prop where
  tracks : ∀ s stage, p.phase = .recorded s stage → walk.Tracks w.tables.filesystemIndex stage
  reflects : ∀ s e, p.phase = .exited (some ⟨s, some e⟩) → e.status = .success →
    LaterApart w.processes pid walk → Reflects w.tables.filesystemIndex walk

/-- Of two runs with a path in common the earlier one is gone. -/
def InTurn (processes : List (Process d)) : Prop :=
  ∀ (q pid : Nat) (r p : Process d) (walk walk' : Walk d), q < pid → processes[q]? = some r →
    processes[pid]? = some p → r.job = .indexer walk → p.job = .indexer walk' →
      r.phase.isExited = false → walk.Apart walk'

structure ApartInv (paths : Set Bytes) (w : World d) : Prop where
  recorded : Recorded d paths w.tables.filesystemIndex
  current : ∀ p ∈ w.processes, p.phase ≠ .outdated
  within : ∀ p ∈ w.processes, ∀ e ∈ p.job.entries, e.1 ∈ paths
  inTurn : InTurn w.processes
  kept : ∀ pid p walk, w.processes[pid]? = some p → p.job = .indexer walk → Kept w pid p walk

section Moves

variable {paths : Set Bytes} {w : World d} {pid q : Nat} {p r : Process d} {phase : Phase}
  {m : Move} {t' : Tables}

/-- The slots after a move. -/
theorem getElem?_moved (hp : w.processes[pid]? = some p)
    (hr : (w.processes.set pid { p with phase := phase })[q]? = some r) :
    (q = pid ∧ r = { p with phase := phase }) ∨ (q ≠ pid ∧ w.processes[q]? = some r) := by
  by_cases hq : q = pid
  · subst hq
    rw [List.getElem?_set_self (List.getElem?_eq_some_iff.mp hp).1] at hr
    exact Or.inl ⟨rfl, (Option.some.inj hr).symm⟩
  · rw [List.getElem?_set_ne (Ne.symm hq)] at hr
    exact Or.inr ⟨hq, hr⟩

/-- A process keeps its job, and what is gone stays gone. -/
theorem exists_before (hp : w.processes[pid]? = some p)
    (hlive : p.phase.isExited = false)
    (hr : (w.processes.set pid { p with phase := phase })[q]? = some r) :
    ∃ r₀, w.processes[q]? = some r₀ ∧ r₀.job = r.job ∧
      (r.phase.isExited = false → r₀.phase.isExited = false) := by
  rcases getElem?_moved hp hr with ⟨rfl, rfl⟩ | ⟨-, hold⟩
  · exact ⟨p, hp, rfl, fun _ => hlive⟩
  · exact ⟨r, hold, rfl, id⟩

theorem InTurn.move (h : InTurn w.processes) (hp : w.processes[pid]? = some p)
    (hlive : p.phase.isExited = false) :
    InTurn (w.processes.set pid { p with phase := phase }) := by
  intro q₁ q₂ r₁ r₂ walk walk' hlt hr₁ hr₂ hjob hjob' hexited
  obtain ⟨s₁, hs₁, hsame₁, hback⟩ := exists_before hp hlive hr₁
  obtain ⟨s₂, hs₂, hsame₂, -⟩ := exists_before hp hlive hr₂
  exact h q₁ q₂ s₁ s₂ walk walk' hlt hs₁ hs₂ (hsame₁.trans hjob) (hsame₂.trans hjob')
    (hback hexited)

theorem LaterApart.back {walk : Walk d} (hp : w.processes[pid]? = some p)
    (h : LaterApart (w.processes.set pid { p with phase := phase }) q walk) :
    LaterApart w.processes q walk := by
  intro q' r' walk' hlt hr' hjob
  by_cases hq : q' = pid
  · subst hq
    cases hp.symm.trans hr'
    refine h q' { p with phase := phase } walk' hlt ?_ hjob
    rw [List.getElem?_set_self (List.getElem?_eq_some_iff.mp hp).1]
  · refine h q' r' walk' hlt ?_ hjob
    rw [List.getElem?_set_ne (Ne.symm hq)]
    exact hr'

variable (hfree : CollisionFree d paths) (hkcore : kcore ∈ paths) (h : ApartInv paths w)
  (hp : w.processes[pid]? = some p) (hnext : p.next w.clock w.tables m = some (t', phase))

include hfree h hp hnext

include hkcore in
/-- **A move leaves the rows well formed.** -/
theorem recorded_move (hcounted : p.Counted) : Recorded d paths t'.filesystemIndex := by
  have hmem := List.mem_of_getElem? hp
  cases next_writes (h.current p hmem) hnext with
  | none _ hsame => exact hsame ▸ h.recorded
  | @indexer walk s stage stage' m' hjob hphase hstage =>
      have hwithin := h.within p hmem
      rw [hjob] at hwithin
      have hstageCounted : walk.Counted stage := by
        simpa [Process.Counted, hjob, hphase] using hcounted
      exact (tracks_next hfree hwithin h.recorded ((h.kept pid p walk hp hjob).tracks s stage hphase)
        hstageCounted hstage).1
  | aggregator _ _ hstage =>
      rcases aggregatorNext_index hstage with hsame | hremoved
      · exact hsame ▸ h.recorded
      · intro x hx
        rw [hremoved] at hx
        exact h.recorded x ((mem_removeKcore hfree h.recorded hkcore).mp hx).1

include hkcore in
/-- **A move of one run is no concern of another**, unless the other is over
and this one came later. -/
theorem kept_other {walk : Walk d} (hq : q ≠ pid) (hr : w.processes[q]? = some r)
    (hjob : r.job = .indexer walk) :
    Kept ⟨t', w.clock, w.processes.set pid { p with phase := phase }⟩ q r walk := by
  have hkept := h.kept q r walk hr hjob
  have hmem := List.mem_of_getElem? hp
  have hlive := Process.not_exited_of_next hnext
  cases next_writes (h.current p hmem) hnext with
  | none _ hsame =>
      refine ⟨fun s stage hphase => ?_, fun s e hphase hsuccess hlater => ?_⟩
      · rw [show t'.filesystemIndex = _ from hsame]
        exact hkept.tracks s stage hphase
      · rw [show t'.filesystemIndex = _ from hsame]
        exact hkept.reflects s e hphase hsuccess (hlater.back hp)
  | @indexer walk' s' stage₀ stage' m' hpjob hpphase hstage =>
      have hwithin := h.within p hmem
      rw [hpjob] at hwithin
      have houtside := sameOutside_next hfree hwithin h.recorded
        ((h.kept pid p walk' hp hpjob).tracks s' stage₀ hpphase) hstage
      have hunder : walk'.Apart walk →
          SameUnder walk.roots w.tables.filesystemIndex t'.filesystemIndex := houtside.under
      -- the run that moves came first and is under way, or came later
      have hfirst : pid < q → walk'.Apart walk := fun hlt =>
        h.inTurn pid q p r walk' walk hlt hp hr hpjob hjob hlive
      refine ⟨fun s stage hphase => ?_, fun s e hphase hsuccess hlater => ?_⟩
      · refine (hkept.tracks s stage hphase).same (hunder ?_)
        rcases Nat.lt_or_gt_of_ne hq with hlt | hgt
        · have hexited : r.phase.isExited = false := by rw [hphase]; rfl
          exact (h.inTurn q pid r p walk walk' hlt hr hp hjob hpjob hexited).symm
        · exact hfirst hgt
      · refine (hkept.reflects s e hphase hsuccess (hlater.back hp)).same (hunder ?_)
        rcases Nat.lt_or_gt_of_ne hq with hlt | hgt
        · exact ((hlater.back hp) pid p walk' hlt hp hpjob).symm
        · exact hfirst hgt
  | aggregator hpjob hpphase hstage =>
      refine ⟨fun s stage hphase => ?_, fun s e hphase hsuccess hlater => ?_⟩
      · rcases aggregatorNext_index hstage with hsame | hremoved
        · rw [hsame]
          exact hkept.tracks s stage hphase
        · rw [hremoved]
          exact (hkept.tracks s stage hphase).removeKcore hfree h.recorded hkcore
      · rcases aggregatorNext_index hstage with hsame | hremoved
        · rw [hsame]
          exact hkept.reflects s e hphase hsuccess (hlater.back hp)
        · rw [hremoved]
          exact reflects_removeKcore hfree h.recorded hkcore
            (hkept.reflects s e hphase hsuccess (hlater.back hp))

/-- **A move keeps what the index owes to the run that makes it.** -/
theorem kept_self {walk : Walk d} (hjob : p.job = .indexer walk) (hcounted : p.Counted) :
    Kept ⟨t', w.clock, w.processes.set pid { p with phase := phase }⟩ pid
      { p with phase := phase } walk where
  tracks s stage' hphase := by
    cases hphase
    rcases Process.next_recorded hnext with ⟨hfirst, -⟩ | ⟨stage, hphase, hstage⟩
    · rw [hfirst, hjob]
      exact ⟨[], [], rfl, rfl, fun _ => ⟨rfl, fun e he => absurd he List.not_mem_nil⟩⟩
    · have hwithin := h.within p (List.mem_of_getElem? hp)
      rw [hjob] at hwithin hstage
      have hstageCounted : walk.Counted stage := by
        simpa [Process.Counted, hjob, hphase] using hcounted
      exact (tracks_next hfree hwithin h.recorded ((h.kept pid p walk hp hjob).tracks s stage hphase)
        hstageCounted hstage).2
  reflects s e hphase hsuccess _ := by
    cases hphase
    obtain ⟨hphase, hsame⟩ := Process.next_ended hnext
    have htracks := (h.kept pid p walk hp hjob).tracks s _ hphase
    rw [hsuccess] at htracks
    rw [show t'.filesystemIndex = _ from hsame]
    exact htracks

end Moves

/-- A run that has just come in has nothing to keep. -/
theorem Kept.starting {w : World d} {pid : Nat} {job : Job d} {id : Text} {walk : Walk d} :
    Kept w pid ⟨job, id, .starting⟩ walk where
  tracks s stage hphase := by cases hphase
  reflects s e hphase := by cases hphase

theorem apartInv_of_reachable {paths : Set Bytes} (hfree : CollisionFree d paths)
    (hkcore : kcore ∈ paths) {db : Db} (hdb : Recorded d paths db.filesystemIndex)
    {dirStats : DirStats} {userStats : Table UserStatsRow.key} {w : World d}
    (h : Reachable World.step (KeptApart paths) (World.init db dirStats userStats) w) :
    ApartInv paths w := by
  refine h.invariant (fun w => ApartInv paths w) ?_ ?_
  · refine ⟨hdb, fun p hp => by contradiction, fun p hp => by contradiction, ?_,
      fun pid p walk hp => ?_⟩
    · intro q pid r p walk walk' _ hr
      simp [World.init] at hr
    · simp [World.init] at hp
  · intro w a w' hreached ih hmeets hstep
    cases a with
    | spawn job id =>
        cases hstep
        refine ⟨ih.recorded, fun p hp => ?_, fun p hp => ?_, ?_, fun pid p walk hp hjob => ?_⟩
        · cases List.mem_append.mp hp with
          | inl hold => exact ih.current p hold
          | inr hlast =>
              rw [List.mem_singleton.mp hlast]
              simp
        · cases List.mem_append.mp hp with
          | inl hold => exact ih.within p hold
          | inr hlast =>
              rw [List.mem_singleton.mp hlast]
              exact hmeets.2
        · intro q pid r p walk walk' hlt hr hp hjob hjob' hlive
          rw [List.getElem?_append] at hr hp
          split at hp
          next hpid =>
              rw [if_pos (by omega)] at hr
              exact ih.inTurn q pid r p walk walk' hlt hr hp hjob hjob' hlive
          next hpid =>
              -- the run that comes in is the later one
              have hnew := List.mem_singleton.mp (List.mem_of_getElem? hp)
              have hpid' := (List.getElem?_eq_some_iff.mp hp).1
              rw [List.length_singleton] at hpid'
              rw [if_pos (by omega)] at hr
              rw [hnew] at hjob'
              cases hjob'
              have hapart := hmeets.1 r (List.mem_of_getElem? hr) hlive
              rwa [hjob] at hapart
        · rw [List.getElem?_append] at hp
          split at hp
          next hpid =>
              have hkept := ih.kept pid p walk hp hjob
              refine ⟨hkept.tracks, fun s e hphase hsuccess hlater => ?_⟩
              refine hkept.reflects s e hphase hsuccess fun q r walk' hlt hr hjob' => ?_
              have hq := (List.getElem?_eq_some_iff.mp hr).1
              exact hlater q r walk' hlt (by rw [List.getElem?_append_left hq]; exact hr) hjob'
          next =>
              rw [List.mem_singleton.mp (List.mem_of_getElem? hp)]
              exact .starting
    | move pid m =>
        obtain ⟨p, hp, hstep⟩ := Option.bind_eq_some_iff.mp hstep
        obtain ⟨⟨t', phase⟩, hnext, hstep⟩ := Option.map_eq_some_iff.mp hstep
        cases hstep
        have hmem := List.mem_of_getElem? hp
        have hcounted : p.Counted := forall_process (fun job _ => by cases job <;> trivial)
          counted_next hreached p hmem
        refine ⟨recorded_move hfree hkcore ih hp hnext hcounted, fun r hr => ?_, fun r hr => ?_,
          ih.inTurn.move hp (Process.not_exited_of_next hnext), fun q r walk hr hjob => ?_⟩
        · cases List.mem_or_eq_of_mem_set hr with
          | inl hold => exact ih.current r hold
          | inr hmoved => exact hmoved ▸ next_current ih.recorded hnext
        · cases List.mem_or_eq_of_mem_set hr with
          | inl hold => exact ih.within r hold
          | inr hmoved => exact hmoved ▸ ih.within p hmem
        · rcases getElem?_moved hp hr with ⟨rfl, rfl⟩ | ⟨hq, hold⟩
          · exact kept_self hfree ih hp hnext hjob hcounted
          · exact kept_other hfree hkcore ih hp hnext hq hold hjob
    | tick n =>
        cases hstep
        exact ⟨ih.recorded, ih.current, ih.within, ih.inTurn, fun pid p walk hp hjob =>
          ⟨(ih.kept pid p walk hp hjob).tracks, (ih.kept pid p walk hp hjob).reflects⟩⟩

/-- **Scans of different parts of the disk do not disturb each other.**  Let
runs of the indexer that are under way at once have no path in common; they and
any aggregators take turns at every statement, and any of them may die.  A row
that says `success` belongs to a run whose walk was written whole, and as long
as no later run goes over any of its paths, the index shows under its roots
what that walk reported, and nothing else. -/
theorem scans_apart {paths : Set Bytes} (hfree : CollisionFree d paths) (hkcore : kcore ∈ paths)
    {db : Db} (hdb : Recorded d paths db.filesystemIndex) {dirStats : DirStats}
    {userStats : Table UserStatsRow.key} {w : World d}
    (hw : Reachable World.step (KeptApart paths) (World.init db dirStats userStats) w)
    {r : ScanSessionRow} (hr : r ∈ w.tables.scanSessions)
    (htype : r.scanType = ScanType.indexer.text) (hstatus : r.status = EndStatus.success.text) :
    ∃ pid p walk, w.processes[pid]? = some p ∧ p.sessionId = r.sessionId ∧
      p.job = .indexer walk ∧ r.filesScanned = walk.entries.length ∧
      (LaterApart w.processes pid walk →
        ((rowsUnder w.tables.filesystemIndex walk.roots).map IndexRow.entry).Perm
          ((walk.entries.filter fun e => e.1 ≠ kcore).map (rowOf d))) := by
  have hinv := apartInv_of_reachable hfree hkcore hdb hw
  obtain ⟨pid, p, s, e, hp, hphase, hsuccess, hshows⟩ :=
    exists_success (booked_of_reachable hw) hr hstatus
  have hmem := List.mem_of_getElem? hp
  cases hjob : p.job with
  | aggregator =>
      have hbad := ScanType.text_inj (htype.symm.trans hshows.scanType_eq)
      simp [Process.run, hjob, Job.scanType] at hbad
  | indexer walk =>
      have hb : p.phase.book? = some ⟨s, some e⟩ := by rw [hphase]; rfl
      have hcounted : p.Counted := forall_process (fun job _ => by cases job <;> trivial)
        counted_next hw p hmem
      have hwithin := hinv.within p hmem
      rw [hjob] at hwithin
      refine ⟨pid, p, walk, hp, hshows.sessionId_eq.symm, hjob, ?_, fun hlater => ?_⟩
      · rw [(hshows.ended e rfl).2.2]
        exact hcounted.files hjob hb rfl hsuccess
      · exact ((hinv.kept pid p walk hp hjob).reflects s e hphase hsuccess hlater).perm hfree
          hwithin

/-! ### an instance -/

/-- A walk of `/proc` alone. -/
def procWalk : Walk kcoreDigest where
  config := ⟨some (utf8 "/proc".toList), [], 8⟩
  roots := [utf8 "/proc".toList]
  accepted := by decide
  host := ⟨fun _ => none, fun _ _ => none, fun _ => none⟩
  entries := [(utf8 "/proc".toList, sampleMetadata)]
  covered := by
    have hcovered : CoveredBy [utf8 "/proc".toList] (utf8 "/proc".toList) := by decide
    intro e he
    rw [List.mem_singleton.mp he]
    exact hcovered
  nodup := List.nodup_singleton _

/-- The two scans take turns; the second one starts while the first is under
way, and cleans up before it. -/
def overlappingActions : List (Action kcoreDigest) :=
  [.spawn sampleJob "a".toList, .move 0 (.reap false), .move 0 .measure, .move 0 .recordStart,
    .move 0 (.receive false false), .spawn (.indexer procWalk) "b".toList, .move 1 (.reap false),
    .move 1 .measure, .move 1 .recordStart, .move 1 (.receive false false),
    .move 0 (.receive false true), .move 1 (.close false false), .move 1 (.resolve none),
    .move 1 (.cleanup false), .move 0 (.close false false), .move 0 (.resolve none),
    .move 0 (.cleanup false), .move 0 (.createIndexes false), .move 0 (.endSession false)]

/-- What the first scan records at its end. -/
def homeRow : ScanSessionRow :=
  ⟨"a".toList, ScanType.indexer.text, EndStatus.success.text, some 0, some 0, 2⟩

theorem exists_overlapping : ∃ w : World kcoreDigest,
    Reachable World.step (KeptApart {p | p ∈ fiveBytesPaths}) sampleWorld w ∧
      homeRow ∈ w.tables.scanSessions.rows ∧ w.processes.length = 2 := by
  obtain ⟨w, hw, hrows⟩ := exists_reachable World.step
    (fun w a => StartsApart w a ∧ ∀ e ∈ a.entries, e.1 ∈ fiveBytesPaths) sampleWorld
    (fun w => homeRow ∈ w.tables.scanSessions.rows ∧ w.processes.length = 2) overlappingActions
    (by decide +kernel)
  exact ⟨w, hw.mono fun s a hP => hP, hrows⟩

theorem scans_apart_home : ∃ w : World kcoreDigest, w.processes.length = 2 ∧
    ∃ pid p walk, w.processes[pid]? = some p ∧ p.sessionId = "a".toList ∧
      p.job = .indexer walk ∧ (2 : Int) = walk.entries.length ∧
      (LaterApart w.processes pid walk →
        ((rowsUnder w.tables.filesystemIndex walk.roots).map IndexRow.entry).Perm
          ((walk.entries.filter fun e => e.1 ≠ kcore).map (rowOf kcoreDigest))) := by
  obtain ⟨w, hw, hrow, htwo⟩ := exists_overlapping
  have hkcore : kcore ∈ {p | p ∈ fiveBytesPaths} := by
    have hmem : kcore ∈ fiveBytesPaths := by decide +kernel
    exact hmem
  exact ⟨w, htwo, scans_apart pathsInPlay_fiveBytes.free hkcore
    (fun x hx => absurd hx (Table.not_mem_empty x)) hw hrow rfl rfl⟩

end Cuttlefish.ScanHistory
