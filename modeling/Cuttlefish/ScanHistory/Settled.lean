import Cuttlefish.ScanHistory.Register

/-!
# Cuttlefish.ScanHistory.Settled

The history of runs that do not overlap: `fs_indexer` and `fs_aggregator` are
not meant to run two at a time against the same database.  As long as each
starts only when the last run of its type is gone, and the reaper gets
through, a type never has two rows that are `running`
(`running_row_settled`).

`Settled` is the invariant, about the register.  What keeps it is that behind
its reaper a run is alone with its own row.
-/

namespace Cuttlefish.ScanHistory

variable {d : Digest}

/-- A run starts when no other of its type is under way. -/
def OneAtATime (w : World d) : Action d → Prop
  | .spawn job _ => ∀ p ∈ w.processes, p.job.scanType = job.scanType → p.phase.isExited = true
  | _ => True

def ReapsSucceed : Action d → Prop
  | .move _ (.reap fails) => fails = false
  | _ => True

instance (w : World d) : (a : Action d) → Decidable (OneAtATime w a)
  | .spawn job _ => inferInstanceAs (Decidable (∀ p ∈ w.processes,
      p.job.scanType = job.scanType → p.phase.isExited = true))
  | .move _ _ => inferInstanceAs (Decidable True)
  | .tick _ => inferInstanceAs (Decidable True)

instance : (a : Action d) → Decidable (ReapsSucceed a)
  | .move _ (.reap fails) => inferInstanceAs (Decidable (fails = false))
  | .move _ .measure | .move _ .truncate | .move _ .recordStart | .move _ (.receive _ _)
  | .move _ (.close _ _)
  | .move _ (.resolve _) | .move _ (.cleanup _) | .move _ (.createIndexes _)
  | .move _ .checkWidth | .move _ .removeKcore | .move _ (.stream _) | .move _ .commit
  | .move _ .giveUp | .move _ (.endSession _) | .move _ .crash | .spawn _ _ | .tick _ =>
      inferInstanceAs (Decidable True)

/-! ## rows after a statement -/

section Rows

variable {t : Sessions} {r : ScanSessionRow} {id : Text} {now : Int}

theorem running_of_reap {type : ScanType} (hr : r ∈ reapStaleScanSessions t type now)
    (hrunning : r.status = running) : r ∈ t ∧ r.scanType ≠ type.text := by
  obtain ⟨old, hold, rfl⟩ := Table.mem_update.mp hr
  split_ifs at hrunning ⊢ with hstale
  · exact absurd hrunning (EndStatus.text_ne_running .failed)
  · refine ⟨hold, fun htype => hstale ?_⟩
    rw [isStale, Bool.and_eq_true, decide_eq_true_eq, decide_eq_true_eq]
    exact ⟨htype, hrunning⟩

theorem running_of_end {status : EndStatus} {files : Int}
    (hr : r ∈ endScanSession t id status files now) (hrunning : r.status = running) :
    r ∈ t ∧ r.sessionId ≠ id := by
  obtain ⟨old, hold, rfl⟩ := Table.mem_update.mp hr
  split_ifs at hrunning ⊢ with hid
  · exact absurd hrunning status.text_ne_running
  · exact ⟨hold, by simpa using hid⟩

/-- Progress changes a count. -/
theorem exists_of_report {files : Int} (hr : r ∈ reportScanProgress t id files) :
    ∃ old ∈ t, r.sessionId = old.sessionId ∧ r.scanType = old.scanType ∧
      r.status = old.status ∧ r.startedAt = old.startedAt := by
  obtain ⟨old, hold, rfl⟩ := Table.mem_update.mp hr
  refine ⟨old, hold, ?_⟩
  split_ifs <;> exact ⟨rfl, rfl, rfl, rfl⟩

/-- No statement but the insert changes when a row says its run started. -/
theorem exists_of_reap {type : ScanType} (hr : r ∈ reapStaleScanSessions t type now) :
    ∃ old ∈ t, r.sessionId = old.sessionId ∧ r.scanType = old.scanType ∧
      r.startedAt = old.startedAt := by
  obtain ⟨old, hold, rfl⟩ := Table.mem_update.mp hr
  refine ⟨old, hold, ?_⟩
  split_ifs <;> exact ⟨rfl, rfl, rfl⟩

theorem exists_of_end {status : EndStatus} {files : Int}
    (hr : r ∈ endScanSession t id status files now) :
    ∃ old ∈ t, r.sessionId = old.sessionId ∧ r.scanType = old.scanType ∧
      r.startedAt = old.startedAt := by
  obtain ⟨old, hold, rfl⟩ := Table.mem_update.mp hr
  refine ⟨old, hold, ?_⟩
  split_ifs <;> exact ⟨rfl, rfl, rfl⟩

end Rows

/-! ## one run at a time -/

/-- No two runs of a type are under way. -/
def Lone (runs : Slots Run) : Prop :=
  ∀ type, runs.AtMostOne fun x => x.live = true ∧ x.scanType = type

/-- What every row says of its start lies in the past. -/
def Past (t : Sessions) (now : Int) : Prop :=
  ∀ r ∈ t, ∃ startedAt, r.startedAt = some startedAt ∧ startedAt ≤ now

/-- The row of a run under way is its own until it ends. -/
def Owned (t : Sessions) (runs : Slots Run) : Prop :=
  runs.All fun x => x.live = true → x.book ≠ none → ∀ r ∈ t, r.sessionId = x.sessionId →
    r.status = running

theorem lone_of_reachable {P : World d → Action d → Prop} {db : Db} {dirStats : DirStats}
    {userStats : Table UserStatsRow.key} {w : World d} (hP : ∀ w a, P w a → OneAtATime w a)
    (h : Reachable World.step P (World.init db dirStats userStats) w) : Lone w.runs := by
  refine h.invariant (fun w => Lone w.runs) ?_ ?_
  · exact fun type q x q' x' hx => absurd hx not_runs_init
  · intro w a w' _ ih hmeets hstep type
    have hone := hP w a hmeets
    cases step_registered hstep with
    | spawn job id hnew hruns =>
        rw [hruns]
        by_cases htype : job.scanType = type
        · -- the others of the type are gone
          refine Slots.Others.atMostOne_set ((Slots.others_of_none hnew).mpr fun q x hx hlive => ?_)
          obtain ⟨p, hp, rfl⟩ := runs_eq_some.mp hx
          have hexited := hone p (List.mem_of_getElem? hp) (hlive.2.trans htype.symm)
          simp [Process.run, hexited] at hlive
        · exact (ih type).set_of_not fun hnewType => htype hnewType.2
    | move hrun hlive hbooking hruns =>
        rw [hruns]
        refine (ih type).set hrun fun hnext => ⟨hlive, ?_⟩
        rw [← hbooking.same.2]
        exact hnext.2
    | tick n hruns => rw [hruns]; exact ih type

theorem Past.of_old {t t' : Sessions} {now : Int} (h : Past t now)
    (hold : ∀ r ∈ t', ∃ old ∈ t, r.startedAt = old.startedAt) : Past t' now := by
  intro r hr
  obtain ⟨old, hmem, hstarted⟩ := hold r hr
  rw [hstarted]
  exact h old hmem

theorem Past.move {t t' : Sessions} {now : Int} {m : Move} {x x' : Run} (h : Past t now)
    (hbooking : Booking m now t x t' x') : Past t' now := by
  cases hbooking with
  | quiet => exact h
  | dies => exact h
  | reapFails => exact h
  | reaps =>
      refine h.of_old fun r hr => ?_
      obtain ⟨old, hold, -, -, hstarted⟩ := exists_of_reap hr
      exact ⟨old, hold, hstarted⟩
  | starts =>
      intro r hr
      rcases Table.mem_insertDoNothing.mp hr with hr | ⟨rfl, -⟩
      · exact h r hr
      · exact ⟨now, rfl, le_refl _⟩
  | reports hbook files =>
      refine h.of_old fun r hr => ?_
      obtain ⟨old, hold, -, -, -, hstarted⟩ := exists_of_report hr
      exact ⟨old, hold, hstarted⟩
  | ends hbook status files =>
      refine h.of_old fun r hr => ?_
      obtain ⟨old, hold, -, -, hstarted⟩ := exists_of_end hr
      exact ⟨old, hold, hstarted⟩

theorem past_of_reachable {P : World d → Action d → Prop} {db : Db} {dirStats : DirStats}
    {userStats : Table UserStatsRow.key} {w : World d}
    (h : Reachable World.step P (World.init db dirStats userStats) w) :
    Past w.tables.scanSessions w.clock := by
  refine h.invariant (fun w => Past w.tables.scanSessions w.clock) ?_ ?_
  · exact fun r hr => absurd hr (Table.not_mem_empty r)
  · intro w a w' _ ih _ hstep
    cases step_registered hstep with
    | spawn job id hnew hruns hsessions hclock => exact hsessions ▸ hclock ▸ ih
    | move hrun hlive hbooking hruns hclock => exact hclock ▸ ih.move hbooking
    | tick n hruns hsessions hclock =>
        intro r hr
        obtain ⟨startedAt, hstarted, hle⟩ := ih r (hsessions ▸ hr)
        exact ⟨startedAt, hstarted, by omega⟩

/-- The row with the id of a recorded run has its type. -/
theorem Booked.scanType_eq {t : Sessions} {runs : Slots Run} {pid : Nat} {x : Run}
    {r : ScanSessionRow} (h : Booked t runs) (hx : runs pid = some x) (hbook : x.book ≠ none)
    (hr : r ∈ t) (hid : r.sessionId = x.sessionId) : r.scanType = x.scanType.text := by
  obtain ⟨q, y, b, hy, hb, hshows⟩ := h.owner r hr
  have hq : q = pid :=
    h.unique q y pid x hy hx (by simp [hb]) hbook (hshows.sessionId_eq.symm.trans hid)
  subst hq
  cases hx.symm.trans hy
  exact hshows.scanType_eq

/-- **While a run is under way its row says so**: nothing but its own end
changes the status. -/
theorem Owned.move {t t' : Sessions} {runs : Slots Run} {pid : Nat} {m : Move} {now : Int}
    {x x' : Run} (h : Owned t runs) (hbooked : Booked t runs) (hlone : Lone runs)
    (hrun : runs pid = some x) (hlive : x.live = true) (hbooking : Booking m now t x t' x') :
    Owned t' (runs.set pid x') := by
  have hothers := h.others pid
  have hself := h pid x hrun
  have halone := (hlone x.scanType).others hrun ⟨hlive, rfl⟩
  rw [Owned, Slots.all_set]
  cases hbooking with
  | quiet => exact ⟨hself, hothers⟩
  | dies => exact ⟨fun hdead => by contradiction, hothers⟩
  | reapFails => exact ⟨hself, hothers⟩
  | reaps hbook =>
      refine ⟨fun _ hne => absurd hbook hne, fun q y hy hq hlive' hne r' hr' hid => ?_⟩
      obtain ⟨r, hr, rfl⟩ := Table.mem_update.mp hr'
      split_ifs at hid ⊢ with hstale
      · -- the other run has another type
        rw [isStale, Bool.and_eq_true, decide_eq_true_eq, decide_eq_true_eq] at hstale
        have htype := hbooked.scanType_eq hy hne hr hid
        exact absurd ⟨hlive', ScanType.text_inj (htype.symm.trans hstale.1)⟩ (halone q y hy hq)
      · exact hothers q y hy hq hlive' hne r hr hid
  | starts hbook hswept hfree =>
      refine ⟨fun _ _ r hr hid => ?_, fun q y hy hq hlive' hne r hr hid => ?_⟩
      · rcases Table.mem_insertDoNothing.mp hr with hr | ⟨rfl, -⟩
        · exact absurd hid (hfree r hr)
        · rfl
      · rcases Table.mem_insertDoNothing.mp hr with hr | ⟨rfl, -⟩
        · exact hothers q y hy hq hlive' hne r hr hid
        · rfl
  | reports hbook files =>
      have hold : ∀ y : Run, (∀ r ∈ t, r.sessionId = y.sessionId → r.status = running) →
          ∀ r ∈ reportScanProgress t x.sessionId files, r.sessionId = y.sessionId →
            r.status = running := by
        intro y hy r hr hid
        obtain ⟨old, hmem, holdId, -, hstatus, -⟩ := exists_of_report hr
        rw [hstatus]
        exact hy old hmem (holdId.symm.trans hid)
      exact ⟨fun hlive' hne => hold x (hself hlive' hne),
        fun q y hy hq hlive' hne => hold y (hothers q y hy hq hlive' hne)⟩
  | ends hbook status files =>
      refine ⟨fun hdead => by contradiction, fun q y hy hq hlive' hne r' hr' hid => ?_⟩
      obtain ⟨r, hr, rfl⟩ := Table.mem_update.mp hr'
      split_ifs at hid ⊢ with hown
      · refine absurd ?_ hq
        exact hbooked.unique q y pid x hy hrun hne (by simp [hbook])
          (hid.symm.trans (decide_eq_true_eq.mp hown))
      · exact hothers q y hy hq hlive' hne r hr hid

theorem owned_of_reachable {P : World d → Action d → Prop} {db : Db} {dirStats : DirStats}
    {userStats : Table UserStatsRow.key} {w : World d} (hP : ∀ w a, P w a → OneAtATime w a)
    (h : Reachable World.step P (World.init db dirStats userStats) w) :
    Owned w.tables.scanSessions w.runs := by
  refine h.invariant (fun w => Owned w.tables.scanSessions w.runs) ?_ ?_
  · exact fun q x hx => absurd hx not_runs_init
  · intro w a w' hreached ih _ hstep
    cases step_registered hstep with
    | spawn job id hnew hruns hsessions =>
        rw [hruns, hsessions]
        exact ih.set fun _ hne => absurd rfl hne
    | move hrun hlive hbooking hruns =>
        rw [hruns]
        exact ih.move (booked_of_reachable hreached) (lone_of_reachable hP hreached) hrun hlive
          hbooking
    | tick n hruns hsessions => rw [hruns, hsessions]; exact ih

/-! ## who started last -/

def Run.startedAt? (x : Run) : Option Int := x.book.map Book.startedAt

/-- A move changes at most once when the run says it started. -/
theorem Booking.startedAt? {m : Move} {now : Int} {t t' : Sessions} {x x' : Run}
    (h : Booking m now t x t' x') :
    x'.startedAt? = x.startedAt? ∨ (x.startedAt? = none ∧ x'.startedAt? = some now) := by
  cases h with
  | starts hbook => exact Or.inr ⟨by simp [Run.startedAt?, hbook], rfl⟩
  | ends hbook => exact Or.inl (by simp [Run.startedAt?, hbook])
  | _ => exact Or.inl rfl

/-- Nobody of its type started after a run that is under way. -/
def Latest (runs : Slots Run) : Prop :=
  runs.All fun x => x.live = true → ∀ s, x.startedAt? = some s →
    runs.All fun y => y.scanType = x.scanType → ∀ s', y.startedAt? = some s' → s' ≤ s

theorem Booked.startedAt_le {t : Sessions} {runs : Slots Run} {now : Int} (h : Booked t runs)
    (hpast : Past t now) : runs.All fun x => ∀ s, x.startedAt? = some s → s ≤ now := by
  intro pid x hx s hs
  obtain ⟨b, hb, rfl⟩ := Option.map_eq_some_iff.mp hs
  obtain ⟨r, hr, hid⟩ := h.row pid x hx (by simp [hb])
  obtain ⟨q, y, b', hy, hb', hshows⟩ := h.owner r hr
  have hq : q = pid :=
    h.unique q y pid x hy hx (by simp [hb']) (by simp [hb]) (hshows.sessionId_eq.symm.trans hid)
  subst hq
  cases hx.symm.trans hy
  cases hb.symm.trans hb'
  obtain ⟨started, hstarted, hle⟩ := hpast r hr
  cases hstarted.symm.trans hshows.startedAt_eq
  exact hle

theorem Latest.move {t t' : Sessions} {runs : Slots Run} {pid : Nat} {m : Move} {now : Int}
    {x x' : Run} (h : Latest runs) (hlone : Lone runs)
    (hpast : runs.All fun x => ∀ s, x.startedAt? = some s → s ≤ now)
    (hrun : runs pid = some x) (hlive : x.live = true) (hbooking : Booking m now t x t' x') :
    Latest (runs.set pid x') := by
  have htype := hbooking.same.2
  have halone := (hlone x.scanType).others hrun ⟨hlive, rfl⟩
  rw [Latest, Slots.all_set]
  refine ⟨fun _ s hs => ?_, fun q y hy hq hlive' s hs => ?_⟩
  · rw [Slots.all_set]
    refine ⟨fun _ s' hs' => ?_, fun q y hy hq hsame s' hs' => ?_⟩
    · rw [hs] at hs'
      cases hs'
      exact le_refl _
    · rw [htype] at hsame
      rcases hbooking.startedAt? with hold | ⟨-, hnew⟩
      · exact h pid x hrun hlive s (hold.symm.trans hs) q y hy hsame s' hs'
      · cases hnew.symm.trans hs
        exact hpast q y hy s' hs'
  · rw [Slots.all_set]
    refine ⟨fun hsame s' hs' => ?_, fun q' y' hy' hq' => h q y hy hlive' s hs q' y' hy'⟩
    rw [htype] at hsame
    exact absurd ⟨hlive', hsame.symm⟩ (halone q y hy hq)

theorem latest_of_reachable {P : World d → Action d → Prop} {db : Db} {dirStats : DirStats}
    {userStats : Table UserStatsRow.key} {w : World d} (hP : ∀ w a, P w a → OneAtATime w a)
    (h : Reachable World.step P (World.init db dirStats userStats) w) : Latest w.runs := by
  refine h.invariant (fun w => Latest w.runs) ?_ ?_
  · exact fun q x hx => absurd hx not_runs_init
  · intro w a w' hreached ih _ hstep
    cases step_registered hstep with
    | spawn job id hnew hruns hsessions =>
        rw [hruns]
        refine Slots.All.set (fun q x hx hlive s hs => ?_) fun _ s hs => by contradiction
        exact (ih q x hx hlive s hs).set fun _ s' hs' => by contradiction
    | move hrun hlive hbooking hruns =>
        rw [hruns]
        exact ih.move (lone_of_reachable hP hreached)
          ((booked_of_reachable hreached).startedAt_le (past_of_reachable hreached)) hrun hlive
          hbooking
    | tick n hruns => rw [hruns]; exact ih

/-! ## at most one row is running -/

/-- `r` is the newest row of its type. -/
def Newest (t : Sessions) (r : ScanSessionRow) : Prop :=
  ∀ r' ∈ t, r'.scanType = r.scanType → ∀ s s', r.startedAt = some s → r'.startedAt = some s' →
    s' ≤ s

structure Settled (t : Sessions) (runs : Slots Run) : Prop where
  /-- behind its reaper a run is alone with its own row -/
  swept : runs.All fun x => x.live = true → x.swept = true →
    ∀ r ∈ t, r.scanType = x.scanType.text → r.status = running →
      x.book ≠ none ∧ r.sessionId = x.sessionId
  lone : ∀ r ∈ t, ∀ r' ∈ t, r.status = running → r'.status = running →
    r'.scanType = r.scanType → r' = r
  newest : ∀ r ∈ t, r.status = running → Newest t r

section Settling

variable {t t' : Sessions} {runs : Slots Run} {pid : Nat} {m : Move} {now : Int} {x x' : Run}

/-- Statements that leave running rows alone, and no row younger. -/
theorem Settled.fewer (h : Settled t runs) (hrunning : ∀ r ∈ t', r.status = running → r ∈ t)
    (hold : ∀ r' ∈ t', ∃ r ∈ t, r'.scanType = r.scanType ∧ r'.startedAt = r.startedAt) :
    (∀ r ∈ t', ∀ r' ∈ t', r.status = running → r'.status = running →
      r'.scanType = r.scanType → r' = r) ∧ ∀ r ∈ t', r.status = running → Newest t' r := by
  refine ⟨fun r hr r' hr' hrun hrun' =>
    h.lone r (hrunning r hr hrun) r' (hrunning r' hr' hrun') hrun hrun', ?_⟩
  intro r hr hrun r' hr' htype s s' hs hs'
  obtain ⟨old, hmem, holdType, hstarted⟩ := hold r' hr'
  exact h.newest r (hrunning r hr hrun) hrun old hmem (holdType.symm.trans htype) s s' hs
    (hstarted.symm.trans hs')

/-- **A move keeps the history settled.** -/
theorem Settled.move (h : Settled t runs) (hlone : Lone runs) (hpast : Past t now)
    (hrun : runs pid = some x) (hlive : x.live = true) (hm : m ≠ .reap true)
    (hbooking : Booking m now t x t' x') : Settled t' (runs.set pid x') := by
  have hothers := h.swept.others pid
  have hself := h.swept pid x hrun
  have halone := (hlone x.scanType).others hrun ⟨hlive, rfl⟩
  cases hbooking with
  | quiet => exact ⟨Slots.all_set.mpr ⟨hself, hothers⟩, h.lone, h.newest⟩
  | dies =>
      exact ⟨Slots.all_set.mpr ⟨fun hdead => by contradiction, hothers⟩, h.lone, h.newest⟩
  | reapFails _ hfails => exact absurd hfails hm
  | reaps hbook =>
      obtain ⟨hfewer, hnewest⟩ := h.fewer (fun r hr hrunning => (running_of_reap hr hrunning).1)
        fun r' hr' => by
          obtain ⟨old, hold, -, htype, hstarted⟩ := exists_of_reap hr'
          exact ⟨old, hold, htype, hstarted⟩
      refine ⟨Slots.all_set.mpr ⟨?_, ?_⟩, hfewer, hnewest⟩
      · intro _ _ r hr htype hrunning
        exact absurd htype (running_of_reap hr hrunning).2
      · intro q y hy hq hlive' hswept r hr htype hrunning
        exact hothers q y hy hq hlive' hswept r (running_of_reap hr hrunning).1 htype hrunning
  | starts hbook hswept hfree =>
      -- nothing of the type is running, so the new row is the only one
      have hnone : ∀ r ∈ t, r.scanType = x.scanType.text → r.status ≠ running :=
        fun r hr htype hrunning => (hself hlive hswept r hr htype hrunning).1 hbook
      refine ⟨Slots.all_set.mpr ⟨?_, ?_⟩, ?_, ?_⟩
      · intro _ _ r hr htype hrunning
        rcases Table.mem_insertDoNothing.mp hr with hr | ⟨rfl, -⟩
        · exact absurd hrunning (hnone r hr htype)
        · exact ⟨by simp, rfl⟩
      · intro q y hy hq hlive' hswept' r hr htype hrunning
        rcases Table.mem_insertDoNothing.mp hr with hr | ⟨rfl, -⟩
        · exact hothers q y hy hq hlive' hswept' r hr htype hrunning
        · exact absurd ⟨hlive', (ScanType.text_inj htype).symm⟩ (halone q y hy hq)
      · intro r hr r' hr' hrunning hrunning' htype
        rcases Table.mem_insertDoNothing.mp hr with hr | ⟨rfl, -⟩ <;>
          rcases Table.mem_insertDoNothing.mp hr' with hr' | ⟨rfl, -⟩
        · exact h.lone r hr r' hr' hrunning hrunning' htype
        · exact absurd hrunning (hnone r hr htype.symm)
        · exact absurd hrunning' (hnone r' hr' htype)
        · rfl
      · intro r hr hrunning r' hr' htype s s' hs hs'
        rcases Table.mem_insertDoNothing.mp hr with hr | ⟨rfl, -⟩
        · rcases Table.mem_insertDoNothing.mp hr' with hr' | ⟨rfl, -⟩
          · exact h.newest r hr hrunning r' hr' htype s s' hs hs'
          · exact absurd hrunning (hnone r hr htype.symm)
        · cases hs
          rcases Table.mem_insertDoNothing.mp hr' with hr' | ⟨rfl, -⟩
          · obtain ⟨started, hstarted, hle⟩ := hpast r' hr'
            cases hstarted.symm.trans hs'
            exact hle
          · cases hs'
            exact le_refl _
  | reports hbook files =>
      refine ⟨Slots.all_set.mpr ⟨?_, ?_⟩, ?_, ?_⟩
      · intro hlive' hswept r hr htype hrunning
        obtain ⟨old, hold, hid, holdType, hstatus, -⟩ := exists_of_report hr
        rw [hid]
        exact hself hlive' hswept old hold (holdType.symm.trans htype) (hstatus.symm.trans hrunning)
      · intro q y hy hq hlive' hswept r hr htype hrunning
        obtain ⟨old, hold, hid, holdType, hstatus, -⟩ := exists_of_report hr
        rw [hid]
        exact hothers q y hy hq hlive' hswept old hold (holdType.symm.trans htype)
          (hstatus.symm.trans hrunning)
      · intro r hr r' hr' hrunning hrunning' htype
        obtain ⟨old, hold, rfl⟩ := Table.mem_update.mp hr
        obtain ⟨old', hold', rfl⟩ := Table.mem_update.mp hr'
        have hsame : old' = old := by
          refine h.lone old hold old' hold' ?_ ?_ ?_
          · split_ifs at hrunning <;> exact hrunning
          · split_ifs at hrunning' <;> exact hrunning'
          · split_ifs at htype <;> exact htype
        rw [hsame]
      · intro r hr hrunning r' hr' htype s s' hs hs'
        obtain ⟨old, hold, -, holdType, hstatus, hstarted⟩ := exists_of_report hr
        obtain ⟨old', hold', -, holdType', -, hstarted'⟩ := exists_of_report hr'
        exact h.newest old hold (hstatus.symm.trans hrunning) old' hold'
          (holdType'.symm.trans (htype.trans holdType)) s s' (hstarted.symm.trans hs)
          (hstarted'.symm.trans hs')
  | ends hbook status files =>
      obtain ⟨hfewer, hnewest⟩ := h.fewer (fun r hr hrunning => (running_of_end hr hrunning).1)
        fun r' hr' => by
          obtain ⟨old, hold, -, htype, hstarted⟩ := exists_of_end hr'
          exact ⟨old, hold, htype, hstarted⟩
      refine ⟨Slots.all_set.mpr ⟨fun hdead => by contradiction, ?_⟩, hfewer, hnewest⟩
      intro q y hy hq hlive' hswept r hr htype hrunning
      exact hothers q y hy hq hlive' hswept r (running_of_end hr hrunning).1 htype hrunning

end Settling

theorem settled_of_reachable {db : Db} {dirStats : DirStats}
    {userStats : Table UserStatsRow.key} {w : World d}
    (h : Reachable World.step (fun w a => OneAtATime w a ∧ ReapsSucceed a)
      (World.init db dirStats userStats) w) : Settled w.tables.scanSessions w.runs := by
  refine h.invariant (fun w => Settled w.tables.scanSessions w.runs) ?_ ?_
  · exact ⟨fun q x hx => absurd hx not_runs_init, fun r hr => absurd hr (Table.not_mem_empty r),
      fun r hr => absurd hr (Table.not_mem_empty r)⟩
  · intro w a w' hreached ih hmeets hstep
    cases step_registered hstep with
    | spawn job id hnew hruns hsessions =>
        rw [hruns, hsessions]
        exact ⟨ih.swept.set fun _ hswept => by contradiction, ih.lone, ih.newest⟩
    | move hrun hlive hbooking hruns =>
        rw [hruns]
        refine ih.move (lone_of_reachable (fun _ _ hP => hP.1) hreached)
          (past_of_reachable hreached) hrun hlive ?_ hbooking
        intro hm
        have hfails := hmeets.2
        rw [hm] at hfails
        contradiction
    | tick n hruns hsessions => rw [hruns, hsessions]; exact ih

/-- **At most one row of a type is running**, and it is the newest of its
type; while a run is under way it is its own. -/
theorem running_row_settled {db : Db} {dirStats : DirStats} {userStats : Table UserStatsRow.key}
    {w : World d}
    (hw : Reachable World.step (fun w a => OneAtATime w a ∧ ReapsSucceed a)
      (World.init db dirStats userStats) w) :
    (∀ r ∈ w.tables.scanSessions, ∀ r' ∈ w.tables.scanSessions, r.status = running →
      r'.status = running → r'.scanType = r.scanType → r' = r) ∧
    (∀ r ∈ w.tables.scanSessions, r.status = running → Newest w.tables.scanSessions r) ∧
    ∀ p ∈ w.processes, p.phase.isExited = false → p.phase.book? ≠ none →
      ∃ r ∈ w.tables.scanSessions, r.sessionId = p.sessionId ∧ r.status = running := by
  have hsettled := settled_of_reachable hw
  refine ⟨hsettled.lone, hsettled.newest, fun p hp hlive hbook => ?_⟩
  obtain ⟨pid, hpid⟩ := List.mem_iff_getElem?.mp hp
  have hrun : w.runs pid = some p.run := runs_eq_some.mpr ⟨p, hpid, rfl⟩
  obtain ⟨r, hr, hid⟩ := (booked_of_reachable hw).row pid p.run hrun hbook
  refine ⟨r, hr, hid, ?_⟩
  refine owned_of_reachable (fun _ _ hP => hP.1) hw pid p.run hrun ?_ hbook r hr hid
  simp [Process.run, hlive]

/-- An indexer dies, and the next one closes its row. -/
theorem running_row_settled_crash :
    ∃ w : World kcoreDigest,
      Reachable World.step (fun w a => OneAtATime w a ∧ ReapsSucceed a) sampleWorld w ∧
      w.tables.scanSessions.rows =
        [⟨"a".toList, ScanType.indexer.text, EndStatus.failed.text, some 0, some 1, 2⟩,
          ⟨"b".toList, ScanType.indexer.text, running, some 1, none, 0⟩] ∧
      ∀ r ∈ w.tables.scanSessions, r.status = running → Newest w.tables.scanSessions r := by
  obtain ⟨w, hw, hrows⟩ := exists_reachable World.step
    (fun w a => OneAtATime w a ∧ ReapsSucceed a) sampleWorld
    (fun w => w.tables.scanSessions.rows =
        [⟨"a".toList, ScanType.indexer.text, EndStatus.failed.text, some 0, some 1, 2⟩,
          ⟨"b".toList, ScanType.indexer.text, running, some 1, none, 0⟩])
    ([.spawn sampleJob "a".toList] ++ (sampleScan.take 5).map (.move 0) ++
      [.move 0 .crash, .tick 1, .spawn sampleJob "b".toList] ++ (sampleScan.take 3).map (.move 1))
    (by decide +kernel)
  exact ⟨w, hw, hrows, (running_row_settled hw).2.1⟩

end Cuttlefish.ScanHistory
