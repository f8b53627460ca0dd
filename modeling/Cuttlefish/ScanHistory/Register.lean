import Cuttlefish.ScanHistory

/-!
# Cuttlefish.ScanHistory.Register

What the history of runs is worth: every row of `scan_sessions` is the row of
one run and says what that run wrote last, whatever runs at the same time and
wherever processes die (`history_recorded`).

The proofs are about a register: the table beside what each process knows of
its own row.  `next_booking` says once what a move does to it.
-/

namespace Cuttlefish.ScanHistory

variable {d : Digest}

/-! ## the register -/

/-- A process as the table knows it; `swept` is behind the reaper. -/
structure Run where
  sessionId : Text
  scanType : ScanType
  live : Bool
  swept : Bool
  book : Option Book

def Phase.isSwept : Phase → Bool
  | .starting => false
  | _ => true

def Process.run (p : Process d) : Run :=
  ⟨p.sessionId, p.job.scanType, !p.phase.isExited, p.phase.isSwept, p.phase.book?⟩

def World.runs (w : World d) : Slots Run := Slots.ofList (w.processes.map Process.run)

/-- What one move of the process `x` does to the table and to `x`. -/
inductive Booking (m : Move) (now : Int) (t : Sessions) (x : Run) : Sessions → Run → Prop
  | quiet : Booking m now t x t x
  | dies : Booking m now t x t { x with live := false, swept := true }
  | reaps (hbook : x.book = none) (hm : m = .reap false) :
      Booking m now t x (reapStaleScanSessions t x.scanType now) { x with swept := true }
  | reapFails (hbook : x.book = none) (hm : m = .reap true) :
      Booking m now t x t { x with swept := true }
  | starts (hbook : x.book = none) (hswept : x.swept = true)
      (hfree : ∀ r ∈ t, r.sessionId ≠ x.sessionId) :
      Booking m now t x (t.insertDoNothing (startedRow x.sessionId x.scanType now))
        { x with book := some ⟨now, none⟩ }
  | reports {startedAt : Int} (hbook : x.book = some ⟨startedAt, none⟩) (files : Int) :
      Booking m now t x (reportScanProgress t x.sessionId files) x
  | ends {startedAt : Int} (hbook : x.book = some ⟨startedAt, none⟩) (status : EndStatus)
      (files : Int) :
      Booking m now t x (endScanSession t x.sessionId status files now)
        { x with live := false, book := some ⟨startedAt, some ⟨status, files, now⟩⟩ }

theorem recordScanStart_eq_some {t t' : Sessions} {id : Text} {type : ScanType} {now : Int}
    (h : recordScanStart t id type now = some t') :
    (∀ r ∈ t, r.sessionId ≠ id) ∧ t' = t.insertDoNothing (startedRow id type now) := by
  unfold recordScanStart at h
  split at h
  next => contradiction
  next hnone =>
      refine ⟨fun r hr hid => ?_, (Option.some.inj h).symm⟩
      rw [Table.find?_eq_some.mpr ⟨hr, hid⟩] at hnone
      contradiction

/-- The stages of a run touch the table at most to report progress. -/
theorem walk_next_sessions {walk : Walk d} {id : Text} {t t' : Tables} {s s' : Stage} {m : Move}
    (h : walk.next id t s m = some (t', s')) :
    t'.scanSessions = t.scanSessions ∨
      ∃ files, t'.scanSessions = reportScanProgress t.scanSessions id files := by
  unfold Walk.next at h
  split at h
  next c fails reports =>
      obtain ⟨e, -, h⟩ := Option.map_eq_some_iff.mp h
      cases h
      cases reports with
      | true => exact Or.inr ⟨_, rfl⟩
      | false => exact Or.inl rfl
  next =>
      split_ifs at h
      cases h
      exact Or.inl rfl
  next =>
      cases h
      exact Or.inl rfl
  next =>
      cases h
      exact Or.inl rfl
  next =>
      split_ifs at h
      · cases h
        exact Or.inl rfl
      · cases h
        exact Or.inl rfl
  next =>
      cases h
      exact Or.inl rfl
  next => contradiction

theorem aggregatorNext_sessions {t t' : Tables} {s s' : Stage} {m : Move}
    (h : aggregatorNext d t s m = some (t', s')) : t'.scanSessions = t.scanSessions := by
  unfold aggregatorNext at h
  split at h
  next =>
      cases h
      rfl
  next =>
      cases h
      rfl
  next =>
      split_ifs at h
      cases h
      rfl
  next =>
      split_ifs at h
      · cases h
        rfl
      · cases h
        rfl
  next => contradiction
  next =>
      cases h
      rfl
  next => contradiction

/-- **What a move does to the register.** -/
theorem next_booking {p : Process d} {now : Int} {t t' : Tables} {m : Move} {phase : Phase}
    (h : p.next now t m = some (t', phase)) :
    p.run.live = true ∧
      Booking m now t.scanSessions p.run t'.scanSessions { p with phase := phase }.run := by
  obtain ⟨job, id, phase₀⟩ := p
  unfold Process.next at h
  split at h
  next => contradiction
  next hnot =>
      cases h
      refine ⟨?_, .dies⟩
      cases phase₀ with
      | exited book => exact absurd rfl (hnot book)
      | _ => rfl
  next fails heq =>
      cases heq
      cases h
      cases fails with
      | false => exact ⟨rfl, .reaps rfl rfl⟩
      | true => exact ⟨rfl, .reapFails rfl rfl⟩
  next heq =>
      cases heq
      cases h
      have hrun : Process.run ⟨job, id, if job.mustClear t.filesystemIndex then .outdated
          else .prepared⟩ = Process.run ⟨job, id, .swept⟩ := by
        split_ifs <;> rfl
      exact ⟨rfl, hrun ▸ .quiet⟩
  next heq =>
      cases heq
      cases h
      exact ⟨rfl, .quiet⟩
  next heq =>
      cases heq
      obtain ⟨sessions, hstart, h⟩ := Option.map_eq_some_iff.mp h
      cases h
      obtain ⟨hfree, hsessions⟩ := recordScanStart_eq_some hstart
      exact ⟨rfl, hsessions ▸ .starts rfl rfl hfree⟩
  next startedAt status files fails heq =>
      cases heq
      split_ifs at h
      · cases h
        exact ⟨rfl, .dies⟩
      · cases h
        exact ⟨rfl, .ends rfl status files⟩
  next startedAt stage heq _ _ =>
      cases heq
      obtain ⟨⟨t₁, s₁⟩, hnext, h⟩ := Option.map_eq_some_iff.mp h
      cases h
      refine ⟨rfl, ?_⟩
      cases job with
      | indexer walk =>
          rcases walk_next_sessions hnext with hsame | ⟨files, hreport⟩
          · exact hsame ▸ .quiet
          · exact hreport ▸ .reports rfl files
      | aggregator => exact aggregatorNext_sessions hnext ▸ .quiet
  next => contradiction

/-- **What a step does to the register.** -/
inductive Registered (w w' : World d) : Action d → Prop
  | spawn (job : Job d) (id : Text) (hnew : w.runs w.processes.length = none)
      (hruns : w'.runs = w.runs.set w.processes.length ⟨id, job.scanType, true, false, none⟩)
      (hsessions : w'.tables.scanSessions = w.tables.scanSessions) (hclock : w'.clock = w.clock) :
      Registered w w' (.spawn job id)
  | move {pid : Nat} {m : Move} {x x' : Run} (hrun : w.runs pid = some x) (hlive : x.live = true)
      (hbooking : Booking m w.clock w.tables.scanSessions x w'.tables.scanSessions x')
      (hruns : w'.runs = w.runs.set pid x') (hclock : w'.clock = w.clock) :
      Registered w w' (.move pid m)
  | tick (n : Nat) (hruns : w'.runs = w.runs)
      (hsessions : w'.tables.scanSessions = w.tables.scanSessions)
      (hclock : w'.clock = w.clock + n) : Registered w w' (.tick n)

theorem runs_eq_some {w : World d} {pid : Nat} {x : Run} :
    w.runs pid = some x ↔ ∃ p, w.processes[pid]? = some p ∧ p.run = x := by
  simp [World.runs, Slots.ofList]

theorem step_registered {w w' : World d} {a : Action d} (h : w.step a = some w') :
    Registered w w' a := by
  cases a with
  | spawn job id =>
      cases h
      refine .spawn job id ?_ ?_ rfl rfl
      · simp [World.runs, Slots.ofList]
      · rw [World.runs, List.map_append, List.map_singleton, Slots.ofList_append, List.length_map]
        rfl
  | move pid m =>
      obtain ⟨p, hp, h⟩ := Option.bind_eq_some_iff.mp h
      obtain ⟨⟨t', phase⟩, hnext, h⟩ := Option.map_eq_some_iff.mp h
      cases h
      obtain ⟨hlive, hbooking⟩ := next_booking hnext
      have hrun : w.runs pid = some p.run := runs_eq_some.mpr ⟨p, hp, rfl⟩
      refine .move hrun hlive hbooking ?_ rfl
      rw [World.runs, List.map_set]
      exact Slots.ofList_set hrun
  | tick n =>
      cases h
      exact .tick n rfl rfl rfl

/-! ## every row is the row of a run -/

/-- Another process has the type of `x`. -/
def Rival (runs : Slots Run) (pid : Nat) (type : ScanType) : Prop :=
  ∃ q y, q ≠ pid ∧ runs q = some y ∧ y.scanType = type

/-- The row of the run `x` says what the run wrote last; a run that has not
recorded its end may have been reaped by another. -/
structure Shows (runs : Slots Run) (pid : Nat) (x : Run) (b : Book) (r : ScanSessionRow) :
    Prop where
  sessionId_eq : r.sessionId = x.sessionId
  scanType_eq : r.scanType = x.scanType.text
  startedAt_eq : r.startedAt = some b.startedAt
  ended : ∀ e, b.ended = some e →
    r.status = e.status.text ∧ r.endedAt = some e.time ∧ r.filesScanned = e.files
  unended : b.ended = none → (r.status = running ∧ r.endedAt = none) ∨
    (r.status = EndStatus.failed.text ∧ r.endedAt ≠ none ∧ Rival runs pid x.scanType)

/-- Rows and recorded runs, one for one. -/
structure Booked (t : Sessions) (runs : Slots Run) : Prop where
  owner : ∀ r ∈ t, ∃ pid x b, runs pid = some x ∧ x.book = some b ∧ Shows runs pid x b r
  row : runs.All fun x => x.book ≠ none → ∃ r ∈ t, r.sessionId = x.sessionId
  unique : ∀ pid x pid' x', runs pid = some x → runs pid' = some x' → x.book ≠ none →
    x'.book ≠ none → x.sessionId = x'.sessionId → pid = pid'

section Keeping

variable {t t' : Sessions} {runs : Slots Run} {pid q : Nat} {x x' : Run} {type : ScanType}

theorem Booking.same {m : Move} {now : Int} (h : Booking m now t x t' x') :
    x'.sessionId = x.sessionId ∧ x'.scanType = x.scanType := by
  cases h <;> exact ⟨rfl, rfl⟩

theorem Rival.set (h : Rival runs q type) (hrun : runs pid = some x)
    (htype : x'.scanType = x.scanType) : Rival (runs.set pid x') q type := by
  obtain ⟨q', y, hne, hy, hty⟩ := h
  by_cases hq : q' = pid
  · subst hq
    cases hrun.symm.trans hy
    exact ⟨q', x', hne, Slots.set_eq_some.mpr (Or.inl ⟨rfl, rfl⟩), htype.trans hty⟩
  · exact ⟨q', y, hne, Slots.set_eq_some.mpr (Or.inr ⟨hq, hy⟩), hty⟩

theorem Rival.come (h : Rival runs q type) (hnew : runs pid = none) :
    Rival (runs.set pid x) q type := by
  obtain ⟨q', y, hne, hy, hty⟩ := h
  refine ⟨q', y, hne, Slots.set_eq_some.mpr (Or.inr ⟨fun hq => ?_, hy⟩), hty⟩
  rw [hq, hnew] at hy
  contradiction

theorem Shows.mono {runs' : Slots Run} {b : Book} {r : ScanSessionRow} (h : Shows runs pid x b r)
    (hid : x'.sessionId = x.sessionId) (htype : x'.scanType = x.scanType)
    (hrival : ∀ q type, Rival runs q type → Rival runs' q type) : Shows runs' pid x' b r where
  sessionId_eq := h.sessionId_eq.trans hid.symm
  scanType_eq := by rw [h.scanType_eq, htype]
  startedAt_eq := h.startedAt_eq
  ended := h.ended
  unended hb := (h.unended hb).imp_right fun hreaped =>
    ⟨hreaped.1, hreaped.2.1, htype ▸ hrival pid x.scanType hreaped.2.2⟩

/-- A process comes in. -/
theorem Booked.come (h : Booked t runs) (hnew : runs pid = none) (hbook : x.book = none) :
    Booked t (runs.set pid x) := by
  have hold : ∀ q y, runs.set pid x q = some y → y.book ≠ none → runs q = some y := by
    intro q y hy hne
    cases Slots.set_eq_some.mp hy with
    | inl hself => exact absurd (hself.2 ▸ hbook) hne
    | inr hother => exact hother.2
  refine ⟨fun r hr => ?_, fun q y hy hne => h.row q y (hold q y hy hne) hne,
    fun q y q' y' hy hy' hne hne' hid => ?_⟩
  · obtain ⟨q, y, b, hy, hb, hshows⟩ := h.owner r hr
    have hq : q ≠ pid := by
      intro hq
      rw [hq, hnew] at hy
      contradiction
    exact ⟨q, y, b, Slots.set_eq_some.mpr (Or.inr ⟨hq, hy⟩), hb,
      hshows.mono rfl rfl fun q type hr => hr.come hnew⟩
  · exact h.unique q y q' y' (hold q y hy hne) (hold q' y' hy' hne') hne hne' hid

/-- A process moves that knows as much of its row as before, and the rows still
show what their runs wrote. -/
theorem Booked.keep (h : Booked t runs) (hrun : runs pid = some x)
    (hid : x'.sessionId = x.sessionId) (htype : x'.scanType = x.scanType)
    (hbook : x'.book = x.book)
    (hrows : ∀ r' ∈ t', ∃ r ∈ t, ∀ q y b, runs q = some y → y.book = some b →
      Shows runs q y b r → Shows runs q y b r')
    (hids : ∀ r ∈ t, ∃ r' ∈ t', r'.sessionId = r.sessionId) : Booked t' (runs.set pid x') := by
  have hold : ∀ q y, runs.set pid x' q = some y → y.book ≠ none →
      ∃ y₀, runs q = some y₀ ∧ y₀.book ≠ none ∧ y.sessionId = y₀.sessionId := by
    intro q y hy hne
    cases Slots.set_eq_some.mp hy with
    | inl hself =>
        obtain ⟨rfl, rfl⟩ := hself
        exact ⟨x, hrun, hbook ▸ hne, hid⟩
    | inr hother => exact ⟨y, hother.2, hne, rfl⟩
  refine ⟨fun r' hr' => ?_, fun q y hy hne => ?_, fun q y q' y' hy hy' hne hne' hsame => ?_⟩
  · obtain ⟨r, hr, hshow⟩ := hrows r' hr'
    obtain ⟨q, y, b, hy, hb, hshows⟩ := h.owner r hr
    have hshows' := hshow q y b hy hb hshows
    by_cases hq : q = pid
    · subst hq
      cases hrun.symm.trans hy
      exact ⟨q, x', b, Slots.set_eq_some.mpr (Or.inl ⟨rfl, rfl⟩), hbook.trans hb,
        hshows'.mono hid htype fun q type hrival => hrival.set hrun htype⟩
    · exact ⟨q, y, b, Slots.set_eq_some.mpr (Or.inr ⟨hq, hy⟩), hb,
        hshows'.mono rfl rfl fun q type hrival => hrival.set hrun htype⟩
  · obtain ⟨y₀, hy₀, hne₀, hsame⟩ := hold q y hy hne
    obtain ⟨r, hr, hrid⟩ := h.row q y₀ hy₀ hne₀
    obtain ⟨r', hr', hrid'⟩ := hids r hr
    exact ⟨r', hr', by rw [hrid', hrid, hsame]⟩
  · obtain ⟨y₀, hy₀, hne₀, hid₀⟩ := hold q y hy hne
    obtain ⟨y₁, hy₁, hne₁, hid₁⟩ := hold q' y' hy' hne'
    exact h.unique q y₀ q' y₁ hy₀ hy₁ hne₀ hne₁ (by rw [← hid₀, ← hid₁, hsame])

theorem Booked.still (h : Booked t runs) (hrun : runs pid = some x)
    (hid : x'.sessionId = x.sessionId) (htype : x'.scanType = x.scanType)
    (hbook : x'.book = x.book) : Booked t (runs.set pid x') :=
  h.keep hrun hid htype hbook (fun r hr => ⟨r, hr, fun _ _ _ _ _ hshows => hshows⟩)
    fun r hr => ⟨r, hr, rfl⟩

/-- A run records its start. -/
theorem Booked.starts {now : Int} (h : Booked t runs) (hrun : runs pid = some x)
    (hbook : x.book = none) (hfree : ∀ r ∈ t, r.sessionId ≠ x.sessionId) :
    Booked (t.insertDoNothing (startedRow x.sessionId x.scanType now))
      (runs.set pid { x with book := some ⟨now, none⟩ }) := by
  have hbooked : ∀ q y, runs q = some y → y.book ≠ none → y.sessionId ≠ x.sessionId := by
    intro q y hy hne hid
    obtain ⟨r, hr, hrid⟩ := h.row q y hy hne
    exact hfree r hr (hrid.trans hid)
  refine ⟨fun r hr => ?_, fun q y hy hne => ?_, fun q y q' y' hy hy' hne hne' hid => ?_⟩
  · rcases Table.mem_insertDoNothing.mp hr with hr | ⟨rfl, -⟩
    · obtain ⟨q, y, b, hy, hb, hshows⟩ := h.owner r hr
      have hq : q ≠ pid := by
        intro hq
        rw [hq, hrun] at hy
        cases hy
        rw [hbook] at hb
        contradiction
      exact ⟨q, y, b, Slots.set_eq_some.mpr (Or.inr ⟨hq, hy⟩), hb,
        hshows.mono rfl rfl fun q type hrival => hrival.set hrun rfl⟩
    · exact ⟨pid, _, _, Slots.set_eq_some.mpr (Or.inl ⟨rfl, rfl⟩), rfl, rfl, rfl, rfl,
        fun e he => by contradiction, fun _ => Or.inl ⟨rfl, rfl⟩⟩
  · cases Slots.set_eq_some.mp hy with
    | inl hself =>
        rw [hself.2]
        exact ⟨_, Table.mem_insertDoNothing.mpr (Or.inr ⟨rfl, hfree⟩), rfl⟩
    | inr hother =>
        obtain ⟨r, hr, hrid⟩ := h.row q y hother.2 hne
        exact ⟨r, Table.mem_insertDoNothing.mpr (Or.inl hr), hrid⟩
  · rcases Slots.set_eq_some.mp hy with ⟨rfl, rfl⟩ | ⟨-, hold⟩ <;>
      rcases Slots.set_eq_some.mp hy' with ⟨rfl, rfl⟩ | ⟨-, hold'⟩
    · rfl
    · exact absurd hid.symm (hbooked q' y' hold' hne')
    · exact absurd hid (hbooked q y hold hne)
    · exact h.unique q y q' y' hold hold' hne hne' hid

/-- A run records its end. -/
theorem Booked.ends {startedAt files now : Int} {status : EndStatus} (h : Booked t runs)
    (hrun : runs pid = some x) (hbook : x.book = some ⟨startedAt, none⟩) :
    Booked (endScanSession t x.sessionId status files now)
      (runs.set pid
        { x with live := false, book := some ⟨startedAt, some ⟨status, files, now⟩⟩ }) := by
  have hold : ∀ q y, (runs.set pid
      { x with live := false, book := some ⟨startedAt, some ⟨status, files, now⟩⟩ }) q = some y →
      y.book ≠ none → ∃ y₀, runs q = some y₀ ∧ y₀.book ≠ none ∧ y₀.sessionId = y.sessionId := by
    intro q y hy hne
    cases Slots.set_eq_some.mp hy with
    | inl hself =>
        obtain ⟨rfl, rfl⟩ := hself
        exact ⟨x, hrun, by simp [hbook], rfl⟩
    | inr hother => exact ⟨y, hother.2, hne, rfl⟩
  refine ⟨fun r' hr' => ?_, fun q y hy hne => ?_, fun q y q' y' hy hy' hne hne' hid => ?_⟩
  · obtain ⟨r, hr, rfl⟩ := Table.mem_update.mp hr'
    obtain ⟨q, y, b, hy, hb, hshows⟩ := h.owner r hr
    by_cases hq : q = pid
    · subst hq
      cases hrun.symm.trans hy
      cases hbook.symm.trans hb
      rw [if_pos (decide_eq_true hshows.sessionId_eq)]
      refine ⟨q, _, _, Slots.set_eq_some.mpr (Or.inl ⟨rfl, rfl⟩), rfl, hshows.sessionId_eq,
        hshows.scanType_eq, hshows.startedAt_eq, fun e he => ?_, fun hnone => by contradiction⟩
      cases he
      exact ⟨rfl, rfl, rfl⟩
    · have hother : r.sessionId ≠ x.sessionId := by
        intro hid
        refine hq (h.unique q y pid x hy hrun ?_ ?_ (hshows.sessionId_eq.symm.trans hid))
        · simp [hb]
        · simp [hbook]
      rw [if_neg (by simpa using hother)]
      exact ⟨q, y, b, Slots.set_eq_some.mpr (Or.inr ⟨hq, hy⟩), hb,
        hshows.mono rfl rfl fun q type hrival => hrival.set hrun rfl⟩
  · obtain ⟨y₀, hy₀, hne₀, hid₀⟩ := hold q y hy hne
    obtain ⟨r, hr, hrid⟩ := h.row q y₀ hy₀ hne₀
    refine ⟨_, Table.mem_update.mpr ⟨r, hr, rfl⟩, ?_⟩
    rw [← hid₀, ← hrid]
    split_ifs <;> rfl
  · obtain ⟨y₀, hy₀, hne₀, hid₀⟩ := hold q y hy hne
    obtain ⟨y₁, hy₁, hne₁, hid₁⟩ := hold q' y' hy' hne'
    exact h.unique q y₀ q' y₁ hy₀ hy₁ hne₀ hne₁ (by rw [hid₀, hid₁, hid])

/-- **A move keeps the rows true.** -/
theorem Booked.move {m : Move} {now : Int} (h : Booked t runs) (hrun : runs pid = some x)
    (hbooking : Booking m now t x t' x') : Booked t' (runs.set pid x') := by
  cases hbooking with
  | quiet => exact h.still hrun rfl rfl rfl
  | dies => exact h.still hrun rfl rfl rfl
  | reapFails => exact h.still hrun rfl rfl rfl
  | reaps hbook =>
      refine h.keep hrun rfl rfl rfl (fun r' hr' => ?_) fun r hr => ?_
      · obtain ⟨r, hr, rfl⟩ := Table.mem_update.mp hr'
        refine ⟨r, hr, fun q y b hy hb hshows => ?_⟩
        split_ifs with hstale
        · rw [isStale, Bool.and_eq_true, decide_eq_true_eq, decide_eq_true_eq] at hstale
          -- a row that is still running has no end recorded, and is not the reaper's
          have hq : pid ≠ q := by
            intro hq
            rw [← hq, hrun] at hy
            cases hy
            rw [hbook] at hb
            contradiction
          have htype : x.scanType = y.scanType :=
            ScanType.text_inj (hstale.1.symm.trans hshows.scanType_eq)
          refine ⟨hshows.sessionId_eq, hshows.scanType_eq, hshows.startedAt_eq, fun e he => ?_,
            fun _ => Or.inr ⟨rfl, by simp [reaped], pid, x, hq, hrun, htype⟩⟩
          exact absurd ((hshows.ended e he).1.symm.trans hstale.2) e.status.text_ne_running
        · exact hshows
      · refine ⟨_, Table.mem_update.mpr ⟨r, hr, rfl⟩, ?_⟩
        split_ifs <;> rfl
  | starts hbook _ hfree => exact h.starts hrun hbook hfree
  | reports hbook files =>
      refine h.keep hrun rfl rfl rfl (fun r' hr' => ?_) fun r hr => ?_
      · obtain ⟨r, hr, rfl⟩ := Table.mem_update.mp hr'
        refine ⟨r, hr, fun q y b hy hb hshows => ?_⟩
        split_ifs with hid
        · rw [decide_eq_true_eq] at hid
          have hq : q = pid := by
            refine h.unique q y pid x hy hrun ?_ ?_ (hshows.sessionId_eq.symm.trans hid)
            · simp [hb]
            · simp [hbook]
          subst hq
          cases hrun.symm.trans hy
          cases hbook.symm.trans hb
          exact ⟨hshows.sessionId_eq, hshows.scanType_eq, hshows.startedAt_eq,
            fun e he => by contradiction, hshows.unended⟩
        · exact hshows
      · refine ⟨_, Table.mem_update.mpr ⟨r, hr, rfl⟩, ?_⟩
        split_ifs <;> rfl
  | ends hbook status files => exact h.ends hrun hbook

end Keeping

/-! ## over whole runs -/

section Runs

variable {P : World d → Action d → Prop} {db : Db} {dirStats : DirStats}
  {userStats : Table UserStatsRow.key} {w w' : World d}

theorem not_runs_init {pid : Nat} {x : Run} :
    (World.init db dirStats userStats : World d).runs pid ≠ some x := by
  simp [World.runs, World.init, Slots.ofList]

theorem booked_of_reachable (h : Reachable World.step P (World.init db dirStats userStats) w) :
    Booked w.tables.scanSessions w.runs := by
  refine h.invariant (fun w => Booked w.tables.scanSessions w.runs) ?_ ?_
  · exact ⟨fun r hr => absurd hr (Table.not_mem_empty r), fun q x hx => absurd hx not_runs_init,
      fun q x q' x' hx => absurd hx not_runs_init⟩
  · intro w a w' _ ih _ hstep
    cases step_registered hstep with
    | spawn job id hnew hruns hsessions => exact hruns ▸ hsessions ▸ ih.come hnew rfl
    | move hrun _ hbooking hruns => exact hruns ▸ ih.move hrun hbooking
    | tick n hruns hsessions => exact hruns ▸ hsessions ▸ ih

/-- What is true of a new process and kept by its own moves is true of all. -/
theorem forall_process {inv : Process d → Prop} (hnew : ∀ job id, inv ⟨job, id, .starting⟩)
    (hnext : ∀ p now t m t' phase, inv p → Process.next p now t m = some (t', phase) →
      inv { p with phase := phase })
    (h : Reachable World.step P (World.init db dirStats userStats) w) :
    ∀ p ∈ w.processes, inv p := by
  refine h.invariant (fun w => ∀ p ∈ w.processes, inv p) ?_ ?_
  · intro p hp
    contradiction
  · intro w a w' _ ih _ hstep
    cases a with
    | spawn job id =>
        cases hstep
        intro p hp
        cases List.mem_append.mp hp with
        | inl hold => exact ih p hold
        | inr hlast => exact List.mem_singleton.mp hlast ▸ hnew job id
    | move pid m =>
        obtain ⟨p, hp, hstep⟩ := Option.bind_eq_some_iff.mp hstep
        obtain ⟨⟨t', phase⟩, hmove, hstep⟩ := Option.map_eq_some_iff.mp hstep
        cases hstep
        intro p' hp'
        cases List.mem_or_eq_of_mem_set hp' with
        | inl hold => exact ih p' hold
        | inr hself =>
            rw [hself]
            exact hnext p _ _ m t' phase (ih p (List.mem_of_getElem? hp)) hmove
    | tick n =>
        cases hstep
        exact ih

/-- A process that is gone stays as it is. -/
theorem runs_of_dead {pid : Nat} {x : Run} (hx : w.runs pid = some x) (hdead : x.live = false)
    (h : Reachable World.step P w w') : w'.runs pid = some x := by
  refine h.invariant (fun w' => w'.runs pid = some x) hx ?_
  intro s a s' _ ih _ hstep
  cases step_registered hstep with
  | spawn job id hnew hruns =>
      rw [hruns]
      refine Slots.set_eq_some.mpr (Or.inr ⟨fun hpid => ?_, ih⟩)
      rw [hpid, hnew] at ih
      contradiction
  | move hrun hlive _ hruns =>
      rw [hruns]
      refine Slots.set_eq_some.mpr (Or.inr ⟨fun hpid => ?_, ih⟩)
      rw [hpid, hrun] at ih
      cases ih
      rw [hlive] at hdead
      contradiction
  | tick n hruns => rw [hruns, ih]

end Runs

/-! ## what a success counts -/

/-- How many entries a run of the indexer has received. -/
def Walk.Counted (walk : Walk d) : Stage → Prop
  | .consuming c => c.totalProcessed ≤ walk.entries.length
  | .walked c => c.totalProcessed = walk.entries.length
  | .resolved c => c.totalProcessed = walk.entries.length
  | .cleaned c => c.totalProcessed = walk.entries.length
  | .ending .success files => files = walk.entries.length
  | _ => True

/-- A run of the indexer that succeeded has received every entry. -/
def Process.Counted (p : Process d) : Prop :=
  match p.job, p.phase with
  | .indexer walk, .recorded _ stage => walk.Counted stage
  | .indexer walk, .exited (some ⟨_, some e⟩) =>
      e.status = .success → e.files = walk.entries.length
  | _, _ => True

theorem totalProcessed_receive (fails : Nat → Bool) (c : Consumer) (r : FileRecord) :
    (c.receive fails r).totalProcessed = c.totalProcessed + 1 := by
  unfold Consumer.receive
  dsimp only
  split_ifs <;> rfl

theorem totalProcessed_drain (fails : Bool) (c : Intake) (index : Index) :
    (c.drain fails index).totalProcessed = c.totalProcessed := by
  unfold Intake.drain
  split_ifs <;> rfl

theorem Walk.Counted.next {walk : Walk d} {id : Text} {t t' : Tables} {s s' : Stage} {m : Move}
    (hs : walk.Counted s) (h : walk.next id t s m = some (t', s')) : walk.Counted s' := by
  unfold Walk.next at h
  split at h
  next c fails reports =>
      obtain ⟨e, he, h⟩ := Option.map_eq_some_iff.mp h
      cases h
      have hlt := (List.getElem?_eq_some_iff.mp he).1
      simp only [Walk.Counted, Intake.of, totalProcessed_receive]
      exact hlt
  next c panics fails =>
      split_ifs at h with hopen
      cases h
      have hle : c.totalProcessed ≤ walk.entries.length := hs
      split_ifs with hgate
      · trivial
      · have hpanics : panics = false := by
          cases panics with
          | false => rfl
          | true => simp at hgate
        have hall : ¬ c.totalProcessed < walk.entries.length := fun hlt => hopen ⟨hpanics, hlt⟩
        simp only [Walk.Counted, Intake.of, totalProcessed_drain]
        omega
  next =>
      cases h
      exact hs
  next =>
      cases h
      trivial
  next =>
      split_ifs at h
      · cases h
        trivial
      · cases h
        exact hs
  next c fails =>
      cases h
      cases fails with
      | true => trivial
      | false => exact congrArg Nat.cast hs
  next => contradiction

theorem counted_next (p : Process d) (now : Int) (t : Tables) (m : Move) (t' : Tables)
    (phase : Phase) (hp : p.Counted) (h : p.next now t m = some (t', phase)) :
    { p with phase := phase }.Counted := by
  obtain ⟨job, id, phase₀⟩ := p
  cases job with
  | aggregator => trivial
  | indexer walk =>
      unfold Process.next at h
      split at h
      next => contradiction
      next =>
          cases h
          cases phase₀ with
          | exited book => exact hp
          | _ => trivial
      next =>
          cases h
          trivial
      next =>
          cases h
          split_ifs <;> trivial
      next =>
          cases h
          trivial
      next =>
          obtain ⟨sessions, -, h⟩ := Option.map_eq_some_iff.mp h
          cases h
          exact Nat.zero_le _
      next startedAt status files fails heq =>
          cases heq
          split_ifs at h
          · cases h
            trivial
          · cases h
            intro hstatus
            cases hstatus
            exact hp
      next startedAt stage heq _ _ =>
          cases heq
          obtain ⟨⟨t₁, s₁⟩, hnext, h⟩ := Option.map_eq_some_iff.mp h
          cases h
          exact Walk.Counted.next hp hnext
      next => contradiction

/-! ## the history -/

/-- What the rows of `scan_sessions` are worth. -/
structure HistoryTrue (w : World d) : Prop where
  /-- every row is the row of a run, and says what the run wrote last -/
  owner : ∀ r ∈ w.tables.scanSessions, ∃ pid p b, w.processes[pid]? = some p ∧
    p.phase.book? = some b ∧ Shows w.runs pid p.run b r
  /-- every run that recorded its start has exactly one row -/
  row : ∀ p ∈ w.processes, p.phase.book? ≠ none →
    ∃ r ∈ w.tables.scanSessions, r.sessionId = p.sessionId
  distinct : ∀ (pid pid' : Nat) (p p' : Process d), w.processes[pid]? = some p →
    w.processes[pid']? = some p' → p.phase.book? ≠ none → p'.phase.book? ≠ none →
    p.sessionId = p'.sessionId → pid = pid'
  /-- the row of an indexer that succeeded counts every entry the walk reported -/
  count : ∀ r ∈ w.tables.scanSessions, r.status = EndStatus.success.text →
    ∀ p ∈ w.processes, p.phase.book? ≠ none → r.sessionId = p.sessionId →
    ∀ walk, p.job = .indexer walk → r.filesScanned = walk.entries.length
  /-- once the end of a run is recorded, its row never changes again -/
  final : ∀ r ∈ w.tables.scanSessions, ∀ p ∈ w.processes, r.sessionId = p.sessionId →
    (∃ b, p.phase.book? = some b ∧ b.ended ≠ none) →
    ∀ w', Reachable World.step (fun _ _ => True) w w' → r ∈ w'.tables.scanSessions

theorem isExited_of_ended {phase : Phase} {b : Book} {e : Ended} (hbook : phase.book? = some b)
    (hended : b.ended = some e) : phase.isExited = true := by
  cases phase with
  | exited book => rfl
  | recorded startedAt stage =>
      cases hbook
      contradiction
  | _ => contradiction

theorem Process.Counted.files {p : Process d} {walk : Walk d} {b : Book} {e : Ended}
    (h : p.Counted) (hjob : p.job = .indexer walk) (hbook : p.phase.book? = some b)
    (hended : b.ended = some e) (hsuccess : e.status = .success) :
    e.files = walk.entries.length := by
  obtain ⟨job, id, phase⟩ := p
  cases hjob
  cases phase with
  | exited book =>
      cases hbook
      obtain ⟨startedAt, ended⟩ := b
      cases hended
      exact h hsuccess
  | recorded startedAt stage =>
      cases hbook
      contradiction
  | _ => contradiction

/-- Two rows of one run that has recorded its end are the same. -/
theorem Shows.eq_of_ended {runs runs' : Slots Run} {pid : Nat} {x : Run} {b : Book}
    {r r' : ScanSessionRow} {e : Ended} (h : Shows runs pid x b r) (h' : Shows runs' pid x b r')
    (he : b.ended = some e) : r' = r := by
  obtain ⟨hstatus, htime, hfiles⟩ := h.ended e he
  obtain ⟨hstatus', htime', hfiles'⟩ := h'.ended e he
  have hid := h'.sessionId_eq.trans h.sessionId_eq.symm
  have htype := h'.scanType_eq.trans h.scanType_eq.symm
  have hstarted := h'.startedAt_eq.trans h.startedAt_eq.symm
  cases r
  cases r'
  simp_all

/-- **The history is true.**  Whatever runs at the same time, wherever processes
die and whichever statements fail: the rows of `scan_sessions` are those of the
runs that recorded a start, one for one.  A run that recorded its end has a row
that says so and never changes again; the row of any other is `running`, or was
closed as `failed` by another run of its type. -/
theorem history_true {db : Db} {dirStats : DirStats} {userStats : Table UserStatsRow.key}
    {w : World d}
    (hw : Reachable World.step (fun _ _ => True) (World.init db dirStats userStats) w) :
    HistoryTrue w := by
  have hbooked := booked_of_reachable hw
  have howner : ∀ r ∈ w.tables.scanSessions, ∃ pid p b, w.processes[pid]? = some p ∧
      p.phase.book? = some b ∧ Shows w.runs pid p.run b r := by
    intro r hr
    obtain ⟨pid, x, b, hx, hb, hshows⟩ := hbooked.owner r hr
    obtain ⟨p, hp, rfl⟩ := runs_eq_some.mp hx
    exact ⟨pid, p, b, hp, hb, hshows⟩
  have hdistinct : ∀ (pid pid' : Nat) (p p' : Process d), w.processes[pid]? = some p →
      w.processes[pid']? = some p' → p.phase.book? ≠ none → p'.phase.book? ≠ none →
      p.sessionId = p'.sessionId → pid = pid' := fun pid pid' p p' hp hp' =>
    hbooked.unique pid p.run pid' p'.run (runs_eq_some.mpr ⟨p, hp, rfl⟩)
      (runs_eq_some.mpr ⟨p', hp', rfl⟩)
  -- the row with the id of a recorded run is its row
  have hshown : ∀ r ∈ w.tables.scanSessions, ∀ p ∈ w.processes, r.sessionId = p.sessionId →
      ∀ b, p.phase.book? = some b → ∃ pid, w.processes[pid]? = some p ∧
        Shows w.runs pid p.run b r := by
    intro r hr p hp hid b hb
    obtain ⟨pid, hpid⟩ := List.mem_iff_getElem?.mp hp
    obtain ⟨pid', p', b', hp', hb', hshows⟩ := howner r hr
    have hpids : pid' = pid := hdistinct pid' pid p' p hp' hpid (by simp [hb']) (by simp [hb])
      (hshows.sessionId_eq.symm.trans hid)
    subst hpids
    cases hp'.symm.trans hpid
    cases hb.symm.trans hb'
    exact ⟨pid', hpid, hshows⟩
  refine ⟨howner, fun p hp hbook => ?_, hdistinct, ?_, ?_⟩
  · obtain ⟨pid, hpid⟩ := List.mem_iff_getElem?.mp hp
    exact hbooked.row pid p.run (runs_eq_some.mpr ⟨p, hpid, rfl⟩) hbook
  · intro r hr hstatus p hp hbook hid walk hjob
    obtain ⟨b, hb⟩ := Option.ne_none_iff_exists'.mp hbook
    obtain ⟨pid, -, hshows⟩ := hshown r hr p hp hid b hb
    cases hended : b.ended with
    | none =>
        rcases hshows.unended hended with hrun | hreaped
        · exact absurd (hrun.1.symm.trans hstatus) (EndStatus.text_ne_running _).symm
        · exact absurd (hreaped.1.symm.trans hstatus) (by decide)
    | some e =>
        obtain ⟨hstat, -, hfiles⟩ := hshows.ended e hended
        have hcounted : p.Counted :=
          forall_process (fun job _ => by cases job <;> trivial) counted_next hw p hp
        rw [hfiles]
        exact hcounted.files hjob hb hended (EndStatus.text_inj (hstat.symm.trans hstatus))
  · intro r hr p hp hid hended w' hw'
    obtain ⟨b, hb, hne⟩ := hended
    obtain ⟨e, he⟩ := Option.ne_none_iff_exists'.mp hne
    obtain ⟨pid, hpid, hshows⟩ := hshown r hr p hp hid b hb
    have hrun : w.runs pid = some p.run := runs_eq_some.mpr ⟨p, hpid, rfl⟩
    have hdead : p.run.live = false := by simp [Process.run, isExited_of_ended hb he]
    have hbooked' := booked_of_reachable (hw.trans hw')
    have hrun' := runs_of_dead hrun hdead hw'
    obtain ⟨r', hr', hid'⟩ := hbooked'.row pid p.run hrun' (by simp [Process.run, hb])
    obtain ⟨q, y, b', hy, hb', hshows'⟩ := hbooked'.owner r' hr'
    have hq : q = pid := hbooked'.unique q y pid p.run hy hrun' (by simp [hb'])
      (by simp [Process.run, hb]) (hshows'.sessionId_eq.symm.trans hid')
    subst hq
    cases hrun'.symm.trans hy
    cases hb.symm.trans hb'
    exact hshows.eq_of_ended hshows' he ▸ hr'

/-- Two indexers at a time: the second closes the row of the first, which says
so when it is done; then the second dies. -/
theorem history_true_overlap :
    ∃ w : World kcoreDigest, Reachable World.step (fun _ _ => True) sampleWorld w ∧
      w.tables.scanSessions.rows =
        [⟨"a".toList, ScanType.indexer.text, EndStatus.success.text, some 0, some 1, 2⟩,
          ⟨"b".toList, ScanType.indexer.text, running, some 1, none, 0⟩] ∧
      HistoryTrue w := by
  obtain ⟨w, hw, hrows⟩ := exists_reachable World.step (fun _ _ => True) sampleWorld
    (fun w => w.tables.scanSessions.rows =
        [⟨"a".toList, ScanType.indexer.text, EndStatus.success.text, some 0, some 1, 2⟩,
          ⟨"b".toList, ScanType.indexer.text, running, some 1, none, 0⟩])
    ([.spawn sampleJob "a".toList, .spawn sampleJob "b".toList] ++
      sampleScan.map (.move 0) ++ [.tick 1] ++ (sampleScan.take 3).map (.move 1) ++
      [.move 1 .crash, .move 0 (.endSession false)])
    (by decide +kernel)
  exact ⟨w, hw, hrows, history_true hw⟩

end Cuttlefish.ScanHistory
