import Cuttlefish.Run
import Cuttlefish.Stack
import Mathlib.Algebra.Order.Field.Rat
import Mathlib.Tactic.Linarith

/-!
# Cuttlefish.WindowedRows

`useWindowedRows`, which draws the rows of a long table that are near the
viewport and leaves room for the others.

Heights are rational numbers.  A row reaches from its top to where the next
one begins, and so does the viewport: what only touches is not in view.

* `window_covers` — the rows in view are drawn;
* `window_adds_up` — the table is as high as its rows;
* `exists_settled` — measuring comes to rest.
-/

namespace Cuttlefish

namespace WindowedRows

/-- A height that may be recorded. -/
abbrev RowHeight := { h : ℚ // 0 < h }

/-- What has been measured. -/
abbrev Heights := Nat → Option RowHeight

def windowThreshold : Nat := 300

structure Options where
  count : Nat
  estimateHeight : RowHeight
  overscan : Nat := 10
  threshold : Nat := windowThreshold

/-- Where the scrolling ancestor and the rows are on the screen. -/
structure Layout where
  scrollTop : ℚ
  clientHeight : ℚ
  scrollerTop : ℚ
  anchorTop : ℚ

/-- Rows `start` up to, and without, `stop`. -/
structure Range where
  start : Nat
  stop : Nat
  deriving DecidableEq, Repr

structure Window extends Range where
  padTop : ℚ
  padBottom : ℚ
  deriving DecidableEq, Repr

/-! ## the hook -/

section Hook

variable (o : Options) (l : Layout) (heights : Heights)

/-- `heights[i] ?? estimateHeight`. -/
def Options.height (i : Nat) : ℚ := (heights i).getD o.estimateHeight

def Options.windowed : Bool := o.threshold < o.count

def Layout.viewTop : ℚ :=
  let anchorTop := l.anchorTop - l.scrollerTop + l.scrollTop
  l.scrollTop - anchorTop

def Layout.viewBottom : ℚ := l.viewTop + l.clientHeight

/-- The two loops of `compute`. -/
def visible : Range :=
  let height := o.height heights
  let (start, acc) := advance height (fun i acc => acc + height i < l.viewTop) o.count 0 0
  let (stop, _) := advance height (fun _ acc => acc < l.viewBottom) (o.count - start) start acc
  ⟨start, stop⟩

/-- The range to draw. -/
def compute : Range where
  start := (visible o l heights).start - o.overscan
  stop := min o.count ((visible o l heights).stop + o.overscan)

def sum (i j : Nat) : ℚ := ∑ k ∈ Finset.Ico i j, o.height heights k

/-- What the hook returns. -/
def window (range : Range) : Window :=
  if o.windowed then
    let stop := min range.stop o.count
    let start := min range.start stop
    { start, stop, padTop := sum o heights 0 start, padBottom := sum o heights stop o.count }
  else { start := 0, stop := o.count, padTop := 0, padBottom := 0 }

variable (actual : Nat → ℚ)

/-- A row whose height is not what is on record. -/
def Stale (i : Nat) : Prop := 0 < actual i ∧ 1 / 2 < |o.height heights i - actual i|

instance : DecidablePred (Stale o heights actual) := fun _ => inferInstanceAs (Decidable (_ ∧ _))

/-- Measures one row; the flag says whether a height moved. -/
def measureRow (s : Heights × Bool) (i : Nat) : Heights × Bool :=
  if h : Stale o s.1 actual i then (Function.update s.1 i (some ⟨actual i, h.1⟩), true) else s

/-- Measures the rows that are drawn. -/
def measure (w : Window) : Heights × Bool :=
  (List.range' w.start (w.stop - w.start)).foldl (measureRow o actual) (heights, false)

end Hook

/-! ## the range -/

section Range

variable (o : Options) (l : Layout) (heights : Heights)

theorem height_pos (i : Nat) : 0 < o.height heights i := Subtype.property _

/-- What the two loops stop at. -/
theorem visible_spec :
    (visible o l heights).start ≤ (visible o l heights).stop ∧
      (visible o l heights).stop ≤ o.count ∧
      (∀ k < (visible o l heights).start, offset (o.height heights) (k + 1) < l.viewTop) ∧
      ((visible o l heights).stop < o.count →
        l.viewBottom ≤ offset (o.height heights) (visible o l heights).stop) := by
  have hfirst := advance_spec (o.height heights)
    (fun i acc => acc + o.height heights i < l.viewTop) o.count 0
  rw [offset_zero] at hfirst
  set first := advance (o.height heights)
    (fun i acc => decide (acc + o.height heights i < l.viewTop)) o.count 0 0 with hset
  have hlast := advance_spec (o.height heights) (fun _ acc => acc < l.viewBottom)
    (o.count - first.1) first.1
  rw [← hfirst.total] at hlast
  set last := advance (o.height heights) (fun _ acc => decide (acc < l.viewBottom))
    (o.count - first.1) first.1 first.2
  have hvisible : visible o l heights = ⟨first.1, last.1⟩ := rfl
  have hcount := hfirst.le_left
  have hleft := hlast.le_left
  rw [hvisible]
  dsimp only
  refine ⟨hlast.le, by omega, fun k hk => ?_, fun hlt => ?_⟩
  · have hpassed := hfirst.passed k (Nat.zero_le k) hk
    rw [offset_succ]
    exact of_decide_eq_true hpassed
  · have hstopped := hlast.stopped (by omega)
    exact not_lt.mp (of_decide_eq_false hstopped)

theorem compute_le : (compute o l heights).start ≤ (compute o l heights).stop ∧
    (compute o l heights).stop ≤ o.count := by
  obtain ⟨hle, hcount, -, -⟩ := visible_spec o l heights
  simp only [compute]
  omega

/-- Where a row is. -/
def rowTop (i : Nat) : ℚ := offset (o.height heights) i

theorem rowTop_strictMono : StrictMono (rowTop o heights) :=
  offset_strictMono (height_pos o heights)

variable {o l heights} {k : Nat}

theorem start_visible_le (hbottom : l.viewTop ≤ rowTop o heights (k + 1)) :
    (visible o l heights).start ≤ k := by
  obtain ⟨-, -, habove, -⟩ := visible_spec o l heights
  by_contra! hlt
  exact absurd (habove k hlt) (not_lt.mpr hbottom)

/-- Behind the range, rows begin below the viewport. -/
theorem viewBottom_le (hk : k < o.count) (hstop : (visible o l heights).stop ≤ k) :
    l.viewBottom ≤ rowTop o heights (visible o l heights).stop := by
  obtain ⟨-, -, -, hbelow⟩ := visible_spec o l heights
  exact hbelow (by omega)

/-- **The rows in view are drawn**, those that touch the viewport from above
included. -/
theorem compute_covers (hk : k < o.count) (htop : rowTop o heights k < l.viewBottom)
    (hbottom : l.viewTop ≤ rowTop o heights (k + 1)) :
    (compute o l heights).start ≤ k ∧ k < (compute o l heights).stop := by
  have hstart := start_visible_le hbottom
  have hstop : k < (visible o l heights).stop := by
    by_contra! hle
    have hmono := (rowTop_strictMono o heights).monotone hle
    exact absurd ((viewBottom_le hk hle).trans hmono) (not_le.mpr htop)
  simp only [compute]
  omega

/-- With rows to spare, one that touches it from below is drawn too. -/
theorem compute_covers_touching (hoverscan : 0 < o.overscan) (hk : k < o.count)
    (htop : rowTop o heights k ≤ l.viewBottom) (hbottom : l.viewTop ≤ rowTop o heights (k + 1)) :
    (compute o l heights).start ≤ k ∧ k < (compute o l heights).stop := by
  have hstart := start_visible_le hbottom
  have hstop : k ≤ (visible o l heights).stop := by
    by_contra! hlt
    have hmono := rowTop_strictMono o heights hlt
    exact absurd ((viewBottom_le hk hlt.le).trans_lt hmono) (not_lt.mpr htop)
  simp only [compute]
  omega

end Range

/-! ## the window -/

section Window

variable (o : Options) (l : Layout) (heights : Heights) (range : Range)

theorem window_le : (window o heights range).start ≤ (window o heights range).stop ∧
    (window o heights range).stop ≤ o.count := by
  unfold window
  split_ifs
  · simp
  · simp

/-- **The table is as high as its rows**, whatever is drawn. -/
theorem window_adds_up :
    (window o heights range).padTop +
        sum o heights (window o heights range).start (window o heights range).stop +
      (window o heights range).padBottom = sum o heights 0 o.count := by
  obtain ⟨hle, hcount⟩ := window_le o heights range
  have hsum := offset_add_sum (o.height heights) hle hcount
  simp only [offset, Finset.range_eq_Ico] at hsum
  rw [sum, sum, ← hsum]
  unfold window
  split_ifs with hwindowed
  · rfl
  · simp

/-- The window of a range that was just computed. -/
theorem window_compute (h : o.windowed = true) :
    (window o heights (compute o l heights)).toRange = compute o l heights := by
  obtain ⟨hle, hcount⟩ := compute_le o l heights
  rw [window, if_pos h]
  dsimp only
  rw [min_eq_left hcount, min_eq_left hle]

/-- **What is in view is drawn**, whether the table is windowed or not. -/
theorem window_covers {k : Nat} (hk : k < o.count) (htop : rowTop o heights k < l.viewBottom)
    (hbottom : l.viewTop ≤ rowTop o heights (k + 1)) :
    (window o heights (compute o l heights)).start ≤ k ∧
      k < (window o heights (compute o l heights)).stop := by
  cases hwindowed : o.windowed with
  | true =>
      rw [window_compute o l heights hwindowed]
      exact compute_covers hk htop hbottom
  | false => simpa [window, hwindowed] using hk

end Window

/-! ## measuring -/

section Measure

variable (o : Options) (l : Layout) (actual : Nat → ℚ)

/-- The row is as high as on record, and no other is changed. -/
theorem measureRow_cases (s : Heights × Bool) (i : Nat) :
    measureRow o actual s i = s ∨
      Stale o s.1 actual i ∧ (measureRow o actual s i).2 = true ∧
        ¬ Stale o (measureRow o actual s i).1 actual i ∧
        ∀ j ≠ i, (measureRow o actual s i).1 j = s.1 j := by
  unfold measureRow
  split_ifs with hstale
  · refine Or.inr ⟨hstale, rfl, ?_, fun j hj => Function.update_of_ne hj _ _⟩
    simp [Stale, Options.height]
  · exact Or.inl rfl

/-- What is on record is what was measured, or was on record before. -/
theorem stale_of_stale_measureRow {s : Heights × Bool} {i j : Nat}
    (h : Stale o (measureRow o actual s i).1 actual j) : Stale o s.1 actual j := by
  obtain heq | ⟨hstale, -, hfresh, hother⟩ := measureRow_cases o actual s i
  · rwa [heq] at h
  · by_cases hji : j = i
    · rwa [hji]
    · simpa [Stale, Options.height, hother j hji] using h

theorem foldl_measureRow (rows : List Nat) (s : Heights × Bool) :
    (∀ j, Stale o (rows.foldl (measureRow o actual) s).1 actual j → Stale o s.1 actual j) ∧
      (rows.foldl (measureRow o actual) s = s ∨
        (rows.foldl (measureRow o actual) s).2 = true ∧
          ∃ i ∈ rows, Stale o s.1 actual i ∧
            ¬ Stale o (rows.foldl (measureRow o actual) s).1 actual i) := by
  induction rows generalizing s with
  | nil => simp
  | cons i rows ih =>
      obtain ⟨hkeep, hrest⟩ := ih (measureRow o actual s i)
      rw [List.foldl_cons]
      refine ⟨fun j hj => stale_of_stale_measureRow o actual (hkeep j hj), ?_⟩
      obtain heq | ⟨hstale, hflag, hfresh, -⟩ := measureRow_cases o actual s i
      · rw [heq] at hrest ⊢
        obtain hsame | ⟨hchanged, k, hk, hbefore, hafter⟩ := hrest
        · exact Or.inl hsame
        · exact Or.inr ⟨hchanged, k, List.mem_cons_of_mem _ hk, hbefore, hafter⟩
      · refine Or.inr ⟨?_, i, List.mem_cons_self, hstale, fun hafter => hfresh (hkeep i hafter)⟩
        obtain hsame | ⟨hchanged, -⟩ := hrest
        · rw [hsame, hflag]
        · exact hchanged

end Measure

/-! ## the hook over time -/

end WindowedRows

open WindowedRows

/-- What the hook is given and keeps. -/
structure WindowedRows where
  options : Options
  layout : Layout
  heights : Heights
  range : Range

namespace WindowedRows

/-- What makes the hook look again: other rows or columns, scrolling, another
size, and a render after which the rows that are drawn can be measured. -/
inductive Event where
  | reset (o : Options) (l : Layout)
  | scrolled (l : Layout)
  | resized (l : Layout)
  | committed (actual : Nat → ℚ)

def recompute (s : WindowedRows) : WindowedRows :=
  { s with range := compute s.options s.layout s.heights }

def reset (o : Options) (l : Layout) : WindowedRows :=
  let s : WindowedRows := ⟨o, l, fun _ => none, ⟨0, 0⟩⟩
  if o.windowed then s.recompute else s

/-- The effect that runs after every render. -/
def commit (actual : Nat → ℚ) (s : WindowedRows) : WindowedRows :=
  if s.options.windowed then
    let w := window s.options s.heights s.range
    let (heights, changed) := measure s.options s.heights actual w
    if changed then { s with heights }.recompute else { s with heights }
  else s

def step (s : WindowedRows) : Event → WindowedRows
  | .reset o l => reset o l
  | .scrolled l =>
      if s.options.windowed then { s with layout := l }.recompute else { s with layout := l }
  | .resized l =>
      if s.options.windowed then { s with layout := l, heights := fun _ => none }.recompute
      else { s with layout := l }
  | .committed actual => s.commit actual

/-- What is drawn. -/
def shown (s : WindowedRows) : Window := window s.options s.heights s.range

/-- The range is the one for the heights on record. -/
def UpToDate (s : WindowedRows) : Prop :=
  s.options.windowed = true → s.range = compute s.options s.layout s.heights

section Events

variable {s : WindowedRows} {actual : Nat → ℚ}

/-- A render either changes nothing, or some row is no longer stale. -/
theorem commit_cases (actual : Nat → ℚ) (s : WindowedRows) :
    s.commit actual = s ∨ ∃ heights,
      s.commit actual = { s with heights }.recompute ∧
        (∀ j, Stale s.options heights actual j → Stale s.options s.heights actual j) ∧
        ∃ i < s.options.count, Stale s.options s.heights actual i ∧
          ¬ Stale s.options heights actual i := by
  unfold commit
  split_ifs with hwindowed
  · set w := window s.options s.heights s.range with hw
    obtain ⟨hkeep, hrest⟩ := foldl_measureRow s.options actual
      (List.range' w.start (w.stop - w.start)) (s.heights, false)
    rw [← measure] at hkeep hrest
    obtain hsame | ⟨hchanged, i, hi, hstale, hfresh⟩ := hrest
    · exact Or.inl (by simp [hsame])
    · have hcount : i < s.options.count := by
        have hle := (window_le s.options s.heights s.range).2
        rw [← hw] at hle
        simp only [List.mem_range'_1] at hi
        omega
      exact Or.inr ⟨_, by simp [hchanged], hkeep, i, hcount, hstale, hfresh⟩
  · exact Or.inl rfl

/-- The rows that would be recorded if they were drawn. -/
def stale (actual : Nat → ℚ) (s : WindowedRows) : Finset Nat :=
  (Finset.range s.options.count).filter (Stale s.options s.heights actual)

theorem mem_stale {s : WindowedRows} {i : Nat} :
    i ∈ stale actual s ↔ i < s.options.count ∧ Stale s.options s.heights actual i := by
  simp [stale]

/-- **Every render that changes something leaves fewer stale rows.** -/
theorem card_stale_commit (actual : Nat → ℚ) (s : WindowedRows) :
    s.commit actual = s ∨ (stale actual (s.commit actual)).card < (stale actual s).card := by
  obtain heq | ⟨heights, heq, hkeep, i, hi, hstale, hfresh⟩ := commit_cases actual s
  · exact Or.inl heq
  · right
    have hsubset : stale actual (s.commit actual) ⊆ stale actual s := by
      intro j hj
      rw [heq, mem_stale] at hj
      exact mem_stale.mpr ⟨hj.1, hkeep j hj.2⟩
    apply Finset.card_lt_card
    rw [Finset.ssubset_iff_of_subset hsubset]
    refine ⟨i, mem_stale.mpr ⟨hi, hstale⟩, fun hmem => ?_⟩
    rw [heq, mem_stale] at hmem
    exact hfresh hmem.2

/-- **Measuring comes to rest**, in no more renders than there are rows. -/
theorem exists_settled (actual : Nat → ℚ) (s : WindowedRows) :
    ∃ n ≤ s.options.count, Function.IsFixedPt (commit actual) ((commit actual)^[n] s) := by
  obtain ⟨n, hn, hfixed⟩ := exists_isFixedPt_iterate (commit actual)
    (fun s => (stale actual s).card) (card_stale_commit actual) s
  have hcard : (stale actual s).card ≤ s.options.count :=
    (Finset.card_filter_le _ _).trans_eq (Finset.card_range _)
  exact ⟨n, hn.trans hcard, hfixed⟩

theorem upToDate_recompute (s : WindowedRows) : s.recompute.UpToDate := fun _ => rfl

/-- A table that is not windowed has no range to keep. -/
theorem upToDate_ite (s : WindowedRows) :
    (if s.options.windowed then s.recompute else s).UpToDate := by
  split_ifs with hwindowed
  · exact upToDate_recompute s
  · exact fun h => absurd h hwindowed

theorem upToDate_reset (o : Options) (l : Layout) : (reset o l).UpToDate :=
  upToDate_ite ⟨o, l, fun _ => none, ⟨0, 0⟩⟩

theorem UpToDate.step (h : s.UpToDate) (e : Event) : (s.step e).UpToDate := by
  cases e with
  | reset o l => exact upToDate_reset o l
  | scrolled l => exact upToDate_ite { s with layout := l }
  | resized l =>
      -- the heights are only forgotten where they are used
      simp only [WindowedRows.step]
      split_ifs with hwindowed
      · exact upToDate_recompute _
      · exact fun hw => absurd hw hwindowed
  | committed actual =>
      simp only [WindowedRows.step]
      obtain heq | ⟨heights, heq, -⟩ := commit_cases actual s
      · rwa [heq]
      · rw [heq]
        exact upToDate_recompute _

/-- **At any time the rows in view are drawn.** -/
theorem shown_covers {o : Options} {l : Layout}
    (h : Reachable (fun s e => some (s.step e)) (fun _ _ => True) (reset o l) s) {k : Nat}
    (hk : k < s.options.count) (htop : rowTop s.options s.heights k < s.layout.viewBottom)
    (hbottom : s.layout.viewTop ≤ rowTop s.options s.heights (k + 1)) :
    s.shown.start ≤ k ∧ k < s.shown.stop := by
  have hdate : s.UpToDate := h.invariant UpToDate (upToDate_reset o l) fun _ hinv _ hstep => by
    cases hstep
    exact hinv.step _
  have hcovers := window_covers s.options s.layout s.heights hk htop hbottom
  cases hwindowed : s.options.windowed with
  | true => rwa [shown, hdate hwindowed]
  | false => simpa [shown, window, hwindowed] using hk

end Events

/-- **The window**: the range is one of rows and has all that are in view; the
table is as high as its rows, whatever range is kept; and with the true heights
measured render after render, nothing changes in the end. -/
theorem windowedRows_spec (o : Options) (l : Layout) (heights : Heights) :
    ((compute o l heights).start ≤ (compute o l heights).stop ∧
        (compute o l heights).stop ≤ o.count) ∧
      (∀ k < o.count,
        (Set.Ico (rowTop o heights k) (rowTop o heights (k + 1)) ∩
            Set.Ico l.viewTop l.viewBottom).Nonempty ∨
          0 < o.overscan ∧ (Set.Icc (rowTop o heights k) (rowTop o heights (k + 1)) ∩
            Set.Icc l.viewTop l.viewBottom).Nonempty →
        (compute o l heights).start ≤ k ∧ k < (compute o l heights).stop) ∧
      ∀ range : Range,
        ((window o heights range).start ≤ (window o heights range).stop ∧
          (window o heights range).stop ≤ o.count) ∧
        (window o heights range).padTop +
            sum o heights (window o heights range).start (window o heights range).stop +
          (window o heights range).padBottom = sum o heights 0 o.count ∧
        ∀ actual : Nat → ℚ, ∃ n ≤ o.count,
          Function.IsFixedPt (commit actual) ((commit actual)^[n] ⟨o, l, heights, range⟩) := by
  refine ⟨compute_le o l heights, fun k hk hview => ?_, fun range => ?_⟩
  · obtain ⟨y, ⟨htop, hbottom⟩, hviewTop, hviewBottom⟩ | ⟨hoverscan, y, ⟨htop, hbottom⟩, hviewTop,
      hviewBottom⟩ := hview
    · exact compute_covers hk (htop.trans_lt hviewBottom) (hviewTop.trans hbottom.le)
    · exact compute_covers_touching hoverscan hk (htop.trans hviewBottom) (hviewTop.trans hbottom)
  · exact ⟨window_le o heights range, window_adds_up o heights range, fun actual =>
      exists_settled actual ⟨o, l, heights, range⟩⟩

/-- A table of which the middle row is in view. -/
def sampleOptions : Options where
  count := 3
  estimateHeight := ⟨37, by decide⟩
  overscan := 0
  threshold := 0

def sampleLayout : Layout := ⟨0, 20, 100, 60⟩

theorem windowedRows_spec_sample :
    (compute sampleOptions sampleLayout fun _ => none).start ≤ 1 ∧
      1 < (compute sampleOptions sampleLayout fun _ => none).stop := by
  have hspec := windowedRows_spec sampleOptions sampleLayout fun _ => none
  have hrow : (40 : ℚ) ∈ Set.Ico (rowTop sampleOptions (fun _ => none) 1)
      (rowTop sampleOptions (fun _ => none) 2) := ⟨by decide +kernel, by decide +kernel⟩
  have hview : (40 : ℚ) ∈ Set.Ico sampleLayout.viewTop sampleLayout.viewBottom :=
    ⟨by decide +kernel, by decide +kernel⟩
  exact hspec.2.1 1 (by decide) (Or.inl ⟨40, hrow, hview⟩)

example : compute sampleOptions sampleLayout (fun _ => none) = ⟨1, 2⟩ := by decide +kernel

end WindowedRows

end Cuttlefish
