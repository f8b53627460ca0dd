import Cuttlefish.DetailPanel
import Cuttlefish.FileBrowser
import Cuttlefish.Treemap.Rounded
import Mathlib.Algebra.BigOperators.Ring.Finset

/-!
# Cuttlefish.Treemap.View

`TreemapView`, which draws the entries of a directory that are large enough
and lists the others below.

Sizes, shares and areas are doubles, as in the code.  In a container of up to
2^20 pixels rounding loses no tile: there are at most 2^23 of them
(`length_drawn_le`), so that the rectangle has room for all (`room_drawn`).

Two entries may be shown with the same path.  The entries that are listed are
those whose path is not that of a tile, which is right exactly if no entry too
small to draw has the path of a tile (`accountsFor_iff`).
-/

namespace Cuttlefish.Treemap

/-! ## the layout -/

/-- `Math.round`, halves up. -/
def mathRound (x : Double) : Double := ((⌊x.toRat + 1 / 2⌋ : ℤ) : ℚ)

/-- The height of the rectangle. -/
def height (width : Double) : Double :=
  mathRound (min (max (width * (1 / 2 : ℚ)) (320 : ℚ)) (680 : ℚ))

/-- A size as the number that is read. -/
def size (entry : Entry) : Double := (effectiveSize entry : ℚ)

/-- What the memo keeps. -/
structure Layout where
  tiles : List (Tile Double Entry)
  hidden : List (Item Double Entry)
  hiddenBytes : Double
  grandTotal : Double

section View

variable (entries : List Entry) (width : Double)

/-- The entries by size, the largest first. -/
def sized : List (Item Double Entry) :=
  (entries.map fun entry => ⟨entry, size entry⟩).insertionSort fun a b => b.size ≤ a.size

def area : Double := width * height width

def total : Double := addUp ((sized entries).map Item.size)

/-- Large enough to be drawn? -/
def isLarge (s : Item Double Entry) : Bool :=
  0 < s.size && minTileArea ≤ s.size / total entries * area width

def drawn : List (Item Double Entry) :=
  if 0 < area width ∧ 0 < total entries then (sized entries).filter (isLarge entries width) else []

def drawnTotal : Double := addUp ((drawn entries width).map Item.size)

/-- Does a tile have this path? -/
def isDrawnPath (path : Text) : Bool := path ∈ (drawn entries width).map fun s => s.entry.path

def layout : Layout :=
  let rest := (sized entries).filter fun s => !isDrawnPath entries width s.entry.path
  { tiles :=
      if 0 < drawnTotal entries width then
        squarify ((drawn entries width).map fun s =>
          ⟨s, s.size / drawnTotal entries width * area width⟩) 0 0 width (height width)
      else []
    hidden := rest
    hiddenBytes := addUp (rest.map Item.size)
    grandTotal := total entries }

/-- Every entry is a tile or listed, once, and the sizes add up. -/
def AccountsFor : Prop :=
  ((layout entries width).tiles.map (·.entry) ++ (layout entries width).hidden.map Item.entry).Perm
      entries ∧
    Double.sum ((layout entries width).tiles.map (·.size)) +
        Double.sum ((layout entries width).hidden.map Item.size) =
      Double.sum (entries.map size)

/-- The totals that are shown are the exact ones. -/
def TotalsExact : Prop :=
  (layout entries width).hiddenBytes.toRat =
      Double.sum ((layout entries width).hidden.map Item.size) ∧
    (layout entries width).grandTotal.toRat = (entries.map effectiveSize).sum

/-- An entry with its share of the area. -/
def IsLarge (e : Entry) : Prop :=
  0 < area width ∧ 0 < total entries ∧ isLarge entries width ⟨e, size e⟩ = true

instance : DecidablePred (IsLarge entries width) := fun _ =>
  inferInstanceAs (Decidable (_ ∧ _ ∧ _))

/-- No entry too small to draw is shown with the path of one that is drawn. -/
def NoHiddenTwin : Prop :=
  ∀ d ∈ entries, IsLarge entries width d → ∀ e ∈ entries, e.path = d.path → IsLarge entries width e

end View

instance (entries : List Entry) (width : Double) : Decidable (NoHiddenTwin entries width) :=
  inferInstanceAs (Decidable (∀ d ∈ entries, _ → ∀ e ∈ entries, _ = _ → _))

/-! ## what is drawn -/

section Drawn

variable {entries : List Entry} {width : Double}

theorem height_bounds (width : Double) :
    320 ≤ (height width).toRat ∧ (height width).toRat ≤ 680 := by
  have hlit : ∀ n : ℤ, |n| ≤ 2 ^ 53 → ((n : ℚ) : Double).toRat = n := fun n => Double.round_intCast
  have h320 : ((320 : ℚ) : Double).toRat = 320 := by exact_mod_cast hlit 320 (by decide)
  have h680 : ((680 : ℚ) : Double).toRat = 680 := by exact_mod_cast hlit 680 (by decide)
  have hin : ∀ x : ℚ, 320 ≤ x → x ≤ 680 → (320 : ℤ) ≤ ⌊x + 1 / 2⌋ ∧ ⌊x + 1 / 2⌋ < (681 : ℤ) := by
    intro x hlow hhigh
    rw [Int.le_floor, Int.floor_lt]
    push_cast
    constructor <;> linarith
  obtain ⟨hlow, hhigh⟩ := hin (min (max (width * (1 / 2 : ℚ)) (320 : ℚ)) (680 : ℚ) : Double).toRat
    (by rw [Double.toRat_min, Double.toRat_max, h320, h680]
        exact le_min (le_max_right _ _) (by norm_num))
    (by rw [Double.toRat_min, h680]
        exact min_le_right _ _)
  rw [height, mathRound, hlit _ (by rw [abs_le]; omega)]
  constructor
  · exact_mod_cast hlow
  · exact_mod_cast Int.lt_add_one_iff.mp hhigh

theorem sized_perm (entries : List Entry) :
    (sized entries).Perm (entries.map fun entry => ⟨entry, size entry⟩) :=
  List.perm_insertionSort _ _

theorem mem_sized {s : Item Double Entry} :
    s ∈ sized entries ↔ ∃ e ∈ entries, s = ⟨e, size e⟩ := by
  rw [(sized_perm entries).mem_iff]
  simp [eq_comm]

theorem drawn_eq_filter (entries : List Entry) (width : Double) :
    drawn entries width = (sized entries).filter fun s => IsLarge entries width s.entry := by
  have hlarge : ∀ s ∈ sized entries, (decide (IsLarge entries width s.entry)) =
      (decide (0 < area width ∧ 0 < total entries) && isLarge entries width s) := by
    intro s hs
    obtain ⟨e, -, rfl⟩ := mem_sized.mp hs
    rw [Bool.eq_iff_iff, decide_eq_true_eq]
    simp [IsLarge, and_assoc]
  rw [List.filter_congr hlarge, drawn]
  split_ifs with harea
  · simp [harea]
  · simp [harea]

theorem drawn_sublist (entries : List Entry) (width : Double) :
    (drawn entries width).Sublist (sized entries) := by
  rw [drawn_eq_filter]
  exact List.filter_sublist

theorem mem_drawn {s : Item Double Entry} :
    s ∈ drawn entries width ↔ s ∈ sized entries ∧ IsLarge entries width s.entry := by
  simp [drawn_eq_filter]

theorem pos_of_mem_drawn {s : Item Double Entry} (h : s ∈ drawn entries width) :
    0 < s.size ∧ minTileArea ≤ s.size / total entries * area width := by
  obtain ⟨hs, -, -, hlarge⟩ := mem_drawn.mp h
  obtain ⟨e, -, rfl⟩ := mem_sized.mp hs
  simpa [isLarge] using hlarge

theorem size_le_drawnTotal {s : Item Double Entry} (h : s ∈ drawn entries width) :
    s.size ≤ drawnTotal entries width := by
  have hsingle : addUp [s.size] = s.size := by
    apply Double.toRat_injective
    rw [addUp, List.foldl_cons, List.foldl_nil, Double.toRat_add, Double.toRat_zero, zero_add,
      Double.round_toRat]
  rw [← hsingle]
  apply Double.addUp_le_of_sublist
  · rw [List.singleton_sublist]
    exact List.mem_map_of_mem h
  · rw [List.forall_mem_map]
    exact fun u hu => (pos_of_mem_drawn hu).1.le

theorem drawnTotal_pos_iff : 0 < drawnTotal entries width ↔ drawn entries width ≠ [] := by
  constructor
  · intro hpos hnil
    rw [drawnTotal, hnil] at hpos
    exact hpos.ne rfl
  · intro hne
    obtain ⟨s, hs⟩ := List.exists_mem_of_ne_nil _ hne
    exact (pos_of_mem_drawn hs).1.trans_le (size_le_drawnTotal hs)

/-- **The tiles are the first of what is drawn**, whatever the width is. -/
theorem isPrefix_tiles (entries : List Entry) (width : Double) :
    (layout entries width).tiles.map Tile.toItem <+: drawn entries width := by
  rw [layout]
  dsimp only
  split_ifs with hdrawn
  · have hprefix := isPrefix_squarify ((drawn entries width).map fun s =>
      (⟨s, s.size / drawnTotal entries width * area width⟩ : Sized Double Entry)) 0 0 width
        (height width)
    simpa [Function.comp_def] using hprefix
  · exact List.nil_prefix

end Drawn

/-! ## the room they take -/

section Bounds

variable {entries : List Entry} {width : Double}

theorem size_nonneg {e : Entry} (h : 0 ≤ effectiveSize e) : 0 ≤ size e :=
  Double.round_nonneg (Int.cast_nonneg h)

theorem sizes_nonneg (hsizes : ∀ e ∈ entries, 0 ≤ effectiveSize e) :
    ∀ x ∈ (sized entries).map Item.size, 0 ≤ x := by
  rw [List.forall_mem_map]
  intro s hs
  obtain ⟨e, he, rfl⟩ := mem_sized.mp hs
  exact size_nonneg (hsizes e he)

/-- A share of the area, rounded twice. -/
theorem share_le {s t a : Double} (hs : 0 ≤ s) (ht : 0 < t) (ha : 0 ≤ a) :
    0 ≤ (s / t * a).toRat ∧
      (s / t * a).toRat * t.toRat ≤ s.toRat * a.toRat * (1 + 1 / 2 ^ 51) := by
  have hs' : 0 ≤ s.toRat := hs
  have ht' : 0 < t.toRat := ht
  have ha' : 0 ≤ a.toRat := ha
  have hdiv0 : 0 ≤ s.toRat / t.toRat := div_nonneg hs' ht'.le
  have hshare0 : 0 ≤ (s / t).toRat := Double.round_nonneg hdiv0
  have hprod0 : 0 ≤ (s / t).toRat * a.toRat := mul_nonneg hshare0 ha'
  have hshare : (s / t).toRat ≤ s.toRat / t.toRat * (1 + 1 / 2 ^ 53) := by
    have hround := (abs_le.mp (Double.abs_round_sub_le (s.toRat / t.toRat))).2
    rw [abs_of_nonneg hdiv0, ← Double.toRat_div] at hround
    linarith
  have hprod : (s / t * a).toRat ≤ (s / t).toRat * a.toRat * (1 + 1 / 2 ^ 53) := by
    have hround := (abs_le.mp (Double.abs_round_sub_le ((s / t).toRat * a.toRat))).2
    rw [abs_of_nonneg hprod0, ← Double.toRat_mul] at hround
    linarith
  refine ⟨Double.round_nonneg hprod0, ?_⟩
  calc (s / t * a).toRat * t.toRat
      ≤ (s / t).toRat * a.toRat * (1 + 1 / 2 ^ 53) * t.toRat :=
        mul_le_mul_of_nonneg_right hprod ht'.le
    _ = (s / t).toRat * (a.toRat * (1 + 1 / 2 ^ 53) * t.toRat) := by ring
    _ ≤ s.toRat / t.toRat * (1 + 1 / 2 ^ 53) * (a.toRat * (1 + 1 / 2 ^ 53) * t.toRat) :=
        mul_le_mul_of_nonneg_right hshare (by positivity)
    _ = s.toRat * a.toRat * ((1 + 1 / 2 ^ 53) * (1 + 1 / 2 ^ 53)) := by
        field_simp
    _ ≤ s.toRat * a.toRat * (1 + 1 / 2 ^ 51) :=
        mul_le_mul_of_nonneg_left (by norm_num) (mul_nonneg hs' ha')

theorem drawn_sizes_nonneg {items : List (Item Double Entry)} (hsub : items ⊆ drawn entries width) :
    ∀ x ∈ items.map Item.size, 0 ≤ x := by
  rw [List.forall_mem_map]
  exact fun s hs => (pos_of_mem_drawn (hsub hs)).1.le

theorem area_le (hwidth : width.toRat ≤ 2 ^ 20) (harea : 0 < area width) :
    0 < width ∧ (area width).toRat ≤ width.toRat * (height width).toRat + 1 ∧
      (area width).toRat ≤ 2 ^ 20 * 681 := by
  obtain ⟨hlow, hhigh⟩ := height_bounds width
  have hpos : 0 < width.toRat := by
    by_contra! hneg
    have hprod : width.toRat * (height width).toRat ≤ 0 :=
      mul_nonpos_of_nonpos_of_nonneg hneg (by linarith)
    exact absurd harea (not_lt.mpr (Double.round_nonpos hprod))
  have hprod : width.toRat * (height width).toRat ≤ 2 ^ 20 * 680 :=
    mul_le_mul hwidth hhigh (by linarith) (by norm_num)
  have hround := (abs_le.mp (Double.abs_round_sub_le (width.toRat * (height width).toRat))).2
  rw [abs_of_nonneg (mul_nonneg hpos.le (by linarith)), ← Double.toRat_mul] at hround
  refine ⟨hpos, ?_, ?_⟩ <;> rw [area] <;> linarith

/-- What is drawn is a part of the whole that gets some 100 square pixels. -/
theorem share_of_mem_drawn {s : Item Double Entry} (hs : s ∈ drawn entries width) :
    99 * (total entries).toRat ≤ s.size.toRat * (area width).toRat := by
  obtain ⟨hsize, hshare⟩ := pos_of_mem_drawn hs
  obtain ⟨harea, htotal, -⟩ := (mem_drawn.mp hs).2
  obtain ⟨-, hle⟩ := share_le hsize.le htotal harea.le
  have h100 : 100 ≤ (s.size / total entries * area width).toRat := toRat_minTileArea ▸ hshare
  have hscaled := mul_le_mul_of_nonneg_right h100 (le_of_lt htotal : 0 ≤ (total entries).toRat)
  have hprod : 0 ≤ s.size.toRat * (area width).toRat :=
    mul_nonneg (le_of_lt hsize) (le_of_lt harea)
  have htotal' : 0 ≤ (total entries).toRat := le_of_lt htotal
  linarith

theorem share_of_sublist {items : List (Item Double Entry)} (hsub : items ⊆ drawn entries width) :
    items.length * (99 * (total entries).toRat) ≤
      Double.sum (items.map Item.size) * (area width).toRat := by
  induction items with
  | nil => simp [Double.sum]
  | cons s items ih =>
      rw [List.cons_subset] at hsub
      have hfirst := share_of_mem_drawn hsub.1
      have hrest := ih hsub.2
      rw [Double.sum] at hrest
      rw [Double.sum, List.map_cons, List.map_cons, List.sum_cons, List.length_cons]
      push_cast
      linarith

/-- **There are at most 2^23 tiles**: any 2^23 of what is drawn take more than
the area there is. -/
theorem length_drawn_le (hsizes : ∀ e ∈ entries, 0 ≤ effectiveSize e)
    (hwidth : width.toRat ≤ 2 ^ 20) : (drawn entries width).length ≤ 2 ^ 23 := by
  by_contra! hmany
  have hmem : drawn entries width ≠ [] := by
    intro hnil
    rw [hnil] at hmany
    exact absurd hmany (by simp)
  obtain ⟨s, hs⟩ := List.exists_mem_of_ne_nil _ hmem
  obtain ⟨harea, htotal, -⟩ := (mem_drawn.mp hs).2
  obtain ⟨-, -, hbound⟩ := area_le hwidth harea
  have htotal' : 0 < (total entries).toRat := htotal
  let first := (drawn entries width).take (2 ^ 23)
  have hlength : first.length = 2 ^ 23 := by
    rw [List.length_take]
    omega
  have hsub : first ⊆ drawn entries width := List.take_subset _ _
  have hnonneg := drawn_sizes_nonneg hsub
  -- the first 2^23 are no more than all of it
  have hpart : (addUp (first.map Item.size)).toRat ≤ (total entries).toRat :=
    Double.addUp_le_of_sublist
      (((List.take_sublist _ _).trans (drawn_sublist entries width)).map _) (sizes_nonneg hsizes)
  have herror := (abs_le.mp (Double.abs_addUp_sub_le hnonneg (by simp [hlength]))).1
  rw [List.length_map, hlength] at herror
  have hsum := Double.sum_nonneg hnonneg
  have hshare := share_of_sublist hsub
  rw [hlength] at hshare
  -- yet they are more than the area has room for
  have hscaled := mul_le_mul_of_nonneg_left hbound hsum
  have hle : Double.sum (first.map Item.size) ≤ (total entries).toRat * (1 + 1 / 2 ^ 28) := by
    push_cast at herror
    linarith
  push_cast at hshare
  nlinarith

theorem sum_areas_le {items : List (Item Double Entry)} (hsub : items ⊆ drawn entries width)
    (hdrawn : 0 < drawnTotal entries width) (harea : 0 < area width) :
    Double.sum (items.map fun s => s.size / drawnTotal entries width * area width) *
        (drawnTotal entries width).toRat ≤
      Double.sum (items.map Item.size) * (area width).toRat * (1 + 1 / 2 ^ 51) := by
  induction items with
  | nil => simp [Double.sum]
  | cons s items ih =>
      rw [List.cons_subset] at hsub
      have hfirst := (share_le (pos_of_mem_drawn hsub.1).1.le hdrawn harea.le).2
      have hrest := ih hsub.2
      rw [Double.sum, Double.sum] at hrest
      rw [Double.sum, Double.sum, List.map_cons, List.map_cons, List.map_cons, List.map_cons,
        List.sum_cons, List.sum_cons]
      linarith

/-- What is not drawn leaves its room to the tiles. -/
theorem minTileArea_le (hsizes : ∀ e ∈ entries, 0 ≤ effectiveSize e) {s : Item Double Entry}
    (hs : s ∈ drawn entries width) :
    minTileArea ≤ s.size / drawnTotal entries width * area width := by
  have hdrawn : 0 < (drawnTotal entries width).toRat :=
    drawnTotal_pos_iff.mpr (List.ne_nil_of_mem hs)
  obtain ⟨hsize, hshare⟩ := pos_of_mem_drawn hs
  have harea : 0 ≤ (area width).toRat := le_of_lt (mem_drawn.mp hs).2.1
  have htotal : 0 < (total entries).toRat := (mem_drawn.mp hs).2.2.1
  have hsize' : 0 ≤ s.size.toRat := le_of_lt hsize
  have hle : (drawnTotal entries width).toRat ≤ (total entries).toRat :=
    Double.addUp_le_of_sublist ((drawn_sublist entries width).map _) (sizes_nonneg hsizes)
  have hdiv : (s.size / total entries).toRat ≤ (s.size / drawnTotal entries width).toRat :=
    Double.round_le_round (div_nonneg hsize' htotal.le)
      (div_le_div_of_nonneg_left hsize' hdrawn hle)
  have hshare0 : 0 ≤ (s.size / total entries).toRat :=
    Double.round_nonneg (div_nonneg hsize' htotal.le)
  exact hshare.trans (Double.round_le_round (mul_nonneg hshare0 harea)
    (mul_le_mul_of_nonneg_right hdiv harea))

/-- **The rectangle has room** for the tiles. -/
theorem room_drawn (hsizes : ∀ e ∈ entries, 0 ≤ effectiveSize e) (hwidth : width.toRat ≤ 2 ^ 20)
    (hdrawn : 0 < drawnTotal entries width) :
    Room ((drawn entries width).map fun s =>
      (⟨s, s.size / drawnTotal entries width * area width⟩ : Sized Double Entry)) width
        (height width) := by
  obtain ⟨s, hs⟩ := List.exists_mem_of_ne_nil _ (drawnTotal_pos_iff.mp hdrawn)
  have harea := (mem_drawn.mp hs).2.1
  obtain ⟨hw, harea', hbound⟩ := area_le hwidth harea
  obtain ⟨hlow, hhigh⟩ := height_bounds width
  have hlength := length_drawn_le hsizes hwidth
  have hnonneg := drawn_sizes_nonneg (List.Subset.refl (drawn entries width))
  refine ⟨?_, by simpa using hlength, ?_, hw, ?_, hwidth, hhigh, Or.inl hlow⟩
  · rw [List.forall_mem_map]
    exact fun u hu => minTileArea_le hsizes hu
  · have hD : 0 < (drawnTotal entries width).toRat := hdrawn
    have hfew : ((drawn entries width).length : ℚ) ≤ 2 ^ 23 := by exact_mod_cast hlength
    have herror := (abs_le.mp (Double.abs_addUp_sub_le hnonneg (by simp; omega))).1
    rw [List.length_map, ← drawnTotal] at herror
    have hsum := Double.sum_nonneg hnonneg
    have hfactor := mul_le_mul_of_nonneg_right hfew hsum
    -- all sizes are hardly more than the code's sum
    have hle : Double.sum ((drawn entries width).map Item.size) ≤
        (drawnTotal entries width).toRat * (1 + 1 / 2 ^ 28) := by linarith
    have hareas := sum_areas_le (List.Subset.refl (drawn entries width)) hdrawn harea
    have hA : 0 ≤ (area width).toRat := le_of_lt harea
    have hscaled := mul_le_mul_of_nonneg_right hle hA
    have htotal : Double.sum ((drawn entries width).map fun s =>
        s.size / drawnTotal entries width * area width) ≤
        (area width).toRat * ((1 + 1 / 2 ^ 28) * (1 + 1 / 2 ^ 51)) := by
      apply le_of_mul_le_mul_right _ hD
      linarith
    rw [List.map_map, List.length_map]
    change Double.sum ((drawn entries width).map fun s =>
      s.size / drawnTotal entries width * area width) + _ ≤ _
    linarith
  · rw [Double.lt_iff, Double.toRat_zero]
    linarith

/-- **Every entry that is drawn has its tile.** -/
theorem layout_tiles (hsizes : ∀ e ∈ entries, 0 ≤ effectiveSize e)
    (hwidth : width.toRat ≤ 2 ^ 20) :
    (layout entries width).tiles.map Tile.toItem = drawn entries width := by
  rw [layout]
  dsimp only
  split_ifs with hdrawn
  · rw [squarify_items fun _ => room_drawn hsizes hwidth hdrawn, List.map_map]
    exact List.map_id _
  · rw [drawnTotal_pos_iff, not_not] at hdrawn
    rw [hdrawn]
    rfl

end Bounds

/-! ## what is shown -/

/-- Filters of which one lets more through are equal if the other lets as many
through. -/
theorem imp_of_length_filter {α : Type} {l : List α} {p q : α → Bool}
    (himp : ∀ a ∈ l, p a = true → q a = true)
    (hlength : (l.filter q).length ≤ (l.filter p).length) {a : α} (ha : a ∈ l)
    (hq : q a = true) : p a = true := by
  have hfilter : l.filter p = (l.filter q).filter p := by
    rw [List.filter_filter]
    apply List.filter_congr
    intro b hb
    cases hp : p b with
    | false => rfl
    | true => simp [himp b hb hp]
  have hsublist : (l.filter p).Sublist (l.filter q) := by
    rw [hfilter]
    exact List.filter_sublist
  have hmem : a ∈ l.filter p := by
    rw [hsublist.eq_of_length_le hlength]
    exact List.mem_filter.mpr ⟨ha, hq⟩
  exact (List.mem_filter.mp hmem).2

section Shown

variable {entries : List Entry} {width : Double}

theorem length_sized (entries : List Entry) : (sized entries).length = entries.length := by
  rw [(sized_perm entries).length_eq, List.length_map]

theorem isDrawnPath_iff {path : Text} :
    isDrawnPath entries width path = true ↔
      ∃ d ∈ entries, IsLarge entries width d ∧ d.path = path := by
  rw [isDrawnPath, decide_eq_true_eq, List.mem_map]
  constructor
  · intro h
    obtain ⟨s, hs, hpath⟩ := h
    obtain ⟨hsized, hlarge⟩ := mem_drawn.mp hs
    obtain ⟨d, hd, rfl⟩ := mem_sized.mp hsized
    exact ⟨d, hd, hlarge, hpath⟩
  · intro h
    obtain ⟨d, hd, hlarge, hpath⟩ := h
    exact ⟨⟨d, size d⟩, mem_drawn.mpr ⟨mem_sized.mpr ⟨d, hd, rfl⟩, hlarge⟩, hpath⟩

/-- The condition, on the sorted entries. -/
theorem noHiddenTwin_iff : NoHiddenTwin entries width ↔ ∀ s ∈ sized entries,
    isDrawnPath entries width s.entry.path = true → IsLarge entries width s.entry := by
  constructor
  · intro h s hs hpath
    obtain ⟨e, he, rfl⟩ := mem_sized.mp hs
    obtain ⟨d, hd, hlarge, heq⟩ := isDrawnPath_iff.mp hpath
    exact h d hd hlarge e he heq.symm
  · intro h d hd hlarge e he heq
    exact h ⟨e, size e⟩ (mem_sized.mpr ⟨e, he, rfl⟩)
      (isDrawnPath_iff.mpr ⟨d, hd, hlarge, heq.symm⟩)

/-- The path of what is drawn is that of a tile. -/
theorem isDrawnPath_of_isLarge {s : Item Double Entry} (hs : s ∈ sized entries)
    (hlarge : IsLarge entries width s.entry) : isDrawnPath entries width s.entry.path = true := by
  obtain ⟨e, he, rfl⟩ := mem_sized.mp hs
  exact isDrawnPath_iff.mpr ⟨e, he, hlarge, rfl⟩

/-- As items, nothing is lost under the condition. -/
theorem drawn_append_hidden_perm (h : NoHiddenTwin entries width) :
    (drawn entries width ++ (layout entries width).hidden).Perm (sized entries) := by
  have hdrawn : drawn entries width =
      (sized entries).filter fun s => isDrawnPath entries width s.entry.path := by
    rw [drawn_eq_filter]
    apply List.filter_congr
    intro s hs
    rw [Bool.eq_iff_iff, decide_eq_true_eq]
    exact ⟨isDrawnPath_of_isLarge hs, noHiddenTwin_iff.mp h s hs⟩
  rw [hdrawn]
  exact List.filter_append_perm _ _

/-- The condition, if as many are shown as there are. -/
theorem noHiddenTwin_of_length
    (h : entries.length ≤ (drawn entries width).length + (layout entries width).hidden.length) :
    NoHiddenTwin entries width := by
  have hsplit := (List.filter_append_perm (fun s : Item Double Entry =>
    isDrawnPath entries width s.entry.path) (sized entries)).length_eq
  rw [List.length_append, length_sized] at hsplit
  have hhidden : (layout entries width).hidden =
      (sized entries).filter fun s => !isDrawnPath entries width s.entry.path := rfl
  have himp : ∀ s ∈ sized entries, decide (IsLarge entries width s.entry) = true →
      isDrawnPath entries width s.entry.path = true := fun s hs hlarge =>
    isDrawnPath_of_isLarge hs (of_decide_eq_true hlarge)
  have hlength : ((sized entries).filter fun s => isDrawnPath entries width s.entry.path).length ≤
      ((sized entries).filter fun s => decide (IsLarge entries width s.entry)).length := by
    rw [hhidden, drawn_eq_filter] at h
    omega
  rw [noHiddenTwin_iff]
  intro s hs hpath
  exact of_decide_eq_true (imp_of_length_filter himp hlength hs hpath)

/-- If nothing is lost there is no hidden twin, whatever the loop placed. -/
theorem noHiddenTwin_of_accountsFor (h : AccountsFor entries width) :
    NoHiddenTwin entries width := by
  have hlength := h.1.length_eq
  have htiles := (isPrefix_tiles entries width).length_le
  rw [List.length_append, List.length_map, List.length_map] at hlength
  rw [List.length_map] at htiles
  exact noHiddenTwin_of_length (by omega)

/-- The items shown under the condition. -/
theorem accountsFor_of_noHiddenTwin (hsizes : ∀ e ∈ entries, 0 ≤ effectiveSize e)
    (hwidth : width.toRat ≤ 2 ^ 20) (h : NoHiddenTwin entries width) :
    AccountsFor entries width := by
  have hperm := (drawn_append_hidden_perm h).trans (sized_perm entries)
  rw [← layout_tiles hsizes hwidth] at hperm
  constructor
  · have hentries := hperm.map Item.entry
    rw [List.map_append, List.map_map, List.map_map] at hentries
    simpa [Function.comp_def] using hentries
  · have hsizes := ((hperm.map Item.size).map Double.toRat).sum_eq
    rw [List.map_append, List.map_append, List.sum_append, List.map_map, List.map_map,
      List.map_map] at hsizes
    simpa [Double.sum, Function.comp_def] using hsizes

/-! ### the totals -/

section Totals

variable (hsizes : ∀ e ∈ entries, 0 ≤ effectiveSize e)
  (hsum : (entries.map effectiveSize).sum ≤ 2 ^ 53)

include hsizes hsum

theorem toRat_size {e : Entry} (he : e ∈ entries) : (size e).toRat = effectiveSize e := by
  have hle : effectiveSize e ≤ (entries.map effectiveSize).sum :=
    List.single_le_sum (List.forall_mem_map.mpr hsizes) _ (List.mem_map_of_mem he)
  exact Double.round_intCast (abs_le.mpr (by have := hsizes e he; omega))

theorem whole_sized : ∀ x ∈ (sized entries).map Item.size, ∃ n : ℕ, x.toRat = n := by
  rw [List.forall_mem_map]
  intro s hs
  obtain ⟨e, he, rfl⟩ := mem_sized.mp hs
  refine ⟨(effectiveSize e).toNat, ?_⟩
  rw [toRat_size hsizes hsum he]
  exact_mod_cast (Int.toNat_of_nonneg (hsizes e he)).symm

theorem sum_sized : Double.sum ((sized entries).map Item.size) =
    ((entries.map effectiveSize).sum : ℤ) := by
  have hperm := (((sized_perm entries).map Item.size).map Double.toRat).sum_eq
  rw [Double.sum, hperm, List.map_map, List.map_map, Int.cast_list_sum, List.map_map]
  exact congrArg List.sum (List.map_congr_left fun e he => toRat_size hsizes hsum he)

/-- **The totals** that are shown are exact up to 2^53 bytes. -/
theorem totalsExact : TotalsExact entries width := by
  have htotal : Double.sum ((sized entries).map Item.size) ≤ 2 ^ 53 := by
    rw [sum_sized hsizes hsum]
    exact_mod_cast hsum
  have hwhole := whole_sized hsizes hsum
  have hsub : (layout entries width).hidden.Sublist (sized entries) := List.filter_sublist
  have hhidden : Double.sum ((layout entries width).hidden.map Item.size) ≤
      Double.sum ((sized entries).map Item.size) := by
    apply ((hsub.map Item.size).map Double.toRat).sum_le_sum
    rw [List.forall_mem_map]
    exact sizes_nonneg hsizes
  constructor
  · exact Double.addUp_eq_sum (fun x hx => hwhole x ((hsub.map _).subset hx))
      (hhidden.trans htotal)
  · rw [← sum_sized hsizes hsum]
    exact Double.addUp_eq_sum hwhole htotal

end Totals

/-- **Nothing is lost** exactly if nothing too small to draw is shown with the
path of a tile. -/
theorem accountsFor_iff (hsizes : ∀ e ∈ entries, 0 ≤ effectiveSize e) :
    (width.toRat ≤ 2 ^ 20 → (AccountsFor entries width ↔ NoHiddenTwin entries width)) ∧
      (AccountsFor entries width → NoHiddenTwin entries width) ∧
      ((entries.map effectiveSize).sum ≤ 2 ^ 53 → TotalsExact entries width) :=
  ⟨fun hwidth => ⟨noHiddenTwin_of_accountsFor, accountsFor_of_noHiddenTwin hsizes hwidth⟩,
    noHiddenTwin_of_accountsFor, totalsExact hsizes⟩

/-- A file in `/d` of some size. -/
def sampleFile (path : Text) (pathRaw : Option Bytes) (sizeBytes : Int) : Entry :=
  { FileBrowser.sampleEntry path with pathRaw, sizeBytes }

/-- Two files with paths of their own, one of them too small to draw. -/
theorem accountsFor_iff_sample :
    AccountsFor [sampleFile "/d/a".toList none 1000000, sampleFile "/d/b".toList none 1]
      (640 : ℚ) :=
  ((accountsFor_iff (by decide)).1 (by decide +kernel)).mpr (by decide +kernel)

/-- In a container of 2^60 pixels rounding does stop the loop with an item
left. -/
example : (layout [sampleFile "/d/a".toList none (2 ^ 62), sampleFile "/d/b".toList none 1]
    (2 ^ 60 : ℚ)).tiles.map (·.entry.path) = ["/d/a".toList] := by decide +kernel

/-- Two files that are shown with the same path. -/
def sampleTwins (large small : Int) : List Entry :=
  [sampleFile "/d/a\uFFFD".toList (some [0x2F, 0x64, 0x2F, 0x61, 0xFF]) large,
    sampleFile "/d/a\uFFFD".toList (some [0x2F, 0x64, 0x2F, 0x61, 0xFE]) small]

/-- One of them is too small to draw: it is neither a tile nor listed. -/
theorem twin_lost : ¬ AccountsFor (sampleTwins 1000000 1) (640 : ℚ) := by
  intro h
  exact absurd (noHiddenTwin_of_accountsFor h) (by decide +kernel)

/-- A share of 100 square pixels that is less when it is rounded. -/
example : ¬ NoHiddenTwin (sampleTwins 5831 1) (1080 : ℚ) := by decide +kernel

end Shown

end Cuttlefish.Treemap
