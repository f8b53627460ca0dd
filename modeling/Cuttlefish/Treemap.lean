import Cuttlefish.Double
import Cuttlefish.Rect
import Mathlib.Algebra.Order.Field.Rat
import Mathlib.Algebra.Order.Monoid.Unbundled.WithTop

/-!
# Cuttlefish.Treemap

`squarify`, the layout of the treemap: rows of tiles along the shorter side of
what is left of the rectangle.

Lengths and areas are numbers of any kind: the code's own are doubles, which
round, and rationals are exact.  Over rationals `squarify_tiling` says that
nothing of what is passed is lost: the tiles are one for each item, in order,
and tile the rectangle.
-/

namespace Cuttlefish.Treemap

/-- An entry, whatever it is, and how much of the directory it holds. -/
structure Item (κ ε : Type) where
  entry : ε
  size : κ
  deriving DecidableEq, Repr

structure Sized (κ ε : Type) extends Item κ ε where
  area : κ
  deriving DecidableEq, Repr

structure Tile (κ ε : Type) extends Item κ ε, Rect κ where
  deriving DecidableEq, Repr

variable {κ ε : Type}

/-- The area below which nothing is drawn. -/
def minTileArea [RatCast κ] : κ := (100 : ℚ)

/-! ## rows -/

section Rows

variable [Zero κ] [Add κ] [Mul κ] [Div κ] [LinearOrder κ]

/-- The aspect ratio of the worst tile in a row; `⊤` is `Infinity`, also where
the least area is 0. -/
def worstRatio (areas : List κ) (side : κ) : WithTop κ :=
  let sum := addUp areas
  if sum ≤ 0 ∨ side ≤ 0 then ⊤
  else
    let max := areas.max?.getD 0
    let min := areas.min?.getD 0
    let s2 := side * side
    let sum2 := sum * sum
    if min = 0 then ⊤ else ↑(Max.max (s2 * max / sum2) (sum2 / (s2 * min)))

/-- Grows a row while the next item does not make it worse; what is left of the
queue. -/
def growRow (side : κ) (row : List (Sized κ ε)) :
    List (Sized κ ε) → List (Sized κ ε) × List (Sized κ ε)
  | [] => (row, [])
  | t :: queue =>
      let candidate := row ++ [t]
      if worstRatio (row.map Sized.area) side < worstRatio (candidate.map Sized.area) side then
        (row, t :: queue)
      else growRow side candidate queue

theorem growRow_append (side : κ) (row queue : List (Sized κ ε)) :
    (growRow side row queue).1 ++ (growRow side row queue).2 = row ++ queue := by
  induction queue generalizing row with
  | nil => rfl
  | cons t queue ih =>
      rw [growRow]
      split_ifs
      · rfl
      · simp [ih]

theorem prefix_growRow (side : κ) (row queue : List (Sized κ ε)) :
    row <+: (growRow side row queue).1 := by
  induction queue generalizing row with
  | nil => exact List.prefix_rfl
  | cons t queue ih =>
      rw [growRow]
      split_ifs
      · exact List.prefix_rfl
      · exact (List.prefix_append row [t]).trans (ih _)

theorem length_growRow_le (side : κ) (row queue : List (Sized κ ε)) :
    (growRow side row queue).2.length ≤ queue.length := by
  have happend := congrArg List.length (growRow_append side row queue)
  have hprefix := (prefix_growRow side row queue).length_le
  simp only [List.length_append] at happend
  omega

end Rows

/-! ## tiles -/

section Tiles

variable [Add κ] [Div κ]

/-- A row down the left edge, `rowW` wide. -/
def placeDown (x rowW : κ) : κ → List (Sized κ ε) → List (Tile κ ε)
  | _, [] => []
  | oy, t :: row =>
      let th := t.area / rowW
      { entry := t.entry, size := t.size, x, y := oy, w := rowW, h := th } ::
        placeDown x rowW (oy + th) row

/-- A row across the top edge, `rowH` high. -/
def placeAcross (y rowH : κ) : κ → List (Sized κ ε) → List (Tile κ ε)
  | _, [] => []
  | ox, t :: row =>
      let tw := t.area / rowH
      { entry := t.entry, size := t.size, x := ox, y, w := tw, h := rowH } ::
        placeAcross y rowH (ox + tw) row

theorem placeDown_items (x rowW oy : κ) (row : List (Sized κ ε)) :
    (placeDown x rowW oy row).map Tile.toItem = row.map Sized.toItem := by
  induction row generalizing oy with
  | nil => rfl
  | cons t row ih => simp [placeDown, ih]

theorem placeAcross_items (y rowH ox : κ) (row : List (Sized κ ε)) :
    (placeAcross y rowH ox row).map Tile.toItem = row.map Sized.toItem := by
  induction row generalizing ox with
  | nil => rfl
  | cons t row ih => simp [placeAcross, ih]

end Tiles

/-! ## the loop -/

section Loop

variable [Zero κ] [Add κ] [Sub κ] [Mul κ] [Div κ] [RatCast κ] [LinearOrder κ]

/-- The layout of a queue in a rectangle. -/
def squarify : List (Sized κ ε) → (x y w h : κ) → List (Tile κ ε)
  | [], _, _, _, _ => []
  | t :: queue, x, y, w, h =>
      if (1 / 100 : ℚ) < w ∧ (1 / 100 : ℚ) < h then
        let side := min w h
        let grown := growRow side [t] queue
        let rowArea := addUp (grown.1.map Sized.area)
        if h ≤ w then
          let rowW := rowArea / h
          placeDown x rowW y grown.1 ++ squarify grown.2 (x + rowW) y (w - rowW) h
        else
          let rowH := rowArea / w
          placeAcross y rowH x grown.1 ++ squarify grown.2 x (y + rowH) w (h - rowH)
      else []
  termination_by items => items.length
  decreasing_by
    all_goals
      have := length_growRow_le (min w h) [t] queue
      simp only [List.length_cons]
      omega

/-- **What is placed are the first items**, whatever the numbers are: only the
guard can stop the loop. -/
theorem isPrefix_squarify (items : List (Sized κ ε)) (x y w h : κ) :
    (squarify items x y w h).map Tile.toItem <+: items.map Sized.toItem := by
  induction items, x, y, w, h using squarify.induct with
  | case1 x y w h =>
      rw [squarify]
      exact List.prefix_rfl
  | case2 t queue x y w h hguard side grown rowArea hwide rowW ih =>
      have hgrown : t :: queue = grown.1 ++ grown.2 := (growRow_append side [t] queue).symm
      rw [squarify, if_pos hguard, if_pos hwide, hgrown, List.map_append, List.map_append,
        placeDown_items]
      exact (List.prefix_append_right_inj _).mpr ih
  | case3 t queue x y w h hguard side grown rowArea hwide rowH ih =>
      have hgrown : t :: queue = grown.1 ++ grown.2 := (growRow_append side [t] queue).symm
      rw [squarify, if_pos hguard, if_neg hwide, hgrown, List.map_append, List.map_append,
        placeAcross_items]
      exact (List.prefix_append_right_inj _).mpr ih
  | case4 t queue x y w h hguard =>
      rw [squarify, if_neg hguard]
      exact List.nil_prefix

end Loop

/-! ## what is placed, exactly -/

/-- A row across is one down, mirrored. -/
theorem placeAcross_eq (y rowH ox : ℚ) (row : List (Sized ℚ ε)) :
    (placeAcross y rowH ox row).map Tile.toRect =
      ((placeDown y rowH ox row).map Tile.toRect).map Rect.transpose := by
  induction row generalizing ox with
  | nil => rfl
  | cons t row ih => simp [placeAcross, placeDown, ih, Rect.transpose]

/-- A row that fills its column tiles it. -/
theorem tiling_placeDown {x w y h : ℚ} {row : List (Sized ℚ ε)} (hw : 0 < w)
    (hpos : ∀ t ∈ row, 0 < t.area) (hsum : (row.map Sized.area).sum = w * h) :
    Tiling ⟨x, y, w, h⟩ (row.map Sized.area) ((placeDown x w y row).map Tile.toRect) := by
  induction row generalizing y h with
  | nil => exact Tiling.nil _
  | cons t row ih =>
      rw [List.map_cons, List.sum_cons] at hsum
      have hcut : w * (t.area / w) = t.area := mul_div_cancel₀ _ hw.ne'
      have hth : 0 ≤ t.area / w := (div_pos (hpos t (by simp)) hw).le
      have hrest : 0 ≤ (row.map Sized.area).sum := by
        apply List.sum_nonneg
        rw [List.forall_mem_map]
        exact fun u hu => (hpos u (List.mem_cons_of_mem _ hu)).le
      have hle : t.area / w ≤ h := by
        rw [div_le_iff₀ hw]
        linarith
      have htop : Tiling ⟨x, y, w, t.area / w⟩ [t.area] [⟨x, y, w, t.area / w⟩] := by
        have hsingle := Tiling.single (⟨x, y, w, t.area / w⟩ : Rect ℚ)
        rwa [Rect.area, hcut] at hsingle
      have hbelow := ih (y := y + t.area / w) (h := h - t.area / w)
        (fun u hu => hpos u (List.mem_cons_of_mem _ hu)) (by rw [mul_sub, hcut]; linarith)
      exact Tiling.append_top hth hle htop hbelow

theorem tiling_placeAcross {x w y h : ℚ} {row : List (Sized ℚ ε)} (hh : 0 < h)
    (hpos : ∀ t ∈ row, 0 < t.area) (hsum : (row.map Sized.area).sum = h * w) :
    Tiling ⟨x, y, w, h⟩ (row.map Sized.area) ((placeAcross y h x row).map Tile.toRect) := by
  rw [placeAcross_eq]
  exact (tiling_placeDown hh hpos hsum).transpose

theorem sum_row_pos {t : Sized ℚ ε} {row : List (Sized ℚ ε)} (ht : [t] <+: row)
    (hpos : ∀ u ∈ row, 0 < u.area) : 0 < (row.map Sized.area).sum := by
  obtain ⟨rest, rfl⟩ := ht
  apply List.sum_pos
  · rw [List.forall_mem_map]
    exact hpos
  · simp

/-! ## the whole layout -/

/-- What is left of the rectangle is as large as what is left of the queue.
It is not cut from the top before it is higher than wide, so that neither side
gets short. -/
structure Fits (items : List (Sized ℚ ε)) (w h : ℚ) : Prop where
  areas : ∀ t ∈ items, minTileArea ≤ t.area
  sum : (items.map Sized.area).sum = w * h
  w_nonneg : 0 ≤ w
  h_nonneg : 0 ≤ h
  h_le : h ≤ 680
  sides : 320 ≤ h ∨ w ≤ 680

namespace Fits

variable {items row rest : List (Sized ℚ ε)} {w h : ℚ}

theorem pos (hfits : Fits items w h) {t : Sized ℚ ε} (ht : t ∈ items) : 0 < t.area :=
  lt_of_lt_of_le (by norm_num [minTileArea]) (hfits.areas t ht)

theorem sum_nonneg (hfits : Fits items w h) (hsub : row ⊆ items) :
    0 ≤ (row.map Sized.area).sum := by
  apply List.sum_nonneg
  rw [List.forall_mem_map]
  exact fun t ht => (hfits.pos (hsub ht)).le

/-- **The guard of the loop never stops it** with items left. -/
theorem guard {t : Sized ℚ ε} {queue : List (Sized ℚ ε)} (hfits : Fits (t :: queue) w h) :
    1 / 100 < w ∧ 1 / 100 < h := by
  have hrest := hfits.sum_nonneg (List.subset_cons_self t queue)
  have hsum := hfits.sum
  rw [List.map_cons, List.sum_cons] at hsum
  have hfirst : 100 ≤ t.area := hfits.areas t List.mem_cons_self
  have harea : 100 ≤ w * h := by linarith
  have hw := hfits.w_nonneg
  have hh := hfits.h_nonneg
  have hle := hfits.h_le
  constructor
  · by_contra! hshort
    nlinarith
  · obtain hhigh | hnarrow := hfits.sides
    · linarith
    · by_contra! hshort
      nlinarith

/-- The first row is not empty, nor is any item in it. -/
theorem grown_pos {t : Sized ℚ ε} {queue : List (Sized ℚ ε)} (hfits : Fits (t :: queue) w h)
    (side : ℚ) : (∀ u ∈ (growRow side [t] queue).1, 0 < u.area) ∧
      0 < ((growRow side [t] queue).1.map Sized.area).sum := by
  have hsplit : (growRow side [t] queue).1 ++ (growRow side [t] queue).2 = t :: queue :=
    growRow_append side [t] queue
  have hpos : ∀ u ∈ (growRow side [t] queue).1, 0 < u.area := by
    intro u hu
    exact hfits.pos (hsplit ▸ List.mem_append_left _ hu)
  exact ⟨hpos, sum_row_pos (prefix_growRow side [t] queue) hpos⟩

section Cut

variable (hfits : Fits (row ++ rest) w h)

include hfits

theorem sum_append : (row.map Sized.area).sum + (rest.map Sized.area).sum = w * h := by
  rw [← hfits.sum, List.map_append, List.sum_append]

theorem areas_rest : ∀ t ∈ rest, minTileArea ≤ t.area := fun t ht =>
  hfits.areas t (List.mem_append_right _ ht)

/-- A row along one side is no longer than the other, and the rest keeps what
the row leaves of that. -/
theorem length_cut {side other : ℚ} (hside : 0 < side) (harea : w * h = other * side) :
    0 ≤ (row.map Sized.area).sum / side ∧ (row.map Sized.area).sum / side ≤ other ∧
      (rest.map Sized.area).sum = (other - (row.map Sized.area).sum / side) * side := by
  have hsum := hfits.sum_append
  have hrow : 0 ≤ (row.map Sized.area).sum := hfits.sum_nonneg (List.subset_append_left _ _)
  have hrest : 0 ≤ (rest.map Sized.area).sum := hfits.sum_nonneg (List.subset_append_right _ _)
  have hcut : (row.map Sized.area).sum / side * side = (row.map Sized.area).sum :=
    div_mul_cancel₀ _ hside.ne'
  refine ⟨div_nonneg hrow hside.le, ?_, ?_⟩
  · rw [div_le_iff₀ hside]
    linarith
  · rw [sub_mul, hcut]
    linarith

/-- A row is cut off from the left. -/
theorem cut_left (hh : 0 < h) :
    (row.map Sized.area).sum / h ≤ w ∧ Fits rest (w - (row.map Sized.area).sum / h) h := by
  obtain ⟨hnonneg, hle, hrest⟩ := hfits.length_cut hh rfl
  refine ⟨hle, hfits.areas_rest, hrest, sub_nonneg.mpr hle, hfits.h_nonneg, hfits.h_le, ?_⟩
  exact hfits.sides.imp_right fun hw => (sub_le_self _ hnonneg).trans hw

/-- A row is cut off from the top of what is higher than wide. -/
theorem cut_top (hw : 0 < w) (hhigh : w < h) :
    (row.map Sized.area).sum / w ≤ h ∧ Fits rest w (h - (row.map Sized.area).sum / w) := by
  obtain ⟨hnonneg, hle, hrest⟩ := hfits.length_cut hw (mul_comm w h)
  have hh := hfits.h_le
  refine ⟨hle, hfits.areas_rest, hrest.trans (mul_comm _ _), hfits.w_nonneg, sub_nonneg.mpr hle, ?_,
    Or.inr (by linarith)⟩
  exact (sub_le_self _ hnonneg).trans hh

end Cut

end Fits

/-- **One tile for each item, in order, and a tiling of the rectangle.** -/
theorem squarify_fits {items : List (Sized ℚ ε)} {x y w h : ℚ} (hfits : Fits items w h) :
    (squarify items x y w h).map Tile.toItem = items.map Sized.toItem ∧
      Tiling ⟨x, y, w, h⟩ (items.map Sized.area) ((squarify items x y w h).map Tile.toRect) := by
  induction items, x, y, w, h using squarify.induct with
  | case1 x y w h =>
      rw [squarify]
      exact ⟨rfl, Tiling.nil _⟩
  | case2 t queue x y w h hguard side grown rowArea hwide rowW ih =>
      have hh : 0 < h := lt_trans (by norm_num) hguard.2
      have hgrown : t :: queue = grown.1 ++ grown.2 := (growRow_append side [t] queue).symm
      obtain ⟨hpos, harea⟩ := hfits.grown_pos side
      rw [hgrown] at hfits
      obtain ⟨hle, hrest⟩ := hfits.cut_left hh
      have hsum : rowArea = (grown.1.map Sized.area).sum := addUp_rat _
      rw [← hsum] at harea hle hrest
      obtain ⟨hitems, htiling⟩ := ih hrest
      have hrow : 0 < rowW := div_pos harea hh
      have hfill : rowArea = rowW * h := (div_mul_cancel₀ _ hh.ne').symm
      have hstep : squarify (t :: queue) x y w h =
          placeDown x rowW y grown.1 ++ squarify grown.2 (x + rowW) y (w - rowW) h := by
        rw [squarify, if_pos hguard, if_pos hwide]
      rw [hstep, hgrown]
      simp only [List.map_append, placeDown_items, hitems, true_and]
      exact Tiling.append_left hrow.le hle (tiling_placeDown hrow hpos (hsum.symm.trans hfill)) htiling
  | case3 t queue x y w h hguard side grown rowArea hwide rowH ih =>
      have hw : 0 < w := lt_trans (by norm_num) hguard.1
      have hgrown : t :: queue = grown.1 ++ grown.2 := (growRow_append side [t] queue).symm
      obtain ⟨hpos, harea⟩ := hfits.grown_pos side
      rw [hgrown] at hfits
      obtain ⟨hle, hrest⟩ := hfits.cut_top hw (not_le.mp hwide)
      have hsum : rowArea = (grown.1.map Sized.area).sum := addUp_rat _
      rw [← hsum] at harea hle hrest
      obtain ⟨hitems, htiling⟩ := ih hrest
      have hrow : 0 < rowH := div_pos harea hw
      have hfill : rowArea = rowH * w := (div_mul_cancel₀ _ hw.ne').symm
      have hstep : squarify (t :: queue) x y w h =
          placeAcross y rowH x grown.1 ++ squarify grown.2 x (y + rowH) w (h - rowH) := by
        rw [squarify, if_pos hguard, if_neg hwide]
      rw [hstep, hgrown]
      simp only [List.map_append, placeAcross_items, hitems, true_and]
      exact Tiling.append_top hrow.le hle (tiling_placeAcross hrow hpos (hsum.symm.trans hfill)) htiling
  | case4 t queue x y w h hguard => exact absurd hfits.guard hguard

/-- **The layout of a treemap**: a tile for each item, in order and as large
as the item is to be, inside the rectangle and without overlap. -/
theorem squarify_tiling (items : List (Sized ℚ ε)) {W H : ℚ} (hW : 0 < W) (hH : 320 ≤ H)
    (hH' : H ≤ 680) (hareas : ∀ t ∈ items, minTileArea ≤ t.area)
    (hsum : (items.map Sized.area).sum = W * H) :
    (squarify items 0 0 W H).map Tile.toItem = items.map Sized.toItem ∧
      (squarify items 0 0 W H).map (fun t => t.w * t.h) = items.map Sized.area ∧
      (∀ t ∈ squarify items 0 0 W H, 0 ≤ t.x ∧ t.x + t.w ≤ W ∧ 0 ≤ t.y ∧ t.y + t.h ≤ H) ∧
      (squarify items 0 0 W H).Pairwise fun t u => Disjoint t.interior u.interior := by
  obtain ⟨hitems, htiling⟩ := squarify_fits (x := 0) (y := 0)
    ⟨hareas, hsum, hW.le, by linarith, hH', Or.inl hH⟩
  have hdisjoint := htiling.disjoint
  rw [List.pairwise_map] at hdisjoint
  refine ⟨hitems, ?_, fun t ht => ?_, hdisjoint⟩
  · rw [← htiling.area, List.map_map]
    rfl
  · simpa [Rect.Inside] using htiling.inside t.toRect (List.mem_map_of_mem ht)

/-- Three items in a rectangle that is higher than wide. -/
def sampleItems : List (Sized ℚ Nat) := [⟨⟨1, 4⟩, 2000⟩, ⟨⟨2, 2⟩, 1000⟩, ⟨⟨3, 1⟩, 200⟩]

theorem squarify_tiling_sample :
    (squarify sampleItems 0 0 10 320).map Tile.toItem = [⟨1, 4⟩, ⟨2, 2⟩, ⟨3, 1⟩] ∧
      (squarify sampleItems 0 0 10 320).map (fun t => t.w * t.h) = [2000, 1000, 200] := by
  obtain ⟨hitems, hareas, -⟩ := squarify_tiling sampleItems (W := 10) (H := 320)
    (by norm_num) (by norm_num) (by norm_num) (by decide +kernel) (by decide +kernel)
  exact ⟨hitems, hareas⟩

example : (squarify sampleItems 0 0 10 320).map Tile.toRect =
    [⟨0, 0, 10, 200⟩, ⟨0, 200, 10, 100⟩, ⟨0, 300, 10, 20⟩] := by decide +kernel

end Cuttlefish.Treemap
