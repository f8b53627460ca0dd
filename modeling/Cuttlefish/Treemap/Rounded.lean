import Cuttlefish.Treemap

/-!
# Cuttlefish.Treemap.Rounded

The layout over doubles, in a container of up to 2^20 pixels.

Every row that is cut off may take a little more room than its tiles need.
For each tile of the row that is less than 2^-20 square pixels (`cut_le`), so
that all of them together do not take the place of a tile (`Room`), and the
guard of the loop never stops it with items left: no item is lost to rounding
(`squarify_items`).
-/

namespace Cuttlefish.Treemap

/-! ## one cut -/

section Cut

variable {xs : List Double} {side other : Double}

/-- **One cut**: what a row takes from the other side, beyond its areas. -/
theorem cut_le (hne : xs ≠ []) (hlength : xs.length ≤ 2 ^ 23) (hnonneg : ∀ x ∈ xs, 0 ≤ x)
    (hsum : Double.sum xs ≤ 2 ^ 30) (hside : 0 < side) (hother : 0 ≤ other)
    (hprod : other.toRat * side.toRat ≤ 2 ^ 30) :
    other - addUp xs / side ≤ other ∧
      other.toRat * side.toRat ≤
        (other - addUp xs / side).toRat * side.toRat + Double.sum xs + xs.length / 2 ^ 20 := by
  have hs : 0 < side.toRat := hside
  have ho : 0 ≤ other.toRat := hother
  have hsum0 := Double.sum_nonneg hnonneg
  have hmany : (1 : ℚ) ≤ xs.length := by exact_mod_cast List.length_pos_of_ne_nil hne
  have hfew : (xs.length : ℚ) ≤ 2 ^ 23 := by exact_mod_cast hlength
  -- what the areas add up to
  have harea : (addUp xs).toRat ≤ Double.sum xs + xs.length / 2 ^ 22 := by
    obtain ⟨-, hhigh⟩ := abs_le.mp (Double.abs_addUp_sub_le hnonneg (by omega))
    have hscaled := mul_le_mul_of_nonneg_left hsum
      (by positivity : 0 ≤ 2 * (xs.length : ℚ) * (1 / 2 ^ 53))
    linarith
  have harea0 : 0 ≤ (addUp xs).toRat := Double.addUp_nonneg hnonneg
  -- the length of the row
  have hrow0 : 0 ≤ (addUp xs / side).toRat := Double.round_nonneg (div_nonneg harea0 hs.le)
  have hrow : (addUp xs / side).toRat * side.toRat ≤ (addUp xs).toRat + 1 / 2 ^ 22 := by
    have hdiv : (addUp xs).toRat / side.toRat * side.toRat = (addUp xs).toRat :=
      div_mul_cancel₀ _ hs.ne'
    have hround := Double.abs_round_sub_le ((addUp xs).toRat / side.toRat)
    rw [abs_of_nonneg (div_nonneg harea0 hs.le), ← Double.toRat_div] at hround
    have hhigh := mul_le_mul_of_nonneg_right (abs_le.mp hround).2 hs.le
    rw [sub_mul, hdiv, mul_assoc, hdiv] at hhigh
    linarith
  -- what is left of the other side
  have hleft := Double.abs_round_sub_le (other.toRat - (addUp xs / side).toRat)
  rw [← Double.toRat_sub] at hleft
  have hdiff : |other.toRat - (addUp xs / side).toRat| ≤
      other.toRat + (addUp xs / side).toRat := by
    rw [abs_le]
    constructor <;> linarith
  constructor
  · obtain hle | hgt := le_total (addUp xs / side).toRat other.toRat
    · have hround := Double.round_le_round (sub_nonneg.mpr hle)
        (sub_le_self other.toRat hrow0)
      rwa [Double.round_toRat] at hround
    · exact (Double.round_nonpos (sub_nonpos.mpr hgt)).trans ho
  · have hlow := mul_le_mul_of_nonneg_right (abs_le.mp hleft).1 hs.le
    have herror := mul_le_mul_of_nonneg_right hdiff hs.le
    rw [sub_mul, sub_mul] at hlow
    rw [add_mul] at herror
    linarith

end Cut

/-! ## the whole layout -/

variable {ε : Type}

/-- There is room for the items, up to half a tile, even if each takes a
little more than its area. -/
structure Room (items : List (Sized Double ε)) (w h : Double) : Prop where
  areas : ∀ t ∈ items, minTileArea ≤ t.area
  length : items.length ≤ 2 ^ 23
  area : Double.sum (items.map Sized.area) + items.length / 2 ^ 20 ≤ w.toRat * h.toRat + 50
  w_pos : 0 < w
  h_pos : 0 < h
  w_le : w.toRat ≤ 2 ^ 20
  h_le : h.toRat ≤ 680
  sides : 320 ≤ h.toRat ∨ w.toRat ≤ 680

theorem toRat_minTileArea : (minTileArea : Double).toRat = 100 := by
  have h : |(100 : ℤ)| ≤ 2 ^ 53 := by decide
  exact_mod_cast Double.round_intCast h

theorem minTileArea_pos : (0 : Double) < minTileArea := by
  rw [Double.lt_iff, toRat_minTileArea]
  norm_num

/-- The bound of the guard. -/
theorem guard_lt : (((1 / 100 : ℚ) : Double)).toRat < 1 / 50 := by
  have h := (abs_le.mp (Double.abs_round_sub_le (1 / 100))).2
  rw [Double.toRat_ratCast]
  norm_num at h
  linarith

namespace Room

variable {items row rest : List (Sized Double ε)} {w h : Double}

theorem area_nonneg (hroom : Room items w h) (hsub : row ⊆ items) :
    ∀ a ∈ row.map Sized.area, 0 ≤ a := by
  rw [List.forall_mem_map]
  exact fun t ht => minTileArea_pos.le.trans (hroom.areas t (hsub ht))

/-- Some of the items take at least the room of one tile. -/
theorem hundred_le (hroom : Room items w h) (hsub : row ⊆ items) (hne : row ≠ []) :
    100 ≤ Double.sum (row.map Sized.area) + row.length / 2 ^ 20 := by
  have hnonneg := hroom.area_nonneg hsub
  obtain ⟨t, queue, rfl⟩ := List.exists_cons_of_ne_nil hne
  have hfirst : (100 : ℚ) ≤ t.area.toRat := toRat_minTileArea ▸ hroom.areas t (hsub (by simp))
  have hqueue := Double.sum_nonneg fun a ha => hnonneg a (List.mem_cons_of_mem _ ha)
  rw [Double.sum] at hqueue
  rw [Double.sum, List.map_cons, List.map_cons, List.sum_cons]
  have hlength : (0 : ℚ) ≤ ((t :: queue).length : ℚ) / 2 ^ 20 := by positivity
  linarith

theorem prod_le (hroom : Room items w h) : w.toRat * h.toRat ≤ 2 ^ 20 * 680 :=
  mul_le_mul hroom.w_le hroom.h_le (le_of_lt hroom.h_pos) (by norm_num)

/-- Half a tile is left as long as an item is. -/
theorem prod_ge (hroom : Room items w h) (hne : items ≠ []) : 50 ≤ w.toRat * h.toRat := by
  have harea := hroom.area
  have htile := hroom.hundred_le (List.Subset.refl _) hne
  linarith

/-- **The guard of the loop never stops it** with items left. -/
theorem guard (hroom : Room items w h) (hne : items ≠ []) :
    ((1 / 100 : ℚ) : Double) < w ∧ ((1 / 100 : ℚ) : Double) < h := by
  have hprod := hroom.prod_ge hne
  have hguard := guard_lt
  have hw : 0 < w.toRat := hroom.w_pos
  have hh : 0 < h.toRat := hroom.h_pos
  have hle := hroom.h_le
  rw [Double.lt_iff, Double.lt_iff]
  constructor
  · by_contra! hshort
    nlinarith
  · obtain hhigh | hnarrow := hroom.sides
    · linarith
    · by_contra! hshort
      nlinarith

section Cut

variable (hroom : Room (row ++ rest) w h)

include hroom

theorem area_append : Double.sum (row.map Sized.area) + Double.sum (rest.map Sized.area) +
    (row.length / 2 ^ 20 + rest.length / 2 ^ 20) ≤ w.toRat * h.toRat + 50 := by
  have h := hroom.area
  rw [List.length_append, Nat.cast_add, add_div, Double.sum, List.map_append, List.map_append,
    List.sum_append] at h
  exact h

/-- The bounds under which a row is cut off. -/
theorem cut_bounds : row.length ≤ 2 ^ 23 ∧ Double.sum (row.map Sized.area) ≤ 2 ^ 30 ∧
    w.toRat * h.toRat ≤ 2 ^ 30 := by
  have hlength := hroom.length
  rw [List.length_append] at hlength
  have harea := hroom.area_append
  have hprod := hroom.prod_le
  have hrest := Double.sum_nonneg (hroom.area_nonneg (List.subset_append_right row rest))
  have hrow : (0 : ℚ) ≤ row.length / 2 ^ 20 + rest.length / 2 ^ 20 := by positivity
  refine ⟨by omega, ?_, ?_⟩ <;> linarith

theorem areas_rest : ∀ t ∈ rest, minTileArea ≤ t.area := fun t ht =>
  hroom.areas t (List.mem_append_right _ ht)

theorem length_rest : rest.length ≤ 2 ^ 23 :=
  (List.length_append ▸ Nat.le_add_left rest.length row.length).trans hroom.length

/-- A side that is left is not empty while an item is. -/
theorem pos_of_prod {left side : Double} (hne : rest ≠ []) (hside : 0 < side)
    (harea : Double.sum (rest.map Sized.area) + rest.length / 2 ^ 20 ≤
      left.toRat * side.toRat + 50) : 0 < left := by
  have htile := hroom.hundred_le (List.subset_append_right row rest) hne
  have hs : 0 < side.toRat := hside
  have hprod : 0 < left.toRat * side.toRat := by linarith
  exact pos_of_mul_pos_left hprod hs.le

/-- A row is cut off from the left. -/
theorem cut_left (hrow : row ≠ []) (hrest : rest ≠ []) :
    Room rest (w - addUp (row.map Sized.area) / h) h := by
  obtain ⟨hlength, hsum, hprod⟩ := hroom.cut_bounds
  obtain ⟨hle, hcut⟩ := cut_le (by simpa using hrow) (by simpa using hlength)
    (hroom.area_nonneg (List.subset_append_left _ _)) hsum hroom.h_pos hroom.w_pos.le hprod
  rw [List.length_map] at hcut
  have harea : Double.sum (rest.map Sized.area) + rest.length / 2 ^ 20 ≤
      (w - addUp (row.map Sized.area) / h).toRat * h.toRat + 50 := by
    have happend := hroom.area_append
    linarith
  have hle' : (w - addUp (row.map Sized.area) / h).toRat ≤ w.toRat := hle
  exact ⟨hroom.areas_rest, hroom.length_rest, harea, hroom.pos_of_prod hrest hroom.h_pos harea,
    hroom.h_pos, hle'.trans hroom.w_le, hroom.h_le, hroom.sides.imp_right hle'.trans⟩

/-- A row is cut off from the top of what is higher than wide. -/
theorem cut_top (hrow : row ≠ []) (hrest : rest ≠ []) (hhigh : w < h) :
    Room rest w (h - addUp (row.map Sized.area) / w) := by
  obtain ⟨hlength, hsum, hprod⟩ := hroom.cut_bounds
  obtain ⟨hle, hcut⟩ := cut_le (by simpa using hrow) (by simpa using hlength)
    (hroom.area_nonneg (List.subset_append_left _ _)) hsum hroom.w_pos hroom.h_pos.le
    (mul_comm w.toRat h.toRat ▸ hprod)
  rw [List.length_map, mul_comm h.toRat, mul_comm _ w.toRat] at hcut
  have harea : Double.sum (rest.map Sized.area) + rest.length / 2 ^ 20 ≤
      w.toRat * (h - addUp (row.map Sized.area) / w).toRat + 50 := by
    have happend := hroom.area_append
    linarith
  have hle' : (h - addUp (row.map Sized.area) / w).toRat ≤ h.toRat := hle
  have hpos : 0 < h - addUp (row.map Sized.area) / w :=
    hroom.pos_of_prod hrest hroom.w_pos (mul_comm w.toRat _ ▸ harea)
  have hw : w.toRat < h.toRat := hhigh
  exact ⟨hroom.areas_rest, hroom.length_rest, harea, hroom.w_pos, hpos, hroom.w_le,
    hle'.trans hroom.h_le, Or.inr (hw.le.trans hroom.h_le)⟩

end Cut

end Room

/-- **No item is lost to rounding**: one tile for each, in order. -/
theorem squarify_items {items : List (Sized Double ε)} {x y w h : Double}
    (hroom : items ≠ [] → Room items w h) :
    (squarify items x y w h).map Tile.toItem = items.map Sized.toItem := by
  induction items, x, y, w, h using squarify.induct with
  | case1 x y w h =>
      rw [squarify]
      rfl
  | case2 t queue x y w h hguard side grown rowArea hwide rowW ih =>
      have hgrown : t :: queue = grown.1 ++ grown.2 := (growRow_append side [t] queue).symm
      have hrow : grown.1 ≠ [] := (prefix_growRow side [t] queue).ne_nil (by simp)
      have hfirst := hroom (by simp)
      rw [hgrown] at hfirst
      have hitems := ih fun hrest => hfirst.cut_left hrow hrest
      rw [squarify, if_pos hguard, if_pos hwide, hgrown, List.map_append, List.map_append,
        placeDown_items]
      exact congrArg _ hitems
  | case3 t queue x y w h hguard side grown rowArea hwide rowH ih =>
      have hgrown : t :: queue = grown.1 ++ grown.2 := (growRow_append side [t] queue).symm
      have hrow : grown.1 ≠ [] := (prefix_growRow side [t] queue).ne_nil (by simp)
      have hfirst := hroom (by simp)
      rw [hgrown] at hfirst
      have hitems := ih fun hrest => hfirst.cut_top hrow hrest (not_le.mp hwide)
      rw [squarify, if_pos hguard, if_neg hwide, hgrown, List.map_append, List.map_append,
        placeAcross_items]
      exact congrArg _ hitems
  | case4 t queue x y w h hguard => exact absurd ((hroom (by simp)).guard (by simp)) hguard

end Cuttlefish.Treemap
