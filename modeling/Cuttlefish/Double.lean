import Mathlib.Algebra.Order.BigOperators.Group.List
import Mathlib.Algebra.Order.Field.Basic
import Mathlib.Data.Int.Log
import Mathlib.Data.Rat.Floor
import Mathlib.Tactic.Linarith
import Mathlib.Tactic.NormNum
import Mathlib.Tactic.Positivity
import Mathlib.Tactic.Ring

/-!
# Cuttlefish.Double

Numbers of 53 significant bits, where an operation rounds its result to the
nearest one, ties to even.  Exponents have no bounds, so that nothing
overflows and nothing is subnormal.

Rounding is off by at most one part in 2^53 (`Double.abs_round_sub_le`) and
keeps the order (`Double.round_le_round`).  For numbers added up one after the
other that gives a bound on the error (`Double.abs_addUp_sub_le`), the order
of what is added up (`Double.addUp_le_of_sublist`) and the exact sum of whole
numbers that stay below 2^53 (`Double.addUp_eq_sum`).
-/

namespace Cuttlefish

/-! ## to the nearest integer -/

/-- The integer nearest to `y`, the even one of two. -/
def roundHalfEven (y : ℚ) : ℤ :=
  if 1 / 2 < Int.fract y ∨ Int.fract y = 1 / 2 ∧ ⌊y⌋ % 2 = 1 then ⌊y⌋ + 1 else ⌊y⌋

theorem floor_le_roundHalfEven (y : ℚ) : ⌊y⌋ ≤ roundHalfEven y := by
  rw [roundHalfEven]
  split_ifs <;> omega

theorem roundHalfEven_le_floor (y : ℚ) : roundHalfEven y ≤ ⌊y⌋ + 1 := by
  rw [roundHalfEven]
  split_ifs <;> omega

theorem abs_roundHalfEven_sub_le (y : ℚ) : |(roundHalfEven y : ℚ) - y| ≤ 1 / 2 := by
  have hfract : (⌊y⌋ : ℚ) + Int.fract y = y := Int.floor_add_fract y
  have hnonneg := Int.fract_nonneg y
  have hlt := Int.fract_lt_one y
  rw [roundHalfEven, abs_le]
  split_ifs with hup
  · have hhalf : 1 / 2 ≤ Int.fract y := hup.elim le_of_lt fun h => h.1.ge
    push_cast
    constructor <;> linarith
  · have hhalf : Int.fract y ≤ 1 / 2 := not_lt.mp fun h => hup (Or.inl h)
    constructor <;> linarith

@[simp] theorem roundHalfEven_intCast (n : ℤ) : roundHalfEven n = n := by
  norm_num [roundHalfEven]

theorem roundHalfEven_mono {x y : ℚ} (hxy : x ≤ y) : roundHalfEven x ≤ roundHalfEven y := by
  obtain heq | hlt := (Int.floor_mono hxy).eq_or_lt
  · have hx : (⌊x⌋ : ℚ) + Int.fract x = x := Int.floor_add_fract x
    have hy : (⌊y⌋ : ℚ) + Int.fract y = y := Int.floor_add_fract y
    have hfract : Int.fract x ≤ Int.fract y := by
      rw [heq] at hx
      linarith
    rw [roundHalfEven, roundHalfEven, heq]
    split_ifs with hupx hupy hupy
    · exact le_rfl
    · refine absurd ?_ hupy
      obtain habove | ⟨hhalf, hodd⟩ := hupx
      · exact Or.inl (habove.trans_le hfract)
      · obtain hmore | hsame := hfract.lt_or_eq
        · exact Or.inl (hhalf ▸ hmore)
        · exact Or.inr ⟨hsame ▸ hhalf, hodd⟩
    · omega
    · exact le_rfl
  · calc roundHalfEven x ≤ ⌊x⌋ + 1 := roundHalfEven_le_floor x
      _ ≤ ⌊y⌋ := hlt
      _ ≤ roundHalfEven y := floor_le_roundHalfEven y

/-! ## to 53 bits -/

namespace Double

/-- At most 53 significant bits. -/
def Representable (x : ℚ) : Prop := ∃ m k : ℤ, |m| ≤ 2 ^ 53 ∧ x = m * 2 ^ k

/-- The distance between the numbers of 53 bits next to `x`. -/
def gap (x : ℚ) : ℚ := 2 ^ (Int.log 2 |x| - 52)

def round (x : ℚ) : ℚ := roundHalfEven (x / gap x) * gap x

variable {x y : ℚ}

theorem gap_pos (x : ℚ) : 0 < gap x := zpow_pos two_pos _

theorem two_zpow_log (x : ℚ) : (2 : ℚ) ^ Int.log 2 |x| = 2 ^ 52 * gap x := by
  rw [gap, ← zpow_natCast, ← zpow_add₀ two_ne_zero]
  norm_num

theorem le_abs (hx : x ≠ 0) : 2 ^ 52 * gap x ≤ |x| := by
  rw [← two_zpow_log]
  exact_mod_cast Int.zpow_log_le_self one_lt_two (abs_pos.mpr hx)

theorem abs_le_gap (x : ℚ) : |x| ≤ 2 ^ 53 * gap x := by
  have hlt : |x| < (2 : ℚ) ^ (Int.log 2 |x| + 1) := by
    exact_mod_cast Int.lt_zpow_succ_log_self one_lt_two |x|
  rw [zpow_add_one₀ two_ne_zero, two_zpow_log] at hlt
  linarith

@[simp] theorem round_zero : round 0 = 0 := by
  have h := roundHalfEven_intCast 0
  rw [Int.cast_zero] at h
  rw [round, zero_div, h, Int.cast_zero, zero_mul]

/-- **Rounding is off** by at most one part in 2^53. -/
theorem abs_round_sub_le (x : ℚ) : |round x - x| ≤ 1 / 2 ^ 53 * |x| := by
  obtain rfl | hx := eq_or_ne x 0
  · simp
  have hgap := gap_pos x
  have hdiv : x = x / gap x * gap x := (div_mul_cancel₀ x hgap.ne').symm
  have hhalf := mul_le_mul_of_nonneg_right (abs_roundHalfEven_sub_le (x / gap x)) hgap.le
  have herror : |round x - x| ≤ 1 / 2 * gap x := by
    calc |round x - x| = |((roundHalfEven (x / gap x) : ℚ) - x / gap x) * gap x| := by
          rw [sub_mul, ← hdiv, round]
      _ ≤ 1 / 2 * gap x := by rwa [abs_mul, abs_of_pos hgap]
  have hlow := le_abs hx
  linarith

theorem representable_round (x : ℚ) : Representable (round x) := by
  refine ⟨roundHalfEven (x / gap x), Int.log 2 |x| - 52, ?_, rfl⟩
  have hgap := gap_pos x
  have hbound : |x / gap x| ≤ 2 ^ 53 := by
    rw [abs_div, abs_of_pos hgap, div_le_iff₀ hgap]
    exact abs_le_gap x
  obtain ⟨hlow, hhigh⟩ := abs_le.mp hbound
  have hlow' := roundHalfEven_mono (x := ((-2 ^ 53 : ℤ) : ℚ)) (by push_cast; exact hlow)
  have hhigh' := roundHalfEven_mono (y := ((2 ^ 53 : ℤ) : ℚ)) (by push_cast; exact hhigh)
  rw [roundHalfEven_intCast] at hlow' hhigh'
  exact abs_le.mpr ⟨hlow', hhigh'⟩

/-- A number of 53 bits is a whole number of gaps. -/
theorem Representable.exists_gap (h : Representable x) : ∃ n : ℤ, x = n * gap x := by
  obtain ⟨m, k, hm, hx⟩ := h
  obtain rfl | hne := eq_or_ne x 0
  · exact ⟨0, by simp⟩
  obtain hle | hlt := le_or_gt (Int.log 2 |x| - 52) k
  · -- the gap divides the last place
    refine ⟨m * 2 ^ (k - (Int.log 2 |x| - 52)).toNat, ?_⟩
    have hexp : (2 : ℚ) ^ k =
        2 ^ (k - (Int.log 2 |x| - 52)).toNat * 2 ^ (Int.log 2 |x| - 52) := by
      rw [← zpow_natCast, ← zpow_add₀ two_ne_zero]
      congr 1
      omega
    rw [gap]
    push_cast
    rw [mul_assoc, ← hexp, ← hx]
  · -- then all 54 bits above the last place are used, by `2 ^ 53` alone
    have hbits : (2 : ℚ) ^ (k + 53) ≤ |x| := by
      refine le_trans ?_ (le_abs hne)
      rw [← two_zpow_log]
      exact zpow_le_zpow_right₀ one_le_two (by omega)
    have hlast : (0 : ℚ) < 2 ^ k := zpow_pos two_pos k
    have habs : |x| = |(m : ℚ)| * 2 ^ k := by rw [hx, abs_mul, abs_of_pos hlast]
    have hm' : |(m : ℚ)| ≤ 2 ^ 53 := by exact_mod_cast hm
    have hfull : |(m : ℚ)| = 2 ^ 53 := by
      refine le_antisymm hm' ?_
      rw [habs, zpow_add₀ two_ne_zero, mul_comm] at hbits
      have hcancel := le_of_mul_le_mul_right hbits hlast
      exact_mod_cast hcancel
    have hlog : Int.log 2 |x| = k + 53 := by
      have hpow : |x| = ((2 : ℕ) : ℚ) ^ (k + 53) := by
        rw [habs, hfull, mul_comm, Nat.cast_ofNat, zpow_add₀ two_ne_zero]
        norm_num
      rw [hpow, Int.log_zpow one_lt_two]
    obtain hpos | hneg := abs_eq (by positivity) |>.mp hfull
    · exact ⟨2 ^ 52, by
        rw [gap, hlog, hx, hpos, show k + 53 - 52 = k + 1 by omega, zpow_add_one₀ two_ne_zero]
        norm_num
        ring⟩
    · exact ⟨-2 ^ 52, by
        rw [gap, hlog, hx, hneg, show k + 53 - 52 = k + 1 by omega, zpow_add_one₀ two_ne_zero]
        norm_num
        ring⟩

/-- What has 53 bits is kept. -/
theorem Representable.round_eq (h : Representable x) : round x = x := by
  obtain ⟨n, hn⟩ := h.exists_gap
  have hdiv : x / gap x = n := by
    rw [div_eq_iff (gap_pos x).ne']
    exact hn
  rw [round, hdiv, roundHalfEven_intCast, ← hn]

theorem representable_intCast {n : ℤ} (h : |n| ≤ 2 ^ 53) : Representable n :=
  ⟨n, 0, h, by simp⟩

theorem round_intCast {n : ℤ} (h : |n| ≤ 2 ^ 53) : round n = n :=
  (representable_intCast h).round_eq

theorem round_nonneg (hx : 0 ≤ x) : 0 ≤ round x := by
  have h := roundHalfEven_mono (div_nonneg hx (gap_pos x).le)
  rw [← Int.cast_zero, roundHalfEven_intCast] at h
  exact mul_nonneg (by exact_mod_cast h) (gap_pos x).le

theorem round_nonpos (hx : x ≤ 0) : round x ≤ 0 := by
  have h := roundHalfEven_mono (div_nonpos_of_nonpos_of_nonneg hx (gap_pos x).le)
  rw [← Int.cast_zero, roundHalfEven_intCast] at h
  exact mul_nonpos_of_nonpos_of_nonneg (by exact_mod_cast h) (gap_pos x).le

/-- **Rounding keeps the order**, of numbers that are not negative. -/
theorem round_le_round (hx : 0 ≤ x) (hxy : x ≤ y) : round x ≤ round y := by
  obtain rfl | hpos := hx.eq_or_lt
  · rw [round_zero]
    exact round_nonneg hxy
  have hy := hpos.trans_le hxy
  have hlog : Int.log 2 |x| ≤ Int.log 2 |y| := by
    rw [abs_of_pos hpos, abs_of_pos hy]
    exact Int.log_mono_right hpos hxy
  obtain heq | hlt := hlog.eq_or_lt
  · have hgap : gap x = gap y := by rw [gap, gap, heq]
    have hdiv := roundHalfEven_mono (div_le_div_of_nonneg_right hxy (gap_pos y).le)
    rw [round, round, hgap]
    exact mul_le_mul_of_nonneg_right (by exact_mod_cast hdiv) (gap_pos y).le
  · -- a power of two is between them
    have hup : round x ≤ 2 ^ 53 * gap x := by
      have hbound : x / gap x ≤ ((2 ^ 53 : ℤ) : ℚ) := by
        rw [div_le_iff₀ (gap_pos x)]
        exact_mod_cast (le_abs_self x).trans (abs_le_gap x)
      have h := roundHalfEven_mono hbound
      rw [roundHalfEven_intCast] at h
      exact mul_le_mul_of_nonneg_right (by exact_mod_cast h) (gap_pos x).le
    have hlow : 2 ^ 52 * gap y ≤ round y := by
      have hbound : ((2 ^ 52 : ℤ) : ℚ) ≤ y / gap y := by
        rw [le_div_iff₀ (gap_pos y)]
        have h := le_abs hy.ne'
        rw [abs_of_pos hy] at h
        exact_mod_cast h
      have h := roundHalfEven_mono hbound
      rw [roundHalfEven_intCast] at h
      exact mul_le_mul_of_nonneg_right (by exact_mod_cast h) (gap_pos y).le
    have hgap : 2 * gap x ≤ gap y := by
      rw [gap, gap, ← zpow_one_add₀ two_ne_zero]
      exact zpow_le_zpow_right₀ one_le_two (by omega)
    linarith

end Double

/-! ## the numbers -/

structure Double where
  toRat : ℚ
  representable : Double.Representable toRat

namespace Double

theorem toRat_injective : Function.Injective toRat := by
  intro a b h
  cases a
  cases b
  congr

/-- The nearest one. -/
def ofRat (x : ℚ) : Double := ⟨round x, representable_round x⟩

instance : Zero Double := ⟨⟨0, 0, 0, by simp⟩⟩

instance : RatCast Double := ⟨ofRat⟩

instance : Add Double := ⟨fun a b => ofRat (a.toRat + b.toRat)⟩

instance : Sub Double := ⟨fun a b => ofRat (a.toRat - b.toRat)⟩

instance : Mul Double := ⟨fun a b => ofRat (a.toRat * b.toRat)⟩

instance : Div Double := ⟨fun a b => ofRat (a.toRat / b.toRat)⟩

instance : LinearOrder Double := LinearOrder.lift' toRat toRat_injective

variable {a b : Double}

@[simp] theorem toRat_zero : (0 : Double).toRat = 0 := rfl

@[simp] theorem toRat_ratCast (x : ℚ) : (x : Double).toRat = round x := rfl

@[simp] theorem toRat_add (a b : Double) : (a + b).toRat = round (a.toRat + b.toRat) := rfl

@[simp] theorem toRat_sub (a b : Double) : (a - b).toRat = round (a.toRat - b.toRat) := rfl

@[simp] theorem toRat_mul (a b : Double) : (a * b).toRat = round (a.toRat * b.toRat) := rfl

@[simp] theorem toRat_div (a b : Double) : (a / b).toRat = round (a.toRat / b.toRat) := rfl

theorem lt_iff : a < b ↔ a.toRat < b.toRat := Iff.rfl

theorem toRat_mono : Monotone toRat := fun _ _ h => h

theorem toRat_max (a b : Double) : (max a b).toRat = max a.toRat b.toRat := toRat_mono.map_max

theorem toRat_min (a b : Double) : (min a b).toRat = min a.toRat b.toRat := toRat_mono.map_min

@[simp] theorem round_toRat (a : Double) : round a.toRat = a.toRat := a.representable.round_eq

example : ((1 / 10 : ℚ) : Double) + (2 / 10 : ℚ) ≠ (3 / 10 : ℚ) := by decide +kernel

end Double

/-! ## sums -/

section AddUp

variable {κ : Type} [Zero κ] [Add κ]

/-- The sum, from the first to the last. -/
def addUp (xs : List κ) : κ := xs.foldl (· + ·) 0

@[simp] theorem addUp_nil : addUp ([] : List κ) = 0 := rfl

@[simp] theorem addUp_concat (xs : List κ) (x : κ) : addUp (xs ++ [x]) = addUp xs + x := by
  rw [addUp, List.foldl_append]
  rfl

end AddUp

/-- Where nothing is rounded it is the sum. -/
@[simp] theorem addUp_rat (xs : List ℚ) : addUp xs = xs.sum := (List.sum_eq_foldl).symm

namespace Double

/-- The exact sum. -/
def sum (xs : List Double) : ℚ := (xs.map toRat).sum

@[simp] theorem sum_concat (xs : List Double) (x : Double) :
    sum (xs ++ [x]) = sum xs + x.toRat := by
  simp [sum]

variable {xs ys : List Double}

theorem sum_nonneg (h : ∀ x ∈ xs, 0 ≤ x) : 0 ≤ sum xs := by
  apply List.sum_nonneg
  rw [List.forall_mem_map]
  exact h

/-- **The error of a sum**: twice one part in 2^53 for each number. -/
theorem abs_addUp_sub_le (hnonneg : ∀ x ∈ xs, 0 ≤ x) (hlength : xs.length ≤ 2 ^ 52) :
    |(addUp xs).toRat - sum xs| ≤ 2 * xs.length * (1 / 2 ^ 53) * sum xs := by
  induction xs using List.reverseRecOn with
  | nil => simp [sum]
  | append_singleton xs x ih =>
      have hx : 0 ≤ x.toRat := hnonneg x (by simp)
      have hxs : ∀ y ∈ xs, 0 ≤ y := fun y hy => hnonneg y (List.mem_append_left _ hy)
      rw [List.length_append, List.length_singleton] at hlength
      have herror := ih hxs (by omega)
      have hsum := sum_nonneg hxs
      have hfew : (xs.length : ℚ) ≤ 2 ^ 52 := by exact_mod_cast (by omega : xs.length ≤ 2 ^ 52)
      have hfactor : 2 * (xs.length : ℚ) * (1 / 2 ^ 53) * sum xs ≤ sum xs := by
        have hle : 2 * (xs.length : ℚ) * (1 / 2 ^ 53) ≤ 1 := by linarith
        exact mul_le_of_le_one_left hsum hle
      have hround := abs_round_sub_le ((addUp xs).toRat + x.toRat)
      obtain ⟨hlow, hhigh⟩ := abs_le.mp herror
      have hpos : 0 ≤ (addUp xs).toRat + x.toRat := by linarith
      rw [abs_of_nonneg hpos] at hround
      obtain ⟨hlow', hhigh'⟩ := abs_le.mp hround
      have hsplit : 2 * ((xs.length : ℚ) + 1) * (1 / 2 ^ 53) * (sum xs + x.toRat) =
          2 * xs.length * (1 / 2 ^ 53) * sum xs + 2 * xs.length * (1 / 2 ^ 53) * x.toRat +
            1 / 2 ^ 52 * (sum xs + x.toRat) := by ring
      have hcross : 0 ≤ 2 * (xs.length : ℚ) * (1 / 2 ^ 53) * x.toRat := by positivity
      rw [addUp_concat, toRat_add, sum_concat, List.length_append, List.length_singleton,
        Nat.cast_add, Nat.cast_one, hsplit, abs_le]
      constructor <;> linarith

/-! ### what is added up -/

variable {a b x y : Double}

theorem le_add (ha : 0 ≤ a) (hx : 0 ≤ x) : a ≤ a + x := by
  have h : round a.toRat ≤ round (a.toRat + x.toRat) :=
    round_le_round ha (le_add_of_nonneg_right hx)
  rwa [round_toRat] at h

theorem add_mono (ha : 0 ≤ a) (hx : 0 ≤ x) (hab : a ≤ b) (hxy : x ≤ y) : a + x ≤ b + y :=
  round_le_round (add_nonneg ha hx : (0 : ℚ) ≤ a.toRat + x.toRat)
    (add_le_add hab hxy : a.toRat + x.toRat ≤ b.toRat + y.toRat)

theorem foldl_le_of_sublist (ha : 0 ≤ a) (hab : a ≤ b) (hsub : xs.Sublist ys)
    (hnonneg : ∀ y ∈ ys, 0 ≤ y) : xs.foldl (· + ·) a ≤ ys.foldl (· + ·) b := by
  induction hsub generalizing a b with
  | slnil => exact hab
  | cons y hsub ih =>
      rw [List.forall_mem_cons] at hnonneg
      exact ih ha (hab.trans (le_add (ha.trans hab) hnonneg.1)) hnonneg.2
  | cons_cons y hsub ih =>
      rw [List.forall_mem_cons] at hnonneg
      have hy := hnonneg.1
      exact ih (ha.trans (le_add ha hy)) (add_mono ha hy hab le_rfl) hnonneg.2

/-- **Less is added up** to less. -/
theorem addUp_le_of_sublist (hsub : xs.Sublist ys) (hnonneg : ∀ y ∈ ys, 0 ≤ y) :
    addUp xs ≤ addUp ys :=
  foldl_le_of_sublist le_rfl le_rfl hsub hnonneg

theorem addUp_nonneg (hnonneg : ∀ x ∈ xs, 0 ≤ x) : 0 ≤ addUp xs :=
  addUp_le_of_sublist (List.nil_sublist xs) hnonneg

/-- **Whole numbers are added up exactly** as long as they stay below 2^53. -/
theorem addUp_eq_sum (hwhole : ∀ x ∈ xs, ∃ n : ℕ, x.toRat = n) (hsum : sum xs ≤ 2 ^ 53) :
    (addUp xs).toRat = sum xs := by
  suffices h : (addUp xs).toRat = sum xs ∧ ∃ n : ℕ, sum xs = n from h.1
  induction xs using List.reverseRecOn with
  | nil => exact ⟨rfl, 0, by simp [sum]⟩
  | append_singleton xs x ih =>
      obtain ⟨k, hk⟩ := hwhole x (by simp)
      rw [sum_concat] at hsum
      have hbelow : sum xs ≤ 2 ^ 53 := by
        have hnonneg : (0 : ℚ) ≤ k := k.cast_nonneg
        linarith
      obtain ⟨hexact, n, hn⟩ := ih (fun y hy => hwhole y (List.mem_append_left _ hy)) hbelow
      have htotal : sum xs + x.toRat = ((n + k : ℕ) : ℤ) := by
        rw [hn, hk]
        push_cast
        rfl
      have hbits : |((n + k : ℕ) : ℤ)| ≤ 2 ^ 53 := by
        rw [htotal] at hsum
        rw [abs_of_nonneg (by omega)]
        exact_mod_cast hsum
      constructor
      · rw [addUp_concat, toRat_add, hexact, sum_concat, htotal, round_intCast hbits]
      · exact ⟨n + k, by rw [sum_concat, htotal]; norm_cast⟩

end Double

end Cuttlefish
