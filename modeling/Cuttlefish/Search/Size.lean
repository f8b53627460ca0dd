import Cuttlefish.Search
import Mathlib.Algebra.GroupWithZero.Nat
import Mathlib.Algebra.Ring.Int.Defs

/-!
# Cuttlefish.Search.Size

Numbers in search rules: decimal numerals read back, and sizes with a unit.

A size goes through Go's `float64`, which holds every integer up to `2 ^ 53`
and scales it by a power of two exactly.  Nothing checks that the product
fits the `int64` it is converted to; `readExactly_iff` says that the sizes that
fit are the ones read right.
-/

namespace Cuttlefish

/-! ## numerals -/

/-- A nonempty string of decimal digits. -/
def IsNumeral (digits : Text) : Prop := digits ≠ [] ∧ ∀ c ∈ digits, c.isDigit = true

instance : DecidablePred IsNumeral := fun digits =>
  have : Decidable (∀ c ∈ digits, c.isDigit = true) := List.decidableBAll _ digits
  inferInstanceAs (Decidable (_ ∧ _))

/-- The number a numeral stands for. -/
def numeralValue (digits : Text) : Nat := Nat.ofDigitChars 10 digits 0

theorem isNumeral_toDigits (n : Nat) : IsNumeral (Nat.toDigits 10 n) :=
  ⟨Nat.toDigits_ne_nil, fun _ hc => Nat.isDigit_of_mem_toDigits (by decide) (by decide) hc⟩

@[simp] theorem numeralValue_toDigits (n : Nat) : numeralValue (Nat.toDigits 10 n) = n :=
  Nat.ofDigitChars_ten_toDigits

theorem isDigit_iff {c : Char} : c.isDigit = true ↔ 48 ≤ c.toNat ∧ c.toNat ≤ 57 := by
  simp only [Char.isDigit, Bool.and_eq_true, decide_eq_true_eq, UInt32.le_iff_toNat_le,
    ge_iff_le]
  exact Iff.rfl

theorem isSpace_of_isDigit {c : Char} (h : c.isDigit = true) : isSpace c = false := by
  rw [isDigit_iff] at h
  simp only [isSpace, Bool.or_eq_false_iff, Bool.and_eq_false_iff, decide_eq_false_iff_not,
    List.mem_cons, List.not_mem_nil, or_false]
  omega

/-- Parsing a numeral, unless it is too large. -/
theorem parseInt64_numeral {digits : Text} (h : IsNumeral digits) :
    parseInt64 digits =
      if numeralValue digits ≤ 2 ^ 63 - 1 then some (numeralValue digits : Int) else none := by
  obtain ⟨hne, hdigits⟩ := h
  have hall : digits.all Char.isDigit = true := List.all_eq_true.mpr hdigits
  have hbound : (-2 ^ 63 ≤ (numeralValue digits : Int) ∧
      (numeralValue digits : Int) ≤ 2 ^ 63 - 1) ↔ numeralValue digits ≤ 2 ^ 63 - 1 := by omega
  have hminus : ∀ ds, digits ≠ '-' :: ds := by
    rintro ds rfl
    exact absurd (hdigits '-' List.mem_cons_self) (by decide)
  have hplus : ∀ ds, digits ≠ '+' :: ds := by
    rintro ds rfl
    exact absurd (hdigits '+' List.mem_cons_self) (by decide)
  unfold parseInt64
  split
  next negative ds hsign =>
    split at hsign
    next ds' => exact absurd rfl (hminus ds')
    next ds' => exact absurd rfl (hplus ds')
    next =>
      cases hsign
      simp only [hne, hall, not_true_eq_false, or_self, if_false, Bool.false_eq_true]
      rw [← numeralValue]
      simp only [hbound]

/-! ## spaces -/

/-- Nothing but spaces. -/
def AllSpaces (s : Text) : Prop := ∀ c ∈ s, isSpace c = true

instance : DecidablePred AllSpaces := fun s => List.decidableBAll _ s

theorem dropWhile_isSpace_append {before s : Text} (h : AllSpaces before) {c : Char}
    (hhead : s.head? = some c) (hc : isSpace c = false) : (before ++ s).dropWhile isSpace = s := by
  rw [List.dropWhile_append_of_pos h]
  cases s with
  | nil => rfl
  | cons c' s =>
      cases hhead
      rw [List.dropWhile_cons_of_neg (by simp [hc])]

/-- Trimming takes the surrounding spaces, and nothing of a text that begins
and ends with something else. -/
theorem trimSpace_append {before s after : Text} (hbefore : AllSpaces before)
    (hafter : AllSpaces after) {first last : Char} (hhead : s.head? = some first)
    (hlast : s.getLast? = some last) (hfirst : isSpace first = false)
    (hlastSpace : isSpace last = false) : trimSpace (before ++ s ++ after) = s := by
  have hhead' : (s ++ after).head? = some first := by simp [hhead]
  have hlast' : s.reverse.head? = some last := by simp [hlast]
  have hafter' : AllSpaces after.reverse := fun c hc => hafter c (List.mem_reverse.mp hc)
  rw [trimSpace, List.append_assoc, dropWhile_isSpace_append hbefore hhead' hfirst,
    List.rdropWhile, List.reverse_append, dropWhile_isSpace_append hafter' hlast' hlastSpace,
    List.reverse_reverse]

/-- A numeral between spaces. -/
theorem trimSpace_numeral {before digits after : Text} (hbefore : AllSpaces before)
    (hafter : AllSpaces after) (h : IsNumeral digits) :
    trimSpace (before ++ digits ++ after) = digits := by
  obtain ⟨hne, hdigits⟩ := h
  exact trimSpace_append hbefore hafter (List.head?_eq_some_head hne)
    (List.getLast?_eq_some_getLast hne) (isSpace_of_isDigit (hdigits _ (List.head_mem hne)))
    (isSpace_of_isDigit (hdigits _ (List.getLast_mem hne)))

theorem allSpaces_nil : AllSpaces [] := by simp [AllSpaces]

theorem trimSpace_toDigits (n : Nat) : trimSpace (Nat.toDigits 10 n) = Nat.toDigits 10 n := by
  have h := trimSpace_numeral allSpaces_nil allSpaces_nil (isNumeral_toDigits n)
  simpa using h

/-! ## units -/

/-- The suffixes a size can end with, none included. -/
def sizeSuffixes : List (Text × Int) := sizeUnits ++ [([], 1)]

/-- The letters of the suffixes. -/
def unitLetters : Text := "KMGTPB".toList

theorem suffix_iff_prefix_reverse {u w : Text} : u <:+ w ↔ u.reverse <+: w.reverse :=
  List.reverse_prefix.symm

/-- **The first suffix that matches** is the one that was written: `KB` comes
before `K`, and `B` never stands alone. -/
theorem find?_sizeUnits {text suffix : Text} {mult : Int} (hmem : (suffix, mult) ∈ sizeUnits) :
    sizeUnits.find? (fun u => u.1 <:+ text ++ suffix) = some (suffix, mult) := by
  simp only [sizeUnits, List.mem_cons, List.not_mem_nil, or_false, Prod.mk.injEq] at hmem
  simp only [sizeUnits, suffix_iff_prefix_reverse, List.reverse_append]
  obtain ⟨rfl, rfl⟩ | ⟨rfl, rfl⟩ | ⟨rfl, rfl⟩ | ⟨rfl, rfl⟩ | ⟨rfl, rfl⟩ | ⟨rfl, rfl⟩ | ⟨rfl, rfl⟩ |
    ⟨rfl, rfl⟩ | ⟨rfl, rfl⟩ | ⟨rfl, rfl⟩ := hmem <;> simp

/-- A text that ends with another letter has no unit. -/
theorem find?_sizeUnits_eq_none {text : Text} {last : Char} (hlast : text.getLast? = some last)
    (hletter : last ∉ unitLetters) : sizeUnits.find? (fun u => u.1 <:+ text) = none := by
  have hends : ∀ u ∈ sizeUnits, u.1.getLast?.any (fun c => c ∈ unitLetters) = true := by decide
  rw [List.find?_eq_none]
  intro u hu hsuffix
  obtain ⟨c, hget, hc⟩ := (Option.any_eq_true _ _).mp (hends u hu)
  obtain ⟨front, rfl⟩ := of_decide_eq_true hsuffix
  rw [List.getLast?_append, hget, Option.some_or, Option.some.injEq] at hlast
  exact hletter (hlast ▸ of_decide_eq_true hc)

/-- Only the lower-case letters have an upper case. -/
theorem toUpper_eq_self {c : Char} (h : ¬ (97 ≤ c.toNat ∧ c.toNat ≤ 122)) : c.toUpper = c := by
  delta Char.toUpper
  rw [dif_neg]
  rw [UInt32.le_iff_toNat_le, UInt32.le_iff_toNat_le]
  exact h

theorem toUpper_of_isDigit {c : Char} (h : c.isDigit = true) : c.toUpper = c := by
  rw [isDigit_iff] at h
  exact toUpper_eq_self (by omega)

theorem toUpper_of_isSpace {c : Char} (h : isSpace c = true) : c.toUpper = c := by
  refine toUpper_eq_self fun hlower => ?_
  simp only [isSpace, Bool.or_eq_true, Bool.and_eq_true, decide_eq_true_eq, List.mem_cons,
    List.not_mem_nil, or_false] at h
  omega

/-- A letter that upper-cases into a unit is no space. -/
theorem isSpace_of_unitLetter {c : Char} (h : c.toUpper ∈ unitLetters) : isSpace c = false := by
  have hletters : (unitLetters.all fun l => !isSpace l) = true := by decide
  by_contra hspace
  rw [Bool.not_eq_false] at hspace
  rw [toUpper_of_isSpace hspace] at h
  exact absurd (List.all_eq_true.mp hletters c h) (by simp [hspace])

/-- A size as it may be written: a numeral, a unit in any case, and spaces
around both. -/
structure SizeSpelling where
  before : Text
  digits : Text
  inner : Text
  suffix : Text
  after : Text
  mult : Int
  before_spaces : AllSpaces before
  inner_spaces : AllSpaces inner
  after_spaces : AllSpaces after
  numeral : IsNumeral digits
  unit : (suffix.map Char.toUpper, mult) ∈ sizeSuffixes

namespace SizeSpelling

def text (w : SizeSpelling) : Text := w.before ++ w.digits ++ w.inner ++ w.suffix ++ w.after

def number (w : SizeSpelling) : Nat := numeralValue w.digits

/-- The suffix is missing, or one of the units. -/
theorem suffix_cases (w : SizeSpelling) :
    (w.suffix = [] ∧ w.mult = 1) ∨ (w.suffix.map Char.toUpper, w.mult) ∈ sizeUnits := by
  have hunit := w.unit
  rw [sizeSuffixes, List.mem_append, List.mem_singleton, Prod.mk.injEq,
    List.map_eq_nil_iff] at hunit
  exact hunit.symm

/-- Without a suffix, a size is read as a plain number. -/
theorem parseHumanSize_plain (float : Float64) (w : SizeSpelling) (h : w.suffix = []) :
    parseHumanSize float w.text = parseInt64 w.digits := by
  have hafter : AllSpaces (w.inner ++ w.after) := by
    intro c hc
    exact (List.mem_append.mp hc).elim (w.inner_spaces c) (w.after_spaces c)
  have htrim : trimSpace w.text = w.digits := by
    have hpad := trimSpace_numeral w.before_spaces hafter w.numeral
    simpa [text, h] using hpad
  obtain ⟨hne, hdigits⟩ := w.numeral
  have hupper : w.digits.map Char.toUpper = w.digits :=
    (List.map_congr_left fun c hc => toUpper_of_isDigit (hdigits c hc)).trans (List.map_id _)
  have hletter : w.digits.getLast hne ∉ unitLetters := by
    have hletters : (unitLetters.all fun l => !l.isDigit) = true := by decide
    intro hmem
    exact absurd (List.all_eq_true.mp hletters _ hmem)
      (by simp [hdigits _ (List.getLast_mem hne)])
  rw [parseHumanSize, htrim, if_neg hne, hupper,
    find?_sizeUnits_eq_none (List.getLast?_eq_some_getLast hne) hletter]

/-- With a suffix, it is parsed as a float and scaled. -/
theorem parseHumanSize_unit (float : Float64) (w : SizeSpelling)
    (h : (w.suffix.map Char.toUpper, w.mult) ∈ sizeUnits) :
    parseHumanSize float w.text =
      (float.parseFloat w.digits).map (float.scaleToInt64 · w.mult) := by
  obtain ⟨hne, hdigits⟩ := w.numeral
  have hunits : ∀ u ∈ sizeUnits, u.1 ≠ [] ∧ u.1.all (fun c => c ∈ unitLetters) = true := by
    decide
  have hsuffix : w.suffix ≠ [] := fun hnil => (hunits _ h).1 (by simp [hnil])
  have hlast : isSpace (w.suffix.getLast hsuffix) = false :=
    isSpace_of_unitLetter (of_decide_eq_true
      (List.all_eq_true.mp (hunits _ h).2 _ (List.mem_map_of_mem (List.getLast_mem hsuffix))))
  have htrim : trimSpace w.text = w.digits ++ w.inner ++ w.suffix := by
    have hhead : (w.digits ++ w.inner ++ w.suffix).head? = some (w.digits.head hne) := by
      simp [List.head?_append, List.head?_eq_some_head hne]
    have hget : (w.digits ++ w.inner ++ w.suffix).getLast? =
        some (w.suffix.getLast hsuffix) := by
      simp [List.getLast?_append, List.getLast?_eq_some_getLast hsuffix]
    have hpad := trimSpace_append w.before_spaces w.after_spaces hhead hget
      (isSpace_of_isDigit (hdigits _ (List.head_mem hne))) hlast
    simpa [text] using hpad
  have hnumber : trimSpace (w.digits ++ w.inner) = w.digits := by
    have hpad := trimSpace_numeral allSpaces_nil w.inner_spaces w.numeral
    simpa using hpad
  have htake : (w.digits ++ w.inner ++ w.suffix).take
      ((w.digits ++ w.inner ++ w.suffix).length - (w.suffix.map Char.toUpper).length) =
        w.digits ++ w.inner := by
    rw [List.length_map, List.length_append, Nat.add_sub_cancel, List.take_left]
  rw [parseHumanSize, htrim, if_neg (by simp [hne]), List.map_append, find?_sizeUnits h]
  dsimp only
  rw [htake, hnumber]

end SizeSpelling

/-! ## exactness -/

/-- Go's `float64` on the integers up to `2 ^ 53`: numerals parse to the
number itself, and a unit scales it exactly as long as the product is an
`int64`. -/
structure Float64.Exact (float : Float64) (holds : float.carrier → Nat → Prop) : Prop where
  parse : ∀ digits, IsNumeral digits → numeralValue digits ≤ 2 ^ 53 →
    ∃ f, float.parseFloat digits = some f ∧ holds f (numeralValue digits)
  scale : ∀ f m unit, holds f m → m ≤ 2 ^ 53 → unit ∈ sizeUnits →
    (m : Int) * unit.2 ≤ 2 ^ 63 - 1 → float.scaleToInt64 f unit.2 = m * unit.2

/-- A size is read as what it stands for, and refused if an `int64` cannot
hold that. -/
def ReadExactly (float : Float64) (w : SizeSpelling) : Prop :=
  parseHumanSize float w.text =
    if (w.number : Int) * w.mult ≤ 2 ^ 63 - 1 then some ((w.number : Int) * w.mult) else none

section Exact

variable {float : Float64} {holds : float.carrier → Nat → Prop} (hfloat : float.Exact holds)
include hfloat

/-- A size that fits is read as what it stands for. -/
theorem parseHumanSize_of_le (w : SizeSpelling) (hnumber : w.number ≤ 2 ^ 53)
    (hfits : (w.number : Int) * w.mult ≤ 2 ^ 63 - 1) :
    parseHumanSize float w.text = some ((w.number : Int) * w.mult) := by
  cases w.suffix_cases with
  | inl hplain =>
      obtain ⟨hnil, hmult⟩ := hplain
      have hsmall : numeralValue w.digits ≤ 2 ^ 63 - 1 :=
        hnumber.trans (by decide)
      rw [w.parseHumanSize_plain float hnil, parseInt64_numeral w.numeral, if_pos hsmall, hmult,
        Int.mul_one, SizeSpelling.number]
  | inr hunit =>
      obtain ⟨f, hparse, hholds⟩ := hfloat.parse w.digits w.numeral hnumber
      rw [w.parseHumanSize_unit float hunit, hparse, Option.map_some]
      congr 1
      exact hfloat.scale f w.number _ hholds hnumber hunit hfits

/-- A size that does not fit is read as something all the same. -/
theorem isSome_parseHumanSize (w : SizeSpelling) (hnumber : w.number ≤ 2 ^ 53) :
    (parseHumanSize float w.text).isSome = true := by
  cases w.suffix_cases with
  | inl hplain =>
      have hsmall : numeralValue w.digits ≤ 2 ^ 63 - 1 :=
        hnumber.trans (by decide)
      rw [w.parseHumanSize_plain float hplain.1, parseInt64_numeral w.numeral, if_pos hsmall]
      rfl
  | inr hunit =>
      obtain ⟨f, hparse, _⟩ := hfloat.parse w.digits w.numeral hnumber
      rw [w.parseHumanSize_unit float hunit, hparse]
      rfl

/-- **Which sizes are read right**: those whose bytes an `int64` can count;
on them reading is monotone and never negative. -/
theorem readExactly_iff :
    (∀ w : SizeSpelling, w.number ≤ 2 ^ 53 →
        (ReadExactly float w ↔ (w.number : Int) * w.mult ≤ 2 ^ 63 - 1)) ∧
      ∀ w w' : SizeSpelling, w.mult = w'.mult → w.number ≤ w'.number → w'.number ≤ 2 ^ 53 →
        (w'.number : Int) * w'.mult ≤ 2 ^ 63 - 1 →
          ∃ n n', parseHumanSize float w.text = some n ∧ parseHumanSize float w'.text = some n' ∧
            0 ≤ n ∧ n ≤ n' := by
  have hpositive : ∀ u ∈ sizeSuffixes, 0 < u.2 := by decide
  refine ⟨fun w hnumber => ⟨fun hread => ?_, fun hfits => ?_⟩,
    fun w w' hmult hle hnumber hfits => ?_⟩
  · by_contra hfits
    have hsome := isSome_parseHumanSize hfloat w hnumber
    rw [ReadExactly, if_neg hfits] at hread
    rw [hread] at hsome
    contradiction
  · rw [ReadExactly, if_pos hfits]
    exact parseHumanSize_of_le hfloat w hnumber hfits
  · have hmult' : 0 < w.mult := hpositive _ w.unit
    have hproduct : (w.number : Int) * w.mult ≤ w'.number * w'.mult := by
      rw [← hmult]
      exact Int.mul_le_mul_of_nonneg_right (Int.ofNat_le.mpr hle) hmult'.le
    have hnonneg : 0 ≤ (w.number : Int) * w.mult :=
      Int.mul_nonneg (Int.natCast_nonneg _) hmult'.le
    exact ⟨_, _, parseHumanSize_of_le hfloat w (hle.trans hnumber) (hproduct.trans hfits),
      parseHumanSize_of_le hfloat w' hnumber hfits, hnonneg, hproduct⟩

end Exact

/-! ## a size that wraps -/

/-- `float64` on amd64, as far as numerals up to `2 ^ 53` go: a product out of
range converts to `-2 ^ 63`. -/
def amd64Float : Float64 where
  carrier := Nat
  parseFloat s := if IsNumeral s ∧ numeralValue s ≤ 2 ^ 53 then some (numeralValue s) else none
  scaleToInt64 f mult := if (f : Int) * mult ≤ 2 ^ 63 - 1 then f * mult else -2 ^ 63

theorem exact_amd64Float : amd64Float.Exact fun f m => f = m where
  parse _ hdigits hle := ⟨_, if_pos ⟨hdigits, hle⟩, rfl⟩
  scale f m unit hf _ _ hfits := by
    subst hf
    exact if_pos hfits

/-- ` 12 kB`. -/
def sampleSize : SizeSpelling where
  before := [' ']
  digits := "12".toList
  inner := [' ']
  suffix := "kB".toList
  after := []
  mult := 2 ^ 10
  before_spaces := by decide
  inner_spaces := by decide
  after_spaces := by decide
  numeral := by decide
  unit := by decide

/-- `8192P`, which is `2 ^ 63` bytes. -/
def sampleHugeSize : SizeSpelling where
  before := []
  digits := "8192".toList
  inner := []
  suffix := "P".toList
  after := []
  mult := 2 ^ 50
  before_spaces := by decide
  inner_spaces := by decide
  after_spaces := by decide
  numeral := by decide
  unit := by decide

theorem readExactly_iff_kilobytes :
    ReadExactly amd64Float sampleSize ↔
      (sampleSize.number : Int) * sampleSize.mult ≤ 2 ^ 63 - 1 :=
  (readExactly_iff exact_amd64Float).1 sampleSize (by decide)

/-- `8192P` wraps to the least `int64`, so that every file is larger. -/
theorem huge_size_wraps :
    parseHumanSize amd64Float "8192P".toList = some (-2 ^ 63) ∧
      ¬ ReadExactly amd64Float sampleHugeSize ∧
      SearchRule.bound amd64Float
          ⟨"size_bytes".toList, "gt".toList, "8192P".toList, [], false⟩ =
        some ("f.size_bytes".toList, .gt, .int (-2 ^ 63)) := by
  have hparse : parseHumanSize amd64Float "8192P".toList = some (-2 ^ 63) := by decide
  refine ⟨hparse, ?_, by decide⟩
  unfold ReadExactly
  decide

end Cuttlefish
