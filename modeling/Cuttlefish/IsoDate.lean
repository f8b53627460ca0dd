import Cuttlefish.Utf8

/-!
# Cuttlefish.IsoDate

The text of a point in time, as `Date.prototype.toISOString` has it: the
proleptic Gregorian calendar in UTC, with the year in four digits or with a
sign and six.
-/

namespace Cuttlefish

/-- The last millisecond a date can have, and the first but for its sign. -/
def maxTime : Nat := 8640000000000000

/-- `n` in decimal, with zeros up to the width. -/
def padded (width n : Nat) : Text :=
  let digits := Nat.toDigits 10 n
  List.replicate (width - digits.length) '0' ++ digits

/-- Year, month and day of a day counted from 1970-01-01.  Days are counted
from the first of March, so that the leap day comes last in its year. -/
def civil (day : Int) : Int × Nat × Nat :=
  let z := day + 719468
  let era := z / 146097
  let dayOfEra := (z % 146097).toNat
  let yearOfEra := (dayOfEra - dayOfEra / 1460 + dayOfEra / 36524 - dayOfEra / 146096) / 365
  let dayOfYear := dayOfEra - (365 * yearOfEra + yearOfEra / 4 - yearOfEra / 100)
  let march := (5 * dayOfYear + 2) / 153
  let date := dayOfYear - (153 * march + 2) / 5 + 1
  let month := if march < 10 then march + 3 else march - 9
  (yearOfEra + era * 400 + (if month ≤ 2 then 1 else 0), month, date)

def yearText (year : Int) : Text :=
  if 0 ≤ year ∧ year ≤ 9999 then padded 4 year.toNat
  else (if year < 0 then '-' else '+') :: padded 6 year.natAbs

/-- `new Date(ms).toISOString()`, which throws outside the range of dates. -/
def toISOString (ms : Int) : Option Text :=
  if maxTime < ms.natAbs then none
  else
    let (year, month, date) := civil (ms / 86400000)
    let inDay := (ms % 86400000).toNat
    some (yearText year ++ '-' :: padded 2 month ++ '-' :: padded 2 date ++
      'T' :: padded 2 (inDay / 3600000) ++ ':' :: padded 2 (inDay / 60000 % 60) ++
        ':' :: padded 2 (inDay / 1000 % 60) ++ '.' :: padded 3 (inDay % 1000) ++ ['Z'])

theorem isSome_toISOString {ms : Int} : (toISOString ms).isSome ↔ ms.natAbs ≤ maxTime := by
  unfold toISOString
  split_ifs with h
  · simpa using h
  · simpa using h

example : toISOString 951782400000 = some "2000-02-29T00:00:00.000Z".toList := by decide +kernel

example : toISOString (-62198755200001) = some "-000002-12-31T23:59:59.999Z".toList := by
  decide +kernel

end Cuttlefish
