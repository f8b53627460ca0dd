import Cuttlefish.Utf8
import Mathlib.Data.List.DropRight
import Mathlib.Data.Rat.Floor

/-!
# Cuttlefish.Js

JSON values in JavaScript, and what its conversions make of them.

A missing property is `none`.  Reading and writing JSON and the texts of
numbers are parameters.  A conversion fails with a `TypeError` where an object
hides `toString` behind a property of its own.
-/

namespace Cuttlefish

/-- A number; those that are finite are exact. -/
inductive JsNumber where
  | finite (x : ℚ)
  | infinite (negative : Bool)
  | nan
  deriving DecidableEq, Repr

/-- A value that `JSON.parse` returns. -/
inductive Json where
  | null
  | bool (b : Bool)
  | number (x : JsNumber)
  | string (s : Text)
  | array (elements : List Json)
  | object (fields : List (Text × Json))

/-- What is taken from the language: `JSON.parse`, `JSON.stringify` without and
with indentation, `Number` of a text and `String` of a number. -/
structure Js where
  parse : Text → Option Json
  stringify : Json → Text
  stringifyIndented : Json → Text
  numberOfText : Text → JsNumber
  textOfNumber : JsNumber → Text

namespace Json

/-! ## properties -/

/-- `value[key]`. -/
def get (key : Text) : Json → Option Json
  | .object fields => fields.lookup key
  | _ => none

/-- `value === text`. -/
def isText (text : Text) : Json → Bool
  | .string s => s = text
  | _ => false

/-- `Array.isArray`, with the elements. -/
def elements? : Json → Option (List Json)
  | .array elements => some elements
  | _ => none

/-! ## conversions -/

mutual

/-- `String(value)`. -/
def toText (js : Js) : Json → Option Text
  | .null => some "null".toList
  | .bool b => some (if b then "true".toList else "false".toList)
  | .number x => some (js.textOfNumber x)
  | .string s => some s
  | .array elements => (elementTexts js elements).map ([','].intercalate ·)
  | .object fields =>
      if (fields.lookup "toString".toList).isSome then none else some "[object Object]".toList

/-- The texts of an array's elements, as `join` has them: `null` is empty. -/
def elementTexts (js : Js) : List Json → Option (List Text)
  | [] => some []
  | .null :: elements => (elementTexts js elements).map ([] :: ·)
  | element :: elements => do
      let text ← toText js element
      let texts ← elementTexts js elements
      return text :: texts

end

/-- `String(value)`, with `undefined`. -/
def textOf (js : Js) : Option Json → Option Text
  | none => some "undefined".toList
  | some value => value.toText js

/-- `Number(value)`. -/
def numberOf (js : Js) : Option Json → Option JsNumber
  | none => some .nan
  | some .null => some (.finite 0)
  | some (.bool b) => some (.finite (if b then 1 else 0))
  | some (.number x) => some x
  | some value => (value.toText js).map js.numberOfText

/-- `!!value`. -/
def truthy : Option Json → Bool
  | none | some .null => false
  | some (.bool b) => b
  | some (.number x) => x ≠ .finite 0 && x ≠ .nan
  | some (.string s) => s ≠ []
  | some (.array _) | some (.object _) => true

end Json

/-- What `trim` takes away: white space and line terminators. -/
def isWhiteSpace (c : Char) : Bool :=
  (9 ≤ c.toNat && c.toNat ≤ 13) || c.toNat ∈ [0x20, 0xA0, 0x1680, 0x2028, 0x2029, 0x202F, 0x205F,
    0x3000, 0xFEFF] || (0x2000 ≤ c.toNat && c.toNat ≤ 0x200A)

def trim (s : Text) : Text := (s.dropWhile isWhiteSpace).rdropWhile isWhiteSpace

/-- `toUpperCase`, as far as ASCII letters come out of it. -/
def upperCase (s : Text) : Text :=
  s.map fun c => if c = 'ſ' then 'S' else if c = 'ı' then 'I' else c.toUpper

end Cuttlefish
