import ShapeInference.Json.Text
import ShapeInference.Text.Shown

/-!
# Data of an unexpected form

What a reader of typed data found instead of what it expected.
-/

namespace ShapeInference

/-- The sort of a JSON value, with its content when it is a scalar. -/
inductive Found where
  | null
  | bool (value : Bool)
  | number (value : Number)
  | string (value : String)
  | sequence
  | map
deriving DecidableEq, Repr

namespace Found

/-- The sort of a value. -/
def ofJson : Json → Found
  | .null => null
  | .bool b => bool b
  | .number n => number n
  | .string s => string s
  | .array _ => sequence
  | .object _ => map

/-- The sort in words. -/
def text : Found → String
  | null => "null"
  | bool true => "boolean `true`"
  | bool false => "boolean `false`"
  | number (.integer i) => s!"integer `{i}`"
  | number (.double x) => s!"floating point `{x.text}`"
  | string s => "string " ++ Shown.string s
  | sequence => "sequence"
  | map => "map"

end Found

/-- Why data has not the expected form. -/
inductive DataFault where
  | invalidType (found : Found) (expected : String)
  | invalidValue (found : Found) (expected : String)
  | invalidLength (length : Nat) (expected : String)
  | unknownField (name : String) (known : List String)
  | missingField (name : String)
  | duplicateField (name : String)
  | unknownVariant (name : String) (known : List String)
deriving DecidableEq, Repr

namespace DataFault

/-- Names to choose from, in words. -/
def choices : List String → String
  | [] => ""
  | [a] => s!"`{a}`"
  | [a, b] => s!"`{a}` or `{b}`"
  | names => "one of " ++ ", ".intercalate (names.map fun name => s!"`{name}`")

/-- The fault in words. -/
def message : DataFault → String
  | invalidType found expected => s!"invalid type: {found.text}, expected {expected}"
  | invalidValue found expected => s!"invalid value: {found.text}, expected {expected}"
  | invalidLength length expected => s!"invalid length {length}, expected {expected}"
  | unknownField name known => s!"unknown field `{name}`, expected {choices known}"
  | missingField name => s!"missing field `{name}`"
  | duplicateField name => s!"duplicate field `{name}`"
  | unknownVariant name known => s!"unknown variant `{name}`, expected {choices known}"

end DataFault

end ShapeInference
