import ShapeInference.Binary64
import ShapeInference.OrderedMap

/-!
# JSON values

Objects keep their members in order, and each name once. Integers that fit in 64 bits are kept
apart from doubles, since the two print differently.
-/

namespace ShapeInference

/-- A number as JSON text gives it: an integer, or a double. -/
inductive Number where
  | integer (value : Int)
  | double (value : Binary64)
deriving DecidableEq, Repr

namespace Number

/-- The double nearest to a number. -/
def toBinary64 : Number → Binary64
  | integer i => .ofInt i
  | double x => x

end Number

/-- A JSON value. -/
inductive Json where
  | null
  | bool (value : Bool)
  | number (value : Number)
  | string (value : String)
  | array (elements : List Json)
  | object (members : List (String × Json))
deriving Inhabited

namespace Json

/-- The member of an object with a given name. -/
def member? (value : Json) (name : String) : Option Json :=
  match value with
  | object members => Bindings.get? members name
  | _ => none

/-- The kind of a value in words, for diagnostics. -/
def kind : Json → String
  | null => "null"
  | bool _ => "a boolean"
  | number _ => "a number"
  | string _ => "a string"
  | array _ => "an array"
  | object _ => "an object"

end Json

end ShapeInference
