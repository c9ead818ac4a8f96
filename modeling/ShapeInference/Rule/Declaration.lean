import ShapeInference.Json.Basic

/-!
# Field declarations

A declaration names the rules of a field, each with an options payload, in the order written.
-/

namespace ShapeInference

/-- The rules of a field with their options. -/
abbrev Declaration := OrderedMap Json

namespace RuleName

/-- The field may be left out. -/
def optional : String := "optional"

/-- The field has a value when left out. -/
def default : String := "default"

/-- A conversion written by the user. -/
def customSanitizer : String := "customSanitizer"

/-- A check written by the user. -/
def custom : String := "custom"

/-- The field is one of some values. -/
def isIn : String := "isIn"

/-- The field is an array. -/
def isArray : String := "isArray"

/-- The field becomes an array. -/
def toArray : String := "toArray"

/-- The rules about a field that is left out. -/
def absence : List String := [optional, default]

/-- The rules that make the field an array. -/
def array : List String := [isArray, toArray]

end RuleName

namespace Declaration

/-- The declaration that an object spells. -/
def ofJson? : Json → Option Declaration
  | .object members => some (.ofList members)
  | _ => none

/-- The object that spells a declaration. -/
def toJson (declaration : Declaration) : Json :=
  .object declaration.entries

end Declaration

end ShapeInference
