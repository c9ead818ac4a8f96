import ShapeInference.Descriptor.Merge

/-!
# Type expressions

A descriptor as a type expression, on one line (`oneLine`) or with one field a line
(`multiLine`). Field names that are no identifiers are quoted.
-/

namespace ShapeInference

namespace Descriptor

/-- Whether a character may start an identifier. -/
def startsIdentifier (c : Char) : Bool :=
  c.isAlpha || c == '_' || c == '$'

/-- Whether a name is an identifier of letters, digits, underscores and dollar signs. -/
def isIdentifier (name : String) : Bool :=
  match name.toList with
  | [] => false
  | c :: rest => startsIdentifier c && rest.all fun c => startsIdentifier c || c.isDigit

/-- A field name as written before its type. -/
def fieldName (name : String) : String :=
  if isIdentifier name then name else Json.quote name

/-- The name of a primitive. -/
def primitiveText : Primitive → String
  | .boolean => "boolean"
  | .date => "Date"
  | .integer => "integer"
  | .float => "float"
  | .string => "string"
  | .emptyObject => "\x7b\x7d"
  | .literal value => value.text

mutual

/-- A descriptor on one line. -/
def oneLine : Descriptor → String
  | unknown => "unknown"
  | primitive p => primitiveText p
  | union ds => " | ".intercalate (alternativeTexts ds)
  | array (union ds) => "(" ++ " | ".intercalate (alternativeTexts ds) ++ ")[]"
  | array d => oneLine d ++ "[]"
  | object [] => "\x7b\x7d"
  | object fields => "\x7b " ++ "; ".intercalate (fieldTexts fields) ++ " \x7d"

/-- The members of a union. -/
def alternativeTexts : List Descriptor → List String
  | [] => []
  | d :: rest => oneLine d :: alternativeTexts rest

/-- The fields of an object with their names. -/
def fieldTexts : List (String × Descriptor) → List String
  | [] => []
  | (name, d) :: rest => (fieldName name ++ ": " ++ oneLine d) :: fieldTexts rest

end

/-- The blanks at the front of a line. -/
def indent (depth : Nat) : String :=
  String.ofList (List.replicate (2 * depth) ' ')

mutual

/-- A descriptor at a nesting depth, the fields of an object each on a line. Inside an array only
an object is spread over lines. -/
def multiLineAt (depth : Nat) : Descriptor → String
  | object [] => "\x7b\x7d"
  | object fields =>
    "\x7b\n" ++ String.join (fieldLines (depth + 1) fields) ++ indent depth ++ "\x7d"
  | array (object []) => "\x7b\x7d[]"
  | array (object fields) =>
    "\x7b\n" ++ String.join (fieldLines (depth + 1) fields) ++ indent depth ++ "\x7d[]"
  | union ds => " | ".intercalate (alternativesAt depth ds)
  | d => oneLine d

/-- The members of a union at a nesting depth. -/
def alternativesAt (depth : Nat) : List Descriptor → List String
  | [] => []
  | d :: rest => multiLineAt depth d :: alternativesAt depth rest

/-- The fields of an object, each on a line of its own. -/
def fieldLines (depth : Nat) : List (String × Descriptor) → List String
  | [] => []
  | (name, d) :: rest =>
    (indent depth ++ fieldName name ++ ": " ++ multiLineAt depth d ++ ";\n") ::
      fieldLines depth rest

end

/-- A descriptor with one field a line. -/
def multiLine (d : Descriptor) : String :=
  multiLineAt 0 d

end Descriptor

/-- The conflict in words. -/
def Conflict.message (c : Conflict) : String :=
  s!"cannot merge {c.left.oneLine} with {c.right.oneLine}"

end ShapeInference
