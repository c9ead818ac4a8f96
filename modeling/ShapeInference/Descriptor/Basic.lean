import ShapeInference.Json.Text

/-!
# Type descriptors

A descriptor says what is known of a value: nothing, a primitive or a single literal, one of
several alternatives, an array of something, or an object with some fields.

## Implementation notes

The members of a union and the fields of an object are lists. The functions of this library build
them sorted and without repetition, in the orders of `Descriptor.compare` and of the field names,
so that equal descriptors are identical. A number literal is a place on the number line, which has
one zero.
-/

namespace ShapeInference

/-- A single value. `undefined` stands for a value left out. -/
inductive Literal where
  | undefined
  | null
  | bool (value : Bool)
  | number (value : LinePoint)
  | string (value : String)
deriving DecidableEq, Repr

/-- A type without parts. `emptyObject` is some object with no known fields. -/
inductive Primitive where
  | boolean
  | date
  | integer
  | float
  | string
  | emptyObject
  | literal (value : Literal)
deriving DecidableEq, Repr

/-- What is known of a value. -/
inductive Descriptor where
  | unknown
  | primitive (kind : Primitive)
  | union (members : List Descriptor)
  | array (element : Descriptor)
  | object (fields : List (String × Descriptor))
deriving Inhabited

namespace Literal

/-- The literal of a scalar. -/
def ofJson? : Json → Option Literal
  | .null => some null
  | .bool b => some (bool b)
  | .number n => some (number (.ofBinary64 n.toBinary64))
  | .string s => some (string s)
  | .array _ => none
  | .object _ => none

/-- The number at a place: an integer if it is one of at most 64 signed bits, `2^63` being written
as the greatest of these; a double otherwise. -/
def numberAt (p : LinePoint) : Number :=
  let x := p.toBinary64
  match x.integer? with
  | some i =>
      if -0x8000000000000000 ≤ i ∧ i ≤ 0x8000000000000000 then .integer (min i 0x7FFFFFFFFFFFFFFF)
      else .double x
  | none => .double x

/-- The scalar that spells a literal. A value left out has none, and `null` stands for a number that
is not finite. -/
def toJson? : Literal → Option Json
  | undefined => none
  | null => some .null
  | bool b => some (.bool b)
  | number p => some (if p.isFinite then .number (numberAt p) else .null)
  | string s => some (.string s)

/-- The text of a literal. -/
def text (literal : Literal) : String :=
  match literal.toJson? with
  | some value => value.compact
  | none => "undefined"

end Literal

namespace Descriptor

/-- One literal value. -/
def literal (value : Literal) : Descriptor := primitive (.literal value)

/-- Some object with no known fields. -/
def emptyObject : Descriptor := primitive .emptyObject

/-- Whether nothing is known. -/
def isUnknown : Descriptor → Bool
  | unknown => true
  | _ => false

/-- Whether there are alternatives. -/
def isUnion : Descriptor → Bool
  | union _ => true
  | _ => false

/-- Whether this is an array. -/
def isArray : Descriptor → Bool
  | array _ => true
  | _ => false

/-- The alternatives of a union. Anything else is its own only alternative. -/
def members : Descriptor → List Descriptor
  | union ds => ds
  | d => [d]

/-- The type of the elements of an array. -/
def element? : Descriptor → Option Descriptor
  | array d => some d
  | _ => none

/-- The type of a field of an object. -/
def field? (name : String) : Descriptor → Option Descriptor
  | object fields => Bindings.get? fields name
  | _ => none

/-- An object with the given fields, the last of each name. -/
def ofFields (fields : List (String × Descriptor)) : Descriptor :=
  object (Bindings.sortedOfPairs fields)

/-- The kind of a descriptor in words. -/
def kind : Descriptor → String
  | unknown => "unknown"
  | primitive .boolean => "boolean"
  | primitive .date => "date"
  | primitive .integer => "integer"
  | primitive .float => "float"
  | primitive .string => "string"
  | primitive .emptyObject => "empty object"
  | primitive (.literal _) => "literal"
  | union _ => "union"
  | array _ => "array"
  | object _ => "object"

end Descriptor

end ShapeInference
