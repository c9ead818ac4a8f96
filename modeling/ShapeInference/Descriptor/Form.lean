import ShapeInference.Descriptor.Union

/-!
# Descriptors as JSON

`toJson` writes a descriptor as a JSON document, `ofJson` reads one. A document says `anyOf` for a
union, `const` for a literal other than `undefined`, and names a `type` otherwise; reading prefers
them in this order and takes a bare type name for a document of that type alone.

## Implementation notes

Reading walks the members of an object for the key it needs, so that it recurses on the document.
-/

namespace ShapeInference

/-- Why a document is no descriptor. `found` is the kind of value that stands in a place. -/
inductive FormFault where
  | notAType (found : String)
  | anyOfNotArray
  | anyOfEmpty
  | constNotScalar (found : String)
  | typeNotString (found : String)
  | noType
  | propertiesNotObject (found : String)
  | unknownType (name : String)
deriving DecidableEq, Repr

/-- The fault in words. -/
def FormFault.message : FormFault → String
  | notAType found => s!"expected a type object or type name, found {found}"
  | anyOfNotArray => "`anyOf` must be an array"
  | anyOfEmpty => "`anyOf` must not be empty"
  | constNotScalar found => s!"`const` must be a scalar, found {found}"
  | typeNotString found => s!"`type` must be a string, found {found}"
  | noType => "expected one of `type`, `const` or `anyOf`"
  | propertiesNotObject found => s!"`properties` must be an object, found {found}"
  | unknownType name => s!"unknown type `{name}`"

namespace Descriptor

/-- The document that only names a type. -/
def typeForm (name : String) : Json :=
  .object [("type", .string name)]

/-- The document of a primitive. -/
def primitiveForm : Primitive → Json
  | .boolean => typeForm "boolean"
  | .date => typeForm "date"
  | .integer => typeForm "integer"
  | .float => typeForm "float"
  | .string => typeForm "string"
  | .emptyObject => typeForm "emptyObject"
  | .literal value =>
    match value.toJson? with
    | some v => .object [("const", v)]
    | none => typeForm "undefined"

mutual

/-- The document of a descriptor. -/
def toJson : Descriptor → Json
  | unknown => typeForm "unknown"
  | primitive p => primitiveForm p
  | union ds => .object [("anyOf", .array (toJsons ds))]
  | array d => .object [("type", .string "array"), ("items", toJson d)]
  | object fields =>
    .object [("type", .string "object"), ("properties", .object (toJsonFields fields))]

/-- The documents of descriptors. -/
def toJsons : List Descriptor → List Json
  | [] => []
  | d :: rest => toJson d :: toJsons rest

/-- The documents of fields under their names. -/
def toJsonFields : List (String × Descriptor) → List (String × Json)
  | [] => []
  | (name, d) :: rest => (name, toJson d) :: toJsonFields rest

end

/-- The descriptor of a type name, given what the document says of elements and of fields. -/
def ofTypeName (name : String) (items : Except FormFault Descriptor)
    (properties : Except FormFault (List (String × Descriptor))) : Except FormFault Descriptor :=
  match name with
  | "unknown" => .ok unknown
  | "boolean" => .ok (primitive .boolean)
  | "date" => .ok (primitive .date)
  | "integer" => .ok (primitive .integer)
  | "float" => .ok (primitive .float)
  | "number" => .ok (primitive .float)
  | "string" => .ok (primitive .string)
  | "emptyObject" => .ok emptyObject
  | "undefined" => .ok (literal .undefined)
  | "null" => .ok (literal .null)
  | "array" => items.map array
  | "object" => properties.map ofFields
  | name => .error (.unknownType name)

/-- What stands at `const`. -/
def ofConst (value : Json) : Except FormFault Descriptor :=
  match Literal.ofJson? value with
  | some l => .ok (literal l)
  | none => .error (.constNotScalar value.kind)

mutual

/-- The descriptor that a document spells. -/
def ofJson : Json → Except FormFault Descriptor
  | .string name => ofTypeName name (.ok unknown) (.ok [])
  | .object ms =>
    match atAnyOf ms, Bindings.get? ms "const", Bindings.get? ms "type" with
    | some d, _, _ => d
    | none, some value, _ => ofConst value
    | none, none, some (.string name) => ofTypeName name (atItems ms) (atProperties ms)
    | none, none, some other => .error (.typeNotString other.kind)
    | none, none, none => .error .noType
  | other => .error (.notAType other.kind)

/-- The descriptors that documents spell, up to the first that spells none. -/
def ofJsons : List Json → Except FormFault (List Descriptor)
  | [] => .ok []
  | v :: rest => do return (← ofJson v) :: (← ofJsons rest)

/-- The fields that documents spell under their names, up to the first that spells none. -/
def ofJsonFields : List (String × Json) → Except FormFault (List (String × Descriptor))
  | [] => .ok []
  | (name, v) :: rest => do return (name, ← ofJson v) :: (← ofJsonFields rest)

/-- The union that the first member named `anyOf` spells. -/
def atAnyOf : List (String × Json) → Option (Except FormFault Descriptor)
  | [] => none
  | (name, v) :: rest =>
    if name = "anyOf" then some (ofAlternatives v) else atAnyOf rest

/-- The union that an array of documents spells. -/
def ofAlternatives : Json → Except FormFault Descriptor
  | .array vs => do
    match ← ofJsons vs with
    | [] => .error .anyOfEmpty
    | ds => .ok (unionOf ds)
  | _ => .error .anyOfNotArray

/-- The element type that the first member named `items` spells; unknown without one. -/
def atItems : List (String × Json) → Except FormFault Descriptor
  | [] => .ok unknown
  | (name, v) :: rest => if name = "items" then ofJson v else atItems rest

/-- The fields that the first member named `properties` spells; none without one. -/
def atProperties : List (String × Json) → Except FormFault (List (String × Descriptor))
  | [] => .ok []
  | (name, v) :: rest => if name = "properties" then ofProperties v else atProperties rest

/-- The fields that an object of documents spells. -/
def ofProperties : Json → Except FormFault (List (String × Descriptor))
  | .object ms => ofJsonFields ms
  | other => .error (.propertiesNotObject other.kind)

end

end Descriptor

end ShapeInference
