import ShapeInference.Descriptor.Union

/-!
# Field types

The type of a field has two parts: the type of a value that is present and, where the field may be
left out, the type of its absence.
-/

namespace ShapeInference

/-- What a field looks like when it is left out. -/
inductive Absence where
  /-- `undefined` -/
  | undefined
  /-- `null | undefined` -/
  | nullish
  /-- `"" | 0 | false | null | undefined` -/
  | falsy
deriving DecidableEq, Repr

namespace Absence

/-- The literals that stand for a field left out. -/
def literals : Absence → List Literal
  | undefined => [.undefined]
  | nullish => [.null, .undefined]
  | falsy => [.string "", .number .zero, .bool false, .null, .undefined]

/-- The type of a field left out. -/
def type (absence : Absence) : Descriptor :=
  .unionOf (absence.literals.map .literal)

/-- The absence that a name selects; `null` selects the plain one. -/
def ofJson? : Json → Option Absence
  | .null => some undefined
  | .string "undefined" => some undefined
  | .string "null" => some nullish
  | .string "falsy" => some falsy
  | _ => none

end Absence

/-- The type of a field: of a value that is present, and of one that is left out. -/
structure FieldType where
  present : Descriptor
  absent : Option Descriptor
deriving DecidableEq

namespace FieldType

/-- The type of a field that nothing is said of being left out. -/
def required (present : Descriptor) : FieldType := ⟨present, none⟩

/-- Both parts together. -/
def whole (type : FieldType) : Descriptor :=
  match type.absent with
  | none => type.present
  | some absent => .unionOf [type.present, absent]

end FieldType

end ShapeInference
