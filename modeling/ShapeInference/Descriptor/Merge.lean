import ShapeInference.Descriptor.Union

/-!
# Merging descriptors

Several declarations may say something of the same place. `merge` joins two such descriptors:
an unknown adds nothing, an object without known fields adds nothing to an object, objects merge
field by field, arrays element by element, and unions join their members. Any other pair is a
conflict unless both are the same primitive; a union conflicts even with one of its own members.
-/

namespace ShapeInference

/-- Two descriptors of one place that cannot both hold. The trail leads from the place where the
merge began: the names of fields, and `*` into an array. -/
structure Conflict where
  trail : List String
  left : Descriptor
  right : Descriptor
deriving DecidableEq

namespace Conflict

/-- The conflict seen from one step further out. -/
def under (step : String) (c : Conflict) : Conflict :=
  { c with trail := step :: c.trail }

/-- Names joined by dots, without the empty ones. -/
def locationText (names : List String) : String :=
  ".".intercalate (names.filter (· ≠ ""))

end Conflict

namespace Descriptor

mutual

/-- The join of two descriptors, or the first conflict in the order of the field names. -/
def merge : Descriptor → Descriptor → Except Conflict Descriptor
  | unknown, right => .ok right
  | left, unknown => .ok left
  | primitive .emptyObject, object right => .ok (object right)
  | object left, primitive .emptyObject => .ok (object left)
  | object left, object right => (mergeInto left right).map object
  | array left, array right =>
    ((merge left right).map array).mapError (Conflict.under "*")
  | primitive left, primitive right =>
    if left = right then .ok (primitive left)
    else .error ⟨[], primitive left, primitive right⟩
  | union left, union right => .ok (unionOf (left ++ right))
  | left, right => .error ⟨[], left, right⟩

/-- Merges the right fields one after another into the left ones. -/
def mergeInto (left : List (String × Descriptor)) :
    List (String × Descriptor) → Except Conflict (List (String × Descriptor))
  | [] => .ok left
  | (name, d) :: rest =>
    match Bindings.get? left name with
    | none => mergeInto (Bindings.setSorted left name d) rest
    | some old =>
      match merge old d with
      | .ok merged => mergeInto (Bindings.setSorted left name merged) rest
      | .error c => .error (c.under name)

end

/-- Merges descriptors from left to right. -/
def mergeList (ds : List Descriptor) : Except Conflict Descriptor :=
  ds.foldlM merge unknown

end Descriptor

end ShapeInference
