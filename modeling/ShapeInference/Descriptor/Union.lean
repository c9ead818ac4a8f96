import ShapeInference.Descriptor.Order

/-!
# Unions of descriptors

A union of alternatives is flat, sorted and without repetition; a lone alternative stands for
itself, and an unknown one swallows the others. The type of a JSON value is built from literals,
an array's element type being the union over its elements.
-/

namespace ShapeInference.Descriptor

/-- Adds a member to sorted members, unless it is among them. -/
def insertMember (d : Descriptor) : List Descriptor → List Descriptor
  | [] => [d]
  | e :: rest =>
    match d.compare e with
    | .lt => d :: e :: rest
    | .eq => e :: rest
    | .gt => e :: insertMember d rest

/-- The distinct members among descriptors, sorted. -/
def sortedMembers (ds : List Descriptor) : List Descriptor :=
  ds.foldl (fun set d => insertMember d set) []

/-- The union with the given sorted members. -/
def ofMembers : List Descriptor → Descriptor
  | [] => unknown
  | [d] => d
  | ds => union ds

/-- The union of descriptors. Nothing is known of a choice among none, or with an unknown in it. -/
def unionOf (ds : List Descriptor) : Descriptor :=
  if ds.any isUnknown then unknown else ofMembers (sortedMembers (ds.flatMap members))

mutual

/-- The type of exactly one value, up to the order and repetition of elements. -/
def ofValue : Json → Descriptor
  | .array vs => array (unionOf (ofValues vs))
  | .object ms => ofFields (ofMemberValues ms)
  | .null => literal .null
  | .bool b => literal (.bool b)
  | .number n => literal (.number (.ofBinary64 n.toBinary64))
  | .string s => literal (.string s)

/-- The types of the elements of an array. -/
def ofValues : List Json → List Descriptor
  | [] => []
  | v :: rest => ofValue v :: ofValues rest

/-- The types of the members of an object under their names. -/
def ofMemberValues : List (String × Json) → List (String × Descriptor)
  | [] => []
  | (name, v) :: rest => (name, ofValue v) :: ofMemberValues rest

end

end ShapeInference.Descriptor
