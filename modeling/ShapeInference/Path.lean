/-!
# Paths

A path addresses a place in the data: a field at the top, then fields of objects and elements of
arrays. Its text separates segments by dots, `*` standing for each element of an array. Nothing
escapes a dot, so a name in a path contains none.

## Implementation notes

The top of the data is always an object, so a path keeps its first name apart. A path is then
never empty and never starts with `*`.
-/

namespace ShapeInference

/-- One step from a place in the data to a place inside it. -/
inductive Segment where
  /-- To the field with this name. -/
  | key (name : String)
  /-- To each element. -/
  | each
deriving DecidableEq, Repr

namespace Segment

/-- The spelling of the step to each element. -/
def wildcard : String := "*"

/-- The text of a step. -/
def text : Segment → String
  | key name => name
  | each => wildcard

/-- The step that a text between dots spells. -/
def ofText (s : String) : Segment :=
  if s = wildcard then each else key s

/-- Whether this is the step to each element. -/
def isEach : Segment → Bool
  | key _ => false
  | each => true

end Segment

/-- A top-level field and the steps below it. -/
structure Path where
  root : String
  below : List Segment
deriving DecidableEq, Repr

/-- Why a text is not a path. Segments are counted from 1. -/
inductive PathFault where
  | empty
  | emptySegment (number : Nat)
  | leadingWildcard
deriving DecidableEq, Repr

/-- The reason in words. -/
def PathFault.message : PathFault → String
  | empty => "path is empty"
  | emptySegment number => s!"segment {number} is empty"
  | leadingWildcard => "a path cannot start with the `*` wildcard"

namespace Path

/-- All steps from the top. -/
def segments (path : Path) : List Segment :=
  .key path.root :: path.below

/-- The last step. -/
def last (path : Path) : Segment :=
  path.below.getLast?.getD (.key path.root)

/-- The text of consecutive steps. -/
def join (segments : List Segment) : String :=
  ".".intercalate (segments.map Segment.text)

/-- The text of a path. -/
def text (path : Path) : String :=
  join path.segments

/-- The text of the first `count` steps. -/
def initialText (path : Path) (count : Nat) : String :=
  join (path.segments.take count)

/-- The pieces of a text between dots: the first, and one more for each dot. -/
def pieces : List Char → List Char × List (List Char)
  | [] => ([], [])
  | c :: rest =>
    let (piece, more) := pieces rest
    if c = '.' then ([], piece :: more) else (c :: piece, more)

/-- The steps that pieces spell, the first of them counted as `number`. -/
def steps (number : Nat) : List (List Char) → Except PathFault (List Segment)
  | [] => .ok []
  | piece :: rest =>
    if piece = [] then .error (.emptySegment number)
    else (steps (number + 1) rest).map (Segment.ofText (String.ofList piece) :: ·)

/-- The path that a text spells. The first faulty segment from the left decides the fault. -/
def parse (text : String) : Except PathFault Path :=
  let (root, below) := pieces text.toList
  if text = "" then .error .empty
  else if root = [] then .error (.emptySegment 1)
  else if String.ofList root = Segment.wildcard then .error .leadingWildcard
  else (steps 2 below).map (⟨String.ofList root, ·⟩)

end Path

end ShapeInference
