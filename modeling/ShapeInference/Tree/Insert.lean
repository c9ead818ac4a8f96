import ShapeInference.Defect
import ShapeInference.Rulebook
import ShapeInference.Tree.Basic

/-!
# Inserting entries

An entry walks down its path, makes the nodes that are missing, shapes those without a shape, and
is added to the last one. The walk stops where it needs an array and another entry made an object,
or the other way round. An entry with a malformed path or faulty rules does not set out at all.

## Implementation notes

A walk that is stopped returns the tree as it left it, and a growing tree goes on from there. That
such a walk changes nothing is a theorem about it and not part of its definition.
-/

namespace ShapeInference

/-- What stands in the way of a path: a node some steps down already has the other shape. -/
structure Obstacle where
  depth : Nat
  origin : String
  found : Descriptor
  wanted : Descriptor

namespace Node

/-- Inserts an entry some steps below a node, which itself lies `depth` steps down. The result is
the node after the walk, and what stopped it. -/
def insert (entry : Entry) : (depth : Nat) → List Segment → Node → Node × Option Obstacle
  | _, [], node => (node.addEntry entry, none)
  | depth, .key name :: rest, node =>
    match node with
    | plain declared =>
      let (child, obstacle) := insert entry (depth + 1) rest empty
      (object declared entry.source [(name, child)], obstacle)
    | object declared origin fields =>
      let (child, obstacle) :=
        insert entry (depth + 1) rest ((Bindings.get? fields name).getD empty)
      (object declared origin (Bindings.set fields name child), obstacle)
    | array declared origin element =>
      (array declared origin element,
        some ⟨depth, origin, .array .unknown, .object [(name, .unknown)]⟩)
  | depth, .each :: rest, node =>
    match node with
    | plain declared =>
      let (child, obstacle) := insert entry (depth + 1) rest empty
      (array declared entry.source child, obstacle)
    | array declared origin element =>
      let (child, obstacle) := insert entry (depth + 1) rest element
      (array declared origin child, obstacle)
    | object declared origin fields =>
      (object declared origin fields, some ⟨depth, origin, .object [], .array .unknown⟩)

end Node

/-- Where the end of a path sits. -/
def Path.position (path : Path) : Position :=
  match path.last, path.below with
  | .each, _ => .element
  | .key _, [] => .top
  | .key _, _ => .nested

/-- The path that a text spells and the entry that a declaration makes there, or why the two are
rejected without a look at the tree. -/
def Entry.read (rules : Rulebook) (source : String) (declaration : Declaration) :
    Except Defect (Path × Entry) := do
  let path ← (Path.parse source).mapError (.badPath source)
  let type ← (rules.fieldType declaration path.position).mapError (.badRule source)
  return (path, ⟨source, declaration, type⟩)

/-- The disagreement of an entry with the one whose path made the obstacle. -/
def Obstacle.defect (path : Path) (source : String) (obstacle : Obstacle) : Defect :=
  .disagreement ((path.segments.take obstacle.depth).map Segment.text)
    ⟨obstacle.origin, obstacle.found⟩ ⟨source, obstacle.wanted⟩

namespace Tree

/-- Inserts an entry at its path. The result is the tree after the walk, and what stopped it. -/
def insert (tree : Tree) (path : Path) (entry : Entry) : Tree × Option Obstacle :=
  let (node, obstacle) := ((tree.fields.get? path.root).getD .empty).insert entry 1 path.below
  (⟨tree.fields.set path.root node⟩, obstacle)

/-- Inserts a declaration at the path that a text spells. The result is the tree afterwards, and
why the declaration is rejected, if it is. -/
def add (rules : Rulebook) (tree : Tree) (source : String) (declaration : Declaration) :
    Tree × Option Defect :=
  match Entry.read rules source declaration with
  | .error defect => (tree, some defect)
  | .ok (path, entry) =>
    let (after, obstacle) := tree.insert path entry
    (after, obstacle.map (Obstacle.defect path source))

end Tree

/-- A tree under construction and the defects of the entries it rejected. -/
structure Growth where
  tree : Tree
  rejected : List Defect

namespace Growth

/-- Nothing inserted yet. -/
def empty : Growth := ⟨.empty, []⟩

/-- Inserts an entry, and records why it is rejected, if it is. -/
def add (rules : Rulebook) (growth : Growth) (entry : String × Declaration) : Growth :=
  let (tree, defect) := growth.tree.add rules entry.1 entry.2
  ⟨tree, growth.rejected ++ defect.toList⟩

/-- Inserts entries one after another. -/
def ofEntries (rules : Rulebook) (entries : List (String × Declaration)) : Growth :=
  entries.foldl (add rules) empty

end Growth

end ShapeInference
