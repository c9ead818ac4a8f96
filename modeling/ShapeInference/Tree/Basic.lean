import ShapeInference.FieldType
import ShapeInference.Path
import ShapeInference.Rule.Declaration

/-!
# The tree of a schema

Entries of a schema gather in a tree that follows their paths. A node holds the entries whose path
ends there. Entries with longer paths give it the shape of an object or of an array, never both,
and the path that gave the shape is remembered. What the entries of a node say is reconciled only
when all are in the tree.
-/

namespace ShapeInference

/-- An entry of a schema with the type that its declaration gives the field. -/
structure Entry where
  source : String
  declaration : Declaration
  type : FieldType

/-- What is declared of a place itself: the entries that end there in order, and the union of the
types that they give the field left out, if some entry allows that. -/
structure Declared where
  entries : List Entry
  absent : Option Descriptor

namespace Declared

/-- Nothing declared yet. -/
def nothing : Declared := ⟨[], none⟩

/-- The union of the types of a field left out so far and of one more, where there are any. -/
def joinAbsent : Option Descriptor → Option Descriptor → Option Descriptor
  | earlier, none => earlier
  | none, some later => some later
  | some earlier, some later => some (.unionOf [earlier, later])

/-- Adds an entry. -/
def add (declared : Declared) (entry : Entry) : Declared where
  entries := declared.entries ++ [entry]
  absent := joinAbsent declared.absent entry.type.absent

end Declared

/-- A place in the data: what is declared of it, and its shape if entries go further, with the
path of the first that did. -/
inductive Node where
  | plain (declared : Declared)
  | object (declared : Declared) (origin : String) (fields : List (String × Node))
  | array (declared : Declared) (origin : String) (element : Node)

namespace Node

/-- A place that nothing is said of. -/
def empty : Node := plain .nothing

/-- What is declared of a node itself. -/
def declared : Node → Declared
  | plain declared => declared
  | object declared _ _ => declared
  | array declared _ _ => declared

/-- The entries that end at a node. -/
def entries (node : Node) : List Entry :=
  node.declared.entries

/-- The type of the field left out, if some entry at the node allows that. -/
def absentType? (node : Node) : Option Descriptor :=
  node.declared.absent

/-- Adds an entry that ends at a node. -/
def addEntry (entry : Entry) : Node → Node
  | plain declared => plain (declared.add entry)
  | object declared origin fields => object (declared.add entry) origin fields
  | array declared origin element => array (declared.add entry) origin element

/-- Whether paths go through the elements of a node. -/
def isArray : Node → Bool
  | array _ _ _ => true
  | _ => false

/-- The node one step further, if there is one. -/
def child? : Segment → Node → Option Node
  | .key name, object _ _ fields => Bindings.get? fields name
  | .each, array _ _ element => some element
  | _, _ => none

/-- The node some steps further, if there is one. -/
def at? : List Segment → Node → Option Node
  | [], node => some node
  | segment :: rest, node => (node.child? segment).bind (at? rest)

end Node

/-- The nodes of the top-level fields, in order. -/
structure Tree where
  fields : Bindings Node

namespace Tree

/-- The tree without entries. -/
def empty : Tree := ⟨[]⟩

/-- The node at a path, if there is one. -/
def at? (tree : Tree) (path : Path) : Option Node :=
  (tree.fields.get? path.root).bind (Node.at? path.below)

end Tree

end ShapeInference
