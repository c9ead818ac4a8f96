import ShapeInference.Descriptor.Merge
import ShapeInference.Tree.Insert

/-!
# Reconciling a tree

From the bottom up, what is said of a node is merged: first by its own entries in order, then by
the shape that longer paths give it. What conflicts with something said before is reported and left
out. The types of a field left out are added back at the end.
-/

namespace ShapeInference

/-- What was said of a place so far, who said it first, and the defects met. -/
structure Account where
  source : Option String
  type : Descriptor
  defects : List Defect

namespace Account

/-- Nothing said yet. -/
def empty : Account := ⟨none, .unknown, []⟩

/-- Merges in what a path says of the place at a location. -/
def add (location : List String) (account : Account) (said : Sourced) : Account :=
  let source := account.source.getD said.source
  match account.type.merge said.type with
  | .ok type => { account with type, source := some source }
  | .error c =>
    let defect := .disagreement (location ++ c.trail) ⟨source, c.left⟩ ⟨said.source, c.right⟩
    { account with defects := account.defects ++ [defect] }

/-- Records defects found further down. -/
def addDefects (account : Account) (defects : List Defect) : Account :=
  { account with defects := account.defects ++ defects }

end Account

namespace Descriptor

/-- The array members of a union that has some; anything else as it is. A check that accepts a
scalar or an array thereby agrees with paths that go through the elements. -/
def arrayAlternatives : Descriptor → Descriptor
  | union ds => if ds.any isArray then unionOf (ds.filter isArray) else union ds
  | d => d

end Descriptor

namespace Node

/-- What an entry says of the present value at a node. -/
def said (throughElements : Bool) (entry : Entry) : Sourced :=
  ⟨entry.source, if throughElements then entry.type.present.arrayAlternatives
    else entry.type.present⟩

/-- The account of the entries of a node in order. -/
def account (location : List String) (node : Node) : Account :=
  node.entries.foldl (fun account entry => account.add location (said node.isArray entry)) .empty

/-- The type at a node by its account, with the type of a field left out added back. -/
def conclude (node : Node) (account : Account) : Descriptor × List Defect :=
  match node.absentType? with
  | none => (account.type, account.defects)
  | some absent => (.unionOf [account.type, absent], account.defects)

mutual

/-- The type at a node and the defects at and below it. -/
def reconcile (location : List String) : Node → Descriptor × List Defect
  | plain declared => conclude (plain declared) ((plain declared).account location)
  | object declared origin fields =>
    let node := object declared origin fields
    let (types, defects) := reconcileFields location fields
    let account := (node.account location).addDefects defects
    node.conclude (account.add location ⟨origin, .ofFields types⟩)
  | array declared origin element =>
    let node := array declared origin element
    let (type, defects) := reconcile (location ++ [Segment.wildcard]) element
    let account := (node.account location).addDefects defects
    node.conclude (account.add location ⟨origin, .array type⟩)

/-- The types of fields under their names, and the defects in them in order. -/
def reconcileFields (location : List String) :
    List (String × Node) → List (String × Descriptor) × List Defect
  | [] => ([], [])
  | (name, node) :: rest =>
    let (type, defects) := reconcile (location ++ [name]) node
    let (types, more) := reconcileFields location rest
    ((name, type) :: types, defects ++ more)

end

end Node

namespace Tree

/-- The type of the whole data, as good as defects allow, and the defects. -/
def reconcile (tree : Tree) : Descriptor × List Defect :=
  let (types, defects) := Node.reconcileFields [] tree.fields
  (.ofFields types, defects)

end Tree

end ShapeInference
