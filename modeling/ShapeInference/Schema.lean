import ShapeInference.Json.Reader
import ShapeInference.Tree.Reconcile

/-!
# Schemas

A schema lists entries, each a path and a declaration; a path may come more than once. It gives the
data a type, unless it has defects: those of rejected entries in their order, then the disagreements
among accepted ones.
-/

namespace ShapeInference

/-- Paths and declarations in order. -/
abbrev Schema := List (String × Declaration)

/-- Why a value is no schema. -/
inductive SchemaFault where
  | notAnObject (found : String)
  | declarationNotAnObject (path found : String)
deriving DecidableEq, Repr

/-- The fault in words. -/
def SchemaFault.message : SchemaFault → String
  | notAnObject found =>
    s!"schema document must be a JSON object of path → declaration, found {found}"
  | declarationNotAnObject path found =>
    s!"declaration for `{path}` must be a JSON object, found {found}"

namespace Schema

/-- An entry that a member of a schema document spells. -/
def entryOfJson : String × Json → Except SchemaFault (String × Declaration)
  | (path, value) =>
    match Declaration.ofJson? value with
    | some declaration => .ok (path, declaration)
    | none => .error (.declarationNotAnObject path value.kind)

/-- The schema that an object of paths and declarations spells. -/
def ofJson : Json → Except SchemaFault Schema
  | .object members => members.mapM entryOfJson
  | other => .error (.notAnObject other.kind)

/-- The type that a schema gives the data, or all its defects. -/
def infer (schema : Schema) (rules : Rulebook) : Except (List Defect) Descriptor :=
  let growth := Growth.ofEntries rules schema
  let (type, defects) := growth.tree.reconcile
  match growth.rejected ++ defects with
  | [] => .ok type
  | defects => .error defects

end Schema

end ShapeInference
