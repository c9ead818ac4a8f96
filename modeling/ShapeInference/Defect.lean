import ShapeInference.Descriptor.Text
import ShapeInference.Path
import ShapeInference.Rule.Fault

/-!
# Defects of schemas

What can be wrong with a schema. Defects are independent of each other and reported together.
-/

namespace ShapeInference

/-- A type and the path of the entry that declares it. -/
structure Sourced where
  source : String
  type : Descriptor
deriving DecidableEq

/-- One defect of a schema. -/
inductive Defect where
  /-- The path of an entry is none. -/
  | badPath (text : String) (fault : PathFault)
  /-- A rule of the entry at a path has faulty options. -/
  | badRule (path : String) (fault : RuleFault)
  /-- Two entries disagree at a location. -/
  | disagreement (location : List String) (earlier later : Sourced)

namespace Defect

/-- The path of the entry at fault: the earlier one where two disagree. -/
def source : Defect → String
  | badPath text _ => text
  | badRule path _ => path
  | disagreement _ earlier _ => earlier.source

/-- The defect in words. -/
def message : Defect → String
  | badPath text fault => s!"malformed path `{text}`: {fault.message}"
  | badRule path fault => s!"configuration error at `{path}`: {fault.message}"
  | disagreement location ⟨source, left⟩ ⟨other, right⟩ =>
    s!"shape conflict at `{Conflict.locationText location}`: " ++
      s!"`{source}` declares {left.oneLine} but `{other}` declares {right.oneLine}"

/-- Several defects in words: one alone, or a count and a list. -/
def summary : List Defect → String
  | [defect] => defect.message
  | defects =>
    s!"{defects.length} schema errors" ++
      String.join (defects.map fun defect => "\n  - " ++ defect.message)

end Defect

end ShapeInference
