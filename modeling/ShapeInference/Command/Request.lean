/-!
# Requests

`infer` prints the types that schemas describe, `check` only reports their errors.
-/

namespace ShapeInference.Command

/-- Where schemas come from. -/
structure Sources where
  config : Option String
  filter : Option String
  inputs : List String
deriving DecidableEq, Repr

/-- How a type is printed. -/
inductive PrintFormat where
  /-- As a JSON document. -/
  | json
  /-- As a type expression. -/
  | type
deriving DecidableEq, Repr

/-- What to do. -/
inductive Request where
  /-- Print the types, or write them to a file. -/
  | infer (sources : Sources) (format : PrintFormat) (out : Option String)
  /-- Report errors. -/
  | check (sources : Sources)
deriving DecidableEq, Repr

end ShapeInference.Command
