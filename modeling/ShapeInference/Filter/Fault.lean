/-!
# Faults of filters
-/

namespace ShapeInference

/-- Why a filter gives no values. -/
inductive FilterFault where
  /-- The text is no filter. -/
  | malformed
  /-- The filter calls a function that is not known. -/
  | undefined
  /-- A step failed on the value. -/
  | failed
deriving DecidableEq, Repr

end ShapeInference
