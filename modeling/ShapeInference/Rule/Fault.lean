import ShapeInference.Descriptor.Form
import ShapeInference.Rule.Declaration

/-!
# Faulty rule payloads

Each fault belongs to a rule and says what its options should have been.
-/

namespace ShapeInference

/-- What is wrong with the options of a rule. `found` is the kind of value that stands there. -/
inductive RuleFault where
  /-- `default` without an object. -/
  | defaultPayload (found : String)
  /-- `optional` with neither `true` nor an object. -/
  | optionalPayload (found : String)
  /-- The `options` of `optional` are no object. -/
  | optionalOptions (found : String)
  /-- The `values` of `optional` name no absence. -/
  | optionalValues (found : Json)
  /-- A switch of `optional` is no boolean. -/
  | optionalFlag (name found : String)
  /-- `optional` has no such option. -/
  | optionalUnrecognized (name : String)
  /-- An array rule with neither `true` nor an object. -/
  | arrayPayload (rule found : String)
  /-- `isIn` without a list of lists. -/
  | enumerationShape
  /-- `isIn` without exactly one list. -/
  | enumerationArity
  /-- `isIn` with an empty list. -/
  | enumerationEmpty
  /-- The `returns` hint of a custom rule is no descriptor. -/
  | hint (rule : String) (fault : FormFault)

namespace RuleFault

/-- The rule at fault. -/
def rule : RuleFault → String
  | defaultPayload _ => RuleName.default
  | optionalPayload _ => RuleName.optional
  | optionalOptions _ => RuleName.optional
  | optionalValues _ => RuleName.optional
  | optionalFlag _ _ => RuleName.optional
  | optionalUnrecognized _ => RuleName.optional
  | arrayPayload rule _ => rule
  | enumerationShape => RuleName.isIn
  | enumerationArity => RuleName.isIn
  | enumerationEmpty => RuleName.isIn
  | hint rule _ => rule

/-- What the options should have been. -/
def detail : RuleFault → String
  | defaultPayload found => s!"expected an object with `options`, found {found}"
  | optionalPayload found => s!"expected `true` or an object, found {found}"
  | optionalOptions found => s!"`options` must be an object, found {found}"
  | optionalValues found =>
    s!"`values` must be \"undefined\", \"null\" or \"falsy\", found {found.compact}"
  | optionalFlag name found => s!"`{name}` must be a boolean, found {found}"
  | optionalUnrecognized name => s!"unrecognized option `{name}`"
  | arrayPayload _ found => s!"expected `true` or an options object, found {found}"
  | enumerationShape => "expected `\x7boptions: [[...values]]\x7d`"
  | enumerationArity => "`options` must hold exactly one array of allowed values"
  | enumerationEmpty => "the list of allowed values is empty"
  | hint _ fault => "invalid `returns` hint: " ++ fault.message

/-- The fault in words. -/
def message (fault : RuleFault) : String :=
  s!"rule `{fault.rule}`: {fault.detail}"

end RuleFault

end ShapeInference
