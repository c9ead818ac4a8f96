import ShapeInference.Rule.Catalog
import ShapeInference.Rule.Declaration

/-!
# Inference strategies

A declaration may carry rules of several sorts. One strategy is chosen for it: the first in
`Strategy.ranking` whose rules are present.

Main statement: `Declaration.isPresent_of_strategy_eq`, the chosen strategy has its rules.
-/

namespace ShapeInference

/-- The ways to infer a type from a declaration. -/
inductive Strategy where
  | defaultOrOptional
  | customSanitizer
  | customValidator
  | enumeration
  | arrayWrapper
  | builtinSanitizer
  | builtinValidator
  | none
deriving DecidableEq, Repr

namespace Strategy

/-- The strategies, the strongest first. -/
def ranking : List Strategy :=
  [defaultOrOptional, customSanitizer, customValidator, enumeration, arrayWrapper,
    builtinSanitizer, builtinValidator, none]

/-- The name of a strategy. -/
def name : Strategy → String
  | defaultOrOptional => "DefaultOrOptional"
  | customSanitizer => "CustomSanitizer"
  | customValidator => "CustomValidator"
  | enumeration => "Enumeration"
  | arrayWrapper => "ArrayWrapper"
  | builtinSanitizer => "BuiltinSanitizer"
  | builtinValidator => "BuiltinValidator"
  | none => "None"

/-- Whether the rules of a strategy are present. -/
def isPresent (strategy : Strategy) (catalog : Catalog) (declaration : Declaration) : Bool :=
  match strategy with
  | defaultOrOptional => declaration.hasSome RuleName.absence
  | customSanitizer => declaration.has RuleName.customSanitizer
  | customValidator => declaration.has RuleName.custom
  | enumeration => declaration.has RuleName.isIn
  | arrayWrapper => declaration.hasSome RuleName.array
  | builtinSanitizer => !(catalog.inRole .sanitizer declaration.names).isEmpty
  | builtinValidator => !(catalog.inRole .validator declaration.names).isEmpty
  | none => true

end Strategy

namespace Declaration

/-- The strategy of a declaration under a catalog. -/
def strategy (declaration : Declaration) (catalog : Catalog) : Strategy :=
  (Strategy.ranking.find? (·.isPresent catalog declaration)).getD .none

theorem isPresent_of_strategy_eq {declaration : Declaration} {catalog : Catalog}
    {strategy : Strategy} (chosen : declaration.strategy catalog = strategy) :
    strategy.isPresent catalog declaration = true := by
  subst chosen
  unfold Declaration.strategy
  cases h : Strategy.ranking.find? (·.isPresent catalog declaration) with
  | none => rfl
  | some s => exact List.find?_some (p := fun s : Strategy => s.isPresent catalog declaration) h

end Declaration

end ShapeInference
