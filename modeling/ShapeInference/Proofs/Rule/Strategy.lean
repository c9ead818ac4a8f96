import ShapeInference.Rulebook

/-!
# Field types by strategy

The strategy of a declaration alone decides how its field type is found.

Main statements: `Declaration.strategy_congr`, `Declaration.strategy_eq` and
`Rulebook.fieldType_eq`.
-/

namespace ShapeInference

namespace Declaration

/-- Declarations with rules of the same strategies have the same strategy. -/
theorem strategy_congr {declaration other : Declaration} {catalog catalog' : Catalog}
    (h : ∀ strategy : Strategy,
      strategy.isPresent catalog declaration = strategy.isPresent catalog' other) :
    declaration.strategy catalog = other.strategy catalog' := by
  rw [strategy, strategy, funext h]

/-- The strategies one after another, the strongest first. -/
theorem strategy_eq (declaration : Declaration) (catalog : Catalog) :
    declaration.strategy catalog =
      if declaration.hasSome RuleName.absence = true then .defaultOrOptional
      else if declaration.has RuleName.customSanitizer = true then .customSanitizer
      else if declaration.has RuleName.custom = true then .customValidator
      else if declaration.has RuleName.isIn = true then .enumeration
      else if declaration.hasSome RuleName.array = true then .arrayWrapper
      else if catalog.inRole .sanitizer declaration.names ≠ [] then .builtinSanitizer
      else if catalog.inRole .validator declaration.names ≠ [] then .builtinValidator
      else .none := by
  have hcons : ∀ (strategy : Strategy) (rest : List Strategy),
      ((strategy :: rest).find? (·.isPresent catalog declaration)).getD .none =
        if strategy.isPresent catalog declaration = true then strategy
        else (rest.find? (·.isPresent catalog declaration)).getD .none := by
    intro strategy rest
    rw [List.find?_cons]
    cases strategy.isPresent catalog declaration <;> rfl
  rw [strategy, Strategy.ranking]
  simp only [hcons]
  simp only [Strategy.isPresent, Bool.not_eq_true', List.isEmpty_eq_false_iff, if_true]

end Declaration

/-- The field type by strategy, with the recursion on what is left of the declaration. -/
theorem Rulebook.fieldType_eq (rules : Rulebook) (declaration : Declaration)
    (position : Position) :
    rules.fieldType declaration position =
      match declaration.strategy rules.catalog with
      | .defaultOrOptional => do
        match ← declaration.givenDefault? with
        | some value => return .required (.ofValue value)
        | none => do
          let absence ← declaration.absence
          let rest ← rules.fieldType (declaration.eraseAll RuleName.absence) position
          return ⟨rest.whole, some absence.type⟩
      | .customSanitizer => (declaration.returnsHint RuleName.customSanitizer).map .required
      | .customValidator => (declaration.returnsHint RuleName.custom).map .required
      | .enumeration => declaration.allowedValues.map .required
      | .arrayWrapper => do
        RuleName.array.forM declaration.checkArrayPayload
        let element ← rules.fieldType (declaration.eraseAll RuleName.array) .element
        return .required (.array element.whole)
      | .builtinSanitizer => .ok (.required (rules.builtinType .sanitizer false declaration))
      | .builtinValidator =>
        .ok (.required (rules.builtinType .validator (rules.widens position) declaration))
      | .none => .ok (.required .unknown) := by
  generalize chosen : declaration.strategy rules.catalog = strategy
  rw [Rulebook.fieldType.eq_def]
  split
  all_goals
    rename_i found
    obtain rfl := found.symm.trans chosen
    rfl

end ShapeInference
