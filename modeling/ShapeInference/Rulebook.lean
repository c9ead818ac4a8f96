import ShapeInference.Rule.Payload
import ShapeInference.Rule.Strategy

/-!
# Rulebooks

A rulebook gives a declaration the type of its field, by the strategy of the declaration. The
strategies for optional fields and for arrays strip their own rules and go on with what is left,
which is a smaller declaration (`Declaration.size_eraseAll_lt`).

A builtin check accepts a scalar or an array of it. Its type is widened that way on a top-level
field, on a nested field only by policy, and never on an array element.
-/

namespace ShapeInference

/-- Where a declaration sits. -/
inductive Position where
  /-- On a top-level field. -/
  | top
  /-- On a field further down. -/
  | nested
  /-- On each element of an array. -/
  | element
deriving DecidableEq, Repr

namespace Declaration

theorem size_eraseAll_lt {declaration : Declaration} {names : List String}
    (bound : declaration.hasSome names = true) :
    (declaration.eraseAll names).size < declaration.size := by
  obtain ⟨name, member, hname⟩ := List.any_eq_true.1 bound
  obtain ⟨entry, hentry, rfl⟩ := Bindings.exists_of_get?_isSome hname
  exact List.length_filter_lt_length_iff_exists.2 ⟨entry, hentry, by simp [member]⟩

end Declaration

namespace RuleOutput

/-- The type that a builtin rule leaves behind. -/
def type : RuleOutput → Descriptor
  | boolean => .primitive .boolean
  | date => .primitive .date
  | integer => .primitive .integer
  | float => .primitive .float
  | string => .primitive .string
  | emptyObject => .primitive .emptyObject

/-- The type of a field under one builtin rule. A widened check accepts an array, too, unless it is
about objects. -/
def fieldType (widen : Bool) (output : RuleOutput) : Descriptor :=
  if widen && output != emptyObject then .unionOf [output.type, .array output.type]
  else output.type

end RuleOutput

/-- The rules in force and the policy on nested fields. -/
structure Rulebook where
  catalog : Catalog
  /-- Builtin checks on nested fields are widened, too. -/
  widenNested : Bool

namespace Rulebook

/-- The builtin catalog, without widening of nested fields. -/
def builtin : Rulebook := ⟨.builtin, false⟩

/-- Whether checks are widened at a position. -/
def widens (rules : Rulebook) : Position → Bool
  | .top => true
  | .nested => rules.widenNested
  | .element => false

/-- The union over the builtin rules of one role. -/
def builtinType (rules : Rulebook) (role : RuleRole) (widen : Bool) (declaration : Declaration) :
    Descriptor :=
  .unionOf ((rules.catalog.inRole role declaration.names).map fun (_, behaviour) =>
    behaviour.output.fieldType widen)

/-- The type that a declaration gives to a field at a position. -/
def fieldType (rules : Rulebook) (declaration : Declaration) (position : Position) :
    Except RuleFault FieldType :=
  match chosen : declaration.strategy rules.catalog with
  | .defaultOrOptional => do
    have _smaller := Declaration.size_eraseAll_lt (Declaration.isPresent_of_strategy_eq chosen)
    match ← declaration.givenDefault? with
    | some value => return .required (.ofValue value)
    | none => do
      let absence ← declaration.absence
      let rest ← fieldType rules (declaration.eraseAll RuleName.absence) position
      return ⟨rest.whole, some absence.type⟩
  | .customSanitizer => (declaration.returnsHint RuleName.customSanitizer).map .required
  | .customValidator => (declaration.returnsHint RuleName.custom).map .required
  | .enumeration => declaration.allowedValues.map .required
  | .arrayWrapper => do
    have _smaller := Declaration.size_eraseAll_lt (Declaration.isPresent_of_strategy_eq chosen)
    RuleName.array.forM declaration.checkArrayPayload
    let element ← fieldType rules (declaration.eraseAll RuleName.array) .element
    return .required (.array element.whole)
  | .builtinSanitizer => .ok (.required (rules.builtinType .sanitizer false declaration))
  | .builtinValidator =>
    .ok (.required (rules.builtinType .validator (rules.widens position) declaration))
  | .none => .ok (.required .unknown)
termination_by declaration.size

end Rulebook

end ShapeInference
