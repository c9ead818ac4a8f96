import ShapeInference.FieldType
import ShapeInference.Rule.Fault

/-!
# Rule payloads

What the options of a rule say about the type of its field. The options of a catalog rule say
nothing and are never looked at.
-/

namespace ShapeInference.Declaration

/-- The value that a `default` with options gives to a field left out. -/
def givenDefault? (declaration : Declaration) : Except RuleFault (Option Json) :=
  match declaration.get? RuleName.default with
  | none => .ok none
  | some (.object payload) => .ok (Bindings.get? payload "options")
  | some other => .error (.defaultPayload other.kind)

/-- Checks one option of `optional`. -/
def checkOption : String × Json → Except RuleFault Unit
  | ("nullable", .bool _) => .ok ()
  | ("checkFalsy", .bool _) => .ok ()
  | ("values", value) =>
    if (Absence.ofJson? value).isSome then .ok () else .error (.optionalValues value)
  | ("nullable", other) => .error (.optionalFlag "nullable" other.kind)
  | ("checkFalsy", other) => .error (.optionalFlag "checkFalsy" other.kind)
  | (name, _) => .error (.optionalUnrecognized name)

/-- Whether an option is switched on. -/
def isOn (options : Bindings Json) (name : String) : Bool :=
  match options.get? name with
  | some (.bool b) => b
  | _ => false

/-- The absence that the options of `optional` select: `nullable` before `checkFalsy` before
`values`. All options are checked first. -/
def chosenAbsence (options : Bindings Json) : Except RuleFault Absence := do
  options.forM checkOption
  if isOn options "nullable" then return .nullish
  else if isOn options "checkFalsy" then return .falsy
  else return ((options.get? "values").bind Absence.ofJson?).getD .undefined

/-- The absence that `optional` declares. -/
def absence (declaration : Declaration) : Except RuleFault Absence :=
  match declaration.get? RuleName.optional with
  | none => .ok .undefined
  | some (.bool true) => .ok .undefined
  | some (.object payload) =>
    match Bindings.get? payload "options" with
    | none => .ok .undefined
    | some (.object options) => chosenAbsence options
    | some other => .error (.optionalOptions other.kind)
  | some other => .error (.optionalPayload other.kind)

/-- Checks the payload of an array rule. -/
def checkArrayPayload (declaration : Declaration) (name : String) : Except RuleFault Unit :=
  match declaration.get? name with
  | none => .ok ()
  | some (.bool true) => .ok ()
  | some (.object _) => .ok ()
  | some other => .error (.arrayPayload name other.kind)

/-- The union of the values that `isIn` allows. -/
def allowedValues (declaration : Declaration) : Except RuleFault Descriptor :=
  match (declaration.get? RuleName.isIn).bind (·.member? "options") with
  | some (.array [.array []]) => .error .enumerationEmpty
  | some (.array [.array values]) => .ok (.unionOf (Descriptor.ofValues values))
  | some (.array _) => .error .enumerationArity
  | _ => .error .enumerationShape

/-- The type that the `returns` hint of a custom rule names; unknown without a hint. -/
def returnsHint (declaration : Declaration) (rule : String) : Except RuleFault Descriptor :=
  match (declaration.get? rule).bind (·.member? "returns") with
  | some form => (Descriptor.ofJson form).mapError (.hint rule)
  | none => .ok .unknown

end ShapeInference.Declaration
