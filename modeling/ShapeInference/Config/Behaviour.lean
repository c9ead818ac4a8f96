import ShapeInference.Config.Fault
import ShapeInference.Rule.Catalog

/-!
# Behaviours as JSON

The behaviour of a rule is an object of two fields, or an array of the two values in order. A choice
among names is written as the name, or as an object that maps the name to `null`.
-/

namespace ShapeInference

/-- Names that stand for values. -/
abbrev Choices (α : Type) := List (String × α)

namespace Choices

variable {α : Type}

/-- The value that a name stands for. -/
def named (choices : Choices α) (name : String) : Except DataFault α :=
  match Bindings.get? choices name with
  | some value => .ok value
  | none => .error (.unknownVariant name (Bindings.names choices))

/-- The value that a JSON value chooses. -/
def ofJson (choices : Choices α) : Json → Except DataFault α
  | .string name => choices.named name
  | .object [(name, payload)] => do
    let value ← choices.named name
    match payload with
    | .null => return value
    | other => throw (.invalidType (.ofJson other) "unit")
  | .object _ => .error (.invalidValue .map "map with a single key")
  | other => .error (.invalidType (.ofJson other) "string or map")

end Choices

/-- The names of roles. -/
def RuleRole.choices : Choices RuleRole :=
  RuleRole.all.map fun role => (role.name, role)

/-- The names of outputs. -/
def RuleOutput.choices : Choices RuleOutput :=
  RuleOutput.all.map fun output => (output.name, output)

namespace Behaviour

/-- The name of the field that says what a rule does. -/
def roleField : String := "kind"

/-- The name of the field that says what a rule leaves behind. -/
def outputField : String := "outputPrimitive"

/-- The fields in order. -/
def fields : List String := [roleField, outputField]

/-- What is expected where a behaviour stands. -/
def expected : String := "struct CatalogEntry"

/-- What is expected where a behaviour is written as an array. -/
def expectedElements : String := "struct CatalogEntry with 2 elements"

/-- A behaviour of which some fields are known. -/
structure Draft where
  role : Option RuleRole
  output : Option RuleOutput

namespace Draft

/-- No field known yet. -/
def empty : Draft := ⟨none, none⟩

/-- The behaviour, once both fields are known. -/
def complete (draft : Draft) : Except DataFault Behaviour :=
  match draft.role, draft.output with
  | some role, some output => .ok ⟨role, output⟩
  | none, _ => .error (.missingField roleField)
  | some _, none => .error (.missingField outputField)

/-- Takes in one field. -/
def addField (draft : Draft) (field : String × Json) : Except DataFault Draft :=
  if field.1 = roleField then do
    return { draft with role := some (← RuleRole.choices.ofJson field.2) }
  else if field.1 = outputField then do
    return { draft with output := some (← RuleOutput.choices.ofJson field.2) }
  else .error (.unknownField field.1 fields)

end Draft

/-- The behaviour that a JSON value spells. -/
def ofJson : Json → Except DataFault Behaviour
  | .object members => do (← members.foldlM Draft.addField .empty).complete
  | .array [] => .error (.invalidLength 0 expectedElements)
  | .array [role] => do
    let _ ← RuleRole.choices.ofJson role
    throw (.invalidLength 1 expectedElements)
  | .array (role :: output :: rest) => do
    let role ← RuleRole.choices.ofJson role
    let output ← RuleOutput.choices.ofJson output
    if rest.isEmpty then return ⟨role, output⟩
    else throw (.invalidLength (rest.length + 2) "fewer elements in array")
  | other => .error (.invalidType (.ofJson other) expected)

/-- The object that spells a behaviour. -/
def toJson (behaviour : Behaviour) : Json :=
  .object [(roleField, .string behaviour.role.name), (outputField, .string behaviour.output.name)]

end Behaviour

namespace Catalog

/-- What is expected where a table of behaviours stands. -/
def expected : String := "a map"

/-- The named behaviours that a JSON object spells. -/
def tableOfJson : Json → Except DataFault (List (String × Behaviour))
  | .object members => members.mapM fun member => do return (member.1, ← Behaviour.ofJson member.2)
  | other => .error (.invalidType (.ofJson other) expected)

end Catalog

end ShapeInference
