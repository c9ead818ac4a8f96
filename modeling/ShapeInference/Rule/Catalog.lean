import ShapeInference.OrderedMap

/-!
# The catalog of builtin rules

A rule in the catalog checks a field or converts it, and leaves a primitive behind. Names outside
the catalog say nothing about a field's type.
-/

namespace ShapeInference

/-- What a rule does to the field. -/
inductive RuleRole where
  /-- Converts the value. -/
  | sanitizer
  /-- Checks the value. -/
  | validator
deriving DecidableEq, Repr

/-- What a rule leaves behind in the field. -/
inductive RuleOutput where
  | boolean
  | date
  | integer
  | float
  | string
  | emptyObject
deriving DecidableEq, Repr

namespace RuleRole

/-- The spelling of a role. -/
def name : RuleRole → String
  | sanitizer => "sanitizer"
  | validator => "validator"

/-- The roles in the order in which diagnostics list them. -/
def all : List RuleRole := [sanitizer, validator]

end RuleRole

namespace RuleOutput

/-- The spelling of an output. -/
def name : RuleOutput → String
  | boolean => "boolean"
  | date => "date"
  | integer => "integer"
  | float => "float"
  | string => "string"
  | emptyObject => "emptyObject"

/-- The outputs in the order in which diagnostics list them. -/
def all : List RuleOutput := [boolean, date, integer, float, string, emptyObject]

end RuleOutput

/-- The behaviour of one rule. -/
structure Behaviour where
  role : RuleRole
  output : RuleOutput
deriving DecidableEq, Repr

/-- Rule names and their behaviour. -/
abbrev Catalog := OrderedMap Behaviour

namespace Catalog

/-- The builtin conversions. -/
def conversions : List (String × RuleOutput) :=
  [("toBoolean", .boolean), ("toDate", .date), ("toFloat", .float), ("toInt", .integer),
    ("ltrim", .string), ("rtrim", .string), ("trim", .string), ("toLowerCase", .string),
    ("toUpperCase", .string), ("escape", .string), ("unescape", .string)]

/-- The builtin checks. -/
def checks : List (String × RuleOutput) :=
  [("isBoolean", .boolean), ("isDate", .date), ("isFloat", .float), ("isInt", .integer),
    ("isString", .string), ("isULID", .string), ("isAlpha", .string),
    ("isAlphanumeric", .string), ("isAscii", .string), ("isBase32", .string),
    ("isBase58", .string), ("isBase64", .string), ("isBtcAddress", .string),
    ("isCreditCard", .string), ("isCurrency", .string), ("isEmail", .string),
    ("isISO6346", .string), ("isISO4217", .string), ("isISO8601", .string),
    ("isObject", .emptyObject)]

/-- The rules known without any configuration. -/
def builtin : Catalog :=
  .ofList (conversions.map (fun (name, output) => (name, ⟨.sanitizer, output⟩)) ++
    checks.map (fun (name, output) => (name, ⟨.validator, output⟩)))

/-- The rules of one role among names, in the order of the names. -/
def inRole (catalog : Catalog) (role : RuleRole) (names : List String) :
    List (String × Behaviour) :=
  names.filterMap fun name =>
    match catalog.get? name with
    | some behaviour => if behaviour.role = role then some (name, behaviour) else none
    | none => none

end Catalog

end ShapeInference
