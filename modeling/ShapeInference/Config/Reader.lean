import ShapeInference.Config.Behaviour
import ShapeInference.Json.Reader
import ShapeInference.Rulebook

/-!
# Configurations

A configuration extends the builtin catalog and sets the policy on nested fields. It is read from
JSON text in one pass that knows which type to expect where and stops at the first problem: what
follows that problem, or follows the document, is never looked at.

## Implementation notes

A problem with the data carries the steps that lead to it, the outermost first; each reader adds
its own step in front when the problem passes through it.
-/

namespace ShapeInference

/-- Behaviours beside the builtin ones, and the policy on nested fields. -/
structure Config where
  catalog : Catalog
  widenNested : Bool

/-- A step into a document. -/
inductive Step where
  | key (name : String)
  | index (position : Nat)
deriving DecidableEq, Repr

namespace Step

/-- Steps in words: names joined by dots, positions in brackets, a lone dot for none. -/
def pathText (steps : List Step) : String :=
  let rec go (first : Bool) : List Step → String
    | [] => ""
    | .key name :: rest => (if first then "" else ".") ++ name ++ go false rest
    | .index position :: rest => s!"[{position}]" ++ go false rest
  match steps with
  | [] => "."
  | steps => go true steps

end Step

/-- Why a text is no configuration. -/
inductive ConfigFault where
  /-- The text is not JSON, or not of a form that typed reading allows. -/
  | text
  /-- The data at some place has not the expected form. -/
  | data (steps : List Step) (fault : DataFault)
deriving DecidableEq, Repr

/-- A reader of typed data from text. -/
abbrev Typed := StateT (List Char) (Except ConfigFault)

namespace Typed

variable {α σ : Type}

/-- Scans text. -/
def scan (s : Json.Scan α) : Typed α :=
  fun text => (s text).mapError fun _ => .text

/-- Reports the data read last. -/
def fail (fault : DataFault) : Typed α :=
  throw (.data [] fault)

/-- A result of looking at data. -/
def ofExcept : Except DataFault α → Typed α
  | .ok value => return value
  | .error fault => fail fault

/-- Reads what lies behind a step. -/
def under (step : Step) (read : Typed α) : Typed α :=
  fun text => (read text).mapError fun
    | .text => .text
    | .data steps fault => .data (step :: steps) fault

/-- Refuses the text at hand. -/
def malformed : Typed α :=
  throw .text

/-- The sort of the value at hand; a scalar is read completely. -/
def found : Typed Found := do
  match ← scan Json.Scan.peekSome with
  | 'n' =>
    scan (Json.Scan.word ['n', 'u', 'l', 'l'])
    return .null
  | 't' =>
    scan (Json.Scan.word ['t', 'r', 'u', 'e'])
    return .bool true
  | 'f' =>
    scan (Json.Scan.word ['f', 'a', 'l', 's', 'e'])
    return .bool false
  | '"' => return .string (← scan Json.Scan.string)
  | '[' => return .sequence
  | '\x7b' => return .map
  | c => if c = '-' ∨ c.isDigit then return .number (← scan Json.Scan.number) else malformed

/-- Reports the value at hand as one of the wrong type. -/
def mismatch (expected : String) : Typed α := do
  fail (.invalidType (← found) expected)

/-- A given character, after blanks. -/
def token (c : Char) : Typed Unit := do
  if (← scan Json.Scan.peekSome) = c then scan Json.Scan.skip else malformed

/-- The name of the next member, up to the colon; none at the closing brace. -/
def memberName (first : Bool) : Typed (Option String) := do
  let c ← scan Json.Scan.peekSome
  if c = '\x7d' then
    scan Json.Scan.skip
    return none
  if !first then token ','
  if (← scan Json.Scan.peekSome) = '"' then return some (← scan Json.Scan.string) else malformed

/-- Whether another element follows in an array. The closing bracket stays in place. -/
def hasElement (first : Bool) : Typed Bool := do
  let c ← scan Json.Scan.peekSome
  if c = ']' then return false
  if first then return true
  token ','
  if (← scan Json.Scan.peekSome) = ']' then malformed else return true

/-- Reads the members of an object up to its closing brace. The reader of a member starts at the
colon. Each round reads a name, so `fuel` beyond the length of the text never runs out. -/
def members (read : σ → String → Typed σ) : (fuel : Nat) → (first : Bool) → σ → Typed σ
  | 0, _, _ => malformed
  | fuel + 1, first, state => do
    match ← memberName first with
    | none => return state
    | some name => members read fuel false (← read state name)

/-- Reads an object member by member, from its opening brace. -/
def object (start : σ) (read : σ → String → Typed σ) : Typed σ := do
  token '\x7b'
  let text ← get
  members read (text.length + 1) true start

/-- The value of a member, from its colon. -/
def valueOf (name : String) (read : Typed α) : Typed α := do
  token ':'
  under (.key name) read

/-- A boolean. -/
def boolean : Typed Bool := do
  let c ← scan Json.Scan.peekSome
  if c = 't' then
    scan (Json.Scan.word ['t', 'r', 'u', 'e'])
    return true
  else if c = 'f' then
    scan (Json.Scan.word ['f', 'a', 'l', 's', 'e'])
    return false
  else mismatch "a boolean"

/-- Nothing but `null`. -/
def unit : Typed Unit := do
  if (← scan Json.Scan.peekSome) = 'n' then scan (Json.Scan.word ['n', 'u', 'l', 'l'])
  else mismatch "unit"

/-- A choice among names. -/
def choice (choices : Choices α) : Typed α := do
  let c ← scan Json.Scan.peekSome
  if c = '"' then ofExcept (choices.named (← scan Json.Scan.string))
  else if c = '\x7b' then
    token '\x7b'
    if (← scan Json.Scan.peekSome) ≠ '"' then malformed
    let name ← scan Json.Scan.string
    let value ← ofExcept (choices.named name)
    valueOf name unit
    token '\x7d'
    return value
  else malformed

/-- An element that an array must have at a position. -/
def element (position : Nat) (expected : String) (read : Typed α) : Typed α := do
  if ← hasElement (position == 0) then under (.index position) read
  else fail (.invalidLength position expected)

/-- An element that an array may have at a position. -/
def element? (position : Nat) (read : Typed α) : Typed (Option α) := do
  if ← hasElement (position == 0) then return some (← under (.index position) read)
  else return none

end Typed

namespace Behaviour

/-- Reads one field of a behaviour. -/
def readField (draft : Draft) (name : String) : Typed Draft := do
  if name = roleField then
    if draft.role.isSome then Typed.fail (.duplicateField name)
    return { draft with role := some (← Typed.valueOf name (Typed.choice RuleRole.choices)) }
  else if name = outputField then
    if draft.output.isSome then Typed.fail (.duplicateField name)
    return { draft with
      output := some (← Typed.valueOf name (Typed.choice RuleOutput.choices)) }
  else Typed.under (.key name) (Typed.fail (.unknownField name fields))

/-- Reads a behaviour. -/
def read : Typed Behaviour := do
  let c ← Typed.scan Json.Scan.peekSome
  if c = '\x7b' then Typed.ofExcept (← Typed.object .empty readField).complete
  else if c = '[' then
    Typed.token '['
    let role ← Typed.element 0 expectedElements (Typed.choice RuleRole.choices)
    let output ← Typed.element 1 expectedElements (Typed.choice RuleOutput.choices)
    Typed.token ']'
    return ⟨role, output⟩
  else Typed.mismatch expected

end Behaviour

/-- Reads a table of named behaviours. -/
def Catalog.readTable : Typed Catalog := do
  if (← Typed.scan Json.Scan.peekSome) = '\x7b' then
    Typed.object ∅ fun table name => do
      return table.insert name (← Typed.valueOf name Behaviour.read)
  else Typed.mismatch expected

namespace Config

/-- The configuration that adds nothing. -/
def default : Config := ⟨∅, false⟩

/-- The name of the field that extends the catalog. -/
def catalogField : String := "catalog"

/-- The name of the field that sets the policy on nested fields. -/
def widenField : String := "widenNestedValidators"

/-- A configuration of which some fields are known. -/
structure Draft where
  catalog : Option Catalog
  widenNested : Option Bool

/-- The configuration with defaults for fields that are not given. -/
def Draft.complete (draft : Draft) : Config :=
  ⟨draft.catalog.getD default.catalog, draft.widenNested.getD default.widenNested⟩

/-- Reads one field of a configuration. -/
def readField (draft : Draft) (name : String) : Typed Draft := do
  if name = catalogField then
    if draft.catalog.isSome then Typed.fail (.duplicateField name)
    return { draft with catalog := some (← Typed.valueOf name Catalog.readTable) }
  else if name = widenField then
    if draft.widenNested.isSome then Typed.fail (.duplicateField name)
    return { draft with widenNested := some (← Typed.valueOf name Typed.boolean) }
  else Typed.under (.key name) (Typed.fail (.unknownField name [catalogField, widenField]))

/-- Reads a configuration, as an object or as an array of its fields in order. -/
def read : Typed Config := do
  let c ← Typed.scan Json.Scan.peekSome
  if c = '\x7b' then return (← Typed.object ⟨none, none⟩ readField).complete
  else if c = '[' then
    Typed.token '['
    let catalog ← Typed.element? 0 Catalog.readTable
    let widenNested ← match catalog with
      | some _ => Typed.element? 1 Typed.boolean
      | none => pure none
    Typed.token ']'
    return Draft.complete ⟨catalog, widenNested⟩
  else Typed.mismatch "struct CompilerConfig"

/-- The configuration at the front of a text. -/
def ofText (text : String) : Except ConfigFault Config :=
  (read.run text.toList).map Prod.fst

/-- The builtin catalog with the behaviours of the configuration, and its policy. -/
def rulebook (config : Config) : Rulebook :=
  ⟨Catalog.builtin.insertAll config.catalog.entries, config.widenNested⟩

end Config

end ShapeInference
