import ShapeInference.Filter.Basic
import ShapeInference.Filter.Fault
import ShapeInference.Filter.Token

/-!
# Reading filters

The text of a filter. A path starts at a dot or behind any term, `?` makes the step before it
optional, a comma binds tighter than a bar, and parentheses group. Brackets stand right behind the
place that they step from, never behind a dot of their own.

## Implementation notes

The readers recurse on fuel. Between two rounds of the readers for alternatives, at most three
steps pass without consuming a token.
-/

namespace ShapeInference.Filter

/-- A reader of tokens. -/
abbrev Reader := StateT (List FilterToken) Option

namespace Reader

/-- The next token, left in place. -/
def peek : Reader (Option FilterToken) :=
  return (← get).head?

/-- Drops one token. -/
def skip : Reader Unit :=
  modify List.tail

/-- A given token. -/
def expect (token : FilterToken) : Reader Unit := do
  if (← peek) = some token then skip else failure

/-- Whether a given token follows, which is then consumed. -/
def accept (token : FilterToken) : Reader Bool := do
  if (← peek) = some token then
    skip
    return true
  else return false

/-- The words that open a form of their own where a term may stand, and so name no function. The
words inside such forms, like `then` and `end`, are names where a term may stand. -/
def openings : List String :=
  ["def", "if", "try", "label", "reduce", "foreach"]

/-- The words that open a directive at the front of a text, and are names everywhere else. -/
def directives : List String :=
  ["module", "include", "import"]

/-- Whether tokens start with a directive. -/
def startsDirective : List FilterToken → Bool
  | .word name :: _ => directives.contains name
  | _ => false

/-- All question marks that follow: whether there are any. -/
def marks : (fuel : Nat) → Reader Bool
  | 0 => return false
  | fuel + 1 => do
    if ← accept (.mark '?') then
      let _ ← marks fuel
      return true
    else return false

/-- The step that a number selects, negated or not. -/
def numbered (negative : Bool) : Number → FilterPart
  | .integer i => .index (if negative then -i else i)
  | .double _ => .unfit

/-- The inside of brackets behind the opening one: nothing, a name in quotes, or a position. -/
def bracketed : Reader FilterPart := do
  match ← get with
  | .mark ']' :: rest =>
    set rest
    return .each
  | .string name :: .mark ']' :: rest =>
    set rest
    return .key name
  | .number n :: .mark ']' :: rest =>
    set rest
    return numbered false n
  | .operator ['-'] :: .number n :: .mark ']' :: rest =>
    set rest
    return numbered true n
  | _ => failure

/-- The steps that follow a filter. -/
def steps : (fuel : Nat) → Filter → Reader Filter
  | 0, _ => failure
  | fuel + 1, filter => do
    match ← get with
    | .mark '[' :: rest =>
      set rest
      let part ← bracketed
      steps fuel (.step filter part (← marks fuel))
    | .field name :: rest =>
      set rest
      steps fuel (.step filter (.key name) (← marks fuel))
    | .dot :: .string name :: rest =>
      set rest
      steps fuel (.step filter (.key name) (← marks fuel))
    | _ => return filter

/-- A filter with the question marks and the steps behind it. -/
def continued (fuel : Nat) (filter : Filter) : Reader Filter := do
  if ← marks fuel then steps fuel (.attempt filter) else steps fuel filter

mutual

/-- A filter up to the end of a group. -/
def piped : (fuel : Nat) → Reader Filter
  | 0 => failure
  | fuel + 1 => do
    let first ← alternatives fuel
    if ← accept (.operator ['|']) then return .pipe first (← piped fuel) else return first

/-- Terms between commas. -/
def alternatives : (fuel : Nat) → Reader Filter
  | 0 => failure
  | fuel + 1 => do
    let first ← term fuel
    if ← accept (.mark ',') then return .both first (← alternatives fuel) else return first

/-- A term and the steps behind it. -/
def term : (fuel : Nat) → Reader Filter
  | 0 => failure
  | fuel + 1 => do
    match ← get with
    | .dot :: .string name :: rest =>
      set rest
      steps fuel (.step .identity (.key name) (← marks fuel))
    | .dot :: rest =>
      set rest
      continued fuel .identity
    | .field name :: rest =>
      set rest
      steps fuel (.step .identity (.key name) (← marks fuel))
    | .mark '(' :: rest =>
      set rest
      let inside ← piped fuel
      expect (.mark ')')
      continued fuel inside
    | .string s :: rest =>
      set rest
      continued fuel (.constant (.string s))
    | .number n :: rest =>
      set rest
      continued fuel (.constant (.number n))
    | .word name :: rest =>
      if openings.contains name then failure
      set rest
      if ← accept (.mark '(') then
        arguments fuel
        continued fuel (.unknown name)
      else continued fuel (if name = "empty" then .empty else .unknown name)
    | _ => failure

/-- The arguments of a call up to the closing parenthesis, at least one. Since no known function
takes arguments, they are read and dropped. -/
def arguments : (fuel : Nat) → Reader Unit
  | 0 => failure
  | fuel + 1 => do
    let _ ← piped fuel
    if ← accept (.mark ';') then arguments fuel else expect (.mark ')')

end

end Reader

/-- The filter that a text spells. No directive is understood. -/
def parse (text : String) : Option Filter := do
  let tokens ← FilterToken.ofText text
  if Reader.startsDirective tokens then failure
  let (filter, rest) ← (Reader.piped (4 * tokens.length + 4)).run tokens
  if rest.isEmpty then return filter else failure

/-- The results of a filter, given by its text, on a value. -/
def outputs (text : String) (value : Json) : Except FilterFault (List FilterResult) :=
  match parse text with
  | some filter => if filter.isDefined then .ok (filter.results value) else .error .undefined
  | none => .error .malformed

/-- The values that a filter, given by its text, takes a value to, if no step fails. -/
def evaluate (text : String) (value : Json) : Except FilterFault (List Json) := do
  match (← outputs text value).mapM id with
  | some values => return values
  | none => throw .failed

end ShapeInference.Filter
