import ShapeInference.Json.Basic

/-!
# Filters

A filter takes a JSON value to any number of values in order. Parts of a path step into objects
and arrays. A step that a value does not allow is a failure among the results. An optional step
drops its failures; an attempt ends at its first one.

## Implementation notes

These are the paths, alternatives, bars and attempts of jq, with `empty` as the one function that is
known. Commands take filters from their environment, so that a fuller language can stand in.
-/

namespace ShapeInference

/-- One step of a path. -/
inductive FilterPart where
  /-- Every element of an array, or every value of an object. -/
  | each
  /-- An element of an array, negative positions counting from the end. -/
  | index (position : Int)
  /-- A member of an object. -/
  | key (name : String)
  /-- What a number selects that is no position: nothing has it. -/
  | unfit
deriving DecidableEq, Repr

/-- A filter. -/
inductive Filter where
  /-- The value itself. -/
  | identity
  /-- No value. -/
  | empty
  /-- A fixed value. -/
  | constant (value : Json)
  /-- A function that is not known. -/
  | unknown (name : String)
  /-- The results of a filter before its first failure. -/
  | attempt (filter : Filter)
  /-- A step from each result. -/
  | step (filter : Filter) (part : FilterPart) (isOptional : Bool)
  /-- One filter on each result of another. -/
  | pipe (first second : Filter)
  /-- The results of one filter, then those of another. -/
  | both (first second : Filter)

/-- A result of a filter: a value, or a failure. -/
abbrev FilterResult := Option Json

namespace FilterPart

/-- The element at a position, `null` beyond the ends. -/
def element (elements : List Json) (position : Int) : Json :=
  let position := if position < 0 then position + elements.length else position
  if position < 0 then .null else elements[position.toNat]?.getD .null

/-- The results of one step from a value. -/
def apply : FilterPart → Json → List FilterResult
  | each, .array elements => elements.map some
  | each, .object members => members.map fun member => some member.2
  | index position, .array elements => [some (element elements position)]
  | key name, .object members => [some ((Bindings.get? members name).getD .null)]
  | _, _ => [none]

end FilterPart

namespace Filter

/-- Whether all functions in a filter are known. -/
def isDefined : Filter → Bool
  | identity => true
  | empty => true
  | constant _ => true
  | unknown _ => false
  | attempt f => f.isDefined
  | step f _ _ => f.isDefined
  | pipe f g => f.isDefined && g.isDefined
  | both f g => f.isDefined && g.isDefined

/-- Continues from the values among results; failures stay. -/
def onEach (next : Json → List FilterResult) (results : List FilterResult) : List FilterResult :=
  results.flatMap fun
    | some value => next value
    | none => [none]

/-- The results of a filter on a value. -/
def results : Filter → Json → List FilterResult
  | identity, value => [some value]
  | empty, _ => []
  | constant c, _ => [some c]
  | unknown _, _ => [none]
  | attempt f, value => (f.results value).takeWhile Option.isSome
  | step f part isOptional, value =>
    onEach (fun v => (part.apply v).filter fun r => r.isSome || !isOptional) (f.results value)
  | pipe f g, value => onEach g.results (f.results value)
  | both f g, value => f.results value ++ g.results value

end Filter

end ShapeInference
