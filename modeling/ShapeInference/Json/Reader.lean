import ShapeInference.Json.Scan

/-!
# Reading JSON values

`Json.read` accepts one value with blanks around it. Arrays and objects nest at most 127 deep. A
name that an object repeats keeps its first place and takes its last value.

## Implementation notes

The readers recurse on fuel. Of two consecutive steps at least one consumes a character, so twice
as many steps as there are characters, and one more, never run out.
-/

namespace ShapeInference.Json

namespace Scan

/-- After an element: whether another follows before `closing`. -/
def separated (closing : Char) : Scan Bool := do
  let c ← peekSome
  if c = closing then
    skip
    return false
  else if c = ',' then
    skip
    return true
  else throw .malformed

/-- The name of a member and the colon after it. -/
def name : Scan String := do
  if (← peekSome) ≠ '"' then throw .malformed
  let name ← string
  if (← peekSome) ≠ ':' then throw .malformed
  skip
  return name

mutual

/-- A value with at most `depth` further levels of arrays and objects inside. -/
def value (depth : Nat) : (fuel : Nat) → Scan Json
  | 0 => throw .truncated
  | fuel + 1 => do
    match ← peekSome with
    | 'n' =>
      word ['n', 'u', 'l', 'l']
      return .null
    | 't' =>
      word ['t', 'r', 'u', 'e']
      return .bool true
    | 'f' =>
      word ['f', 'a', 'l', 's', 'e']
      return .bool false
    | '"' => return .string (← string)
    | '[' =>
      if depth = 0 then throw .malformed
      skip
      if (← peekSome) = ']' then
        skip
        return .array []
      else return .array (← elements (depth - 1) fuel)
    | '\x7b' =>
      if depth = 0 then throw .malformed
      skip
      if (← peekSome) = '\x7d' then
        skip
        return .object []
      else return .object (Bindings.ofPairs (← members (depth - 1) fuel))
    | c => if c = '-' ∨ c.isDigit then return .number (← number) else throw .malformed

/-- The elements of an array up to its closing bracket, at least one. -/
def elements (depth : Nat) : (fuel : Nat) → Scan (List Json)
  | 0 => throw .truncated
  | fuel + 1 => do
    let v ← value depth fuel
    if ← separated ']' then return v :: (← elements depth fuel) else return [v]

/-- The members of an object up to its closing brace, at least one. -/
def members (depth : Nat) : (fuel : Nat) → Scan (List (String × Json))
  | 0 => throw .truncated
  | fuel + 1 => do
    let key ← name
    let v ← value depth fuel
    if ← separated '\x7d' then return (key, v) :: (← members depth fuel) else return [(key, v)]

end

/-- A value and nothing after it but blanks. -/
def document : Scan Json := do
  let text ← get
  let v ← value 127 (2 * text.length + 1)
  match ← peek with
  | none => return v
  | some _ => throw .malformed

end Scan

/-- The value that a text spells. -/
def read (text : String) : Except Fault Json :=
  (Scan.document.run text.toList).map Prod.fst

end ShapeInference.Json
