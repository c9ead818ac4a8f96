import ShapeInference.Json.Scan

/-!
# Tokens of filters

The text of a filter falls into tokens between blanks and comments. A name right behind a dot makes
one token with it, and so do two dots; signs of operators stick together as far as they go.
-/

namespace ShapeInference

/-- A token of the text of a filter. -/
inductive FilterToken where
  /-- A name by itself, perhaps qualified by the name of a module. -/
  | word (name : String)
  /-- A dot and a name. -/
  | field (name : String)
  /-- A lone dot. -/
  | dot
  | string (value : String)
  | number (value : Number)
  /-- Signs of an operator. -/
  | operator (signs : List Char)
  /-- A bracket, a comma, a semicolon or a question mark. -/
  | mark (sign : Char)
deriving DecidableEq, Repr

namespace FilterToken

/-- A scanner of filter text. -/
abbrev Scan := StateT (List Char) Option

/-- The characters that count as blanks. -/
def isBlank (c : Char) : Bool :=
  let code := c.toNat
  (decide (0x9 ≤ code ∧ code ≤ 0xD)) || code == 0x20 || code == 0x85 || code == 0xA0 ||
    code == 0x1680 || (decide (0x2000 ≤ code ∧ code ≤ 0x200A)) || code == 0x2028 ||
    code == 0x2029 || code == 0x202F || code == 0x205F || code == 0x3000

/-- Whether a character may start a name. -/
def startsName (c : Char) : Bool :=
  c.isAlpha || c == '_'

/-- Whether a character may go on a name. -/
def isNamePart (c : Char) : Bool :=
  startsName c || c.isDigit

/-- Whether a character is a sign of operators. -/
def isSign (c : Char) : Bool :=
  ['|', '=', '!', '<', '>', '+', '-', '*', '/', '%'].contains c

/-- Whether a character is a token by itself. -/
def isMark (c : Char) : Bool :=
  ['(', ')', '[', ']', '\x7b', '\x7d', ',', ';', '?'].contains c

/-- Whether a line ends in an odd number of backslashes, before a carriage return if there is
one. -/
def goesOn (line : List Char) : Bool :=
  let reversed := match line.reverse with
    | '\r' :: rest => rest
    | rest => rest
  (reversed.takeWhile (· == '\\')).length % 2 == 1

/-- What follows a comment. A line that ends in a backslash goes on with the next. -/
def afterComment : (fuel : Nat) → List Char → List Char
  | 0, text => text
  | fuel + 1, text =>
    let line := text.takeWhile (· ≠ '\n')
    let rest := (text.drop line.length).tail
    if goesOn line then afterComment fuel rest else rest

/-- What follows blanks and comments. -/
def afterBlanks : (fuel : Nat) → List Char → List Char
  | 0, text => text
  | fuel + 1, text =>
    match text.dropWhile isBlank with
    | '#' :: rest => afterBlanks fuel (afterComment (rest.length + 1) rest)
    | rest => rest

/-- The character that an escape inside quotes stands for. A surrogate is none. -/
def escaped : Scan Char := do
  match ← get with
  | 'u' :: rest =>
    match (rest.take 4).mapM Json.Scan.hexValue? with
    | some [a, b, c, d] =>
      set (rest.drop 4)
      let code := 4096 * a + 256 * b + 16 * c + d
      if 0xD800 ≤ code ∧ code < 0xE000 then failure else return Char.ofNat code
    | _ => failure
  | text => fun _ => (Json.Scan.escaped text).toOption

/-- The characters up to the closing quote, by at most `fuel` steps of one character each. -/
def quoted : (fuel : Nat) → Scan (List Char)
  | 0 => failure
  | fuel + 1 => do
    match ← get with
    | [] => failure
    | '"' :: rest =>
      set rest
      return []
    | '\\' :: rest =>
      set rest
      let c ← escaped
      return c :: (← quoted fuel)
    | c :: rest =>
      set rest
      return c :: (← quoted fuel)

/-- The magnitude nearest to `n * 10 ^ exponent`. A positive decimal with its leading digit beyond
the 310th place is infinite, one below the 330th decimal is zero. -/
def magnitude (n : Nat) (exponent : Int) : Nat :=
  let size : Int := (Nat.toDigits 10 n).length + exponent
  if n = 0 ∨ size < -330 then 0
  else if 310 < size then Binary64.infinity
  else Binary64.nearest (n * Nat.pow 10 exponent.toNat) (Nat.pow 10 (-exponent).toNat)

/-- A number: digits, perhaps a fraction, perhaps an exponent. One beyond all doubles counts as
infinite. -/
def numeral : Json.Scan Number := do
  let whole ← Json.Scan.someDigits
  let decimals ← Json.Scan.fraction
  let power ← Json.Scan.exponent
  match decimals, power with
  | none, none =>
    let n := Json.Scan.valueOf whole
    if n < 0x8000000000000000 then return .integer n
    else return .double ⟨false, magnitude n 0⟩
  | _, _ =>
    let decimals := decimals.getD []
    let n := Json.Scan.valueOf (whole ++ decimals)
    return .double ⟨false, magnitude n (power.getD 0 - decimals.length)⟩

/-- A name at the front of the text. -/
def name : Scan String := do
  let text ← get
  set (text.dropWhile isNamePart)
  return String.ofList (text.takeWhile isNamePart)

/-- A name at the front of the text, perhaps behind the name of a module and two colons. -/
def qualifiedName : Scan String := do
  let first ← name
  match ← get with
  | ':' :: ':' :: c :: rest =>
    if startsName c then
      set (c :: rest)
      return first ++ "::" ++ (← name)
    else return first
  | _ => return first

/-- The token at the front of the text, which starts with a given character. -/
def token (first : Char) : Scan FilterToken := do
  let text ← get
  let rest := text.tail
  if startsName first then return word (← qualifiedName)
  else if first.isDigit then fun _ => ((numeral.run text).toOption).map fun (n, r) => (number n, r)
  else if isSign first then
    set (text.dropWhile isSign)
    return operator (text.takeWhile isSign)
  else
    set rest
    if isMark first then return mark first
    else if first = '"' then return string (String.ofList (← quoted (rest.length + 1)))
    else if first = '.' then
      match rest with
      | '.' :: _ => failure
      | c :: _ => if startsName c then return field (← name) else return dot
      | [] => return dot
    else failure

/-- The tokens of a text, by at most `fuel` of them. -/
def ofChars : (fuel : Nat) → List Char → Option (List FilterToken)
  | 0, _ => none
  | fuel + 1, text =>
    match afterBlanks (text.length + 1) text with
    | [] => some []
    | first :: rest => do
      let (t, rest) ← (token first).run (first :: rest)
      return t :: (← ofChars fuel rest)

/-- The tokens of a text. Each takes at least one character. -/
def ofText (text : String) : Option (List FilterToken) :=
  ofChars (text.toList.length + 1) text.toList

end FilterToken

end ShapeInference
