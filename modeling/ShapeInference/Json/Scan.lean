import ShapeInference.Json.Basic

/-!
# Scanning JSON text

The lexical layer of JSON: blanks, words, numbers and strings. A scanner consumes a beginning of
the text or reports one of two faults: the text ends too early, or a character stands where it may
not. Whoever reads JSON text builds on these scanners, and always sees the first fault of the text.

## Implementation notes

A number is read as a whole number of at most 64 bits and a power of ten. Digits that do not fit are
dropped, and the product is taken in the arithmetic of doubles. A long decimal is therefore not
always read as the double nearest to it.
-/

namespace ShapeInference.Json

/-- Why a text is not JSON. -/
inductive Fault where
  /-- The text ends inside a value. -/
  | truncated
  /-- A character stands where the grammar does not allow it, or a limit is exceeded. -/
  | malformed
deriving DecidableEq, Repr

/-- A scanner: consumes characters from the front of the text. -/
abbrev Scan := StateT (List Char) (Except Fault)

namespace Scan

/-- The four blanks of JSON. -/
def isBlank (c : Char) : Bool :=
  c == ' ' || c == '\n' || c == '\t' || c == '\r'

/-- The next character that is no blank, left in place. -/
def peek : Scan (Option Char) := do
  let rest := (← get).dropWhile isBlank
  set rest
  return rest.head?

/-- The next character that is no blank, left in place; the text may not end here. -/
def peekSome : Scan Char := do
  match ← peek with
  | some c => return c
  | none => throw .truncated

/-- Drops one character. -/
def skip : Scan Unit :=
  modify List.tail

/-- One character, blanks included. -/
def next : Scan Char := do
  match ← get with
  | c :: rest =>
    set rest
    return c
  | [] => throw .truncated

/-- Given characters and nothing else. -/
def word : List Char → Scan Unit
  | [] => return ()
  | c :: rest => do
    if (← next) = c then word rest else throw .malformed

/-- The digits at the front of the text, possibly none. -/
def digits : Scan (List Char) := do
  let text ← get
  set (text.dropWhile Char.isDigit)
  return text.takeWhile Char.isDigit

/-- At least one digit. -/
def someDigits : Scan (List Char) := do
  match ← digits with
  | [] => do
    let _ ← next
    throw .malformed
  | ds => return ds

/-- A number with one more digit behind it. -/
def withDigit (n : Nat) (d : Char) : Nat :=
  10 * n + (d.toNat - '0'.toNat)

/-- The number that digits stand for. -/
def valueOf (ds : List Char) : Nat :=
  ds.foldl withDigit 0

/-- Puts digits behind a number as long as it keeps to 64 bits: the number, and how many digits are
left over. -/
def significand (n : Nat) : List Char → Nat × Nat
  | [] => (n, 0)
  | d :: ds =>
    if withDigit n d < 0x10000000000000000 then significand (withDigit n d) ds
    else (n, ds.length + 1)

/-- The double `n * 10 ^ exponent`, unless it is infinite. -/
def double (negative : Bool) (n : Nat) (exponent : Int) : Except Fault Number :=
  let magnitude := Binary64.scaleByTen (Binary64.nearest n 1) exponent
  if magnitude < Binary64.infinity then .ok (.double ⟨negative, magnitude⟩) else .error .malformed

/-- An integer by its leading digits and the number of those left over. Negative zero and integers
beyond 64 bits become doubles. -/
def integer (negative : Bool) (n left : Nat) : Except Fault Number :=
  if left = 0 ∧ (negative → 0 < n ∧ n ≤ 0x8000000000000000) then
    .ok (.integer (if negative then -n else n))
  else double negative n left

/-- A decimal by its digits before and after the point, and its exponent. Digits before the point
that are left over count as zeros; those after it can be taken in again. -/
def decimal (negative : Bool) (whole decimals : List Char) (exponent : Int) : Except Fault Number :=
  let (n, left) := significand 0 whole
  let (n, unread) := significand n decimals
  double negative n (left - (decimals.length - unread : Nat) + exponent)

/-- The digits after a decimal point, where there is one. -/
def fraction : Scan (Option (List Char)) := do
  match ← get with
  | '.' :: rest =>
    set rest
    return some (← someDigits)
  | _ => return none

/-- The exponent, where there is one. -/
def exponent : Scan (Option Int) := do
  match ← get with
  | c :: rest =>
    if c = 'e' ∨ c = 'E' then
      set rest
      let negative ← match rest with
        | '-' :: rest => do
          set rest
          pure true
        | '+' :: rest => do
          set rest
          pure false
        | _ => pure false
      let size : Int := valueOf (← someDigits)
      return some (if negative then -size else size)
    else return none
  | [] => return none

/-- A number. A leading zero stands alone before the point. -/
def number : Scan Number := do
  let negative ← match ← get with
    | '-' :: rest => do
      set rest
      pure true
    | _ => pure false
  let whole ← someDigits
  if whole.length > 1 ∧ whole.head? = some '0' then throw .malformed
  let decimals ← fraction
  let power ← exponent
  match decimals, power with
  | none, none =>
    let (n, left) := significand 0 whole
    liftM (integer negative n left)
  | _, _ => liftM (decimal negative whole (decimals.getD []) (power.getD 0))

/-- The value of a hexadecimal digit of either case. -/
def hexValue? (c : Char) : Option Nat :=
  if '0' ≤ c ∧ c ≤ '9' then some (c.toNat - '0'.toNat)
  else if 'a' ≤ c ∧ c ≤ 'f' then some (c.toNat - 'a'.toNat + 10)
  else if 'A' ≤ c ∧ c ≤ 'F' then some (c.toNat - 'A'.toNat + 10)
  else none

/-- The code unit of four hexadecimal digits. A text too short to hold four bytes ends too early,
whatever it holds. -/
def hexUnit : Scan Nat := do
  let text ← get
  match (text.take 4).mapM hexValue? with
  | some [a, b, c, d] =>
    set (text.drop 4)
    return 4096 * a + 256 * b + 16 * c + d
  | _ =>
    if (String.ofList (text.take 4)).utf8ByteSize < 4 then throw .truncated else throw .malformed

/-- The character of an escape by code units: one unit, or a leading and a trailing surrogate. -/
def unicodeEscape : Scan Char := do
  let unit ← hexUnit
  if 0xDC00 ≤ unit ∧ unit ≤ 0xDFFF then throw .malformed
  if 0xD800 ≤ unit ∧ unit ≤ 0xDBFF then
    word ['\\', 'u']
    let low ← hexUnit
    if 0xDC00 ≤ low ∧ low ≤ 0xDFFF then
      return Char.ofNat (0x10000 + (unit - 0xD800) * 0x400 + (low - 0xDC00))
    else throw .malformed
  else return Char.ofNat unit

/-- The character after a backslash. -/
def escaped : Scan Char := do
  match ← next with
  | '"' => return '"'
  | '\\' => return '\\'
  | '/' => return '/'
  | 'b' => return '\x08'
  | 'f' => return '\x0c'
  | 'n' => return '\n'
  | 'r' => return '\r'
  | 't' => return '\t'
  | 'u' => unicodeEscape
  | _ => throw .malformed

/-- The characters up to the closing quote, by at most `fuel` steps of one character each. -/
def characters : (fuel : Nat) → Scan (List Char)
  | 0 => throw .truncated
  | fuel + 1 => do
    match ← next with
    | '"' => return []
    | '\\' => do
      let c ← escaped
      return c :: (← characters fuel)
    | c => do
      if c.toNat < 0x20 then throw .malformed
      return c :: (← characters fuel)

/-- A string, from its opening quote. -/
def string : Scan String := do
  skip
  let text ← get
  return String.ofList (← characters (text.length + 1))

end Scan

end ShapeInference.Json
