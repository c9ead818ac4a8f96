import ShapeInference.Binary64.Shortest
import ShapeInference.Json.Basic

/-!
# JSON text

Compact and indented spellings of values. Strings escape the quote, the backslash and control
characters only. Doubles are written with the fewest digits that read back, positionally when
their leading digit stands between the fifth decimal and the sixteenth place, and always with a
fraction or an exponent, so that they differ from integers.
-/

namespace ShapeInference

namespace Decimal

/-- Digits after a decimal point placed `point` digits into them, with zeros where the point lies
outside. -/
def positional (digits : List Char) (point : Int) : List Char :=
  if point ≤ 0 then
    '0' :: '.' :: (List.replicate (-point).toNat '0' ++ digits)
  else if digits.length ≤ point.toNat then
    digits ++ List.replicate (point.toNat - digits.length) '0' ++ ['.', '0']
  else
    digits.take point.toNat ++ '.' :: digits.drop point.toNat

/-- One digit before the point, the others after it, and a signed exponent. -/
def scientific (digits : List Char) (exponent : Int) : List Char :=
  let fraction := match digits.drop 1 with
    | [] => []
    | rest => '.' :: rest
  let sign := if exponent < 0 then '-' else '+'
  digits.take 1 ++ fraction ++ 'e' :: sign :: Nat.toDigits 10 exponent.natAbs

/-- Positional from `10^-5` up to below `10^16`, scientific outside. -/
def text (d : Decimal) : List Char :=
  let digits := Nat.toDigits 10 d.digits
  let point := digits.length + d.exponent
  if -5 < point ∧ point ≤ 16 then positional digits point else scientific digits (point - 1)

end Decimal

/-- The text of a double. -/
def Binary64.text (x : Binary64) : String :=
  let size := if x.magnitude = 0 then ['0', '.', '0'] else (shortest x.magnitude).text
  String.ofList (if x.negative then '-' :: size else size)

/-- The text of a number. -/
def Number.text : Number → String
  | integer i => toString i
  | double x => x.text

namespace Json

/-- The four lower-case hexadecimal digits of a control character after `\u`. -/
def hexDigits (code : Nat) : List Char :=
  ['0', '0', Nat.digitChar (code / 16), Nat.digitChar (code % 16)]

/-- How one character is written inside quotes. -/
def escape (c : Char) : List Char :=
  match c with
  | '"' => ['\\', '"']
  | '\\' => ['\\', '\\']
  | '\x08' => ['\\', 'b']
  | '\x0c' => ['\\', 'f']
  | '\n' => ['\\', 'n']
  | '\r' => ['\\', 'r']
  | '\t' => ['\\', 't']
  | c => if c.toNat < 0x20 then '\\' :: 'u' :: hexDigits c.toNat else [c]

/-- A string in quotes. -/
def quote (s : String) : String :=
  String.ofList ('"' :: (s.toList.flatMap escape ++ ['"']))

mutual

/-- A value on one line without blanks. -/
def compact : Json → String
  | null => "null"
  | bool true => "true"
  | bool false => "false"
  | number n => n.text
  | string s => quote s
  | array elements => "[" ++ ",".intercalate (compactElements elements) ++ "]"
  | object members => "\x7b" ++ ",".intercalate (compactMembers members) ++ "\x7d"

/-- The elements of an array, each on one line. -/
def compactElements : List Json → List String
  | [] => []
  | v :: rest => compact v :: compactElements rest

/-- The members of an object, each as a quoted name, a colon and a value. -/
def compactMembers : List (String × Json) → List String
  | [] => []
  | (name, v) :: rest => (quote name ++ ":" ++ compact v) :: compactMembers rest

end

/-- Items on lines of their own, two blanks deeper than the brackets around them. -/
def block (opening closing : String) (depth : Nat) (items : List String) : String :=
  match items with
  | [] => opening ++ closing
  | items =>
    let newline (n : Nat) := "\n" ++ String.ofList (List.replicate (2 * n) ' ')
    opening ++ newline (depth + 1) ++ ("," ++ newline (depth + 1)).intercalate items ++
      newline depth ++ closing

mutual

/-- A value at a nesting depth, with one element or member a line. -/
def indented (depth : Nat) : Json → String
  | array elements => block "[" "]" depth (indentedElements (depth + 1) elements)
  | object members => block "\x7b" "\x7d" depth (indentedMembers (depth + 1) members)
  | null => "null"
  | bool true => "true"
  | bool false => "false"
  | number n => n.text
  | string s => quote s

/-- The elements of an array at a nesting depth. -/
def indentedElements (depth : Nat) : List Json → List String
  | [] => []
  | v :: rest => indented depth v :: indentedElements depth rest

/-- The members of an object at a nesting depth. -/
def indentedMembers (depth : Nat) : List (String × Json) → List String
  | [] => []
  | (name, v) :: rest =>
    (quote name ++ ": " ++ indented depth v) :: indentedMembers depth rest

end

/-- A value with one element or member a line. -/
def pretty (value : Json) : String :=
  indented 0 value

end Json

end ShapeInference
