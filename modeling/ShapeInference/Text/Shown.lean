import ShapeInference.Text.Printable

/-!
# Strings shown in diagnostics

A string is shown in quotes, on one line and without characters that a reader would not see:
those are written by their number in braces.
-/

namespace ShapeInference.Shown

/-- How a character is shown. -/
def character (c : Char) : List Char :=
  match c with
  | '\x00' => ['\\', '0']
  | '\t' => ['\\', 't']
  | '\r' => ['\\', 'r']
  | '\n' => ['\\', 'n']
  | '"' => ['\\', '"']
  | '\\' => ['\\', '\\']
  | c =>
    if isPrintable c then [c]
    else '\\' :: 'u' :: '\x7b' :: (Nat.toDigits 16 c.toNat ++ ['\x7d'])

/-- How a string is shown. -/
def string (s : String) : String :=
  String.ofList ('"' :: (s.toList.flatMap character ++ ['"']))

end ShapeInference.Shown
