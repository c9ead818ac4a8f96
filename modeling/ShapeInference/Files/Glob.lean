import ShapeInference.Files.Basic

/-!
# Glob patterns

A pattern names files by wildcards: `*` for any characters of a name, `?` for one, brackets for
one of a class, and `**` as a whole name for any number of directories. Other names stand for
themselves and are followed without looking at what else lies beside them.

Matches come depth first, a directory before what lies in it, and the entries of a directory in
the order of their names.
-/

namespace ShapeInference.Glob

/-- A character, or a range of them with both ends. -/
inductive ClassItem where
  | single (c : Char)
  | range (first last : Char)
deriving DecidableEq, Repr

/-- A piece of a pattern for one name. -/
inductive Token where
  | char (c : Char)
  | anyChar
  | anySequence
  | within (items : List ClassItem)
  | except (items : List ClassItem)
deriving DecidableEq, Repr

/-- A pattern for the names at one level. -/
inductive Component where
  /-- A name that stands for itself. -/
  | literal (name : String)
  /-- A name with wildcards. -/
  | pattern (tokens : List Token)
  /-- Any number of directories. -/
  | recursive
deriving DecidableEq, Repr

/-- The items of a class. -/
def classItems : List Char → List ClassItem
  | first :: '-' :: last :: rest => .range first last :: classItems rest
  | c :: rest => .single c :: classItems rest
  | [] => []

/-- Splits characters at the first closing bracket, which may not stand at the very front. -/
def splitClass : List Char → Option (List Char × List Char)
  | [] => none
  | c :: rest =>
    let inside := rest.takeWhile (· ≠ ']')
    match rest.drop inside.length with
    | _ :: after => some (c :: inside, after)
    | [] => none

/-- The class behind an opening bracket, and what follows it. -/
def characterClass : List Char → Option (Token × List Char)
  | '!' :: rest => do
    let (inside, after) ← splitClass rest
    return (.except (classItems inside), after)
  | text => do
    let (inside, after) ← splitClass text
    return (.within (classItems inside), after)

/-- The tokens of a name with wildcards, by at most `fuel` of them. Two stars in a row are no
token, and neither is an unclosed bracket. -/
def tokens : (fuel : Nat) → List Char → Option (List Token)
  | 0, _ => some []
  | _, [] => some []
  | fuel + 1, '?' :: rest => return .anyChar :: (← tokens fuel rest)
  | _ + 1, '*' :: '*' :: _ => none
  | fuel + 1, '*' :: rest => return .anySequence :: (← tokens fuel rest)
  | fuel + 1, '[' :: rest => do
    let (token, after) ← characterClass rest
    return token :: (← tokens fuel after)
  | fuel + 1, c :: rest => return .char c :: (← tokens fuel rest)

/-- The component that a name of a pattern spells. -/
def component (name : String) : Option Component := do
  if name = "**" then return .recursive
  let ts ← tokens name.toList.length name.toList
  let literal? := ts.mapM fun
    | .char c => some c
    | _ => none
  match literal? with
  | some cs => return .literal (String.ofList cs)
  | none => return .pattern ts

/-- A pattern: its components, and whether only directories match. -/
structure Pattern where
  isAbsolute : Bool
  components : List Component
  directoriesOnly : Bool

/-- Any number of directories, said several times in a row, is said once. -/
def collapse : List Component → List Component
  | .recursive :: rest =>
    match collapse rest with
    | .recursive :: more => .recursive :: more
    | more => .recursive :: more
  | c :: rest => c :: collapse rest
  | [] => []

/-- The pattern that a text spells. -/
def parse (text : String) : Option Pattern := do
  let isAbsolute := FileName.isAbsolute text
  let names := if isAbsolute then (FileName.split text).drop 1 else FileName.split text
  let directoriesOnly := FileName.namesDirectory text
  let components ← (if directoriesOnly then names.dropLast else names).mapM component
  return ⟨isAbsolute, collapse components, directoriesOnly⟩

namespace ClassItem

/-- Whether a character is among those of an item. -/
def contains (c : Char) : ClassItem → Bool
  | single d => c == d
  | range first last => decide (first ≤ c ∧ c ≤ last)

end ClassItem

/-- Whether a token stands for a character by itself. -/
def Token.covers (c : Char) : Token → Bool
  | char d => c == d
  | anyChar => true
  | anySequence => false
  | within items => items.any (·.contains c)
  | except items => !items.any (·.contains c)

/-- What can remain of a text when some of it is taken from the front, the longest first. -/
def rests : List Char → List (List Char)
  | [] => [[]]
  | c :: text => (c :: text) :: rests text

/-- What can remain of a text after a token, given what can remain before it, the longest first. A
star takes any part of the longest, of which all others are ends. -/
def advance (remaining : List (List Char)) : Token → List (List Char)
  | .anySequence =>
    match remaining with
    | [] => []
    | longest :: _ => rests longest
  | token => remaining.filterMap fun
    | [] => none
    | c :: text => if token.covers c then some text else none

/-- Whether a name has the form of tokens. -/
def matchesName (tokens : List Token) (name : List Char) : Bool :=
  (tokens.foldl advance [name]).any List.isEmpty

namespace Component

/-- Whether the name of an entry matches. -/
def accepts (name : String) : Component → Bool
  | literal s => s == name
  | pattern ts => matchesName ts name.toList
  | recursive => true

end Component

section Selection

variable {m : Type → Type} [Monad m] (files : FileSystem m)

/-- Whether a name that stands for itself leads on from a path. Dots do so from any directory. -/
def leadsOn (path name : String) : m Bool :=
  if name = "." ∨ name = ".." then files.isDirectory path
  else return (← files.kind? (FileName.join path name)).isSome

/-- Visits what lies below a path down to a number of levels, depth first, a directory before what
lies in it. -/
def below (visit : (name path : String) → m (List String)) :
    (levels : Nat) → (path : String) → m (List String)
  | 0, _ => return []
  | levels + 1, path => do
    let found ← (← files.names path).mapM fun name => do
      let here := FileName.join path name
      return (← visit name here) ++ (← below visit levels here)
    return found.flatten

/-- The paths that components select from a path on. The names `.` and `..` match only a pattern
that starts with a dot. No path is long enough to have more names than bytes, which bounds the
levels to visit. -/
def select (directoriesOnly : Bool) : List Component → (path : String) → m (List String)
  | [], path => do
    if directoriesOnly then return if ← files.isDirectory path then [path] else []
    return [path]
  | .literal name :: rest, path => do
    if ← leadsOn files path name then select directoriesOnly rest (FileName.join path name)
    else return []
  | .pattern ts :: rest, path => do
    if !(← files.isDirectory path) then return []
    let dots := if ts.head? = some (.char '.') then ["..", "."] else []
    let children := dots.map (fun name => (name, FileName.append path name)) ++
      (← files.names path).map fun name => (name, FileName.join path name)
    let found ← (children.filter fun child => matchesName ts child.1.toList).mapM fun child =>
      select directoriesOnly rest child.2
    return found.flatten
  | [.recursive], path =>
    below files (fun _ here => return if ← files.isDirectory here then [here] else [])
      FileName.maxPathSize path
  | .recursive :: c :: rest, path =>
    below files (fun name here => if c.accepts name then select directoriesOnly rest here
      else return []) FileName.maxPathSize path

/-- The paths that match a pattern. -/
def Pattern.paths (pattern : Pattern) : m (List String) :=
  select files pattern.directoriesOnly pattern.components (if pattern.isAbsolute then "/" else ".")

end Selection

end ShapeInference.Glob
