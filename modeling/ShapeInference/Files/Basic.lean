import ShapeInference.OrderedMap

/-!
# Files

What the command line needs of a file system: reading and writing texts, creating directories and
finding out what lies where. Paths are texts; a relative one starts at the working directory.
-/

namespace ShapeInference

/-- Why an operation on a file fails. -/
inductive FileFault where
  | notFound
  | isADirectory
  | notADirectory
  | alreadyExists
  /-- A name or the path as a whole has too many bytes. -/
  | nameTooLong
  /-- The path holds a zero byte, which ends it for the system. -/
  | zeroByte
  /-- Any other reason, in words. -/
  | other (reason : String)
deriving DecidableEq, Repr

/-- The fault in words. -/
def FileFault.message : FileFault → String
  | notFound => "no such file or directory"
  | isADirectory => "is a directory"
  | notADirectory => "not a directory"
  | alreadyExists => "file exists"
  | nameTooLong => "file name too long"
  | zeroByte => "file name contains a zero byte"
  | other reason => reason

/-- Why a pattern of paths gives none. -/
inductive GlobFault where
  /-- The text is no pattern. -/
  | malformed
  /-- Something on the way cannot be looked into. -/
  | unreadable (path : String) (fault : FileFault)
deriving DecidableEq, Repr

/-- What a path can lead to. -/
inductive EntryKind where
  | file
  | directory
deriving DecidableEq, Repr

/-- The operations of a file system. -/
structure FileSystem (m : Type → Type) where
  /-- The text of a file. -/
  read : String → m (Except FileFault String)
  /-- What a path leads to, if anything. -/
  kind? : String → m (Option EntryKind)
  /-- The names in a directory in order; none where no directory is. -/
  names : String → m (List String)
  /-- Creates a directory with all above it. -/
  createDirectory : String → m (Except FileFault Unit)
  /-- Puts a text into a file. -/
  write : String → String → m (Except FileFault Unit)

/-- Whether a path leads to a directory. -/
def FileSystem.isDirectory {m : Type → Type} [Monad m] (files : FileSystem m) (path : String) :
    m Bool :=
  return (← files.kind? path) = some .directory

namespace FileName

/-- The most bytes that a name can have. -/
def maxNameSize : Nat := 255

/-- The most bytes that a path can have. -/
def maxPathSize : Nat := 4095

/-- Refuses a path that the system does not even begin to follow. -/
def check (path : String) : Except FileFault Unit :=
  if path.toList.contains '\x00' then .error .zeroByte
  else if path = "" then .error .notFound
  else if maxPathSize < path.utf8ByteSize then .error .nameTooLong
  else .ok ()

/-- The pieces of a path between slashes. -/
def split (path : String) : List String :=
  let rec go : List Char → List Char × List String
    | [] => ([], [])
    | c :: rest =>
      let (piece, more) := go rest
      if c = '/' then ([], String.ofList piece :: more) else (c :: piece, more)
  let (first, more) := go path.toList
  String.ofList first :: more

/-- Whether a path starts at the root of the file system. -/
def isAbsolute (path : String) : Bool :=
  path.toList.head? == some '/'

/-- Whether a path ends in a slash and so names a directory. -/
def namesDirectory (path : String) : Bool :=
  path.toList.getLast? == some '/'

/-- A path and a name below it. -/
def append (path name : String) : String :=
  if namesDirectory path then path ++ name else path ++ "/" ++ name

/-- Whether a path names the working directory by dots alone. -/
def isHere (path : String) : Bool :=
  match split path with
  | first :: rest => first == "." && rest.all fun piece => piece == "." || piece == ""
  | [] => false

/-- A name below a path, written without the working directory. -/
def join (path name : String) : String :=
  if isHere path then name else append path name

/-- The directory that holds the last name of a path, written as far as the path writes it; none
where there is no name. -/
def parent? (path : String) : Option String :=
  let trim (pieces : List String) := pieces.dropWhile fun piece => piece == "" || piece == "."
  match split path with
  | [] => none
  | first :: rest =>
    match trim rest.reverse with
    | [] => if first = "" then none else some ""
    | _ :: above =>
      match trim above with
      | [] => some (if first = "" then "/" else first)
      | above => some ("/".intercalate (first :: above.reverse))

end FileName

end ShapeInference
