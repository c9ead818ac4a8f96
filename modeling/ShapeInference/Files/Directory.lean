import ShapeInference.Files.Basic

/-!
# Directories as values

A directory tree held as a value, and the file system over it. The root holds the working
directory and whatever is put beside it.

## Implementation notes

A path is followed name by name. A `Place` is what has been reached, together with all that was
passed, so that it can be left upwards and the whole tree can be put together again after a change.
-/

namespace ShapeInference

/-- A file with its text, or a directory with what lies in it, sorted by name. -/
inductive FileTree where
  | file (text : String)
  | directory (entries : List (String × FileTree))

namespace FileTree

/-- The directory with nothing in it. -/
def empty : FileTree := directory []

/-- The name of the working directory in the root. As a dot in a path stays where it is, no path
spells this name. -/
def workingName : String := "."

/-- The root of a tree whose working directory is empty. -/
def initial : FileTree := directory [(workingName, empty)]

/-- What lies in a directory. -/
def entries : FileTree → Bindings FileTree
  | file _ => []
  | directory entries => entries

/-- Whether this is a file or a directory. -/
def kind : FileTree → EntryKind
  | file _ => .file
  | directory _ => .directory

/-- A tree seen from a place in it: what lies there, and the directories above it, the nearest
first, each with the name that leads down. -/
structure Place where
  here : FileTree
  above : List (Bindings FileTree × String)

namespace Place

/-- The place under a name, where a given tree lies from now on. -/
def down (place : Place) (name : String) (tree : FileTree) : Place :=
  ⟨tree, (place.here.entries, name) :: place.above⟩

/-- The place above. The root lies above itself. -/
def up (place : Place) : Place :=
  match place.above with
  | [] => place
  | (entries, name) :: above => ⟨directory (entries.setSorted name place.here), above⟩

/-- The whole tree. -/
def root (place : Place) : FileTree :=
  place.above.foldl (fun tree level => directory (level.1.setSorted level.2 tree)) place.here

/-- What lies under a name in the directory at a place. -/
def entry? (place : Place) (name : String) : Except FileFault (Option FileTree) :=
  match place.here with
  | file _ => .error .notADirectory
  | directory entries =>
    if FileName.maxNameSize < name.utf8ByteSize then .error .nameTooLong
    else .ok (Bindings.get? entries name)

/-- Follows one piece of a path. Only from a directory does any piece lead on, also one that is
empty or a dot. -/
def step (place : Place) (piece : String) : Except FileFault Place := do
  let found ← place.entry? piece
  if piece = "" ∨ piece = "." then return place
  else if piece = ".." then return place.up
  else
    match found with
    | some tree => return place.down piece tree
    | none => throw .notFound

/-- Follows the pieces of a path. -/
def follow (place : Place) (pieces : List String) : Except FileFault Place :=
  pieces.foldlM step place

end Place

/-- The place where a path starts. -/
def start (tree : FileTree) (path : String) : Place :=
  let root : Place := ⟨tree, []⟩
  if FileName.isAbsolute path then root
  else root.down workingName ((tree.entries.get? workingName).getD empty)

/-- The tree at the end of a path. -/
def at? (tree : FileTree) (path : String) : Except FileFault FileTree := do
  FileName.check path
  return (← (tree.start path).follow (FileName.split path)).here

/-- Where a path puts something new: in the directory before its last name, under that name. There
is no such name if the path ends in dots or is the root, so that what it leads to is a directory. -/
def site (tree : FileTree) (path : String) : Except FileFault (Place × Option String) := do
  FileName.check path
  match (FileName.split path).reverse.dropWhile (· = "") with
  | [] => return (tree.start path, none)
  | last :: before =>
    -- the dot leads on from a directory only
    let place ← (tree.start path).follow (before.reverse ++ ["."])
    return (place, if last = "." ∨ last = ".." then none else some last)

/-- The text of the file at a path. -/
def read (tree : FileTree) (path : String) : Except FileFault String := do
  match ← tree.at? path with
  | file text => return text
  | directory _ => throw .isADirectory

/-- What a path leads to, if anything. -/
def kind? (tree : FileTree) (path : String) : Option EntryKind :=
  (tree.at? path).toOption.map kind

/-- The names in the directory at a path. -/
def names (tree : FileTree) (path : String) : List String :=
  match tree.at? path with
  | .ok found => found.entries.names.filter (· ≠ workingName)
  | .error _ => []

/-- Puts a text into the file at a path. A path that ends in a slash names no file. -/
def write (tree : FileTree) (path text : String) : Except FileFault FileTree := do
  match ← tree.site path with
  | (_, none) => throw .isADirectory
  | (place, some name) =>
    if FileName.namesDirectory path then throw .isADirectory
    match ← place.entry? name with
    | some (directory _) => throw .isADirectory
    | _ => return (place.down name (file text)).root

/-- Creates the directory at a path in the one above it. -/
def addDirectory (tree : FileTree) (path : String) : Except FileFault FileTree := do
  match ← tree.site path with
  | (_, none) => throw .alreadyExists
  | (place, some name) =>
    match ← place.entry? name with
    | some _ => throw .alreadyExists
    | none => return (place.down name empty).root

/-- Creates the directory at a path, after creating those above that are missing, at most `fuel` of
them. A fault does not matter if the path leads to a directory anyway. -/
def addDirectories : (fuel : Nat) → FileTree → String → Except FileFault FileTree
  | 0, _, _ => .error .notFound
  | fuel + 1, tree, path =>
    if path = "" then .ok tree
    else
      let excuse (tree : FileTree) (fault : FileFault) : Except FileFault FileTree :=
        if tree.kind? path = some .directory then .ok tree else .error fault
      match tree.addDirectory path with
      | .ok changed => .ok changed
      | .error .notFound => do
        let tree ← addDirectories fuel tree ((FileName.parent? path).getD "")
        tryCatch (tree.addDirectory path) (excuse tree)
      | .error fault => excuse tree fault

/-- Creates the directory at a path with all above it. -/
def createDirectory (tree : FileTree) (path : String) : Except FileFault FileTree :=
  addDirectories (path.length + 1) tree path

/-- Adds a file with all directories above it. A path that cannot hold a file adds nothing. -/
def addFile (tree : FileTree) (path text : String) : FileTree :=
  let added := do (← tree.createDirectory ((FileName.parent? path).getD "")).write path text
  added.toOption.getD tree

/-- The tree whose working directory holds files given by path and text. -/
def ofFiles (files : List (String × String)) : FileTree :=
  files.foldl (fun tree entry => tree.addFile entry.1 entry.2) initial

/-- Replaces a tree by the result of an operation on it, unless that fails. -/
def update (operation : FileTree → Except FileFault FileTree) :
    StateM FileTree (Except FileFault Unit) := fun tree =>
  match operation tree with
  | .ok changed => (.ok (), changed)
  | .error fault => (.error fault, tree)

end FileTree

/-- The file system over a tree. -/
def FileSystem.ofTree : FileSystem (StateM FileTree) where
  read path := return (← get).read path
  kind? path := return (← get).kind? path
  names path := return (← get).names path
  createDirectory path := FileTree.update (·.createDirectory path)
  write path text := FileTree.update (·.write path text)

end ShapeInference
