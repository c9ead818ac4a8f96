import ShapeInference.Command.Cause
import ShapeInference.Command.Request

/-!
# Documents

What commands load: a configuration, and the schemas of all files that their arguments name. The
first failure ends the loading.

## Implementation notes

The files and the languages of texts, patterns and filters are not settled here but come with an
`Environment`. Patterns and filters may look at anything outside, so they are actions like the
operations on files.
-/

namespace ShapeInference.Command

/-- What commands work with. -/
structure Environment (m : Type → Type) where
  files : FileSystem m
  /-- The value that a JSON text spells. -/
  readJson : String → Except Json.Fault Json
  /-- The paths that a pattern matches, in order. -/
  glob : String → m (Except GlobFault (List String))
  /-- The results of a filter, given by its text, on a value: each a text, or a failure. -/
  runFilter : String → Json → m (Except FilterFault (List (Option String)))

/-- A schema with the name it has in diagnostics. -/
structure Document where
  label : String
  schema : Schema

variable {m : Type → Type} [Monad m]

/-- The rulebook that the sources configure. -/
def loadRulebook (files : FileSystem m) : Option String → ExceptT Causes m Rulebook
  | none => return Rulebook.builtin
  | some file => ExceptT.mk do
    let text := during (.loadConfig file) (fun e => [.readConfig file e, .file e])
      (← files.read file)
    return do
      let config ← during (.loadConfig file) (fun e => [.badConfig e]) (Config.ofText (← text))
      return config.rulebook

/-- Whether an argument is a pattern. -/
def isPattern (argument : String) : Bool :=
  argument.toList.any fun c => c == '*' || c == '?' || c == '[' || c == '\x7b'

/-- The files that an argument names: itself, or all that match it as a pattern. -/
def expand (env : Environment m) (argument : String) : ExceptT Causes m (List String) :=
  if isPattern argument then ExceptT.mk do
    match ← env.glob argument with
    | .error fault => return .error [.expandInputs, .glob fault]
    | .ok [] => return .error [.expandInputs, .noMatch argument]
    | .ok paths => return .ok paths
  else return [argument]

/-- The text of a file. -/
def readText (env : Environment m) (file : String) : ExceptT Causes m String := ExceptT.mk do
  return during (.readFile file) (fun e => [.file e]) (← env.files.read file)

/-- The values that a filter selects from that of a file. Its results are read again as texts. -/
def select (env : Environment m) (filter file : String) (value : Json) :
    ExceptT Causes m (List Json) := ExceptT.mk do
  let results ← env.runFilter filter value
  return during (.filterFile file) id do
    let texts ← results.mapError fun e => [.filter e]
    texts.mapM fun
      | some text => (env.readJson text).mapError fun e => [.notJson text, .json e]
      | none => throw [.filter .failed]

/-- The name of a document: its file, with the number of the document if there are several. -/
def label (file : String) (count index : Nat) : String :=
  if count > 1 then s!"{file}#{index}" else file

/-- The documents that the values of a file spell. -/
def documentsOf (file : String) (values : List Json) : Except Causes (List Document) :=
  values.zipIdx.mapM fun (value, index) => do
    let label := label file values.length index
    let schema ← during (.badSchema label) (fun e => [.schema e]) (Schema.ofJson value)
    return ⟨label, schema⟩

/-- The documents of a file: its value, or those that the filter selects. -/
def loadFile (env : Environment m) (filter : Option String) (file : String) :
    ExceptT Causes m (List Document) := do
  let text ← readText env file
  let value ← during (.parseFile file) (fun e => [.json e]) (env.readJson text)
  let values ← match filter with
    | none => pure [value]
    | some filter => select env filter file value
  liftM (documentsOf file values)

/-- The documents that the sources name. All patterns are expanded before any file is read. -/
def loadDocuments (env : Environment m) (sources : Sources) : ExceptT Causes m (List Document) := do
  let paths ← sources.inputs.mapM (expand env)
  let batches ← paths.flatten.mapM (loadFile env sources.filter)
  return batches.flatten

end ShapeInference.Command
