import ShapeInference.Command.Run

/-!
# The program

Carries out the request of the command line on the real file system.
-/

namespace ShapeInference

/-- The fault that an error of the system stands for. -/
def FileFault.ofError : IO.Error → FileFault
  | .noFileOrDirectory .. => notFound
  | .inappropriateType _ code _ => if code = 20 then notADirectory else isADirectory
  | .alreadyExists .. => alreadyExists
  | error => other error.toString

/-- Runs an operation on a file and keeps its failure as a value. -/
def attempt {α : Type} (operation : IO α) : IO (Except FileFault α) := do
  match ← operation.toBaseIO with
  | .ok value => return .ok value
  | .error error => return .error (.ofError error)

/-- What a path leads to, if anything. -/
def entryKind? (path : String) : IO (Option EntryKind) := do
  let place := (← IO.currentDir) / path
  if path = "" then return none
  else if ← place.isDir then return some .directory
  else if ← place.pathExists then return some .file
  else return none

/-- The names in a directory in order; none where no directory is. -/
def namesIn (path : String) : IO (List String) := do
  if (← entryKind? path) = some .directory then
    let found ← ((← IO.currentDir) / path).readDir
    return (found.toList.map (·.fileName)).mergeSort fun a b => decide (a ≤ b)
  else return []

/-- The file system of the machine. -/
def FileSystem.real : FileSystem IO where
  read path := attempt (IO.FS.readFile path)
  kind? := entryKind?
  names := namesIn
  createDirectory path := attempt (IO.FS.createDirAll path)
  write path text := attempt (IO.FS.writeFile path text)

namespace Command

/-- How the program is called. -/
def usage : String :=
  "derive the shape of validated request data from flat validation-rule schemas\n\n" ++
  "usage: rule-shape infer [--config FILE] [--jq-expr FILTER] -i INPUT... " ++
  "[--format json|type] [-o FILE]\n" ++
  "       rule-shape check [--config FILE] [--jq-expr FILTER] -i INPUT...\n"

/-- What is wrong with the arguments, in words. -/
def UsageFault.message : UsageFault → String
  | noArguments => "a command is expected"
  | help => "help"
  | version => "version"
  | unknownCommand => "unknown command"
  | unknownArgument => "unexpected argument"
  | unneededValue => "a flag is given a value"
  | invalidValue => "an option has a bad value or none"
  | missingInput => "an input is expected"
  | repeatedOption => "an option is given twice"

end Command

end ShapeInference

open ShapeInference Command in
/-- Runs the program: 0 if all schemas are sound, 1 if not, 2 if the arguments are no request. -/
def main (arguments : List String) : IO UInt32 := do
  match Request.ofArguments arguments with
  | .error .help =>
    IO.print usage
    return 0
  | .error .version =>
    IO.println "rule-shape 0.1.0"
    return 0
  | .error fault =>
    IO.eprint s!"error: {fault.message}\n\n{usage}"
    return 2
  | .ok request =>
    let outcome ← run FileSystem.real request
    IO.print outcome.stdout
    IO.eprint outcome.stderr
    match outcome.result with
    | .ok succeeded => return if succeeded then 0 else 1
    | .error causes =>
      IO.eprintln ("error: " ++ ": ".intercalate (causes.map (Cause.message .plain)))
      return 1
