import ShapeInference.Command.Arguments
import ShapeInference.Command.Output
import ShapeInference.Files.Glob
import ShapeInference.Filter.Reader
import ShapeInference.Json.Reader

/-!
# The command line

Commands with the readers of JSON texts, patterns and filters that come with them. The results of a
filter are handed on as compact JSON.

## Implementation notes

The filters that come with the commands are only a part of jq. What holds of commands holds in every
environment and is not stated for this one.
-/

namespace ShapeInference.Command

variable {m : Type → Type} [Monad m]

/-- The files, with the readers that come with the command line. -/
def Environment.plain (files : FileSystem m) : Environment m where
  files := files
  readJson := Json.read
  glob text := do
    match Glob.parse text with
    | some pattern => return .ok (← pattern.paths files)
    | none => return .error .malformed
  runFilter text value := return do
    let results ← Filter.outputs text value
    return results.map (Option.map Json.compact)

/-- Carries out a request on files. -/
def run (files : FileSystem m) (request : Request) : m Outcome :=
  perform (.plain files) request

end ShapeInference.Command
