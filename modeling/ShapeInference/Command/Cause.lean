import ShapeInference.Config.Reader
import ShapeInference.Files.Basic
import ShapeInference.Filter.Fault
import ShapeInference.Schema

/-!
# Causes of failure

What ends a command early is told as a chain of causes, from what was attempted to why it failed.
Faults that belong to files, JSON texts, filters and patterns get their words from a `Wording`.
-/

namespace ShapeInference.Command

/-- One link in a chain of causes. -/
inductive Cause where
  | loadConfig (file : String)
  | readConfig (file : String) (fault : FileFault)
  | badConfig (fault : ConfigFault)
  | expandInputs
  | glob (fault : GlobFault)
  | noMatch (pattern : String)
  | readFile (file : String)
  | parseFile (file : String)
  | filterFile (file : String)
  /-- A filter gave a text that is not JSON. -/
  | notJson (text : String)
  | badSchema (label : String)
  | noSchemas
  | createDirectory (path : String)
  | writeOutput (path : String)
  | file (fault : FileFault)
  | json (fault : Json.Fault)
  | filter (fault : FilterFault)
  | schema (fault : SchemaFault)
deriving DecidableEq, Repr

/-- Causes, the outermost first. -/
abbrev Causes := List Cause

/-- How the faults of files, of texts, of filters and of patterns are worded. -/
structure Wording where
  file : FileFault → String
  json : Json.Fault → String
  configText : String
  filter : FilterFault → String
  pattern : String

/-- The wording for people. -/
def Wording.plain : Wording where
  file := FileFault.message
  json
    | .truncated => "the text ends inside a JSON value"
    | .malformed => "the text is not JSON"
  configText := "the text is not JSON of the expected form"
  filter
    | .malformed => "the filter is malformed"
    | .undefined => "the filter calls an unknown function"
    | .failed => "the filter fails on the value"
  pattern := "the glob pattern is malformed"

/-- A cause in words. -/
def Cause.message (w : Wording) : Cause → String
  | .loadConfig path => s!"failed to load config {path}"
  | .readConfig path fault => s!"failed to read {path}: {w.file fault}"
  | .badConfig .text => s!"invalid config: {w.configText}"
  | .badConfig (.data steps fault) =>
    s!"invalid config at JSON path {Step.pathText steps}: {fault.message}"
  | .expandInputs => "failed to resolve input file paths"
  | .glob .malformed => w.pattern
  | .glob (.unreadable path fault) =>
    s!"attempting to read `{path}` resulted in an error: {w.file fault}"
  | .noMatch text => s!"glob pattern matched no files: {text}"
  | .readFile path => s!"failed to read source file ({path})"
  | .parseFile path => s!"failed to parse JSON source file ({path})"
  | .filterFile path => s!"failed to apply jq expression to ({path})"
  | .notJson text => s!"jq produced a non-JSON value: {text}"
  | .badSchema label => s!"invalid schema document ({label})"
  | .noSchemas => "no schemas to check"
  | .createDirectory path => s!"failed to create {path}"
  | .writeOutput path => s!"failed to write {path}"
  | .file fault => w.file fault
  | .json fault => w.json fault
  | .filter fault => w.filter fault
  | .schema fault => fault.message

/-- Adds a cause in front of those of a failure. -/
def during {ε α : Type} (attempted : Cause) (causes : ε → Causes) (result : Except ε α) :
    Except Causes α :=
  result.mapError fun e => attempted :: causes e

end ShapeInference.Command
