import ShapeInference.Command.Documents

/-!
# What commands leave

A command infers the type of each of its documents on its own. Defects of one schema are reported
and do not keep the others from being printed; what cannot be loaded ends the command.
-/

namespace ShapeInference.Command

/-- The result of a schema under its name: its type or its defects. -/
structure Verdict where
  label : String
  result : Except (List Defect) Descriptor

/-- The verdict on a document. -/
def Document.verdict (rules : Rulebook) (document : Document) : Verdict :=
  ⟨document.label, document.schema.infer rules⟩

namespace Verdict

/-- Whether the schema has no defect. -/
def isSound (verdict : Verdict) : Bool :=
  verdict.result.toOption.isSome

/-- The type under its name, if the schema is sound. -/
def typed? (verdict : Verdict) : Option (String × Descriptor) :=
  verdict.result.toOption.map fun type => (verdict.label, type)

/-- The text on a schema with defects. -/
def defectsText (label : String) (defects : List Defect) : String :=
  let plural := if defects.length = 1 then "" else "s"
  s!"error: {label} ({defects.length} error{plural})\n" ++
    String.join (defects.map fun defect => s!"  - {defect.message}\n")

/-- The text on a verdict if it is bad. -/
def complaint (verdict : Verdict) : String :=
  match verdict.result with
  | .error defects => defectsText verdict.label defects
  | .ok _ => ""

/-- The text on a verdict, good or bad. -/
def text (verdict : Verdict) : String :=
  match verdict.result with
  | .error defects => defectsText verdict.label defects
  | .ok _ => s!"ok {verdict.label}\n"

end Verdict

/-- Types in a format. With names, JSON maps each name to its type, a repeated name to the last;
expressions follow their names in a comment. -/
def PrintFormat.print (format : PrintFormat) (labelled : Bool)
    (types : List (String × Descriptor)) : String :=
  match format, labelled with
  | .json, true =>
    (Json.object (Bindings.ofPairs (types.map fun (label, d) => (label, d.toJson)))).pretty
  | .json, false =>
    match types with
    | [] => ""
    | (_, d) :: _ => d.toJson.pretty
  | .type, true => "\n\n".intercalate (types.map fun (label, d) => s!"// {label}\n{d.multiLine}")
  | .type, false => "\n\n".intercalate (types.map fun (_, d) => d.multiLine)

/-- What a command leaves: whether all schemas are sound or why it stopped, and its output. -/
structure Outcome where
  result : Except Causes Bool
  stdout : String
  stderr : String

/-- The outcome of printing or writing: all bad verdicts are reported. -/
def Outcome.ofVerdicts (verdicts : List Verdict) (written : Except Causes Unit) (stdout : String) :
    Outcome :=
  ⟨written.map fun _ => verdicts.all Verdict.isSound, stdout,
    String.join (verdicts.map Verdict.complaint)⟩

variable {m : Type → Type} [Monad m]

/-- The verdicts on the documents that the sources name. -/
def judge (env : Environment m) (sources : Sources) : ExceptT Causes m (List Verdict) := do
  let rules ← loadRulebook env.files sources.config
  let documents ← loadDocuments env sources
  return documents.map (Document.verdict rules)

/-- Writes a text to a file, after creating the directories above it. -/
def writeOutput (files : FileSystem m) (path text : String) : ExceptT Causes m Unit := do
  match FileName.parent? path with
  | some parent =>
    if parent ≠ "" then
      ExceptT.mk do
        return during (.createDirectory parent) (fun e => [.file e])
          (← files.createDirectory parent)
  | none => pure ()
  ExceptT.mk do
    return during (.writeOutput path) (fun e => [.file e]) (← files.write path text)

/-- Prints or writes the types of schemas. -/
def infer (env : Environment m) (sources : Sources) (format : PrintFormat)
    (out : Option String) : m Outcome := do
  match ← (judge env sources).run with
  | .error causes => return ⟨.error causes, "", ""⟩
  | .ok verdicts =>
    let text := format.print (decide (verdicts.length > 1)) (verdicts.filterMap Verdict.typed?)
    match out with
    | none => return .ofVerdicts verdicts (.ok ()) (if text = "" then "" else text ++ "\n")
    | some path => return .ofVerdicts verdicts (← (writeOutput env.files path text).run) ""

/-- Reports on schemas. -/
def check (env : Environment m) (sources : Sources) : m Outcome := do
  match ← (judge env sources).run with
  | .error causes => return ⟨.error causes, "", ""⟩
  | .ok [] => return ⟨.error [.noSchemas], "", ""⟩
  | .ok verdicts =>
    return ⟨.ok (verdicts.all Verdict.isSound), "", String.join (verdicts.map Verdict.text)⟩

/-- Carries out a request. -/
def perform (env : Environment m) : Request → m Outcome
  | .infer sources format out => infer env sources format out
  | .check sources => check env sources

end ShapeInference.Command
