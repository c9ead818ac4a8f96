import ShapeInference.Command.Output
import ShapeInference.Files.Directory
import ShapeInference.Json.Reader
import ShapeInference.Proofs.Bindings
import ShapeInference.Proofs.Command.Documents

/-!
# What is printed for several documents

In JSON, types of several documents are printed as one object with the names of the documents. An
object has each name once, so that of documents with one name only the last is printed, at the
place of the first. No type is lost exactly if all names differ. This is so for every file system
and every reader of patterns, texts and filters.

Main statements: `Command.perform_infer_json`, `Command.perform_infer_json_into` and
`Command.infer_json_members`.
-/

namespace ShapeInference

/-- The text of an object is not empty. -/
theorem Json.pretty_object_ne_empty (members : List (String × Json)) :
    (Json.object members).pretty ≠ "" := by
  have hblock : ∀ items : List String, block "\x7b" "\x7d" 0 items ≠ "" := by
    intro items
    cases items <;> simp [block]
  exact hblock _

namespace Command

/-- The types of the documents that have one, each under the name of its document. -/
def results (rules : Rulebook) (documents : List Document) : Bindings Json :=
  documents.filterMap fun document =>
    (document.schema.infer rules).toOption.map fun type => (document.label, type.toJson)

/-- What is kept of the verdicts is the typed documents, each with the form of its type. -/
theorem results_eq (rules : Rulebook) (documents : List Document) :
    ((documents.map (Document.verdict rules)).filterMap Verdict.typed?).map
      (fun (label, d) => (label, d.toJson)) = results rules documents := by
  rw [List.filterMap_map, List.map_filterMap, results]
  congr 1
  funext document
  exact Option.map_map _ _ _

/-- A type is printed under a name of a document that has it. -/
theorem names_results_sublist (rules : Rulebook) (documents : List Document) :
    (results rules documents).names.Sublist (documents.map Document.label) := by
  induction documents with
  | nil => exact List.Sublist.slnil
  | cons document rest ih =>
      rw [results, List.filterMap_cons, List.map_cons]
      cases (document.schema.infer rules).toOption with
      | none => exact ih.cons _
      | some type => exact ih.cons_cons _

/-- Several documents are printed as one object that is collected from their labelled results. -/
theorem print_json_labelled (rules : Rulebook) {documents : List Document}
    (several : 2 ≤ documents.length) :
    PrintFormat.json.print (decide ((documents.map (Document.verdict rules)).length > 1))
        ((documents.map (Document.verdict rules)).filterMap Verdict.typed?) =
      (Json.object (Bindings.ofPairs (results rules documents))).pretty := by
  have hlabelled : decide ((documents.map (Document.verdict rules)).length > 1) = true := by
    rw [List.length_map]
    exact decide_eq_true several
  rw [← results_eq, hlabelled]
  rfl

section

variable {σ : Type} {env : Environment (StateM σ)} {sources : Sources} {rules : Rulebook}
  {documents : List Document} {start configured loaded : σ}
  (hrules : Gives (loadRulebook env.files sources.config) start rules configured)
  (hdocuments : Gives (loadDocuments env sources) configured documents loaded)

include hrules hdocuments

/-- What is loaded is judged, each document on its own. -/
theorem gives_judge :
    Gives (judge env sources) start (documents.map (Document.verdict rules)) loaded := by
  apply gives_bind_iff.mpr
  refine ⟨rules, configured, hrules, gives_bind_iff.mpr ?_⟩
  exact ⟨documents, loaded, hdocuments, gives_pure_iff.mpr ⟨rfl, rfl⟩⟩

/-- Without an output file the types are printed, with a line break behind them. -/
theorem perform_infer_json (several : 2 ≤ documents.length) :
    (perform env (.infer sources .json none)).run start =
      (.ofVerdicts (documents.map (Document.verdict rules)) (.ok ())
        ((Json.object (Bindings.ofPairs (results rules documents))).pretty ++ "\n"), loaded) := by
  have hjudge : (judge env sources).run.run start =
      (.ok (documents.map (Document.verdict rules)), loaded) := gives_judge hrules hdocuments
  rw [perform, infer, StateT.run_bind, hjudge]
  change (Outcome.ofVerdicts _ _ (if PrintFormat.print _ _ _ = "" then "" else _), loaded) = _
  rw [print_json_labelled rules several, if_neg (Json.pretty_object_ne_empty _)]

/-- With an output file the types are written there. -/
theorem perform_infer_json_into (several : 2 ≤ documents.length) (path : String) :
    (perform env (.infer sources .json (some path))).run start =
      Prod.map (Outcome.ofVerdicts (documents.map (Document.verdict rules)) · "") id
        ((writeOutput env.files path
          (Json.object (Bindings.ofPairs (results rules documents))).pretty).run.run loaded) := by
  have hjudge : (judge env sources).run.run start =
      (.ok (documents.map (Document.verdict rules)), loaded) := gives_judge hrules hdocuments
  rw [← print_json_labelled rules several, perform, infer, StateT.run_bind, hjudge]
  rfl

/-- Types of several documents are printed, or written, as one object, and all defects are
reported. The object has each name among the documents with a type once, in the order in which the
names come first, and under it the last type of that name. No type is lost exactly if no name
repeats, which is so if the files are distinguishable. -/
theorem infer_json_members (several : 2 ≤ documents.length) :
    ∃ members : Bindings Json,
      (perform env (.infer sources .json none)).run start =
        (.ofVerdicts (documents.map (Document.verdict rules)) (.ok ())
          ((Json.object members).pretty ++ "\n"), loaded) ∧
      (∀ path, (perform env (.infer sources .json (some path))).run start =
        Prod.map (Outcome.ofVerdicts (documents.map (Document.verdict rules)) · "") id
          ((writeOutput env.files path (Json.object members).pretty).run.run loaded)) ∧
      members.names = (results rules documents).names.eraseDups ∧
      (∀ name, members.get? name = Bindings.get? (results rules documents).reverse name) ∧
      (members = results rules documents ↔ (results rules documents).names.Nodup) ∧
      ∃ paths between, Gives (sources.inputs.mapM (expand env)) configured paths between ∧
        (Distinguishable paths.flatten → members = results rules documents) := by
  obtain ⟨paths, between, hpaths, hlabels⟩ := nodup_labels_of_loadDocuments hdocuments
  refine ⟨_, perform_infer_json hrules hdocuments several,
    perform_infer_json_into hrules hdocuments several, Bindings.names_ofPairs _,
    Bindings.get?_ofPairs _, Bindings.ofPairs_eq_self_iff, paths, between, hpaths, ?_⟩
  intro hdistinguishable
  apply Bindings.ofPairs_eq_self_iff.mpr
  exact (hlabels hdistinguishable).sublist (names_results_sublist rules documents)

end

/-! ## Directories with names that differ and that do not -/

/-- The text of a file that lists a schema for each of some fields, which has one rule. -/
def schemasText (fields : List (String × String)) : String :=
  (Json.array (fields.map fun (field, rule) =>
    .object [(field, .object [(rule, .bool true)])])).compact

/-- Files that list schemas, with the filter that takes them out. -/
def elementsOf (files : List String) : Sources :=
  ⟨none, some ".[]", files⟩

/-- A directory tree where nothing matches a pattern and one filter is known: it takes the elements
out of an array. -/
def elementwise : Environment (StateM FileTree) where
  files := .ofTree
  readJson := Json.read
  glob _ := return .ok []
  runFilter filter value := return match filter, value with
    | ".[]", .array elements => .ok (elements.map fun element => some element.compact)
    | ".[]", _ => .ok [none]
    | _, _ => .error .undefined

/-- Two files that list three schemas. -/
def apart : FileTree :=
  .ofFiles [("a.json", schemasText [("x", "toInt"), ("y", "trim")]),
    ("b.json", schemasText [("z", "toBoolean")])]

/-- Two files that list three schemas, one of them named like the first document of the other. -/
def lookalike : FileTree :=
  .ofFiles [("a.json", schemasText [("x", "toInt"), ("y", "trim")]),
    ("a.json#0", schemasText [("z", "toBoolean")])]

/-- All documents of distinguishable files are printed. -/
theorem infer_json_members_of_two_files :
    ∃ documents loaded,
      Gives (loadDocuments elementwise (elementsOf ["a.json", "b.json"])) apart documents loaded ∧
      (results .builtin documents).names = ["a.json#0", "a.json#1", "b.json"] ∧
      ((perform elementwise (.infer (elementsOf ["a.json", "b.json"]) .json none)).run
        apart).1.stdout = (Json.object (results .builtin documents)).pretty ++ "\n" := by
  have hfound : ((loadDocuments elementwise (elementsOf ["a.json", "b.json"])).run.run
      apart).1.toOption.map
        (fun documents => (documents.length, (results .builtin documents).names)) =
      some (3, ["a.json#0", "a.json#1", "b.json"]) := by
    decide +kernel
  obtain ⟨documents, hdocuments, hpair⟩ := Option.map_eq_some_iff.mp hfound
  obtain ⟨hlength, hnames⟩ := Prod.mk.inj hpair
  obtain ⟨loaded, hloaded⟩ := exists_gives_of_toOption hdocuments
  have hrules : Gives (loadRulebook elementwise.files (elementsOf ["a.json", "b.json"]).config)
      apart .builtin apart := rfl
  obtain ⟨members, hprinted, -, -, -, -, paths, between, hpaths, hkept⟩ :=
    infer_json_members hrules hloaded (by omega)
  obtain ⟨hnamed, -⟩ : [["a.json"], ["b.json"]] = paths ∧ apart = between :=
    gives_pure_iff.mp hpaths
  have hdistinguishable : Distinguishable paths.flatten :=
    hnamed ▸ distinguishable_of_not_mem (by decide) (by decide)
  refine ⟨documents, loaded, hloaded, hnames, ?_⟩
  rw [hprinted, hkept hdistinguishable]
  rfl

/-- The first document of a file is lost if another file is named like it. -/
theorem not_forall_infer_json_complete :
    ¬ ∀ (start configured loaded : FileTree) (sources : Sources) (rules : Rulebook)
        (documents : List Document),
      Gives (loadRulebook elementwise.files sources.config) start rules configured →
      Gives (loadDocuments elementwise sources) configured documents loaded →
      2 ≤ documents.length →
      ((perform elementwise (.infer sources .json none)).run start).1.stdout =
        (Json.object (results rules documents)).pretty ++ "\n" := by
  intro h
  have hfound : ((loadDocuments elementwise (elementsOf ["a.json", "a.json#0"])).run.run
      lookalike).1.toOption.map
        (fun documents => decide (2 ≤ documents.length ∧
          ((perform elementwise (.infer (elementsOf ["a.json", "a.json#0"]) .json none)).run
            lookalike).1.stdout ≠ (Json.object (results .builtin documents)).pretty ++ "\n")) =
      some true := by
    decide +kernel
  obtain ⟨documents, hdocuments, hlost⟩ := Option.map_eq_some_iff.mp hfound
  obtain ⟨several, hne⟩ := of_decide_eq_true hlost
  obtain ⟨loaded, hloaded⟩ := exists_gives_of_toOption hdocuments
  exact hne (h lookalike lookalike loaded _ .builtin documents rfl hloaded several)

end Command

end ShapeInference
