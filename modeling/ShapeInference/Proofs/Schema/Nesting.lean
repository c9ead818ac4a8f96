import ShapeInference.Proofs.Tree.Disagreement
import ShapeInference.Proofs.Tree.Nesting

/-!
# Schemas further down

Where checks are widened on nested fields as on top-level ones, a place in the data is inferred alike
at every depth: a schema whose paths are all put behind another one gives the type of the first
schema, wrapped for the steps of that path, or its defects at the places further down.

Main statements: `Tree.Nests.grow`, `Schema.infer_under_eq` and `Schema.infer_under`.
-/

namespace ShapeInference

/-- The text of a path that is put behind another one. -/
def Path.behind (outer inner : String) : String :=
  outer ++ "." ++ inner

/-- A schema with all paths put behind another one. -/
def Schema.under (schema : Schema) (outer : String) : Schema :=
  schema.map fun entry => (Path.behind outer entry.1, entry.2)

/-- A defect as it is found where all paths are put behind another one. -/
def Defect.under (outer : String) (place : Path) (defect : Defect) : Defect :=
  defect.moved (Path.behind outer) (place.segments.map Segment.text)

/-! ## Reading entries -/

theorem Path.last_append (outer inner : Path) : (outer.append inner).last = inner.last := by
  rw [last, last, append, segments, List.getLast?_append, List.getLast?_cons]
  rfl

theorem Rulebook.widens_position {rules : Rulebook} (h : rules.widenNested = true) (path : Path) :
    rules.widens path.position = !path.last.isEach := by
  rw [Path.position]
  cases path.last with
  | key name =>
      cases path.below with
      | nil => rfl
      | cons step rest => exact h
  | each => rfl

section

variable {rules : Rulebook} (hrules : rules.widenNested = true) {outer : String} {place : Path}
  (houter : Path.parse outer = .ok place)

include hrules houter

/-- An entry that is put behind a path is read as before, only with another path. -/
theorem Entry.read_behind {source : String} {path : Path} (hpath : Path.parse source = .ok path)
    (declaration : Declaration) :
    Entry.read rules (Path.behind outer source) declaration =
      match Entry.read rules source declaration with
      | .ok (path, entry) => .ok (place.append path, entry.mapSource (Path.behind outer))
      | .error defect => .error (defect.under outer place) := by
  have hposition : rules.widens (place.append path).position = rules.widens path.position := by
    rw [Rulebook.widens_position hrules, Rulebook.widens_position hrules, Path.last_append]
  have hbehind : Path.parse (Path.behind outer source) = .ok (place.append path) :=
    Path.parse_append houter hpath
  simp only [Entry.read, hpath, hbehind, Except.mapError, bind, Except.bind,
    rules.fieldType_congr declaration hposition]
  cases rules.fieldType declaration path.position <;> rfl

end

/-- Where a walk is stopped further down, the same two entries disagree. -/
theorem Obstacle.defect_moved (outer : String) (place path : Path) (source : String)
    (obstacle : Obstacle) :
    (obstacle.moved (Path.behind outer) place.segments.length).defect (place.append path)
        (Path.behind outer source) = (obstacle.defect path source).under outer place := by
  rw [defect, moved, Path.segments_append, List.take_length_add_append, List.map_append]
  rfl

namespace Tree

/-! ## Growing trees -/

/-- A tree that stands at the end of a path, unless it is empty and so is the other. -/
def Nests (outer : String) (place : Path) (tree other : Tree) : Prop :=
  (tree = empty ∧ other = empty) ∨
    ∃ origin, other = tree.nested (Path.behind outer) place origin

/-- Inserting on both sides, one of them behind the place, ends in trees that are nested as
before, and in the same obstacle. -/
theorem Nests.insert {outer : String} {place : Path} {tree other : Tree}
    (h : Nests outer place tree other) (path : Path) (entry : Entry) :
    ∃ origin, other.insert (place.append path) (entry.mapSource (Path.behind outer)) =
      ((tree.insert path entry).1.nested (Path.behind outer) place origin,
        (tree.insert path entry).2.map
          (Obstacle.moved (Path.behind outer) place.segments.length)) := by
  rcases h with ⟨rfl, rfl⟩ | ⟨origin, rfl⟩
  · exact ⟨_, insert_empty _ place path entry⟩
  · exact ⟨_, insert_nested _ place path entry origin tree⟩

section

variable {rules : Rulebook} (hrules : rules.widenNested = true) {outer : String} {place : Path}
  (houter : Path.parse outer = .ok place) {tree other : Tree}

include hrules houter

/-- One entry on both sides keeps the trees nested and is judged alike. -/
theorem Nests.step (h : Nests outer place tree other) {entry : String × Declaration} {path : Path}
    (hpath : Path.parse entry.1 = .ok path) :
    Nests outer place (tree.step rules entry)
        (other.step rules (Path.behind outer entry.1, entry.2)) ∧
      other.verdict rules (Path.behind outer entry.1, entry.2) =
        (tree.verdict rules entry).map (Defect.under outer place) := by
  have hbehind := Entry.read_behind hrules houter hpath entry.2
  cases hread : Entry.read rules entry.1 entry.2 with
  | error defect =>
      rw [hread] at hbehind
      simp only [Tree.step, verdict, add, hread, hbehind]
      exact ⟨h, rfl⟩
  | ok read =>
      obtain ⟨path, placed⟩ := read
      rw [hread] at hbehind
      obtain ⟨origin, hinsert⟩ := h.insert path placed
      rw [step_of_read hread, step_of_read hbehind, verdict_of_read hread,
        verdict_of_read hbehind, hinsert]
      refine ⟨.inr ⟨origin, rfl⟩, ?_⟩
      rw [Option.map_map, Option.map_map]
      apply Option.map_congr
      intro obstacle _
      exact Obstacle.defect_moved outer place path entry.1 obstacle

/-- Entries that are put behind a path grow the same tree at the end of the path, and those that are
rejected are rejected there. -/
theorem Nests.grow (h : Nests outer place tree other) {schema : Schema}
    (hpaths : ∀ entry ∈ schema, ∃ path, Path.parse entry.1 = .ok path) :
    Nests outer place (tree.grow rules schema) (other.grow rules (schema.under outer)) ∧
      other.rejections rules (schema.under outer) =
        (tree.rejections rules schema).map (Defect.under outer place) := by
  induction schema generalizing tree other with
  | nil => exact ⟨h, rfl⟩
  | cons entry rest ih =>
      obtain ⟨⟨path, hpath⟩, hrest⟩ := List.forall_mem_cons.mp hpaths
      obtain ⟨hstep, hverdict⟩ := h.step hrules houter hpath
      obtain ⟨hgrow, hrejections⟩ := ih hstep hrest
      refine ⟨hgrow, ?_⟩
      rw [Schema.under, List.map_cons, rejections_cons, rejections_cons, List.map_append, hverdict,
        Option.toList_map]
      exact congrArg _ hrejections

end

/-- What is reconciled at the end of a path has the same type and the same defects there. -/
theorem Nests.reconcile {outer : String} {place : Path} {tree other : Tree}
    (h : Nests outer place tree other) :
    other.reconcile.2 = tree.reconcile.2.map (Defect.under outer place) ∧
      (tree ≠ empty → other.reconcile.1 = tree.reconcile.1.nest place.segments) := by
  rcases h with ⟨rfl, rfl⟩ | ⟨origin, rfl⟩
  · exact ⟨rfl, fun hne => absurd rfl hne⟩
  · rw [reconcile_nested]
    exact ⟨rfl, fun _ => rfl⟩

/-- Entries that are all accepted leave a tree that is not empty. -/
theorem grow_ne_empty {rules : Rulebook} {schema : Schema} (hsome : schema ≠ [])
    (hnone : empty.rejections rules schema = []) : empty.grow rules schema ≠ empty := by
  intro hempty
  obtain ⟨entry, hentry⟩ := List.exists_mem_of_ne_nil schema hsome
  obtain ⟨path, hpath⟩ := exists_parse_of_rejections_eq_nil hnone entry hentry
  have hnames : empty.fields.names = ([] : List String).eraseDups := rfl
  have hroots := names_grow hnone hnames
  have hroot : path.root ∈ schema.roots :=
    List.mem_filterMap.mpr ⟨entry, hentry, by rw [hpath]; rfl⟩
  rw [hempty, hnames, List.nil_append] at hroots
  rw [← List.mem_eraseDups, ← hroots] at hroot
  contradiction

end Tree

namespace Schema

variable {schema : Schema} {rules : Rulebook} {outer : String} {place : Path}

/-- Inferring commutes with putting all paths behind another one. -/
theorem infer_under_eq (hrules : rules.widenNested = true) (houter : Path.parse outer = .ok place)
    (hsome : schema ≠ []) (hpaths : ∀ entry ∈ schema, ∃ path, Path.parse entry.1 = .ok path) :
    (schema.under outer).infer rules =
      match schema.infer rules with
      | .ok d => .ok (d.nest place.segments)
      | .error defects => .error (defects.map (Defect.under outer place)) := by
  have hempty : Tree.Nests outer place .empty .empty := .inl ⟨rfl, rfl⟩
  obtain ⟨hgrow, hrejections⟩ := hempty.grow hrules houter hpaths
  obtain ⟨hdefects, htype⟩ := hgrow.reconcile
  rw [infer_eq, infer_eq, hrejections, hdefects, ← List.map_append]
  cases hnone : Tree.empty.rejections rules schema ++ (Tree.empty.grow rules schema).reconcile.2 with
  | nil =>
      have hne := Tree.grow_ne_empty hsome (List.append_eq_nil_iff.mp hnone).1
      exact congrArg Except.ok (htype hne)
  | cons defect rest => rfl

/-- The location of a disagreement starts at a top-level field. -/
theorem exists_head?_location {defects : List Defect} (h : schema.infer rules = .error defects)
    {location : List String} {earlier later : Sourced}
    (hmem : .disagreement location earlier later ∈ defects) :
    ∃ path text, Path.parse text = .ok path ∧ location.head? = some path.root := by
  rw [defects_of_infer h] at hmem
  rcases List.mem_append.mp hmem with hrejected | hreconciled
  · obtain ⟨before, entry, after, -, hverdict⟩ := Tree.exists_of_mem_rejections hrejected
    obtain ⟨-, path, place, hparse, ⟨rest, hplace⟩, rfl, -⟩ :=
      Tree.exists_originAt?_of_verdict hverdict
    obtain ⟨hroot, -⟩ := List.cons.inj hplace
    refine ⟨path, entry.1, hparse, ?_⟩
    rw [← Segment.key.inj hroot]
    rfl
  · obtain ⟨members, -, hgathers⟩ := Tree.gathers_accepted rules schema
    obtain ⟨path, node, hat, source, hsource, other, -, trail, left, right, heq⟩ :=
      Tree.exists_at?_of_mem_reconcile hgathers hreconciled
    obtain ⟨rfl, -, -⟩ := Defect.disagreement.inj heq
    obtain ⟨-, hsteps⟩ := steps?_of_mem_entries (Tree.holds_of_at? hat) hsource
    obtain ⟨found, hfound, hsegments⟩ := Path.steps?_eq_some_iff.mp hsteps
    obtain rfl := Path.segments_inj hsegments
    exact ⟨found, source, hfound, rfl⟩

/-- The text of a location further down is its text behind the path that leads there. -/
theorem locationText_under (houter : Path.parse outer = .ok place) {location : List String}
    {path : Path} {text : String} (hpath : Path.parse text = .ok path)
    (hhead : location.head? = some path.root) :
    Conflict.locationText (place.segments.map Segment.text ++ location) =
      Path.behind outer (Conflict.locationText location) := by
  obtain ⟨hplace, htext⟩ := Path.parse_eq_ok_iff.mp houter
  obtain ⟨hspelled, -⟩ := Path.parse_eq_ok_iff.mp hpath
  have hroot : path.root ≠ "" := (hspelled _ List.mem_cons_self).text_ne_empty
  have hkept : (place.segments.map Segment.text).filter (· ≠ "") =
      place.segments.map Segment.text := by
    rw [List.filter_eq_self, List.forall_mem_map]
    intro step hstep
    exact decide_eq_true (hplace step hstep).text_ne_empty
  have hsome : location.filter (· ≠ "") ≠ [] := by
    have hmem : path.root ∈ location := List.mem_of_head? hhead
    exact List.ne_nil_of_mem (List.mem_filter.mpr ⟨hmem, decide_eq_true hroot⟩)
  have hne : place.segments.map Segment.text ≠ [] := List.cons_ne_nil _ _
  rw [Conflict.locationText, Conflict.locationText, List.filter_append, hkept,
    String.intercalate_append_of_ne_nil hne hsome, Path.behind, ← htext]
  rfl

/-- Nesting commutes with inference, where checks are widened at every depth. With all paths put
behind another one, a schema has a type exactly if it had one before, and that is the old one wrapped
for the steps of the outer path. Otherwise it has the old defects in order: paths, sources and
locations are behind the outer path, and faults and disagreeing types are the same. -/
theorem infer_under (hrules : rules.widenNested = true) (houter : Path.parse outer = .ok place)
    (hsome : schema ≠ []) (hpaths : ∀ entry ∈ schema, ∃ path, Path.parse entry.1 = .ok path) :
    (∀ d, schema.infer rules = .ok d ↔
      (schema.under outer).infer rules = .ok (d.nest place.segments)) ∧
    (∀ defects, schema.infer rules = .error defects →
      (schema.under outer).infer rules = .error (defects.map (Defect.under outer place)) ∧
      ∀ location earlier later, .disagreement location earlier later ∈ defects →
        Conflict.locationText (place.segments.map Segment.text ++ location) =
          Path.behind outer (Conflict.locationText location)) := by
  have hunder := infer_under_eq hrules houter hsome hpaths
  refine ⟨?_, ?_⟩
  · intro d
    rw [hunder]
    cases schema.infer rules with
    | ok type => simp only [Except.ok.injEq, Descriptor.nest_inj]
    | error defects => simp only [reduceCtorEq]
  · intro defects hdefects
    rw [hdefects] at hunder
    refine ⟨hunder, ?_⟩
    intro location earlier later hmem
    obtain ⟨path, text, hpath, hhead⟩ := exists_head?_location hdefects hmem
    exact locationText_under houter hpath hhead

/-- Put behind a path to elements, a top-level check is widened still, and two paths that disagree
at `a` disagree at `p.*.a`. -/
theorem infer_under_elements :
    Schema.infer [("p.*.a", .ofList [("isInt", .bool true)])] ⟨.builtin, true⟩ =
        .ok (.object [("p", .array (.object [("a",
          .union [.primitive .integer, .array (.primitive .integer)])]))]) ∧
      Schema.infer [("p.*.a.b", .ofList [("toInt", .bool true)]),
          ("p.*.a.*", .ofList [("trim", .bool true)])] ⟨.builtin, true⟩ =
        .error [.disagreement ["p", "*", "a"] ⟨"p.*.a.b", .object []⟩
          ⟨"p.*.a.*", .array .unknown⟩] ∧
      Conflict.locationText ["p", "*", "a"] = "p.*.a" := by
  have houter : Path.parse "p.*" = .ok ⟨"p", [.each]⟩ := by decide +kernel
  obtain ⟨hok, -⟩ := @infer_under [("a", .ofList [("isInt", .bool true)])] ⟨.builtin, true⟩ _ _
    rfl houter (List.cons_ne_nil _ _) (List.forall_mem_singleton.mpr ⟨⟨"a", []⟩, rfl⟩)
  obtain ⟨-, herror⟩ := @infer_under
    [("a.b", .ofList [("toInt", .bool true)]), ("a.*", .ofList [("trim", .bool true)])]
    ⟨.builtin, true⟩ _ _ rfl houter (List.cons_ne_nil _ _)
    (List.forall_mem_cons.mpr ⟨⟨⟨"a", [.key "b"]⟩, rfl⟩,
      List.forall_mem_singleton.mpr ⟨⟨"a", [.each]⟩, rfl⟩⟩)
  obtain ⟨hdefects, hlocation⟩ := herror
    [.disagreement ["a"] ⟨"a.b", .object []⟩ ⟨"a.*", .array .unknown⟩] (by with_unfolding_all rfl)
  refine ⟨(hok (.object [("a", .union [.primitive .integer, .array (.primitive .integer)])])).mp ?_,
    hdefects, hlocation ["a"] _ _ (List.mem_singleton_self _)⟩
  with_unfolding_all rfl

end Schema

end ShapeInference
