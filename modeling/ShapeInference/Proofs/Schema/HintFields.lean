import ShapeInference.Proofs.Descriptor.Conflict
import ShapeInference.Proofs.Schema.Fields
import ShapeInference.Proofs.Schema.Nesting

/-!
# A hint beside its fields

A custom check may spell the type of an object, and other entries may declare fields of the same
object. All these fields go into one merge with the hint, which stops at the first name in order
whose types do not merge. One disagreement is therefore all that is reported, however many fields
clash with the hint and in whatever order the entries stand.

Main statements: `Tree.KnownAt.grow`, `Node.reconcile_shallow` and
`Schema.infer_hint_beside_fields`.
-/

namespace ShapeInference

/-! ## Hints -/

/-- The declaration of a check written by the user whose hint is a document. -/
def Declaration.checkHint (form : Json) : Declaration :=
  .ofList [(RuleName.custom, .object [("returns", form)])]

theorem Declaration.strategy_checkHint (form : Json) (catalog : Catalog) :
    (checkHint form).strategy catalog = .customValidator := by
  rfl

/-- The hint of a check gives the field the type that it spells, whatever the rules and the
position. -/
theorem Rulebook.fieldType_checkHint (rules : Rulebook) {form : Json} {d : Descriptor}
    (h : Descriptor.ofJson form = .ok d) (position : Position) :
    rules.fieldType (.checkHint form) position = .ok (.required d) := by
  have hform : ((Declaration.checkHint form).get? RuleName.custom).bind (·.member? "returns") =
      some form := by
    rfl
  exact rules.fieldType_of_hint (.inr ⟨Declaration.strategy_checkHint form rules.catalog, rfl⟩)
    hform h position

/-- The entry of a field, put behind a path. -/
def Entry.ofField (text : String) (type : String × Declaration → FieldType)
    (field : String × Declaration) : String × Entry :=
  (field.1, ⟨Path.behind text field.1, field.2, type field⟩)

namespace Node

/-! ## Nodes with one entry for each field -/

/-- A place that one entry declares. -/
def leaf (entry : Entry) : Node :=
  empty.addEntry entry

/-- Fields that one entry each declares. -/
def leafFields (fields : List (String × Entry)) : List (String × Node) :=
  fields.map fun field => (field.1, leaf field.2)

/-- A place with entries of its own and fields that one entry each declares. The first of these gave
it the shape. -/
def shallow (declared : Declared) : List (String × Entry) → Node
  | [] => plain declared
  | field :: rest => object declared field.2.source (leafFields (field :: rest))

theorem names_leafFields (fields : List (String × Entry)) :
    Bindings.names (leafFields fields) = Bindings.names fields := by
  rw [leafFields, Bindings.names, List.map_map]
  rfl

theorem declared_shallow (declared : Declared) (fields : List (String × Entry)) :
    (shallow declared fields).declared = declared := by
  cases fields <;> rfl

theorem addEntry_shallow (entry : Entry) (declared : Declared) (fields : List (String × Entry)) :
    (shallow declared fields).addEntry entry = shallow (declared.add entry) fields := by
  cases fields <;> rfl

/-- An entry for a new field comes behind the fields that are there. -/
theorem insert_shallow (entry : Entry) (depth : Nat) {name : String} (declared : Declared)
    {fields : List (String × Entry)} (h : name ∉ Bindings.names fields) :
    insert entry depth [.key name] (shallow declared fields) =
      (shallow declared (fields ++ [(name, entry)]), none) := by
  cases fields with
  | nil => rfl
  | cons field rest =>
      have hnames : name ∉ Bindings.names (leafFields (field :: rest)) := by
        rwa [names_leafFields]
      have hget : Bindings.get? (leafFields (field :: rest)) name = none :=
        Bindings.get?_eq_none_iff.mpr hnames
      have happend : leafFields (field :: rest) ++ [(name, leaf entry)] =
          leafFields (field :: (rest ++ [(name, entry)])) := by
        simp [leafFields]
      simp only [shallow, insert, hget, Option.getD_none, Bindings.set_of_not_mem hnames,
        List.cons_append]
      rw [← happend]
      rfl

theorem reconcile_leaf (location : List String) (entry : Entry) :
    reconcile location (leaf entry) = (entry.type.whole, []) := by
  have haccount : (leaf entry).account location = ⟨some entry.source, entry.type.present, []⟩ :=
    Account.add_empty location (said false entry)
  have habsent : (leaf entry).absentType? = entry.type.absent := by
    change Declared.joinAbsent none entry.type.absent = entry.type.absent
    cases entry.type.absent <;> rfl
  have hreconcile : reconcile location (leaf entry) =
      (leaf entry).conclude ((leaf entry).account location) := by
    rw [leaf, empty, addEntry, reconcile]
  rw [hreconcile, conclude, haccount, habsent, FieldType.whole]
  cases entry.type.absent <;> rfl

/-- Leaves reconcile to their types, without a disagreement. -/
theorem reconcileFields_leafFields (location : List String) (fields : List (String × Entry)) :
    reconcileFields location (leafFields fields) =
      (fields.map fun field => (field.1, field.2.type.whole), []) := by
  rw [reconcileFields_eq, leafFields, List.map_map, List.flatMap_map]
  simp only [Function.comp_def, reconcile_leaf]
  rw [List.flatMap_eq_nil_iff.mpr fun _ _ => rfl]

/-- A place that one entry and longer paths declare: the entry says its type first, then the shape
is merged in. -/
theorem reconcile_shallow (location : List String) {hint : Entry} {d : Descriptor}
    (hhint : hint.type = .required d) (field : String × Entry) (rest : List (String × Entry)) :
    reconcile location (shallow (Declared.nothing.add hint) (field :: rest)) =
      match d.merge
        (.ofFields ((field :: rest).map fun field => (field.1, field.2.type.whole))) with
      | .ok merged => (merged, [])
      | .error c => (d, [.disagreement (location ++ c.trail) ⟨hint.source, c.left⟩
          ⟨field.2.source, c.right⟩]) := by
  have hsaid : said false hint = ⟨hint.source, d⟩ := by
    rw [said, hhint]
    rfl
  have haccount : (shallow (Declared.nothing.add hint) (field :: rest)).account location =
      ⟨some hint.source, d, []⟩ := by
    have hadd := Account.add_empty location (said false hint)
    rw [hsaid] at hadd
    rw [← hadd, ← hsaid]
    rfl
  have habsent : (shallow (Declared.nothing.add hint) (field :: rest)).absentType? = none := by
    change Declared.joinAbsent none hint.type.absent = none
    rw [hhint]
    rfl
  rw [shallow, reconcile, reconcileFields_leafFields, ← shallow]
  simp only [haccount, conclude, habsent, Account.addDefects, Account.add, List.append_nil]
  cases d.merge (.ofFields ((field :: rest).map fun field => (field.1, field.2.type.whole))) <;> rfl

end Node

namespace Tree

/-! ## Trees with one place -/

/-- Of the tree only what lies at a place is known, if anything is. -/
def KnownAt (place : Path) (node : Node) (tree : Tree) : Prop :=
  (node = .empty ∧ tree = empty) ∨ ∃ origin, tree = holding place origin node

/-- An entry that goes to the place or on from there is inserted as at the node. -/
theorem KnownAt.insert {place : Path} {node : Node} {tree : Tree} (h : KnownAt place node tree)
    (steps : List Segment) (entry : Entry) :
    KnownAt place (node.insert entry (1 + place.below.length) steps).1
        (tree.insert ⟨place.root, place.below ++ steps⟩ entry).1 ∧
      (tree.insert ⟨place.root, place.below ++ steps⟩ entry).2 =
        (node.insert entry (1 + place.below.length) steps).2 := by
  rcases h with ⟨rfl, rfl⟩ | ⟨origin, rfl⟩
  · rw [insert_empty_holding]
    exact ⟨.inr ⟨entry.source, rfl⟩, rfl⟩
  · rw [insert_holding]
    exact ⟨.inr ⟨origin, rfl⟩, rfl⟩

section

variable {rules : Rulebook} {text : String} {place : Path}
  (hplace : Path.parse text = .ok place)

include hplace

/-- The entry with the hint is added at the place. -/
theorem KnownAt.step_hint {form : Json} {d : Descriptor} (hform : Descriptor.ofJson form = .ok d)
    {node : Node} {tree : Tree} (h : KnownAt place node tree) :
    KnownAt place (node.addEntry ⟨text, .checkHint form, .required d⟩)
        (tree.step rules (text, .checkHint form)) ∧
      tree.verdict rules (text, .checkHint form) = none := by
  have hread : Entry.read rules text (.checkHint form) =
      .ok (place, ⟨text, .checkHint form, .required d⟩) :=
    Entry.read_eq_ok_iff.mpr ⟨hplace, rfl, rfl, rules.fieldType_checkHint hform place.position⟩
  obtain ⟨hknown, hobstacle⟩ := h.insert [] ⟨text, .checkHint form, .required d⟩
  rw [List.append_nil] at hknown hobstacle
  rw [step_of_read hread, verdict_of_read hread, hobstacle]
  exact ⟨hknown, rfl⟩

/-- The entry of a field is added one step further. -/
theorem KnownAt.step_field {name : String} (hname : Path.parse name = .ok ⟨name, []⟩)
    {declaration : Declaration} {type : FieldType}
    (htype : rules.fieldType declaration .nested = .ok type) {declared : Declared}
    {fields : List (String × Entry)} (hnew : name ∉ Bindings.names fields) {tree : Tree}
    (h : KnownAt place (.shallow declared fields) tree) :
    KnownAt place
        (.shallow declared (fields ++ [(name, ⟨Path.behind text name, declaration, type⟩)]))
        (tree.step rules (Path.behind text name, declaration)) ∧
      tree.verdict rules (Path.behind text name, declaration) = none := by
  have hbehind : Path.parse (Path.behind text name) =
      .ok ⟨place.root, place.below ++ [.key name]⟩ := Path.parse_append hplace hname
  have hposition : Path.position ⟨place.root, place.below ++ [.key name]⟩ = .nested := by
    have hlast : Path.last ⟨place.root, place.below ++ [.key name]⟩ = .key name := by
      rw [Path.last, List.getLast?_concat]
      rfl
    rw [Path.position, hlast]
    cases place.below <;> rfl
  have hread : Entry.read rules (Path.behind text name) declaration =
      .ok (⟨place.root, place.below ++ [.key name]⟩,
        ⟨Path.behind text name, declaration, type⟩) :=
    Entry.read_eq_ok_iff.mpr ⟨hbehind, rfl, rfl, hposition ▸ htype⟩
  obtain ⟨hknown, hobstacle⟩ := h.insert [.key name] ⟨Path.behind text name, declaration, type⟩
  rw [Node.insert_shallow _ _ _ hnew] at hknown hobstacle
  rw [step_of_read hread, verdict_of_read hread, hobstacle]
  exact ⟨hknown, rfl⟩

/-- Entries of distinct fields are all added, each one step further. -/
theorem KnownAt.grow {type : String × Declaration → FieldType} {declared : Declared}
    {done fields : Schema} {tree : Tree} (hnames : (Bindings.names (done ++ fields)).Nodup)
    (hpaths : ∀ field ∈ fields, Path.parse field.1 = .ok ⟨field.1, []⟩)
    (htypes : ∀ field ∈ fields, rules.fieldType field.2 .nested = .ok (type field))
    (h : KnownAt place (.shallow declared (done.map (Entry.ofField text type))) tree) :
    KnownAt place (.shallow declared ((done ++ fields).map (Entry.ofField text type)))
        (tree.grow rules (fields.under text)) ∧
      tree.rejections rules (fields.under text) = [] := by
  induction fields generalizing done tree with
  | nil =>
      rw [List.append_nil]
      exact ⟨h, rfl⟩
  | cons field rest ih =>
      obtain ⟨hpath, hpaths⟩ := List.forall_mem_cons.mp hpaths
      obtain ⟨htype, htypes⟩ := List.forall_mem_cons.mp htypes
      have happend : done ++ field :: rest = done ++ [field] ++ rest := by simp
      have hnew : field.1 ∉ Bindings.names (done.map (Entry.ofField text type)) := by
        rw [Bindings.names, List.map_append, List.map_cons] at hnames
        rw [Bindings.names, List.map_map]
        intro hmem
        exact (List.nodup_append.mp hnames).2.2 _ hmem _ List.mem_cons_self rfl
      obtain ⟨hknown, hverdict⟩ := h.step_field hplace hpath htype hnew
      have hdone : done.map (Entry.ofField text type) ++
          [(field.1, ⟨Path.behind text field.1, field.2, type field⟩)] =
            (done ++ [field]).map (Entry.ofField text type) := by
        rw [List.map_append]
        rfl
      rw [hdone] at hknown
      rw [happend] at hnames ⊢
      obtain ⟨hgrow, hrejections⟩ := ih hnames hpaths htypes hknown
      refine ⟨hgrow, ?_⟩
      rw [Schema.under, List.map_cons, rejections_cons, hverdict]
      exact hrejections

end

end Tree

namespace Schema

/-! ## The hint among the entries of its fields -/

/-- The schema with a hint for the value at a path, and entries of fields of that value before and
after it. -/
def hinting (text : String) (form : Json) (before after : Schema) : Schema :=
  before.under text ++ (text, .checkHint form) :: after.under text

/-- The types of fields, each with the type of the field left out. -/
def wholeTypes (type : String × Declaration → FieldType) (fields : Schema) :
    List (String × Descriptor) :=
  fields.map fun field => (field.1, (type field).whole)

section

variable {rules : Rulebook} {text : String} {place : Path} (hplace : Path.parse text = .ok place)
  {form : Json} {d : Descriptor} (hform : Descriptor.ofJson form = .ok d)
  {before after : Schema} (hnames : (Bindings.names (before ++ after)).Nodup)
  (hpaths : ∀ field ∈ before ++ after, Path.parse field.1 = .ok ⟨field.1, []⟩)
  {type : String × Declaration → FieldType}
  (htypes : ∀ field ∈ before ++ after, rules.fieldType field.2 .nested = .ok (type field))

include hplace hform hnames hpaths htypes

/-- What is known at the place is the hint with one leaf for each field, and no entry is
rejected. -/
theorem knownAt_hinting :
    Tree.KnownAt place
        (.shallow (Declared.nothing.add ⟨text, .checkHint form, .required d⟩)
          ((before ++ after).map (Entry.ofField text type)))
        (Tree.empty.grow rules (hinting text form before after)) ∧
      Tree.empty.rejections rules (hinting text form before after) = [] := by
  obtain ⟨hbefore, hafter⟩ := List.forall_mem_append.mp hpaths
  obtain ⟨hbeforetypes, haftertypes⟩ := List.forall_mem_append.mp htypes
  have hempty : Tree.KnownAt place
      (.shallow .nothing (([] : Schema).map (Entry.ofField text type))) .empty := .inl ⟨rfl, rfl⟩
  have hfirst : (Bindings.names ([] ++ before)).Nodup := by
    rw [Bindings.names, List.map_append] at hnames
    exact (List.nodup_append.mp hnames).1
  obtain ⟨hknown, hnone⟩ := hempty.grow hplace hfirst hbefore hbeforetypes
  obtain ⟨hhint, hverdict⟩ := hknown.step_hint hplace hform
  rw [List.nil_append, Node.addEntry_shallow] at hhint
  obtain ⟨hall, hrest⟩ := hhint.grow hplace hnames hafter haftertypes
  rw [hinting, Tree.grow, List.foldl_append, Tree.rejections_append, hnone,
    Tree.rejections_cons, hverdict]
  exact ⟨hall, hrest⟩

/-- The schema is inferred by reconciling the one node at the place. -/
theorem infer_hinting_eq :
    (hinting text form before after).infer rules =
      match Node.reconcile (place.segments.map Segment.text)
        (.shallow (Declared.nothing.add ⟨text, .checkHint form, .required d⟩)
          ((before ++ after).map (Entry.ofField text type))) with
      | (merged, []) => .ok (merged.nest place.segments)
      | (_, defects) => .error defects := by
  obtain ⟨hknown, hnone⟩ := knownAt_hinting hplace hform hnames hpaths htypes
  rcases hknown with ⟨hempty, -⟩ | ⟨origin, htree⟩
  · have hentries := congrArg Node.entries hempty
    rw [Node.entries, Node.declared_shallow] at hentries
    contradiction
  · rw [infer_eq, hnone, List.nil_append, htree, Tree.reconcile_holding]
    cases (Node.reconcile (place.segments.map Segment.text)
      (.shallow (Declared.nothing.add ⟨text, .checkHint form, .required d⟩)
        ((before ++ after).map (Entry.ofField text type)))) with
    | mk merged defects => cases defects <;> rfl

theorem infer_hinting_of_nil (hnil : before ++ after = []) :
    (hinting text form before after).infer rules = .ok (d.nest place.segments) := by
  have hleaf : Node.shallow (Declared.nothing.add ⟨text, .checkHint form, .required d⟩) [] =
      .leaf ⟨text, .checkHint form, .required d⟩ := rfl
  rw [infer_hinting_eq hplace hform hnames hpaths htypes, hnil, List.map_nil, hleaf,
    Node.reconcile_leaf]
  rfl

/-- The types of all fields go into one merge with the hint. -/
theorem infer_hinting_of_cons {first : String × Declaration} {rest : Schema}
    (hcons : before ++ after = first :: rest) :
    (hinting text form before after).infer rules =
      match d.merge (.ofFields (wholeTypes type (before ++ after))) with
      | .ok merged => .ok (merged.nest place.segments)
      | .error c => .error [.disagreement (place.segments.map Segment.text ++ c.trail)
          ⟨text, c.left⟩ ⟨Path.behind text first.1, c.right⟩] := by
  have hwhole : (Entry.ofField text type first :: rest.map (Entry.ofField text type)).map
      (fun field => (field.1, field.2.type.whole)) = wholeTypes type (before ++ after) := by
    rw [← List.map_cons, ← hcons, List.map_map]
    rfl
  have hreconcile := @Node.reconcile_shallow (place.segments.map Segment.text)
    ⟨text, .checkHint form, .required d⟩ d rfl (Entry.ofField text type first)
    (rest.map (Entry.ofField text type))
  rw [hwhole, ← List.map_cons, ← hcons] at hreconcile
  rw [infer_hinting_eq hplace hform hnames hpaths htypes, hreconcile]
  cases d.merge (.ofFields (wholeTypes type (before ++ after))) <;> rfl

end

/-! ## What is reported -/

/-- A field of the hint and an entry for the same field have types that do not merge. -/
def Clashes (rules : Rulebook) (hinted : List (String × Descriptor)) (fields : Schema)
    (name : String) (c : Conflict) : Prop :=
  ∃ declaration type d, (name, declaration) ∈ fields ∧
    rules.fieldType declaration .nested = .ok type ∧
    Bindings.get? hinted name = some d ∧ d.merge type.whole = .error c

/-- A disagreement is reported at a location or below it. -/
def ReportsBelow (schema : Schema) (rules : Rulebook) (location : List String) : Prop :=
  ∃ defects below earlier later, schema.infer rules = .error defects ∧
    .disagreement below earlier later ∈ defects ∧ location <+: below

/-- The hint conflicts with the fields under a name exactly if it clashes with the entry of the
name. -/
theorem conflictsUnder_wholeTypes {rules : Rulebook} {hinted : List (String × Descriptor)}
    {fields : Schema} (hnames : (Bindings.names fields).Nodup)
    {type : String × Declaration → FieldType}
    (htypes : ∀ field ∈ fields, rules.fieldType field.2 .nested = .ok (type field)) (name : String)
    (c : Conflict) :
    Descriptor.ConflictsUnder hinted (Bindings.sortedOfPairs (wholeTypes type fields)) name c ↔
      Clashes rules hinted fields name c := by
  have hwhole : (Bindings.names (wholeTypes type fields)).Nodup := by
    rw [wholeTypes, Bindings.names, List.map_map]
    exact hnames
  have hget : ∀ b, Bindings.get? (Bindings.sortedOfPairs (wholeTypes type fields)) name = some b ↔
      ∃ declaration, (name, declaration) ∈ fields ∧ (type (name, declaration)).whole = b := by
    intro b
    rw [Bindings.get?_sortedOfPairs, Bindings.get?_reverse hwhole, Bindings.get?_eq_some_iff hwhole,
      wholeTypes, List.mem_map]
    constructor
    · rintro ⟨⟨key, declaration⟩, hfield, heq⟩
      obtain ⟨rfl, rfl⟩ := Prod.mk.inj heq
      exact ⟨declaration, hfield, rfl⟩
    · rintro ⟨declaration, hfield, rfl⟩
      exact ⟨_, hfield, rfl⟩
  constructor
  · rintro ⟨d, b, hd, hb, hmerge⟩
    obtain ⟨declaration, hfield, rfl⟩ := (hget b).mp hb
    exact ⟨declaration, _, d, hfield, htypes _ hfield, hd, hmerge⟩
  · rintro ⟨declaration, found, d, hfield, hfound, hd, hmerge⟩
    rw [htypes _ hfield] at hfound
    obtain rfl := Except.ok.inj hfound
    exact ⟨d, _, hd, (hget _).mpr ⟨declaration, hfield, rfl⟩, hmerge⟩

/-- No field with a smaller name clashes. -/
def NoClashBefore (rules : Rulebook) (hinted : List (String × Descriptor)) (fields : Schema)
    (name : String) : Prop :=
  ∀ other < name, ∀ c, ¬ Clashes rules hinted fields other c

/-- A schema with a hint beside fields fails exactly with the one clash of the least name. -/
theorem infer_hinting_eq_error_iff {rules : Rulebook} {text : String} {place : Path}
    (hplace : Path.parse text = .ok place) {form : Json} {hinted : List (String × Descriptor)}
    (hform : Descriptor.ofJson form = .ok (.object hinted)) {before after : Schema}
    (hnames : (Bindings.names (before ++ after)).Nodup)
    (hpaths : ∀ field ∈ before ++ after, Path.parse field.1 = .ok ⟨field.1, []⟩)
    {type : String × Declaration → FieldType}
    (htypes : ∀ field ∈ before ++ after, rules.fieldType field.2 .nested = .ok (type field))
    {defects : List Defect} :
    (hinting text form before after).infer rules = .error defects ↔
      ∃ name c first, Clashes rules hinted (before ++ after) name c ∧
        NoClashBefore rules hinted (before ++ after) name ∧
        (before ++ after).head? = some first ∧
        defects = [.disagreement (place.segments.map Segment.text ++ name :: c.trail)
          ⟨text, c.left⟩ ⟨Path.behind text first.1, c.right⟩] := by
  have hclashes : ∀ name c, Descriptor.ConflictsUnder hinted
      (Bindings.sortedOfPairs (wholeTypes type (before ++ after))) name c ↔
        Clashes rules hinted (before ++ after) name c :=
    conflictsUnder_wholeTypes hnames htypes
  cases hfields : before ++ after with
  | nil =>
      rw [infer_hinting_of_nil hplace hform hnames hpaths htypes hfields]
      constructor
      · exact nofun
      · rintro ⟨-, -, first, -, -, hfirst, -⟩
        contradiction
  | cons first rest =>
      have hsorted : Bindings.Sorted hinted := (Descriptor.normal_ofJson hform).sorted
      have hmerge : ∀ c, (Descriptor.object hinted).merge
          (.ofFields (wholeTypes type (before ++ after))) = .error c ↔
            ∃ name e, Clashes rules hinted (before ++ after) name e ∧
              NoClashBefore rules hinted (before ++ after) name ∧ c = e.under name := by
        intro c
        rw [Descriptor.ofFields, Descriptor.merge_object_eq_error_iff,
          Descriptor.mergeInto_eq_error_iff hsorted (Bindings.sorted_sortedOfPairs _)]
        constructor
        · rintro @⟨name, e, here, earlier⟩
          refine ⟨name, e, (hclashes name e).mp here, ?_, rfl⟩
          exact fun other hlt d hd => earlier other hlt d ((hclashes other d).mpr hd)
        · rintro ⟨name, e, here, earlier, rfl⟩
          refine .under ((hclashes name e).mpr here) ?_
          exact fun other hlt d hd => earlier other hlt d ((hclashes other d).mp hd)
      rw [← hfields, infer_hinting_of_cons hplace hform hnames hpaths htypes hfields]
      constructor
      · intro h
        cases hresult : (Descriptor.object hinted).merge
            (.ofFields (wholeTypes type (before ++ after))) with
        | ok merged =>
            rw [hresult] at h
            contradiction
        | error c =>
            rw [hresult] at h
            obtain ⟨name, e, hclash, hfirst, rfl⟩ := (hmerge c).mp hresult
            refine ⟨name, e, first, hclash, hfirst, ?_, (Except.error.inj h).symm⟩
            rw [hfields]
            rfl
      · rintro ⟨name, e, found, hclash, hfirst, hfound, rfl⟩
        rw [hfields] at hfound
        obtain rfl := Option.some.inj hfound
        rw [(hmerge (e.under name)).mpr ⟨name, e, hclash, hfirst, rfl⟩]
        rfl

/-- Where a hint for an object stands among entries of its fields, in any order, exactly one
disagreement is reported if any field clashes: that of the first name in order. A field that clashes
is therefore reported only if no name before it does. -/
theorem infer_hint_beside_fields {rules : Rulebook} {text : String} {place : Path}
    (hplace : Path.parse text = .ok place) {form : Json} {hinted : List (String × Descriptor)}
    (hform : Descriptor.ofJson form = .ok (.object hinted)) {before after : Schema}
    (hnames : (Bindings.names (before ++ after)).Nodup)
    (hpaths : ∀ field ∈ before ++ after, Path.parse field.1 = .ok ⟨field.1, []⟩)
    (hresolve : ∀ field ∈ before ++ after, ∃ type, rules.fieldType field.2 .nested = .ok type) :
    (∀ defects, (hinting text form before after).infer rules = .error defects ↔
      ∃ name c first, Clashes rules hinted (before ++ after) name c ∧
        NoClashBefore rules hinted (before ++ after) name ∧
        (before ++ after).head? = some first ∧
        defects = [.disagreement (place.segments.map Segment.text ++ name :: c.trail)
          ⟨text, c.left⟩ ⟨Path.behind text first.1, c.right⟩]) ∧
    ∀ name c, Clashes rules hinted (before ++ after) name c →
      ((hinting text form before after).ReportsBelow rules
          (place.segments.map Segment.text ++ [name]) ↔
        NoClashBefore rules hinted (before ++ after) name) := by
  have htype : ∃ type : String × Declaration → FieldType, ∀ field ∈ before ++ after,
      rules.fieldType field.2 .nested = .ok (type field) := by
    have : Nonempty FieldType := ⟨.required .unknown⟩
    choose! type htypes using hresolve
    exact ⟨type, htypes⟩
  obtain ⟨type, htypes⟩ := htype
  have hreport : ∀ defects, (hinting text form before after).infer rules = .error defects ↔ _ :=
    fun defects => infer_hinting_eq_error_iff hplace hform hnames hpaths htypes
  refine ⟨hreport, ?_⟩
  intro name c hclash
  constructor
  · rintro ⟨defects, below, earlier, later, hinfer, hmem, hbelow⟩
    obtain ⟨found, e, first, -, hfirst, -, rfl⟩ := (hreport defects).mp hinfer
    obtain ⟨rfl, -, -⟩ := Defect.disagreement.inj (List.mem_singleton.mp hmem)
    rw [List.prefix_append_right_inj, List.cons_prefix_cons] at hbelow
    rwa [hbelow.1]
  · intro hfirst
    have hfield : before ++ after ≠ [] := by
      rintro hnil
      obtain ⟨declaration, -, -, hfield, -⟩ := hclash
      rw [hnil] at hfield
      contradiction
    obtain ⟨first, rest, hcons⟩ := List.exists_cons_of_ne_nil hfield
    refine ⟨_, _, _, _, (hreport _).mpr ⟨name, c, first, hclash, hfirst, ?_, rfl⟩,
      List.mem_singleton_self _, ?_⟩
    · rw [hcons]
      rfl
    · exact ⟨c.trail, by simp⟩

/-- Two fields clash with a hint, and the disagreement of the first name is all that is reported. -/
theorem infer_eq_error_of_two_clashes :
    (hinting "x"
      (Descriptor.toJson (.object [("a", .primitive .string), ("b", .primitive .string)]))
      [("b", .ofList [("toInt", .bool true)])] [("a", .ofList [("toInt", .bool true)])]).infer
        .builtin =
      .error [.disagreement ["x", "a"] ⟨"x", .primitive .string⟩ ⟨"x.b", .primitive .integer⟩] := by
  with_unfolding_all rfl

theorem fieldType_toInt : Rulebook.fieldType .builtin (.ofList [("toInt", .bool true)]) .nested =
    .ok (.required (.primitive .integer)) := by
  with_unfolding_all rfl

theorem clashes_of_two_fields : ∀ name ∈ ["a", "b"],
    Clashes .builtin [("a", .primitive .string), ("b", .primitive .string)]
      [("b", .ofList [("toInt", .bool true)]), ("a", .ofList [("toInt", .bool true)])] name
      ⟨[], .primitive .string, .primitive .integer⟩ := by
  rw [List.forall_mem_cons, List.forall_mem_singleton]
  constructor
  · exact ⟨_, _, _, List.mem_cons_of_mem _ (List.mem_singleton_self _), fieldType_toInt, rfl, rfl⟩
  · exact ⟨_, _, _, List.mem_cons_self, fieldType_toInt, rfl, rfl⟩

/-- Both fields clash, and only the first name is reported, though the other is declared first. -/
theorem infer_hint_beside_two_fields :
    (hinting "x"
        (Descriptor.toJson (.object [("a", .primitive .string), ("b", .primitive .string)]))
        [("b", .ofList [("toInt", .bool true)])]
        [("a", .ofList [("toInt", .bool true)])]).ReportsBelow .builtin ["x", "a"] ∧
      ¬ (hinting "x"
        (Descriptor.toJson (.object [("a", .primitive .string), ("b", .primitive .string)]))
        [("b", .ofList [("toInt", .bool true)])]
        [("a", .ofList [("toInt", .bool true)])]).ReportsBelow .builtin ["x", "b"] := by
  have hplace : Path.parse "x" = .ok ⟨"x", []⟩ := by decide +kernel
  have hform : Descriptor.ofJson
      (Descriptor.toJson (.object [("a", .primitive .string), ("b", .primitive .string)])) =
        .ok (.object [("a", .primitive .string), ("b", .primitive .string)]) :=
    Descriptor.ofJson_toJson (by decide) (by decide)
  obtain ⟨-, hreports⟩ := @infer_hint_beside_fields .builtin "x" _ hplace _ _ hform
    [("b", .ofList [("toInt", .bool true)])] [("a", .ofList [("toInt", .bool true)])] (by decide)
    (by decide +kernel)
    (List.forall_mem_cons.mpr ⟨⟨_, fieldType_toInt⟩,
      List.forall_mem_singleton.mpr ⟨_, fieldType_toInt⟩⟩)
  have ha := clashes_of_two_fields "a" (by decide)
  have hb := clashes_of_two_fields "b" (by decide)
  constructor
  · apply (hreports "a" _ ha).mpr
    rintro other hother c ⟨declaration, -, -, hfield, -⟩
    have hnone : ∀ other ∈ ["b", "a"], ¬ other < "a" := by decide
    have hname := List.mem_map_of_mem (f := Prod.fst) hfield
    exact hnone other hname hother
  · intro hreport
    exact (hreports "b" _ hb).mp hreport "a" (by decide) _ ha

/-- A field that clashes may go unreported. -/
theorem not_forall_reportsBelow_of_clashes :
    ¬ ∀ (rules : Rulebook) (text : String) (place : Path) (hinted : List (String × Descriptor))
        (before after : Schema), Path.parse text = .ok place →
      (Bindings.names (before ++ after)).Nodup →
      (∀ field ∈ before ++ after, Path.parse field.1 = .ok ⟨field.1, []⟩) →
      (∀ field ∈ before ++ after, ∃ type, rules.fieldType field.2 .nested = .ok type) →
      ∀ name c, Clashes rules hinted (before ++ after) name c →
        (hinting text (Descriptor.toJson (.object hinted)) before after).ReportsBelow rules
          (place.segments.map Segment.text ++ [name]) := by
  intro hall
  obtain ⟨defects, below, earlier, later, hinfer, hmem, hbelow⟩ := hall .builtin "x" ⟨"x", []⟩
    [("a", .primitive .string), ("b", .primitive .string)]
    [("b", .ofList [("toInt", .bool true)])] [("a", .ofList [("toInt", .bool true)])]
    (by decide +kernel) (by decide) (by decide +kernel)
    (List.forall_mem_cons.mpr ⟨⟨_, fieldType_toInt⟩,
      List.forall_mem_singleton.mpr ⟨_, fieldType_toInt⟩⟩) "b" _
    (clashes_of_two_fields "b" (by decide))
  rw [infer_eq_error_of_two_clashes] at hinfer
  obtain rfl := Except.error.inj hinfer
  obtain ⟨rfl, -, -⟩ := Defect.disagreement.inj (List.mem_singleton.mp hmem)
  exact absurd hbelow (by decide)

end Schema

end ShapeInference
