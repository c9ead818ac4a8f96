import ShapeInference.Proofs.Path
import ShapeInference.Proofs.Rule.Position
import ShapeInference.Proofs.Schema.Meaning

/-!
# A check of a field and of its elements

A builtin check of a top-level field accepts a scalar or an array. Where another entry goes on to
the elements, only the array is left of it, so that the same check may stand at the field and at its
elements. This works for checks that all leave the same behind. Checks of different outputs leave a
union of arrays at the field, which does not merge with the array of a union that the elements make
up.

Main statements: `RuleOutput.arrayAlternatives_unionOf_fieldType`,
`Schema.infer_place_and_elements` and `Schema.infer_check_and_elements`.
-/

namespace ShapeInference

/-! ## Outputs of checks -/

/-- What the builtin checks of a declaration leave behind. -/
def Declaration.checkOutputs (declaration : Declaration) (catalog : Catalog) : List RuleOutput :=
  (catalog.inRole .validator declaration.names).map fun rule => rule.2.output

namespace Descriptor

/-- Two alternatives make a union. -/
theorem exists_union_of_members {d a b : Descriptor} (ha : a ∈ d.members) (hb : b ∈ d.members)
    (hne : a ≠ b) : ∃ ms, d = union ms := by
  cases d with
  | union ms => exact ⟨ms, rfl⟩
  | _ => exact absurd ((List.mem_singleton.mp ha).trans (List.mem_singleton.mp hb).symm) hne

end Descriptor

namespace RuleOutput

variable {outputs : List RuleOutput}

theorem unionOf_of_forall_eq {f : RuleOutput → Descriptor} {output : RuleOutput}
    (hsome : outputs ≠ []) (hall : ∀ o ∈ outputs, o = output) (hf : (f output).Normal) :
    Descriptor.unionOf (outputs.map f) = f output := by
  obtain ⟨first, hfirst⟩ := List.exists_mem_of_ne_nil _ hsome
  have hmem : ∀ d, d ∈ outputs.map f ↔ d ∈ [f output] := by
    intro d
    rw [List.mem_map, List.mem_singleton]
    constructor
    · rintro ⟨o, ho, rfl⟩
      rw [hall o ho]
    · rintro rfl
      exact ⟨first, hfirst, by rw [hall first hfirst]⟩
  rw [Descriptor.unionOf_congr hmem, Descriptor.unionOf_singleton hf]

/-- The members of a union of arrays are the arrays of the outputs. -/
theorem mem_members_unionOf_arrays (hsome : outputs ≠ []) {d : Descriptor} :
    d ∈ (Descriptor.unionOf (outputs.map fun o => .array o.type)).members ↔
      ∃ o ∈ outputs, d = .array o.type := by
  have hnormal : ∀ d ∈ outputs.map fun o => Descriptor.array o.type, d.Normal := by
    rw [List.forall_mem_map]
    exact fun o _ => .array o.normal_type
  have hknown : Descriptor.unknown ∉ outputs.map fun o => Descriptor.array o.type := by simp
  rw [Descriptor.members_unionOf hnormal (by simpa using hsome) hknown,
    Descriptor.mem_sortedMembers, List.mem_flatMap]
  simp [Descriptor.members, eq_comm]

/-- Of checks that accept scalars or arrays, only the arrays are left where others go on to the
elements. -/
theorem arrayAlternatives_unionOf_fieldType (hsome : outputs ≠ []) (hnone : emptyObject ∉ outputs) :
    (Descriptor.unionOf (outputs.map (fieldType true))).arrayAlternatives =
      .unionOf (outputs.map fun o => .array o.type) := by
  obtain ⟨first, hfirst⟩ := List.exists_mem_of_ne_nil _ hsome
  have hmem : ∀ {d}, d ∈ (Descriptor.unionOf (outputs.map (fieldType true))).members ↔
      ∃ o ∈ outputs, d = o.type ∨ d = .array o.type := by
    intro d
    rw [mem_members_unionOf_fieldType hsome]
    refine exists_congr fun o => and_congr_right fun ho => ?_
    have hne : o ≠ .emptyObject := fun heq => hnone (heq ▸ ho)
    rw [and_iff_right rfl, and_iff_right hne]
  obtain ⟨ms, hunion⟩ := Descriptor.exists_union_of_members (hmem.mpr ⟨first, hfirst, .inl rfl⟩)
    (hmem.mpr ⟨first, hfirst, .inr rfl⟩) (by cases first <;> simp [type])
  rw [hunion] at hmem ⊢
  have hany : ms.any Descriptor.isArray = true :=
    List.any_eq_true.mpr ⟨_, hmem.mpr ⟨first, hfirst, .inr rfl⟩, rfl⟩
  rw [Descriptor.arrayAlternatives, if_pos hany]
  apply Descriptor.unionOf_congr
  intro d
  rw [List.mem_filter, List.mem_map]
  constructor
  · rintro ⟨hd, harray⟩
    obtain ⟨o, ho, rfl | rfl⟩ := hmem.mp hd
    · cases o <;> contradiction
    · exact ⟨o, ho, rfl⟩
  · rintro ⟨o, ho, rfl⟩
    exact ⟨hmem.mpr ⟨o, ho, .inr rfl⟩, rfl⟩

end RuleOutput

/-! ## A field and its elements -/

/-- The text of the path to the elements of a place. -/
def Path.elements (place : String) : String := place ++ ".*"

/-- The path of the elements is the path with one wildcard more. -/
theorem Path.parse_elements {text : String} {path : Path} (h : parse text = .ok path) :
    parse (elements text) = .ok ⟨path.root, path.below ++ [.each]⟩ := by
  obtain ⟨hspelled, rfl⟩ := parse_eq_ok_iff.mp h
  have hsegments : segments ⟨path.root, path.below ++ [.each]⟩ = path.segments ++ [.each] := rfl
  rw [parse_eq_ok_iff, hsegments, List.forall_mem_append]
  refine ⟨⟨hspelled, List.forall_mem_singleton.mpr trivial⟩, ?_⟩
  calc
    Path.text ⟨path.root, path.below ++ [.each]⟩ = path.text ++ "." ++ join [.each] := by
      rw [Path.text, hsegments, join, List.map_append]
      exact String.intercalate_append_of_ne_nil (List.cons_ne_nil _ _) (List.cons_ne_nil _ _)
    _ = path.text ++ ("." ++ join [.each]) := String.append_assoc
    _ = elements path.text := by rw [join, List.map_singleton, String.intercalate_singleton]; rfl

/-- A path of one segment is the name of a top-level field. -/
theorem Path.eq_of_parse {text : String} {path : Path} (h : parse text = .ok path)
    (hbelow : path.below = []) : path = ⟨text, []⟩ := by
  obtain ⟨-, rfl⟩ := parse_eq_ok_iff.mp h
  obtain ⟨root, below⟩ := path
  subst hbelow
  rw [Path.text, segments, join, List.map_singleton, String.intercalate_singleton, Segment.text]

/-- Two entries of which neither is in the way of the other. -/
theorem Tree.grow_pair {rules : Rulebook} {first second : String × Declaration}
    {path path' : Path} {entry entry' : Entry} {middle last : Tree}
    (hread : Entry.read rules first.1 first.2 = .ok (path, entry))
    (hread' : Entry.read rules second.1 second.2 = .ok (path', entry'))
    (hfirst : empty.insert path entry = (middle, none))
    (hsecond : middle.insert path' entry' = (last, none)) :
    empty.rejections rules [first, second] = [] ∧ empty.grow rules [first, second] = last := by
  have hstep : empty.step rules first = middle := by rw [step_of_read hread, hfirst]
  have hstep' : middle.step rules second = last := by rw [step_of_read hread', hsecond]
  constructor
  · rw [rejections_cons, rejections_cons, hstep, verdict_of_read hread, verdict_of_read hread',
      hfirst, hsecond]
    rfl
  · rw [grow, List.foldl_cons, List.foldl_cons, hstep, hstep']
    rfl

section

variable {rules : Rulebook} {x : String} {d e : Declaration} {t u : Descriptor}

/-- A top-level field and its elements, in either order, make one array node. -/
theorem Tree.grow_place_and_elements
    (hread : Entry.read rules x d = .ok (⟨x, []⟩, ⟨x, d, .required t⟩))
    (hread' : Entry.read rules (Path.elements x) e =
      .ok (⟨x, [.each]⟩, ⟨Path.elements x, e, .required u⟩)) {schema : Schema}
    (hschema : schema = [(x, d), (Path.elements x, e)] ∨
      schema = [(Path.elements x, e), (x, d)]) :
    empty.rejections rules schema = [] ∧ empty.grow rules schema =
      ⟨[(x, .array ⟨[⟨x, d, .required t⟩], none⟩ (Path.elements x)
        (.plain ⟨[⟨Path.elements x, e, .required u⟩], none⟩))]⟩ := by
  rcases hschema with rfl | rfl
  · apply grow_pair hread hread' rfl
    simp [insert, empty, Bindings.get?, Bindings.set, Node.insert, Node.empty, Node.addEntry,
      Declared.add, Declared.nothing, Declared.joinAbsent, FieldType.required]
  · apply grow_pair hread' hread rfl
    simp [insert, empty, Bindings.get?, Bindings.set, Node.insert, Node.empty, Node.addEntry,
      Declared.add, Declared.nothing, Declared.joinAbsent, FieldType.required]

/-- What of the declared type is an array is merged with the array of the elements. -/
theorem Node.reconcile_place_and_elements :
    reconcile [x] (.array ⟨[⟨x, d, .required t⟩], none⟩ (Path.elements x)
        (.plain ⟨[⟨Path.elements x, e, .required u⟩], none⟩)) =
      match t.arrayAlternatives.merge (.array u) with
      | .ok type => (type, [])
      | .error c => (t.arrayAlternatives,
          [.disagreement (x :: c.trail) ⟨x, c.left⟩ ⟨Path.elements x, c.right⟩]) := by
  have helement : reconcile ([x] ++ [Segment.wildcard])
      (.plain ⟨[⟨Path.elements x, e, .required u⟩], none⟩) = (u, []) := by
    rw [reconcile, account, entries, declared, List.foldl_cons, List.foldl_nil, Account.add_empty]
    rfl
  have haccount : ∀ element, account [x]
      (.array ⟨[⟨x, d, .required t⟩], none⟩ (Path.elements x) element) =
        ⟨some x, t.arrayAlternatives, []⟩ := by
    intro element
    rw [account, entries, declared, List.foldl_cons, List.foldl_nil, Account.add_empty]
    rfl
  rw [reconcile, helement, haccount]
  simp only [Account.addDefects, Account.add]
  cases t.arrayAlternatives.merge (.array u) <;> rfl

end

namespace Schema

/-- A type of a field and one of its elements, in either order: what of the first is an array is
merged with the array of the second. -/
theorem infer_place_and_elements {rules : Rulebook} {x : String} {path : Path}
    (hx : Path.parse x = .ok path) (hbelow : path.below = []) {d e : Declaration}
    {t u : Descriptor} (hd : rules.fieldType d .top = .ok (.required t))
    (he : rules.fieldType e .element = .ok (.required u)) {schema : Schema}
    (hschema : schema = [(x, d), (Path.elements x, e)] ∨
      schema = [(Path.elements x, e), (x, d)]) :
    schema.infer rules =
      match t.arrayAlternatives.merge (.array u) with
      | .ok type => .ok (.object [(x, type)])
      | .error c =>
          .error [.disagreement (x :: c.trail) ⟨x, c.left⟩ ⟨Path.elements x, c.right⟩] := by
  obtain rfl := Path.eq_of_parse hx hbelow
  have hread : Entry.read rules x d = .ok (⟨x, []⟩, ⟨x, d, .required t⟩) :=
    Entry.read_eq_ok_iff.mpr ⟨hx, rfl, rfl, hd⟩
  have hread' : Entry.read rules (Path.elements x) e =
      .ok (⟨x, [.each]⟩, ⟨Path.elements x, e, .required u⟩) :=
    Entry.read_eq_ok_iff.mpr ⟨Path.parse_elements hx, rfl, rfl, he⟩
  obtain ⟨hnone, hgrow⟩ := Tree.grow_place_and_elements hread hread' hschema
  rw [infer_eq, hnone, hgrow, List.nil_append, Tree.reconcile, Node.reconcileFields,
    Node.reconcileFields, List.nil_append, Node.reconcile_place_and_elements]
  cases t.arrayAlternatives.merge (.array u) <;> rfl

/-- The same builtin checks of a field and of its elements, in either order, make up the array of
the type of an element if they all leave the same behind. If they do not, the field and its elements
disagree. -/
theorem infer_check_and_elements (rules : Rulebook) {x : String} {path : Path}
    (hx : Path.parse x = .ok path) (hbelow : path.below = []) {d : Declaration}
    (hstrategy : d.strategy rules.catalog = .builtinValidator)
    (houtputs : .emptyObject ∉ d.checkOutputs rules.catalog) {schema : Schema}
    (hschema : schema = [(x, d), (Path.elements x, d)] ∨
      schema = [(Path.elements x, d), (x, d)]) :
    ∃ element, rules.fieldType d .element = .ok (.required element) ∧
      ((∃ output, ∀ o ∈ d.checkOutputs rules.catalog, o = output) →
        schema.infer rules = .ok (.object [(x, .array element)])) ∧
      ((∃ a ∈ d.checkOutputs rules.catalog, ∃ b ∈ d.checkOutputs rules.catalog, a ≠ b) →
        schema.infer rules = .error [.disagreement [x]
          ⟨x, .unionOf ((d.checkOutputs rules.catalog).map fun o => .array o.type)⟩
          ⟨Path.elements x, .array element⟩]) := by
  have hsome : d.checkOutputs rules.catalog ≠ [] := by
    have hpresent := Declaration.isPresent_of_strategy_eq hstrategy
    simpa [Strategy.isPresent, Declaration.checkOutputs] using hpresent
  have htype : ∀ position, rules.fieldType d position =
      .ok (.required (.unionOf ((d.checkOutputs rules.catalog).map
        (RuleOutput.fieldType (rules.widens position))))) := by
    intro position
    rw [Rulebook.fieldType_eq, hstrategy, Declaration.checkOutputs, List.map_map]
    rfl
  have htop : rules.fieldType d .top = .ok (.required (.unionOf
      ((d.checkOutputs rules.catalog).map (RuleOutput.fieldType true)))) := htype .top
  have helement : rules.fieldType d .element = .ok (.required (.unionOf
      ((d.checkOutputs rules.catalog).map RuleOutput.type))) := htype .element
  have hinfer := infer_place_and_elements hx hbelow htop helement hschema
  rw [RuleOutput.arrayAlternatives_unionOf_fieldType hsome houtputs] at hinfer
  refine ⟨_, helement, ?_, ?_⟩
  · rintro ⟨output, hall⟩
    rw [hinfer, RuleOutput.unionOf_of_forall_eq hsome hall output.normal_type,
      RuleOutput.unionOf_of_forall_eq hsome hall (.array output.normal_type),
      Descriptor.merge_self (.array output.normal_type)]
  · rintro ⟨a, ha, b, hb, hne⟩
    obtain ⟨ms, hunion⟩ := Descriptor.exists_union_of_members
      ((RuleOutput.mem_members_unionOf_arrays hsome).mpr ⟨a, ha, rfl⟩)
      ((RuleOutput.mem_members_unionOf_arrays hsome).mpr ⟨b, hb, rfl⟩)
      fun heq => hne (RuleOutput.type_injective (Descriptor.array.inj heq))
    rw [hinfer, hunion]
    rfl

/-- A check for a text, and checks for an integer and for a text. -/
theorem infer_check_and_elements_of_two :
    infer [("x", .ofList [("isString", .bool true)]), ("x.*", .ofList [("isString", .bool true)])]
        .builtin = .ok (.object [("x", .array (.primitive .string))]) ∧
      infer [("x.*", .ofList [("isInt", .bool true), ("isString", .bool true)]),
        ("x", .ofList [("isInt", .bool true), ("isString", .bool true)])] .builtin =
          .error [.disagreement ["x"]
            ⟨"x", .union [.array (.primitive .integer), .array (.primitive .string)]⟩
            ⟨"x.*", .array (.union [.primitive .integer, .primitive .string])⟩] := by
  have hx : Path.parse "x" = .ok ⟨"x", []⟩ := by decide +kernel
  have helements : Path.elements "x" = "x.*" := by decide +kernel
  constructor
  · have htype : Rulebook.fieldType .builtin (.ofList [("isString", .bool true)]) .element =
        .ok (.required (.primitive .string)) := by
      with_unfolding_all rfl
    obtain ⟨element, helement, hsame, -⟩ := infer_check_and_elements .builtin hx rfl
      (d := .ofList [("isString", .bool true)]) (by decide +kernel) (by decide +kernel) (.inl rfl)
    rw [htype] at helement
    cases helement
    rw [helements] at hsame
    exact hsame ⟨.string, by decide +kernel⟩
  · have htype : Rulebook.fieldType .builtin
        (.ofList [("isInt", .bool true), ("isString", .bool true)]) .element =
          .ok (.required (.union [.primitive .integer, .primitive .string])) := by
      with_unfolding_all rfl
    obtain ⟨element, helement, -, hdiffer⟩ := infer_check_and_elements .builtin hx rfl
      (d := .ofList [("isInt", .bool true), ("isString", .bool true)]) (by decide +kernel)
      (by decide +kernel) (.inr rfl)
    rw [htype] at helement
    cases helement
    rw [helements] at hdiffer
    exact hdiffer ⟨.integer, by decide +kernel, .string, by decide +kernel, by decide⟩

/-- The same checks of a field and of its elements need not make up an array. -/
theorem not_forall_infer_check_and_elements :
    ¬ ∀ (rules : Rulebook) (x : String) (path : Path) (d : Declaration),
      Path.parse x = .ok path → path.below = [] →
        d.strategy rules.catalog = .builtinValidator →
          .emptyObject ∉ d.checkOutputs rules.catalog →
            ∃ type, rules.fieldType d .element = .ok type ∧
              infer [(x, d), (Path.elements x, d)] rules = .ok (.object [(x, .array type.whole)]) ∧
              infer [(Path.elements x, d), (x, d)] rules =
                .ok (.object [(x, .array type.whole)]) := by
  intro h
  obtain ⟨type, -, hinfer, -⟩ := h .builtin "x" ⟨"x", []⟩
    (.ofList [("isInt", .bool true), ("isString", .bool true)]) (by decide +kernel) rfl
    (by decide +kernel) (by decide +kernel)
  have herror : infer [("x", .ofList [("isInt", .bool true), ("isString", .bool true)]),
      (Path.elements "x", .ofList [("isInt", .bool true), ("isString", .bool true)])] .builtin =
        .error [.disagreement ["x"]
          ⟨"x", .union [.array (.primitive .integer), .array (.primitive .string)]⟩
          ⟨"x.*", .array (.union [.primitive .integer, .primitive .string])⟩] := by
    with_unfolding_all rfl
  rw [herror] at hinfer
  contradiction

end Schema

end ShapeInference
