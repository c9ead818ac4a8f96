import ShapeInference.Proofs.Descriptor.Join
import ShapeInference.Proofs.Schema.Order

/-!
# The type of a schema as a join

Each entry of a schema says something of the whole data: its type, wrapped for the steps of its
path. Where no entry speaks of a field left out, and none offers an array among alternatives at a
place whose elements others declare, the type of the schema is the join of what the entries say, and
there is none exactly if they have no join.

Main statements: `Group.forall_mem_nested_iff`, `Group.meaning_eq_some_iff_isJoin` and
`Schema.infer_eq_ok_iff_mergeList`.
-/

namespace ShapeInference

/-- Whether this is a union with an array among its members. -/
def Descriptor.offersArray : Descriptor → Bool
  | union ds => ds.any isArray
  | _ => false

/-- Without arrays among its alternatives a descriptor is its own array alternatives. -/
theorem Descriptor.arrayAlternatives_eq_self {d : Descriptor} (h : d.offersArray = false) :
    d.arrayAlternatives = d := by
  cases d with
  | union ds => rw [arrayAlternatives, if_neg (Bool.not_eq_true _ ▸ h)]
  | _ => rfl

namespace Group

/-- What the things of a group say of the place that the group is about: the type of a present
value, wrapped for the steps to go. -/
def nested (group : Group FieldType) : List Descriptor :=
  group.map fun member => member.2.present.nest member.1

/-- No thing offers an array among alternatives at a place from which others go on to elements. -/
def Unambiguous (group : Group FieldType) : Prop :=
  ∀ member ∈ group, ∀ other ∈ group, member.1 ++ [.each] <+: other.1 →
    member.2.present.offersArray = false

/-- What is nested in a group are the types of its things, each put at the end of its steps. -/
theorem mem_nested {group : Group FieldType} {d : Descriptor} :
    d ∈ group.nested ↔ ∃ steps type, (steps, type) ∈ group ∧ type.present.nest steps = d := by
  simp [nested]

theorem normal_nested {group : Group FieldType} (h : group.All FieldType.Normal) :
    ∀ d ∈ group.nested, d.Normal := by
  intro d hd
  obtain ⟨steps, type, hmem, rfl⟩ := mem_nested.mp hd
  exact (h _ hmem).present.nest steps

/-- After a first step there is something nested. -/
theorem exists_mem_nested_after {group : Group FieldType} {step : Segment}
    (h : step ∈ group.firsts) : ∃ d, d ∈ (group.after step).nested := by
  obtain ⟨rest, type, hmem⟩ := mem_firsts.mp h
  exact ⟨_, mem_nested.mpr ⟨rest, type, mem_after.mpr hmem, rfl⟩⟩

/-- A group without ambiguous arrays has none after a step. -/
theorem Unambiguous.after {group : Group FieldType} (h : group.Unambiguous) (step : Segment) :
    (group.after step).Unambiguous := by
  rintro ⟨steps, type⟩ hmember ⟨others, other⟩ hother hleads
  have hfurther : step :: steps ++ [.each] <+: step :: others :=
    List.cons_prefix_cons.mpr ⟨rfl, hleads⟩
  exact h (step :: steps, type) (mem_after.mp hmember) _ (mem_after.mp hother) hfurther

theorem Unambiguous.map_arrayAlternatives {group : Group FieldType} (h : group.Unambiguous)
    (heach : .each ∈ group.firsts) :
    group.present.map Descriptor.arrayAlternatives = group.present := by
  obtain ⟨rest, other, hother⟩ := mem_firsts.mp heach
  rw [← List.map_id group.present, List.map_map]
  apply List.map_congr_left
  intro d hd
  obtain ⟨type, htype, rfl⟩ := List.mem_map.mp hd
  apply Descriptor.arrayAlternatives_eq_self
  exact h ([], type) (mem_ended.mp htype) _ hother (List.prefix_append [Segment.each] rest)

theorem absent_eq_nil {group : Group FieldType} (h : group.All fun type => type.absent = none) :
    group.absent = [] := by
  rw [absent, List.filterMap_eq_nil_iff]
  intro type htype
  exact h.of_mem_ended htype

/-- Without absences things settle exactly to their join. -/
theorem settle_nil_eq_some_iff {said : List Descriptor} (hsaid : ∀ d ∈ said, d.Normal)
    {d : Descriptor} : settle said [] = some d ↔ Descriptor.IsJoin said d := by
  rw [settle_eq_some_iff, ← Descriptor.mergeList_eq_ok_iff hsaid]
  constructor
  · rintro ⟨v, hv, rfl⟩
    exact hv
  · intro hd
    exact ⟨d, hd, rfl⟩

/-! ## Upper bounds -/

/-- A descriptor is above all that is said of a place if it is above what is said of the place
itself and, one step further, above all that is said there. -/
theorem forall_mem_nested_iff {group : Group FieldType} {b : Descriptor} (hb : b.Normal) :
    (∀ d ∈ group.nested, d.Below b) ↔ (∀ d ∈ group.present, d.Below b) ∧
      ∀ step ∈ group.firsts, ∃ e, b.child? step = some e ∧
        ∀ d ∈ (group.after step).nested, d.Below e := by
  constructor
  · intro h
    have hfurther : ∀ step, ∀ d ∈ (group.after step).nested,
        ∃ e, b.child? step = some e ∧ d.Below e := by
      intro step d hd
      obtain ⟨steps, type, hmem, rfl⟩ := mem_nested.mp hd
      rw [← Descriptor.below_inside_iff hb]
      exact h _ (mem_nested.mpr ⟨step :: steps, type, mem_after.mp hmem, rfl⟩)
    constructor
    · intro d hd
      obtain ⟨type, htype, rfl⟩ := List.mem_map.mp hd
      exact h _ (mem_nested.mpr ⟨[], type, mem_ended.mp htype, rfl⟩)
    · intro step hstep
      obtain ⟨first, hfirst⟩ := exists_mem_nested_after hstep
      obtain ⟨e, he, -⟩ := hfurther step first hfirst
      refine ⟨e, he, ?_⟩
      intro d hd
      obtain ⟨e', he', hbelow⟩ := hfurther step d hd
      obtain rfl := Option.some.inj (he.symm.trans he')
      exact hbelow
  · rintro ⟨hpresent, hfurther⟩ d hd
    obtain ⟨steps, type, hmem, rfl⟩ := mem_nested.mp hd
    cases steps with
    | nil => exact hpresent _ (List.mem_map.mpr ⟨type, mem_ended.mpr hmem, rfl⟩)
    | cons step rest =>
        obtain ⟨e, he, hall⟩ := hfurther step (mem_firsts.mpr ⟨rest, type, hmem⟩)
        rw [Descriptor.nest_cons, Descriptor.below_inside_iff hb]
        exact ⟨e, he, hall _ (mem_nested.mpr ⟨rest, type, mem_after.mpr hmem, rfl⟩)⟩

section

variable {group : Group FieldType} {d : Descriptor}

/-- Where a place has a join, each place one step further has one. -/
theorem exists_isJoin_after (hnormal : group.All FieldType.Normal)
    (hd : Descriptor.IsJoin group.nested d) {step : Segment} (hstep : step ∈ group.firsts) :
    ∃ c, Descriptor.IsJoin (group.after step).nested c := by
  obtain ⟨e, he, hall⟩ := ((forall_mem_nested_iff hd.normal).mp hd.above).2 step hstep
  exact Descriptor.exists_isJoin (normal_nested (hnormal.after step)) (hd.normal.child? he) hall

/-- What is said further on in elements may be replaced by the array of its join. -/
theorem isJoin_array_iff (hsome : group.firsts ≠ [])
    (heach : ∀ step ∈ group.firsts, step.isEach = true) {element : Descriptor}
    (helement : Descriptor.IsJoin (group.after .each).nested element) :
    Descriptor.IsJoin (group.present ++ [.array element]) d ↔
      Descriptor.IsJoin group.nested d := by
  apply Descriptor.isJoin_congr
  intro b hb
  rw [List.forall_mem_append, List.forall_mem_singleton, forall_mem_nested_iff hb,
    Descriptor.below_array_iff]
  apply and_congr_right
  intro _
  constructor
  · rintro ⟨e, rfl, hbelow⟩ step hstep
    cases step with
    | key name =>
        have := heach _ hstep
        contradiction
    | each => exact ⟨e, rfl, (helement.below_iff e hb.element).mp hbelow⟩
  · intro hfurther
    obtain ⟨e, he, hall⟩ := hfurther .each (each_mem_firsts hsome heach)
    cases b with
    | array other =>
        obtain rfl := Option.some.inj he
        exact ⟨other, rfl, (helement.below_iff other hb.element).mpr hall⟩
    | _ => contradiction

/-- What is said further on in fields may be replaced by the object of the joins. -/
theorem isJoin_object_iff (hsome : group.firsts ≠ [])
    (hkeyed : ∀ step ∈ group.firsts, step.isEach = false) {fields : List (String × Descriptor)}
    (hnames : Bindings.names fields = group.keys)
    (hjoins : ∀ name e, Bindings.get? fields name = some e →
      Descriptor.IsJoin (group.after (.key name)).nested e) :
    Descriptor.IsJoin (group.present ++ [.ofFields fields]) d ↔
      Descriptor.IsJoin group.nested d := by
  have hget : ∀ name, Bindings.get? (Bindings.sortedOfPairs fields) name =
      Bindings.get? fields name := by
    intro name
    rw [Bindings.get?_sortedOfPairs, Bindings.get?_reverse (hnames ▸ group.nodup_keys)]
  have hbound : ∀ name, .key name ∈ group.firsts ↔ ∃ e, Bindings.get? fields name = some e := by
    intro name
    rw [← mem_keys, ← hnames, ← Bindings.isSome_get?_iff, Option.isSome_iff_exists]
  apply Descriptor.isJoin_congr
  intro b hb
  rw [List.forall_mem_append, List.forall_mem_singleton, forall_mem_nested_iff hb,
    Descriptor.ofFields, Descriptor.below_object_iff (Bindings.sorted_sortedOfPairs _) hb]
  simp only [hget]
  apply and_congr_right
  intro _
  constructor
  · rintro ⟨others, rfl, hall⟩ step hstep
    cases step with
    | key name =>
        obtain ⟨c, hc⟩ := (hbound name).mp hstep
        obtain ⟨e, he, hbelow⟩ := hall name c hc
        exact ⟨e, he, ((hjoins name c hc).below_iff e (hb.field he)).mp hbelow⟩
    | each =>
        have := hkeyed _ hstep
        contradiction
  · intro hfurther
    obtain ⟨first, hfirst⟩ := exists_key_mem_firsts hsome hkeyed
    obtain ⟨e, he, -⟩ := hfurther _ hfirst
    cases b with
    | object others =>
        refine ⟨others, rfl, ?_⟩
        intro name c hc
        obtain ⟨e, he, hall⟩ := hfurther _ ((hbound name).mpr ⟨c, hc⟩)
        exact ⟨e, he, ((hjoins name c hc).below_iff e (hb.field he)).mpr hall⟩
    | _ => contradiction

/-- Nothing lies above what is said of fields and of elements of the same place. -/
theorem not_isJoin_of_mixed (hkeyed : ¬ ∀ step ∈ group.firsts, step.isEach = false)
    (heach : ¬ ∀ step ∈ group.firsts, step.isEach = true) :
    ¬ Descriptor.IsJoin group.nested d := by
  intro hd
  obtain ⟨-, hfurther⟩ := (forall_mem_nested_iff hd.normal).mp hd.above
  have hsteps : ∀ name, .key name ∈ group.firsts → .each ∉ group.firsts := by
    intro name hname hstep
    obtain ⟨e, he, -⟩ := hfurther _ hname
    obtain ⟨f, hf, -⟩ := hfurther _ hstep
    cases d <;> contradiction
  by_cases hstep : .each ∈ group.firsts
  · apply heach
    intro step hmem
    cases step with
    | key name => exact absurd hstep (hsteps name hmem)
    | each => rfl
  · apply hkeyed
    intro step hmem
    cases step with
    | key name => rfl
    | each => exact absurd hmem hstep

end

/-! ## Meanings -/

/-- The meaning of a group is the join of what its things say. -/
theorem meaning_eq_some_iff_isJoin {group : Group FieldType}
    (hnormal : group.All FieldType.Normal) (hrequired : group.All fun type => type.absent = none)
    (hunambiguous : group.Unambiguous) {d : Descriptor} :
    group.meaning = some d ↔ Descriptor.IsJoin group.nested d := by
  induction group using meaning.induct generalizing d with
  | case1 group hended =>
      rw [meaning_of_ended hended, absent_eq_nil hrequired,
        settle_nil_eq_some_iff (normal_present hnormal)]
      apply Descriptor.isJoin_congr
      intro b hb
      rw [forall_mem_nested_iff hb, hended]
      simp
  | case2 group hsome hkeyed ih =>
      have hfield : ∀ name, .key name ∈ group.firsts → ∀ e,
          (group.after (.key name)).meaning = some e ↔
            Descriptor.IsJoin (group.after (.key name)).nested e := by
        intro name hname e
        exact ih ⟨name, mem_keys.mpr hname⟩ (hnormal.after _) (hrequired.after _)
          (hunambiguous.after _)
      have hsettle : ∀ fields, group.fieldMeanings = some fields →
          (settle (group.present ++ [.ofFields fields]) [] = some d ↔
            Descriptor.IsJoin group.nested d) := by
        intro fields hfields
        have hpart : (Descriptor.ofFields fields).Normal := by
          apply normal_objectMeaning fun name _ _ => normal_meaning (hnormal.after (.key name))
          rw [objectMeaning, hfields, Option.map_some]
        rw [settle_nil_eq_some_iff (normal_present_append hnormal hpart)]
        apply isJoin_object_iff hsome hkeyed (fieldMeanings_eq_some_iff.mp hfields).1
        intro name e he
        obtain ⟨hname, hmeaning⟩ :=
          (mem_of_fieldMeanings hfields).mp (Bindings.mem_of_get?_eq_some he)
        exact (hfield name hname e).mp hmeaning
      rw [meaning_of_keyed hsome hkeyed, absent_eq_nil hrequired, objectMeaning, Option.bind_map,
        Option.bind_eq_some_iff]
      constructor
      · rintro ⟨fields, hfields, hd⟩
        exact (hsettle fields hfields).mp hd
      · intro hd
        have hfound : ∀ name, .key name ∈ group.firsts →
            ∃ e, (group.after (.key name)).meaning = some e := by
          intro name hname
          obtain ⟨e, he⟩ := exists_isJoin_after hnormal hd hname
          exact ⟨e, (hfield name hname e).mpr he⟩
        obtain ⟨fields, hfields⟩ := exists_fieldMeanings_iff.mpr hfound
        exact ⟨fields, hfields, (hsettle fields hfields).mpr hd⟩
  | case3 group hsome _ heach ih =>
      have hstep : .each ∈ group.firsts := each_mem_firsts hsome heach
      have helement : ∀ e, (group.after .each).meaning = some e ↔
          Descriptor.IsJoin (group.after .each).nested e := fun e =>
        ih (hnormal.after _) (hrequired.after _) (hunambiguous.after _)
      have hsettle : ∀ element, Descriptor.IsJoin (group.after .each).nested element →
          (settle (group.present ++ [.array element]) [] = some d ↔
            Descriptor.IsJoin group.nested d) := by
        intro element hjoin
        rw [settle_nil_eq_some_iff (normal_present_append hnormal (.array hjoin.normal))]
        exact isJoin_array_iff hsome heach hjoin
      rw [meaning_of_each hsome heach, absent_eq_nil hrequired,
        hunambiguous.map_arrayAlternatives hstep, Option.bind_eq_some_iff]
      constructor
      · rintro ⟨element, hmeaning, hd⟩
        exact (hsettle element ((helement element).mp hmeaning)).mp hd
      · intro hd
        obtain ⟨element, hjoin⟩ := exists_isJoin_after hnormal hd hstep
        exact ⟨element, (helement element).mpr hjoin, (hsettle element hjoin).mpr hd⟩
  | case4 group _ hkeyed heach =>
      rw [meaning_of_mixed hkeyed heach]
      exact iff_of_false (Option.some_ne_none d).symm (not_isJoin_of_mixed hkeyed heach)

end Group

namespace Schema

variable {schema : Schema} {rules : Rulebook} {group : Group FieldType}

/-- Without types of a field left out, and without an array among alternatives where others go on
to elements, inferring the type of a schema is merging what its entries say, each type wrapped for
the steps of its path. -/
theorem infer_eq_ok_iff_mergeList (hsome : schema ≠ [])
    (hgroup : List.Forall₂ (fun entry member => ∃ path, Path.parse entry.1 = .ok path ∧
      path.segments = member.1 ∧ rules.fieldType entry.2 path.position = .ok member.2)
        schema group)
    (hrequired : ∀ member ∈ group, member.2.absent = none)
    (hunambiguous : ∀ member ∈ group, ∀ other ∈ group, member.1 ++ [.each] <+: other.1 →
      member.2.present.offersArray = false) (d : Descriptor) :
    schema.infer rules = .ok d ↔
      Descriptor.mergeList (group.map fun member => member.2.present.nest member.1) = .ok d := by
  rw [← group_eq_some_iff] at hgroup
  have hnormal := normal_group hgroup
  rw [infer_eq_ok_iff_meaning, meaning_eq_of_group hsome hgroup,
    Group.meaning_eq_some_iff_isJoin hnormal hrequired hunambiguous]
  exact (Descriptor.mergeList_eq_ok_iff (Group.normal_nested hnormal)).symm

/-- What is declared of an array, of its elements and of a field of these is merged; a union with an
array among its members may stand where no other entry goes on. -/
theorem infer_eq_ok_iff_mergeList_of_elements :
    Descriptor.mergeList
        [.object [("x", .array .unknown)],
          .object [("x", .array (.object [("id", .primitive .integer)]))],
          .object [("x", .array .emptyObject)],
          .object [("n", .union [.primitive .integer, .array (.primitive .integer)])]] =
        .ok (.object [("n", .union [.primitive .integer, .array (.primitive .integer)]),
          ("x", .array (.object [("id", .primitive .integer)]))]) ∧
      infer [("x", .ofList [("isArray", .bool true)]), ("x.*.id", .ofList [("toInt", .bool true)]),
          ("x.*", .ofList [("isObject", .bool true)]), ("n", .ofList [("isInt", .bool true)])]
        .builtin = .ok (.object [("n", .union [.primitive .integer, .array (.primitive .integer)]),
          ("x", .array (.object [("id", .primitive .integer)]))]) := by
  refine ⟨rfl, (@infer_eq_ok_iff_mergeList _ _
    [([.key "x"], .required (.array .unknown)),
      ([.key "x", .each, .key "id"], .required (.primitive .integer)),
      ([.key "x", .each], .required .emptyObject),
      ([.key "n"], .required (.union [.primitive .integer, .array (.primitive .integer)]))]
    (List.cons_ne_nil _ _) ?_ (by decide) (by decide) _).mpr rfl⟩
  refine .cons ⟨⟨"x", []⟩, ?_, rfl, ?_⟩ (.cons ⟨⟨"x", [.each, .key "id"]⟩, ?_, rfl, ?_⟩
    (.cons ⟨⟨"x", [.each]⟩, ?_, rfl, ?_⟩ (.cons ⟨⟨"n", []⟩, ?_, rfl, ?_⟩ .nil)))
  all_goals with_unfolding_all rfl

end Schema

end ShapeInference
