import ShapeInference.Proofs.Rule.Relevant
import ShapeInference.Proofs.Rulebook

/-!
# Field types and positions

Of all rules only builtin checks look at the position of a field, and there only to accept arrays of
what they accept. A declaration therefore succeeds at all positions or has the same fault at all of
them, says the same of a field left out, and allows at the top what it allows for an element, with
the arrays of it where checks decide.

Main statements: `RuleOutput.mem_members_unionOf_fieldType` and `Rulebook.fieldType_position`.
-/

namespace ShapeInference

/-! ## Outputs of builtin rules -/

namespace RuleOutput

theorem normal_type (output : RuleOutput) : output.type.Normal :=
  output.closed_type Descriptor.closed_normal

/-- Outputs are told apart by their types. -/
theorem type_injective : Function.Injective RuleOutput.type := by
  intro a b h
  cases a <;> cases b <;> first | rfl | contradiction

theorem type_eq_emptyObject_iff {output : RuleOutput} :
    output.type = Descriptor.emptyObject ↔ output = .emptyObject :=
  type_injective.eq_iff (b := .emptyObject)

/-- A widened check accepts a scalar or an array. -/
theorem members_fieldType (widen : Bool) (output : RuleOutput) :
    (output.fieldType widen).members =
      if widen = true ∧ output ≠ .emptyObject then [output.type, .array output.type]
      else [output.type] := by
  cases widen <;> cases output <;> rfl

/-- A widened output offers itself and, unless it is the empty object, an array of itself. -/
theorem mem_members_fieldType {widen : Bool} {output : RuleOutput} {d : Descriptor} :
    d ∈ (output.fieldType widen).members ↔
      d = output.type ∨ widen = true ∧ output ≠ .emptyObject ∧ d = .array output.type := by
  rw [members_fieldType]
  split
  · rename_i h
    rw [List.mem_pair, and_iff_right h.1, and_iff_right h.2]
  · rename_i h
    rw [← and_assoc, List.mem_singleton, or_iff_left fun hwidened => h hwidened.1]

variable {outputs : List RuleOutput} {widen : Bool}

theorem normal_fieldTypes (outputs : List RuleOutput) (widen : Bool) :
    ∀ d ∈ outputs.map (fieldType widen), d.Normal := by
  rw [List.forall_mem_map]
  exact fun output _ => output.closed_fieldType Descriptor.closed_normal widen

theorem unknown_not_mem_fieldTypes (outputs : List RuleOutput) (widen : Bool) :
    Descriptor.unknown ∉ outputs.map (fieldType widen) := by
  rw [List.mem_map]
  rintro ⟨output, -, h⟩
  cases widen <;> cases output <;> contradiction

/-- What several rules leave behind in a field is what one of them does. -/
theorem mem_members_unionOf_fieldType (hsome : outputs ≠ []) {d : Descriptor} :
    d ∈ (Descriptor.unionOf (outputs.map (fieldType widen))).members ↔
      ∃ output ∈ outputs,
        d = output.type ∨ widen = true ∧ output ≠ .emptyObject ∧ d = .array output.type := by
  rw [Descriptor.members_unionOf (normal_fieldTypes outputs widen) (by simpa using hsome)
    (unknown_not_mem_fieldTypes outputs widen), Descriptor.mem_sortedMembers, List.flatMap_map,
    List.mem_flatMap]
  simp only [mem_members_fieldType]

/-- Widened, several checks accept also the arrays of what they accept, but for objects. -/
theorem mem_members_widened (hsome : outputs ≠ []) {d : Descriptor} :
    d ∈ (Descriptor.unionOf (outputs.map (fieldType true))).members ↔
      d ∈ (Descriptor.unionOf (outputs.map (fieldType false))).members ∨
        ∃ e ∈ (Descriptor.unionOf (outputs.map (fieldType false))).members,
          e ≠ .emptyObject ∧ d = .array e := by
  have hscalar : ∀ e, e ∈ (Descriptor.unionOf (outputs.map (fieldType false))).members ↔
      ∃ output ∈ outputs, e = output.type := by
    intro e
    simp [mem_members_unionOf_fieldType hsome]
  rw [mem_members_unionOf_fieldType hsome, hscalar]
  constructor
  · rintro ⟨output, houtput, htype | ⟨-, hne, harray⟩⟩
    · exact .inl ⟨output, houtput, htype⟩
    · refine .inr ⟨output.type, (hscalar _).mpr ⟨output, houtput, rfl⟩, ?_, harray⟩
      exact fun h => hne (type_eq_emptyObject_iff.mp h)
  · rintro (⟨output, houtput, htype⟩ | ⟨e, he, hne, harray⟩)
    · exact ⟨output, houtput, .inl htype⟩
    · obtain ⟨output, houtput, rfl⟩ := (hscalar e).mp he
      exact ⟨output, houtput, .inr ⟨rfl, fun h => hne (type_eq_emptyObject_iff.mpr h), harray⟩⟩

end RuleOutput

/-! ## Positions -/

namespace Rulebook

variable {rules : Rulebook} {declaration : Declaration}

/-- Only builtin checks look at the position. -/
theorem presentType_congr (h : declaration.presentStrategy rules.catalog ≠ .builtinValidator)
    (position other : Position) :
    rules.presentType declaration position = rules.presentType declaration other := by
  rw [presentType_eq, presentType_eq rules declaration other]
  cases hchosen : declaration.presentStrategy rules.catalog with
  | builtinValidator => contradiction
  | _ => rfl

/-- Builtin checks are widened where the position says so. -/
theorem presentType_of_checks (h : declaration.presentStrategy rules.catalog = .builtinValidator)
    (position : Position) :
    rules.presentType declaration position = .ok (rules.builtinType .validator
      (rules.widens position) (declaration.eraseAll RuleName.absence)) := by
  rw [presentType_eq, h]

theorem builtinType_eq (rules : Rulebook) (role : RuleRole) (widen : Bool)
    (declaration : Declaration) :
    rules.builtinType role widen declaration =
      .unionOf (((rules.catalog.inRole role declaration.names).map fun rule => rule.2.output).map
        (RuleOutput.fieldType widen)) := by
  rw [builtinType, List.map_map]
  rfl

/-- A builtin rule always leaves something known behind. -/
theorem builtinType_ne_unknown {role : RuleRole}
    (hsome : rules.catalog.inRole role declaration.names ≠ []) (widen : Bool) :
    rules.builtinType role widen declaration ≠ .unknown := by
  rw [builtinType_eq, Ne, Descriptor.unionOf_eq_unknown_iff (RuleOutput.normal_fieldTypes _ _)
    (by simpa using hsome)]
  exact RuleOutput.unknown_not_mem_fieldTypes _ _

/-- Where rules are declared, widening adds the arrays of the members that are not the empty
object. -/
theorem mem_members_builtinType_widened {role : RuleRole}
    (hsome : rules.catalog.inRole role declaration.names ≠ []) {d : Descriptor} :
    d ∈ (rules.builtinType role true declaration).members ↔
      d ∈ (rules.builtinType role false declaration).members ∨
        ∃ e ∈ (rules.builtinType role false declaration).members,
          e ≠ .emptyObject ∧ d = .array e := by
  rw [builtinType_eq, builtinType_eq]
  exact RuleOutput.mem_members_widened (by simpa using hsome)

/-- At the top, a field that is present may be what an element may be and, where checks decide, an
array of it. -/
theorem presentType_top_element (rules : Rulebook) (declaration : Declaration) :
    (∃ fault, rules.presentType declaration .top = .error fault ∧
        rules.presentType declaration .element = .error fault) ∨
      ∃ top element, rules.presentType declaration .top = .ok top ∧
        rules.presentType declaration .element = .ok element ∧
        ∀ d, d ∈ top.members ↔ d ∈ element.members ∨
          declaration.presentStrategy rules.catalog = .builtinValidator ∧
            ∃ e ∈ element.members, e ≠ .emptyObject ∧ d = .array e := by
  by_cases hchosen : declaration.presentStrategy rules.catalog = .builtinValidator
  · -- The strategy is chosen for a check that is there, so that neither union is empty.
    have hsome := Declaration.isPresent_of_strategy_eq hchosen
    rw [Strategy.isPresent, Bool.not_eq_true', List.isEmpty_eq_false_iff] at hsome
    refine .inr ⟨_, _, presentType_of_checks hchosen .top, presentType_of_checks hchosen .element,
      fun d => ?_⟩
    rw [and_iff_right hchosen]
    exact mem_members_builtinType_widened hsome
  · have hsame := presentType_congr hchosen .top .element
    cases helement : rules.presentType declaration .element with
    | error fault => exact .inl ⟨fault, hsame.trans helement, rfl⟩
    | ok element =>
        refine .inr ⟨element, element, hsame.trans helement, rfl, fun d => ?_⟩
        rw [or_iff_left fun h => hchosen h.1]

/-- The whole field at the top and for an element: a default value decides alone, and the rules about
absence say the same at both. -/
theorem fieldType_top_element (rules : Rulebook) (declaration : Declaration) :
    (∃ fault, rules.fieldType declaration .top = .error fault ∧
        rules.fieldType declaration .element = .error fault) ∨
      ∃ top element absent, rules.fieldType declaration .top = .ok ⟨top, absent⟩ ∧
        rules.fieldType declaration .element = .ok ⟨element, absent⟩ ∧
        ∀ d, d ∈ top.members ↔ d ∈ element.members ∨
          declaration.hasGivenDefault = false ∧
            declaration.presentStrategy rules.catalog = .builtinValidator ∧
            ∃ e ∈ element.members, e ≠ .emptyObject ∧ d = .array e := by
  rw [fieldType_eq_parts, fieldType_eq_parts rules declaration .element]
  cases hgiven : declaration.givenDefault? with
  | error fault => exact .inl ⟨fault, rfl, rfl⟩
  | ok given =>
      rw [Declaration.hasGivenDefault_of_ok hgiven]
      cases given with
      | some value => exact .inr ⟨.ofValue value, .ofValue value, none, rfl, rfl, by simp⟩
      | none =>
          cases declaration.declaredAbsence with
          | error fault => exact .inl ⟨fault, rfl, rfl⟩
          | ok absence =>
              rcases rules.presentType_top_element declaration with
                ⟨fault, htop, helement⟩ | ⟨top, element, htop, helement, hmembers⟩
              · rw [htop, helement]
                exact .inl ⟨fault, rfl, rfl⟩
              · rw [htop, helement]
                exact .inr ⟨top, element, _, rfl, rfl, by simpa using hmembers⟩

/-- A nested field is like one at the top or like an element, by policy. -/
theorem fieldType_nested (rules : Rulebook) (declaration : Declaration) :
    rules.fieldType declaration .nested =
      rules.fieldType declaration (if rules.widenNested = true then .top else .element) := by
  apply fieldType_congr
  cases h : rules.widenNested <;> simp [widens, h]

/-- A declaration has the same fault at all positions, or gives a type at each of them and says the
same of a field left out. At the top, a field that is present may be what an element may be and,
where builtin checks decide, an array of any of it but objects. A nested field is like one at the
top or like an element, by policy. -/
theorem fieldType_position (rules : Rulebook) (declaration : Declaration) :
    (∃ fault, ∀ position, rules.fieldType declaration position = .error fault) ∨
      ∃ top nested element absent,
        rules.fieldType declaration .top = .ok ⟨top, absent⟩ ∧
        rules.fieldType declaration .nested = .ok ⟨nested, absent⟩ ∧
        rules.fieldType declaration .element = .ok ⟨element, absent⟩ ∧
        (∀ d, d ∈ top.members ↔ d ∈ element.members ∨
          declaration.hasGivenDefault = false ∧
            declaration.presentStrategy rules.catalog = .builtinValidator ∧
            ∃ e ∈ element.members, e ≠ .emptyObject ∧ d = .array e) ∧
        nested = if rules.widenNested = true then top else element := by
  have hnested := rules.fieldType_nested declaration
  rcases rules.fieldType_top_element declaration with
    ⟨fault, htop, helement⟩ | ⟨top, element, absent, htop, helement, hmembers⟩
  · refine .inl ⟨fault, fun position => ?_⟩
    cases position with
    | top => exact htop
    | element => exact helement
    | nested =>
        rw [hnested]
        split <;> assumption
  · refine .inr ⟨top, _, element, absent, htop, ?_, helement, hmembers, rfl⟩
    rw [hnested]
    split <;> assumption

end Rulebook

end ShapeInference
