import ShapeInference.Proofs.Descriptor.Value
import ShapeInference.Proofs.Rule.Position

/-!
# When nothing is known of a field

A rule that is recognized always says something of a field that is present. Nothing is known of it
only if no rule is recognized, or if the rule that decides was written by the user and no hint says
what it returns.

Main statement: `Rulebook.present_eq_unknown_iff`.
-/

namespace ShapeInference

/-! ## Types of values -/

namespace Descriptor

theorem normal_ofValues (values : List Json) : ∀ d ∈ ofValues values, d.Normal :=
  closed_normal.ofValues values fun _ _ => trivial

theorem unknown_not_mem_ofValues (values : List Json) : unknown ∉ ofValues values := by
  rw [ofValues_eq_map, List.mem_map]
  rintro ⟨value, -, h⟩
  exact ofValue_ne_unknown value h

/-- Something is known of a choice among values. -/
theorem unionOf_ofValues_ne_unknown {values : List Json} (hsome : values ≠ []) :
    unionOf (ofValues values) ≠ unknown := by
  have hne : ofValues values ≠ [] := by
    cases values with
    | nil => contradiction
    | cons value rest => exact List.cons_ne_nil _ _
  rw [Ne, unionOf_eq_unknown_iff (normal_ofValues values) hne]
  exact unknown_not_mem_ofValues values

end Descriptor

/-! ## Payloads -/

namespace Declaration

variable {declaration : Declaration}

/-- A list of allowed values always says something. -/
theorem allowedValues_ne_unknown : declaration.allowedValues ≠ .ok .unknown := by
  intro h
  rw [allowedValues] at h
  split at h
  case h_2 values hsome hoptions =>
    exact Descriptor.unionOf_ofValues_ne_unknown hsome (Except.ok.inj h)
  all_goals contradiction

/-- What the payload of a rule written by the user says of its result. -/
def hint? (declaration : Declaration) (rule : String) : Option Json :=
  (declaration.get? rule).bind (·.member? "returns")

/-- A hint says nothing exactly if there is none or its form does not. -/
theorem returnsHint_eq_unknown_iff {rule : String} :
    declaration.returnsHint rule = .ok .unknown ↔
      declaration.hint? rule = none ∨
        ∃ form, declaration.hint? rule = some form ∧ Descriptor.ofJson form = .ok .unknown := by
  rw [returnsHint, hint?]
  split
  · rename_i form hform
    rw [mapError_eq_ok_iff, hform]
    simp
  · rename_i hnone
    rw [hnone]
    simp

end Declaration

/-- The rule written by the user that a strategy goes by. -/
def Strategy.customRule? : Strategy → Option String
  | customSanitizer => some RuleName.customSanitizer
  | customValidator => some RuleName.custom
  | _ => Option.none

/-! ## Types of fields -/

namespace Rulebook

variable {rules : Rulebook} {declaration : Declaration} {position : Position}

/-- A recognized rule that the user did not write says something of the field. -/
theorem presentType_ne_unknown
    (hbuiltin : (declaration.presentStrategy rules.catalog).customRule? = Option.none)
    (hne : declaration.presentStrategy rules.catalog ≠ .none) :
    rules.presentType declaration position ≠ .ok .unknown := by
  intro h
  rw [presentType_eq] at h
  cases hchosen : declaration.presentStrategy rules.catalog with
  | defaultOrOptional => exact declaration.presentStrategy_ne _ hchosen
  | customSanitizer | customValidator =>
      rw [hchosen] at hbuiltin
      contradiction
  | enumeration =>
      rw [hchosen] at h
      exact Declaration.allowedValues_ne_unknown h
  | arrayWrapper =>
      rw [hchosen] at h
      obtain ⟨_, -, h⟩ := bind_eq_ok_iff.mp h
      obtain ⟨element, -, h⟩ := bind_eq_ok_iff.mp h
      have harray := Except.ok.inj h
      contradiction
  | builtinSanitizer | builtinValidator =>
      have hsome := Declaration.isPresent_of_strategy_eq hchosen
      rw [Strategy.isPresent, Bool.not_eq_true', List.isEmpty_eq_false_iff] at hsome
      rw [hchosen] at h
      exact builtinType_ne_unknown hsome _ (Except.ok.inj h)
  | none => contradiction

/-- Where a rule of the user decides, its hint is the type. -/
theorem presentType_of_customRule {rule : String}
    (h : (declaration.presentStrategy rules.catalog).customRule? = some rule) :
    rules.presentType declaration position = declaration.returnsHint rule := by
  have hget : ∀ name ∉ RuleName.absence,
      Declaration.returnsHint (declaration.eraseAll RuleName.absence) name =
        declaration.returnsHint name := by
    intro name hname
    rw [Declaration.returnsHint, Declaration.returnsHint, OrderedMap.get?_eraseAll, if_neg hname]
  rw [presentType_eq]
  cases hchosen : declaration.presentStrategy rules.catalog with
  | customSanitizer | customValidator =>
      rw [hchosen] at h
      obtain rfl := Option.some.inj h
      exact hget _ (by decide)
  | _ =>
      rw [hchosen] at h
      contradiction

/-- Nothing is known of a present value exactly if no rule speaks, or a custom one whose hint
says nothing. -/
theorem presentType_eq_unknown_iff :
    rules.presentType declaration position = .ok .unknown ↔
      declaration.presentStrategy rules.catalog = .none ∨
        ∃ rule, (declaration.presentStrategy rules.catalog).customRule? = some rule ∧
          (declaration.hint? rule = none ∨ ∃ form, declaration.hint? rule = some form ∧
            Descriptor.ofJson form = .ok .unknown) := by
  cases hcustom : (declaration.presentStrategy rules.catalog).customRule? with
  | none =>
      constructor
      · intro h
        by_contra hknown
        exact presentType_ne_unknown hcustom (fun hnone => hknown (.inl hnone)) h
      · rintro (hnone | ⟨rule, hrule, -⟩)
        · rw [presentType_eq, hnone]
        · contradiction
  | some rule =>
      have hne : declaration.presentStrategy rules.catalog ≠ .none := by
        intro hnone
        rw [hnone] at hcustom
        contradiction
      rw [presentType_of_customRule hcustom, Declaration.returnsHint_eq_unknown_iff,
        or_iff_right hne]
      simp

/-- Nothing is known of a field that is present exactly when no default value is given and, but for
the rules about absence, either no rule is recognized or a rule of the user decides whose payload
has no hint or one that spells the unknown type. -/
theorem present_eq_unknown_iff {type : FieldType}
    (h : rules.fieldType declaration position = .ok type) :
    type.present = .unknown ↔
      declaration.hasGivenDefault = false ∧
        (declaration.presentStrategy rules.catalog = .none ∨
          ∃ rule, (declaration.presentStrategy rules.catalog).customRule? = some rule ∧
            (declaration.hint? rule = none ∨ ∃ form, declaration.hint? rule = some form ∧
              Descriptor.ofJson form = .ok .unknown)) := by
  rw [fieldType_eq_parts] at h
  obtain ⟨given, hgiven, h⟩ := bind_eq_ok_iff.mp h
  rw [Declaration.hasGivenDefault_of_ok hgiven]
  cases given with
  | some value =>
      obtain rfl := Except.ok.inj h
      exact iff_of_false (Descriptor.ofValue_ne_unknown value) (by simp)
  | none =>
      obtain ⟨absence, -, h⟩ := bind_eq_ok_iff.mp h
      obtain ⟨present, hpresent, h⟩ := bind_eq_ok_iff.mp h
      obtain rfl := Except.ok.inj h
      have hunknown : rules.presentType declaration position = .ok .unknown ↔ _ :=
        presentType_eq_unknown_iff
      rw [← hunknown, hpresent]
      simp

/-- A hint that spells a choice with an unknown, beside a check that it outranks. -/
theorem present_eq_unknown_iff_of_hint :
    let form : Json := .object [("anyOf", .array [.string "string", .string "unknown"])]
    let declaration : Declaration :=
      .ofList [("isInt", .bool true), (RuleName.custom, .object [("returns", form)]),
        (RuleName.optional, .bool true)]
    builtin.fieldType declaration .top = .ok ⟨.unknown, some (.literal .undefined)⟩ ∧
      declaration.hasGivenDefault = false ∧
        (declaration.presentStrategy builtin.catalog = .none ∨
          ∃ rule, (declaration.presentStrategy builtin.catalog).customRule? = some rule ∧
            (declaration.hint? rule = none ∨ ∃ form, declaration.hint? rule = some form ∧
              Descriptor.ofJson form = .ok .unknown)) := by
  intro form declaration
  have htype : builtin.fieldType declaration .top =
      .ok ⟨.unknown, some (.literal .undefined)⟩ := by
    with_unfolding_all rfl
  exact ⟨htype, (present_eq_unknown_iff htype).mp rfl⟩

end Rulebook

end ShapeInference
