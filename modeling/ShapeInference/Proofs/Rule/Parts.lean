import ShapeInference.Proofs.Bindings
import ShapeInference.Proofs.Outcome
import ShapeInference.Proofs.Rule.Strategy

/-!
# The parts of a declaration

`default` and `optional` decide about a field that is left out, all other rules about one that is
present. The two parts are read apart: a default value stands for the whole field, and what is said
of a field left out never changes the type of one that is present.

Main statement: `Rulebook.fieldType_eq_parts`.
-/

namespace ShapeInference

namespace Declaration

/-- What the rules of a declaration say of a field left out, if they say that it may be. -/
def declaredAbsence (declaration : Declaration) : Except RuleFault (Option Absence) :=
  if declaration.hasSome RuleName.absence = true then declaration.absence.map some else .ok none

/-- The strategy for a field that is present, by the rules that are not about absence. -/
def presentStrategy (declaration : Declaration) (catalog : Catalog) : Strategy :=
  strategy (declaration.eraseAll RuleName.absence) catalog

theorem presentStrategy_ne (declaration : Declaration) (catalog : Catalog) :
    declaration.presentStrategy catalog ≠ .defaultOrOptional := by
  intro hchosen
  have hpresent := isPresent_of_strategy_eq hchosen
  rw [Strategy.isPresent, OrderedMap.hasSome_eraseAll] at hpresent
  contradiction

end Declaration

namespace Rulebook

variable {rules : Rulebook} {declaration : Declaration} {position : Position}

/-- Without rules about absence, nothing is said of a field left out. -/
theorem absent_eq_none (hnone : declaration.hasSome RuleName.absence = false) {type : FieldType}
    (h : rules.fieldType declaration position = .ok type) : type.absent = none := by
  rw [fieldType_eq] at h
  split at h
  case h_1 hchosen =>
    have hpresent := Declaration.isPresent_of_strategy_eq hchosen
    rw [Strategy.isPresent, hnone] at hpresent
    contradiction
  case h_5 =>
    obtain ⟨_, -, h⟩ := bind_eq_ok_iff.mp h
    obtain ⟨element, -, h⟩ := bind_eq_ok_iff.mp h
    obtain rfl := Except.ok.inj h
    rfl
  case h_6 | h_7 | h_8 =>
    obtain rfl := Except.ok.inj h
    rfl
  all_goals
    obtain ⟨_, -, rfl⟩ := map_eq_ok_iff.mp h
    rfl

/-- The type of a field that is present, by the rules that are not about absence. -/
def presentType (rules : Rulebook) (declaration : Declaration) (position : Position) :
    Except RuleFault Descriptor :=
  (rules.fieldType (declaration.eraseAll RuleName.absence) position).map FieldType.present

/-- Without the rules of absence the field type is that of a present value. -/
theorem fieldType_eraseAll (rules : Rulebook) (declaration : Declaration) (position : Position) :
    rules.fieldType (declaration.eraseAll RuleName.absence) position =
      (rules.presentType declaration position).map .required := by
  rw [presentType]
  cases h : rules.fieldType (declaration.eraseAll RuleName.absence) position with
  | error fault => rfl
  | ok type =>
      obtain ⟨present, absent⟩ := type
      obtain rfl : absent = none := absent_eq_none (declaration.hasSome_eraseAll _) h
      rfl

/-- The type of a field that is present, by strategy. -/
theorem presentType_eq (rules : Rulebook) (declaration : Declaration) (position : Position) :
    rules.presentType declaration position =
      let rest : Declaration := declaration.eraseAll RuleName.absence
      match declaration.presentStrategy rules.catalog with
      | .customSanitizer => rest.returnsHint RuleName.customSanitizer
      | .customValidator => rest.returnsHint RuleName.custom
      | .enumeration => rest.allowedValues
      | .arrayWrapper => do
        RuleName.array.forM rest.checkArrayPayload
        let element ← rules.fieldType (rest.eraseAll RuleName.array) .element
        return .array element.whole
      | .builtinSanitizer => .ok (rules.builtinType .sanitizer false rest)
      | .builtinValidator => .ok (rules.builtinType .validator (rules.widens position) rest)
      | .defaultOrOptional | .none => .ok .unknown := by
  have hmap : ∀ x : Except RuleFault Descriptor, (x.map .required).map FieldType.present = x := by
    intro x
    cases x <;> rfl
  have hne := declaration.presentStrategy_ne rules.catalog
  rw [Declaration.presentStrategy] at hne ⊢
  rw [presentType, fieldType_eq]
  generalize declaration.eraseAll RuleName.absence = rest at hne ⊢
  cases hchosen : Declaration.strategy rest rules.catalog with
  | defaultOrOptional => contradiction
  | customSanitizer | customValidator | enumeration => exact hmap _
  | arrayWrapper =>
      simp only
      cases RuleName.array.forM (Declaration.checkArrayPayload rest) with
      | error fault => rfl
      | ok _ => cases rules.fieldType (rest.eraseAll RuleName.array) .element <;> rfl
  | builtinSanitizer | builtinValidator | none => rfl

/-- A default value decides alone. Otherwise the field has the type of its other rules, whatever is
said of its absence. -/
theorem fieldType_eq_parts (rules : Rulebook) (declaration : Declaration) (position : Position) :
    rules.fieldType declaration position = do
      match ← declaration.givenDefault? with
      | some value => return .required (.ofValue value)
      | none => do
        let absence ← declaration.declaredAbsence
        let present ← rules.presentType declaration position
        return ⟨present, absence.map Absence.type⟩ := by
  rw [Declaration.declaredAbsence]
  by_cases habsence : declaration.hasSome RuleName.absence = true
  · have hchosen : declaration.strategy rules.catalog = .defaultOrOptional := by
      rw [Declaration.strategy_eq, if_pos habsence]
    rw [fieldType_eq, hchosen, if_pos habsence]
    simp only [fieldType_eraseAll]
    cases declaration.givenDefault? with
    | error fault => rfl
    | ok given =>
        cases given with
        | some value => rfl
        | none =>
            cases declaration.absence with
            | error fault => rfl
            | ok absence => cases rules.presentType declaration position <;> rfl
  · -- No rule about absence is there, so that erasing them leaves the declaration as it is.
    have hnone := Bool.eq_false_iff.mpr habsence
    have hdefault : declaration.get? RuleName.default = none := by
      have hlacks := OrderedMap.hasSome_eq_false_iff.mp hnone RuleName.default (by decide)
      rwa [OrderedMap.has, Option.isSome_eq_false_iff, Option.isNone_iff_eq_none] at hlacks
    have hsame := fieldType_eraseAll rules declaration position
    rw [OrderedMap.eraseAll_eq_self hnone] at hsame
    rw [hsame, Declaration.givenDefault?, hdefault, if_neg habsence]
    cases rules.presentType declaration position <;> rfl

end Rulebook

end ShapeInference
