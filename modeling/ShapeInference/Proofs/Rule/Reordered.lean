import ShapeInference.Proofs.Descriptor.Reordered
import ShapeInference.Proofs.Descriptor.Union
import ShapeInference.Proofs.Rule.Payload
import ShapeInference.Proofs.Rule.Strategy

/-!
# Field types do not depend on the order of rules

Rules are looked up by their names, members of payloads likewise, and types are unions, so that the
order in which rules and members stand never shows. Where several of them are at fault, the order
decides which fault of the rule is found first, but not which rule.

Main statement: `Rulebook.fieldType_of_reordered`.

## Implementation notes

`Except.mapError RuleFault.rule` forgets all of a fault but its rule. The outcomes of two
declarations that differ in order are equal under it, and steps can be compared one by one.
-/

namespace ShapeInference

open Json

namespace Declaration

/-! ## Payloads -/

theorem isOn_of_reordered {options others : Bindings Json} (h : ReorderedMembers options others)
    (name : String) : isOn options name = isOn others name := by
  rw [isOn, isOn]
  generalize Bindings.get? options name = x, Bindings.get? others name = y, h.get? name = hget
  cases hget with
  | none => rfl
  | some hvalue => cases hvalue <;> rfl

/-- No option of `optional` takes an array or an object. -/
theorem toOption_checkOption_eq_none {value : Json} (hflag : ∀ b, value ≠ .bool b)
    (hvalue : Absence.ofJson? value = none) (name : String) :
    (checkOption (name, value)).toOption = none := by
  simp only [checkOption]
  split
  case h_1 b heq => exact absurd (Prod.mk.inj heq).2 (hflag b)
  case h_2 b heq => exact absurd (Prod.mk.inj heq).2 (hflag b)
  case h_3 other heq =>
    rw [← (Prod.mk.inj heq).2, hvalue]
    rfl
  all_goals rfl

theorem toOption_checkOption_of_reordered (name : String) {v w : Json} (h : Reordered v w) :
    (checkOption (name, v)).toOption = (checkOption (name, w)).toOption := by
  cases h with
  | same => rfl
  | array _ =>
      exact (toOption_checkOption_eq_none (by simp) rfl name).trans
        (toOption_checkOption_eq_none (by simp) rfl name).symm
  | object _ =>
      exact (toOption_checkOption_eq_none (by simp) rfl name).trans
        (toOption_checkOption_eq_none (by simp) rfl name).symm

/-- Whether all options pass their checks does not depend on their order. -/
theorem toOption_forM_checkOption : ∀ {options others : Bindings Json},
    ReorderedMembers options others →
      (options.forM checkOption).toOption = (others.forM checkOption).toOption
  | _, _, .nil => rfl
  | _, _, .cons name first rest => by
    rw [toOption_forM_cons, toOption_forM_cons, toOption_checkOption_of_reordered name first,
      toOption_forM_checkOption rest]
  | _, _, @ReorderedMembers.swap a b _ rest => by
    simp only [toOption_forM_cons]
    exact Option.bind_comm _ _
  | _, _, .trans first second =>
    (toOption_forM_checkOption first).trans (toOption_forM_checkOption second)

/-- The absence that options select does not depend on their order. -/
theorem toOption_chosenAbsence {options others : Bindings Json}
    (h : ReorderedMembers options others) :
    (chosenAbsence options).toOption = (chosenAbsence others).toOption := by
  have hvalues : (Bindings.get? options "values").bind Absence.ofJson? =
      (Bindings.get? others "values").bind Absence.ofJson? := by
    generalize Bindings.get? options "values" = x, Bindings.get? others "values" = y,
      h.get? "values" = hget
    cases hget with
    | none => rfl
    | some hvalue => cases hvalue <;> rfl
  rw [chosenAbsence, chosenAbsence, toOption_bind, toOption_bind, toOption_forM_checkOption h,
    isOn_of_reordered h, isOn_of_reordered h, hvalues]

section

variable {declaration other : Declaration}
  (h : ReorderedMembers declaration.entries other.entries)

include h

theorem toOption_givenDefault? :
    (declaration.givenDefault?.map (Option.map Descriptor.ofValue)).toOption =
      (other.givenDefault?.map (Option.map Descriptor.ofValue)).toOption := by
  have hobject : ∀ {payload payload' : Bindings Json}, ReorderedMembers payload payload' →
      (Bindings.get? payload "options").map Descriptor.ofValue =
        (Bindings.get? payload' "options").map Descriptor.ofValue := by
    intro payload payload' hpayload
    generalize Bindings.get? payload "options" = x, Bindings.get? payload' "options" = y,
      hpayload.get? "options" = hget
    cases hget with
    | none => rfl
    | some hvalue => exact congrArg some (Descriptor.ofValue_reordered hvalue)
  rw [givenDefault?, givenDefault?, OrderedMap.get?, OrderedMap.get?]
  generalize Bindings.get? declaration.entries RuleName.default = x,
    Bindings.get? other.entries RuleName.default = y, h.get? RuleName.default = hget
  cases hget with
  | none => rfl
  | some hvalue =>
      cases hvalue with
      | same => rfl
      | array _ => rfl
      | object members => exact congrArg some (hobject members)

/-- Erasing the same names from reordered declarations leaves them reordered. -/
theorem eraseAll_of_reordered (names : List String) :
    ReorderedMembers (declaration.eraseAll names).entries (other.eraseAll names).entries :=
  h.filter fun name => !names.contains name

theorem toOption_absence : declaration.absence.toOption = other.absence.toOption := by
  rw [absence, absence, OrderedMap.get?, OrderedMap.get?]
  generalize Bindings.get? declaration.entries RuleName.optional = x,
    Bindings.get? other.entries RuleName.optional = y, h.get? RuleName.optional = hget
  cases hget with
  | none => rfl
  | some hvalue =>
      cases hvalue with
      | same => rfl
      | array _ => rfl
      | @object ms ns members =>
          simp only
          generalize Bindings.get? ms "options" = x, Bindings.get? ns "options" = y,
            members.get? "options" = hget
          cases hget with
          | none => rfl
          | some hoptions =>
              cases hoptions with
              | same => rfl
              | array _ => rfl
              | object more => exact toOption_chosenAbsence more

theorem toOption_checkArrayPayload (name : String) :
    (declaration.checkArrayPayload name).toOption = (other.checkArrayPayload name).toOption := by
  rw [checkArrayPayload, checkArrayPayload, OrderedMap.get?, OrderedMap.get?]
  generalize Bindings.get? declaration.entries name = x, Bindings.get? other.entries name = y,
    h.get? name = hget
  cases hget with
  | none => rfl
  | some hvalue => cases hvalue <;> rfl

theorem toOption_allowedValues :
    declaration.allowedValues.toOption = other.allowedValues.toOption := by
  rw [allowedValues, allowedValues, OrderedMap.get?, OrderedMap.get?]
  generalize (Bindings.get? declaration.entries RuleName.isIn).bind (·.member? "options") = x,
    (Bindings.get? other.entries RuleName.isIn).bind (·.member? "options") = y,
    h.member? RuleName.isIn "options" = hget
  cases hget with
  | none => rfl
  | some hvalue =>
      cases hvalue with
      | same => rfl
      | object _ => rfl
      | array elements =>
          cases elements with
          | nil => rfl
          | cons first rest =>
              cases rest with
              | cons _ _ => simp [Except.toOption]
              | nil =>
                  cases first with
                  | same => rfl
                  | object _ => rfl
                  | array values =>
                      cases values with
                      | nil => rfl
                      | cons second more =>
                          exact congrArg (some ∘ Descriptor.unionOf)
                            (Descriptor.ofValues_reordered (.cons second more))

theorem toOption_returnsHint (rule : String) :
    (declaration.returnsHint rule).toOption = (other.returnsHint rule).toOption := by
  rw [returnsHint, returnsHint, OrderedMap.get?, OrderedMap.get?]
  generalize (Bindings.get? declaration.entries rule).bind (·.member? "returns") = x,
    (Bindings.get? other.entries rule).bind (·.member? "returns") = y,
    h.member? rule "returns" = hget
  cases hget with
  | none => rfl
  | some hform =>
      simp only [toOption_mapError]
      exact Descriptor.ofJson_reordered hform

/-- In another order the absence is the same, or the same rule is at fault. -/
theorem mapError_absence :
    declaration.absence.mapError RuleFault.rule = other.absence.mapError RuleFault.rule :=
  mapError_eq_of_toOption_eq (fun _ => rule_of_absence) (fun _ => rule_of_absence)
    (toOption_absence h)

/-- In another order the type of the default is the same, or the same rule is at fault. -/
theorem mapError_givenDefault? :
    (declaration.givenDefault?.map (Option.map Descriptor.ofValue)).mapError RuleFault.rule =
      (other.givenDefault?.map (Option.map Descriptor.ofValue)).mapError RuleFault.rule :=
  mapError_eq_of_toOption_eq (fun _ he => rule_of_givenDefault? (map_eq_error_iff.mp he))
    (fun _ he => rule_of_givenDefault? (map_eq_error_iff.mp he)) (toOption_givenDefault? h)

/-- In another order the type of a hint is the same, or the same rule is at fault. -/
theorem mapError_returnsHint (rule : String) :
    (declaration.returnsHint rule).mapError RuleFault.rule =
      (other.returnsHint rule).mapError RuleFault.rule :=
  mapError_eq_of_toOption_eq (fun _ => rule_of_returnsHint) (fun _ => rule_of_returnsHint)
    (toOption_returnsHint h rule)

/-- In another order the allowed values have the same type, or the same rule is at fault. -/
theorem mapError_allowedValues :
    declaration.allowedValues.mapError RuleFault.rule =
      other.allowedValues.mapError RuleFault.rule :=
  mapError_eq_of_toOption_eq (fun _ => rule_of_allowedValues) (fun _ => rule_of_allowedValues)
    (toOption_allowedValues h)

theorem mapError_checkArrayPayload (name : String) :
    (declaration.checkArrayPayload name).mapError RuleFault.rule =
      (other.checkArrayPayload name).mapError RuleFault.rule :=
  mapError_eq_of_toOption_eq (fun _ => rule_of_checkArrayPayload)
    (fun _ => rule_of_checkArrayPayload) (toOption_checkArrayPayload h name)

/-- In another order the array checks pass as well, or the same rule is at fault. -/
theorem mapError_checkArrayPayloads :
    (RuleName.array.forM declaration.checkArrayPayload).mapError RuleFault.rule =
      (RuleName.array.forM other.checkArrayPayload).mapError RuleFault.rule :=
  mapError_forM_congr fun name _ => mapError_checkArrayPayload h name

theorem has_of_reordered (name : String) : declaration.has name = other.has name := by
  rw [OrderedMap.has, OrderedMap.has, OrderedMap.get?, OrderedMap.get?]
  generalize Bindings.get? declaration.entries name = x, Bindings.get? other.entries name = y,
    h.get? name = hget
  cases hget <;> rfl

/-- Reordered declarations have the same rules in a role, in some order. -/
theorem inRole_perm_of_reordered (catalog : Catalog) (role : RuleRole) :
    (catalog.inRole role declaration.names).Perm (catalog.inRole role other.names) :=
  h.names_perm.filterMap _

/-- Reordered declarations are typed by the same strategy. -/
theorem strategy_of_reordered (catalog : Catalog) :
    declaration.strategy catalog = other.strategy catalog := by
  have hhas : declaration.has = other.has := funext (has_of_reordered h)
  have hrole : ∀ role, (catalog.inRole role declaration.names).isEmpty =
      (catalog.inRole role other.names).isEmpty :=
    fun role => (inRole_perm_of_reordered h catalog role).isEmpty_eq
  apply strategy_congr
  intro strategy
  cases strategy <;> simp only [Strategy.isPresent, OrderedMap.hasSome, hhas, hrole]

end

end Declaration

namespace Rulebook

/-- Reordered declarations have the same built-in type. -/
theorem builtinType_of_reordered (rules : Rulebook) (role : RuleRole) (widen : Bool)
    {declaration other : Declaration} (h : ReorderedMembers declaration.entries other.entries) :
    rules.builtinType role widen declaration = rules.builtinType role widen other :=
  Descriptor.unionOf_congr fun _ =>
    ((Declaration.inRole_perm_of_reordered h rules.catalog role).map _).mem_iff

/-- Reordered declarations give the same type or put the blame on the same rule. -/
theorem mapError_fieldType_of_reordered (rules : Rulebook) {declaration other : Declaration}
    (h : ReorderedMembers declaration.entries other.entries) (position : Position) :
    (rules.fieldType declaration position).mapError RuleFault.rule =
      (rules.fieldType other position).mapError RuleFault.rule := by
  induction declaration, position using fieldType.induct rules generalizing other with
  | case1 declaration position chosen _ ih =>
      rw [fieldType_eq rules declaration, fieldType_eq rules other,
        ← Declaration.strategy_of_reordered h, chosen]
      have hleft :
          (do
            let absence ← declaration.absence
            let rest ← rules.fieldType (declaration.eraseAll RuleName.absence) position
            return (⟨rest.whole, some absence.type⟩ : FieldType)).mapError RuleFault.rule =
          (do
            let absence ← other.absence
            let rest ← rules.fieldType (other.eraseAll RuleName.absence) position
            return (⟨rest.whole, some absence.type⟩ : FieldType)).mapError RuleFault.rule := by
        simp only [mapError_bind, Declaration.mapError_absence h,
          ih (Declaration.eraseAll_of_reordered h _)]
      have hgiven := Declaration.mapError_givenDefault? h
      generalize declaration.givenDefault? = given, other.givenDefault? = given' at hgiven
      match given, given', hgiven with
      | .error _, .error _, hfault => exact congrArg Except.error (Except.error.inj hfault)
      | .ok (some _), .ok (some _), hvalue =>
          exact congrArg (Except.ok ∘ FieldType.required) (Option.some.inj (Except.ok.inj hvalue))
      | .ok none, .ok none, _ => exact hleft
  | case5 declaration position chosen _ ih =>
      rw [fieldType_eq rules declaration, fieldType_eq rules other,
        ← Declaration.strategy_of_reordered h, chosen]
      simp only [mapError_bind, Declaration.mapError_checkArrayPayloads h,
        ih (Declaration.eraseAll_of_reordered h _)]
  | case8 declaration position chosen =>
      rw [fieldType_eq rules declaration, fieldType_eq rules other,
        ← Declaration.strategy_of_reordered h, chosen]
  | _ declaration position chosen =>
      rw [fieldType_eq rules declaration, fieldType_eq rules other,
        ← Declaration.strategy_of_reordered h, chosen]
      simp only [mapError_map, Declaration.mapError_returnsHint h,
        Declaration.mapError_allowedValues h, rules.builtinType_of_reordered _ _ h]

/-- Neither the order of the rules nor that of the members in their payloads changes the type that a
declaration gives to a field or, if it gives none, the rule at fault. -/
theorem fieldType_of_reordered (rules : Rulebook) {declaration other : Declaration}
    (h : ReorderedMembers declaration.entries other.entries) (position : Position) :
    (∃ type, rules.fieldType declaration position = .ok type ∧
        rules.fieldType other position = .ok type) ∨
      ∃ fault fault', rules.fieldType declaration position = .error fault ∧
        rules.fieldType other position = .error fault' ∧ fault.rule = fault'.rule := by
  have hsame := rules.mapError_fieldType_of_reordered h position
  cases hleft : rules.fieldType declaration position with
  | ok type =>
      rw [hleft] at hsame
      exact .inl ⟨type, rfl, mapError_eq_ok_iff.mp hsame.symm⟩
  | error fault =>
      rw [hleft] at hsame
      obtain ⟨fault', hright, hrule⟩ := mapError_eq_error_iff.mp hsame.symm
      exact .inr ⟨fault, fault', rfl, hright, hrule.symm⟩

theorem fieldType_of_reordered_nested :
    let options : List Json → Json := fun values => .object [("options", .array [.array values])]
    let x : String × Json := ("x", .bool true)
    let y : String × Json := ("y", .string "")
    let left : Declaration :=
      .ofList [(RuleName.isIn, options [.object [x, y]]), (RuleName.optional, .bool true)]
    let right : Declaration :=
      .ofList [(RuleName.optional, .bool true), (RuleName.isIn, options [.object [y, x]])]
    ∃ type, builtin.fieldType left .top = .ok type ∧ builtin.fieldType right .top = .ok type := by
  intro options x y left right
  have hvalues : Reordered (options [.object [x, y]]) (options [.object [y, x]]) :=
    .object (.cons "options" (.array (.cons (.array (.cons (.object (.swap (by decide) [])) .nil))
      .nil)) .nil)
  have h : ReorderedMembers left.entries right.entries :=
    .trans (.swap (by decide) []) (.cons RuleName.optional (.same _) (.cons _ hvalues .nil))
  refine (builtin.fieldType_of_reordered h .top).resolve_right ?_
  rintro ⟨fault, -, hfault, -⟩
  have htype : builtin.fieldType left .top = .ok
      ⟨.object [("x", .literal (.bool true)), ("y", .literal (.string ""))],
        some Absence.undefined.type⟩ := by
    with_unfolding_all rfl
  rw [htype] at hfault
  contradiction

/-- With two options at fault, the one that stands first is found. -/
example :
    let optional : List (String × Json) → Declaration := fun options =>
      .ofList [(RuleName.optional, .object [("options", .object options)])]
    let strict : String × Json := ("strict", .bool true)
    let nullable : String × Json := ("nullable", .null)
    builtin.fieldType (optional [strict, nullable]) .top = .error (.optionalUnrecognized "strict") ∧
      builtin.fieldType (optional [nullable, strict]) .top =
        .error (.optionalFlag "nullable" "null") := by
  constructor
  all_goals with_unfolding_all rfl

end Rulebook

end ShapeInference
