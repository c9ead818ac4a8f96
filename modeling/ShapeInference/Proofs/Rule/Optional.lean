import ShapeInference.Proofs.Rule.Payload
import ShapeInference.Proofs.Rule.Relevant
import ShapeInference.Proofs.Rule.Reordered

/-!
# What `optional` may say

The payload of `optional` is `true`, or an object whose options, if it has any, are all known and
of their kind. The options are checked before one of them is followed, so that a stronger switch
does not excuse a faulty option beside it, and their order does not matter.

Main statement: `Rulebook.fieldType_optional`.
-/

namespace ShapeInference

/-! ## Payloads and what they declare -/

/-- The option `values` names an absence, or is `null`. -/
inductive Absence.Named : Json → Absence → Prop where
  | unset : Named .null .undefined
  | undefined : Named (.string "undefined") .undefined
  | nullish : Named (.string "null") .nullish
  | falsy : Named (.string "falsy") .falsy

namespace OptionalRule

/-- The options that `optional` has, each with the values that it takes. -/
inductive Allows : String × Json → Prop where
  | nullable (on : Bool) : Allows ("nullable", .bool on)
  | checkFalsy (on : Bool) : Allows ("checkFalsy", .bool on)
  | values {value : Json} {absence : Absence} (named : Absence.Named value absence) :
      Allows ("values", value)

/-- The absence that options select: `nullable` before `checkFalsy` before `values`. -/
inductive Selects (options : Bindings Json) : Absence → Prop where
  | nullable (on : options.get? "nullable" = some (.bool true)) : Selects options .nullish
  | checkFalsy (off : options.get? "nullable" ≠ some (.bool true))
      (on : options.get? "checkFalsy" = some (.bool true)) : Selects options .falsy
  | values {value : Json} {absence : Absence} (off : options.get? "nullable" ≠ some (.bool true))
      (off' : options.get? "checkFalsy" ≠ some (.bool true))
      (set : options.get? "values" = some value) (named : Absence.Named value absence) :
      Selects options absence
  | plain (off : options.get? "nullable" ≠ some (.bool true))
      (off' : options.get? "checkFalsy" ≠ some (.bool true))
      (unset : options.get? "values" = none) : Selects options .undefined

/-- The payloads that `optional` takes, and the absence that each declares. -/
inductive Declares : Json → Absence → Prop where
  | on : Declares (.bool true) .undefined
  | plain {members : Bindings Json} (unset : members.get? "options" = none) :
      Declares (.object members) .undefined
  | options {members options : Bindings Json} {absence : Absence}
      (set : members.get? "options" = some (.object options))
      (allowed : ∀ option ∈ options, Allows option) (selected : Selects options absence) :
      Declares (.object members) absence

end OptionalRule

/-! ## Reading a payload -/

/-- An absence is read exactly from its names. -/
theorem Absence.ofJson?_eq_some_iff {value : Json} {absence : Absence} :
    ofJson? value = some absence ↔ Named value absence := by
  constructor
  · intro h
    rw [ofJson?.eq_def] at h
    split at h
    case h_5 => contradiction
    all_goals
      obtain rfl := Option.some.inj h
      constructor
  · intro h
    cases h <;> rfl

theorem OptionalRule.Allows.exists_named {value : Json} (h : Allows ("values", value)) :
    ∃ absence, Absence.Named value absence := by
  generalize hoption : ("values", value) = option at h
  cases h with
  | nullable on | checkFalsy on => exact absurd (Prod.mk.inj hoption).1 (by decide)
  | values named =>
      obtain rfl := (Prod.mk.inj hoption).2
      exact ⟨_, named⟩

namespace Declaration

open OptionalRule

variable {options : Bindings Json} {absence : Absence}

/-- An option passes its check exactly if it is one of the allowed. -/
theorem checkOption_eq_ok_iff {option : String × Json} :
    checkOption option = .ok () ↔ Allows option := by
  constructor
  · intro h
    simp only [checkOption] at h
    split at h
    case h_1 on => exact .nullable on
    case h_2 on => exact .checkFalsy on
    case h_3 value =>
      split_ifs at h with hvalue
      obtain ⟨absence, hsome⟩ := Option.isSome_iff_exists.mp hvalue
      exact .values (Absence.ofJson?_eq_some_iff.mp hsome)
    all_goals contradiction
  · intro h
    cases h with
    | nullable on | checkFalsy on => rfl
    | values named =>
        have hsome := Absence.ofJson?_eq_some_iff.mpr named
        exact if_pos (Option.isSome_of_eq_some hsome)

theorem isOn_iff {name : String} :
    isOn options name = true ↔ options.get? name = some (.bool true) := by
  rw [isOn]
  split
  · rename_i b h
    simp [h]
  · rename_i h
    simp only [Bool.false_eq_true, false_iff]
    exact h true

/-- Options give the absence that they select, as long as all of them are allowed. -/
theorem chosenAbsence_eq_ok_iff :
    chosenAbsence options = .ok absence ↔
      (∀ option ∈ options, Allows option) ∧ Selects options absence := by
  have hchecks : options.forM checkOption = .ok () ↔ ∀ option ∈ options, Allows option := by
    simp only [forM_eq_ok_iff, checkOption_eq_ok_iff]
  rw [chosenAbsence, bind_eq_ok_iff]
  constructor
  · rintro ⟨_, hall, h⟩
    have hallowed := hchecks.mp hall
    refine ⟨hallowed, ?_⟩
    split_ifs at h with hnullable hfalsy
    case pos =>
      obtain rfl := Except.ok.inj h
      exact .nullable (isOn_iff.mp hnullable)
    case pos =>
      obtain rfl := Except.ok.inj h
      exact .checkFalsy (mt isOn_iff.mpr hnullable) (isOn_iff.mp hfalsy)
    case neg =>
      obtain rfl := Except.ok.inj h
      cases hvalues : options.get? "values" with
      | none => exact .plain (mt isOn_iff.mpr hnullable) (mt isOn_iff.mpr hfalsy) hvalues
      | some value =>
          -- What is set has been checked, so that `values` names an absence.
          obtain ⟨absence, named⟩ :=
            (hallowed _ (Bindings.mem_of_get?_eq_some hvalues)).exists_named
          rw [Option.bind_some, Absence.ofJson?_eq_some_iff.mpr named]
          exact .values (mt isOn_iff.mpr hnullable) (mt isOn_iff.mpr hfalsy) hvalues named
  · rintro ⟨hallowed, hselected⟩
    refine ⟨(), hchecks.mpr hallowed, ?_⟩
    cases hselected with
    | nullable on => rw [if_pos (isOn_iff.mpr on)]; rfl
    | checkFalsy off on => rw [if_neg (mt isOn_iff.mp off), if_pos (isOn_iff.mpr on)]; rfl
    | values off off' set named =>
        rw [if_neg (mt isOn_iff.mp off), if_neg (mt isOn_iff.mp off'), set, Option.bind_some,
          Absence.ofJson?_eq_some_iff.mpr named]
        rfl
    | plain off off' unset =>
        rw [if_neg (mt isOn_iff.mp off), if_neg (mt isOn_iff.mp off'), unset]
        rfl

/-- An `optional` is read exactly from the payloads it takes. -/
theorem absence_eq_ok_iff {declaration : Declaration} {payload : Json}
    (h : declaration.get? RuleName.optional = some payload) :
    declaration.absence = .ok absence ↔ Declares payload absence := by
  rw [Declaration.absence, h]
  constructor
  · intro hread
    split at hread
    case h_1 => contradiction
    case h_2 heq =>
      obtain rfl := Option.some.inj heq
      obtain rfl := Except.ok.inj hread
      exact .on
    case h_3 members heq =>
      obtain rfl := Option.some.inj heq
      split at hread
      · rename_i unset
        obtain rfl := Except.ok.inj hread
        exact .plain unset
      · rename_i options set
        obtain ⟨allowed, selected⟩ := chosenAbsence_eq_ok_iff.mp hread
        exact .options set allowed selected
      · contradiction
    case h_4 => contradiction
  · intro hdeclares
    cases hdeclares with
    | on => rfl
    | plain unset => simp only [unset]
    | options set allowed selected =>
        simp only [set]
        exact chosenAbsence_eq_ok_iff.mpr ⟨allowed, selected⟩

theorem declaredAbsence_of_optional {declaration : Declaration} {payload : Json}
    (h : declaration.get? RuleName.optional = some payload) :
    declaration.declaredAbsence = declaration.absence.map some := by
  have hhas : declaration.hasSome RuleName.absence = true :=
    List.any_eq_true.mpr
      ⟨RuleName.optional, List.mem_cons_self, Option.isSome_of_eq_some h⟩
  rw [declaredAbsence, if_pos hhas]

/-- The payload of `default` is there and no object. -/
def HasFaultyDefault (declaration : Declaration) : Prop :=
  ∃ payload, declaration.get? RuleName.default = some payload ∧
    ∀ members, payload ≠ .object members

/-- Reading the default fails exactly if the default is faulty. -/
theorem exists_error_givenDefault?_iff {declaration : Declaration} :
    (∃ fault, declaration.givenDefault? = .error fault) ↔ declaration.HasFaultyDefault := by
  rw [givenDefault?, HasFaultyDefault]
  split
  · rename_i hnone
    simp [hnone]
  · rename_i members hmembers
    simp [hmembers]
  · rename_i other hother hpayload
    simpa [hpayload] using hother

theorem givenDefault?_eq_ok_none {declaration : Declaration}
    (hgiven : declaration.hasGivenDefault = false) (hsound : ¬ declaration.HasFaultyDefault) :
    declaration.givenDefault? = .ok none := by
  cases hread : declaration.givenDefault? with
  | error fault => exact absurd (exists_error_givenDefault?_iff.mp ⟨fault, hread⟩) hsound
  | ok given =>
      rw [hasGivenDefault_of_ok hread, Option.isSome_eq_false_iff, Option.isNone_iff_eq_none]
        at hgiven
      rw [hgiven]

end Declaration

/-- The order of options, and of whatever else is in a payload, does not matter. -/
theorem OptionalRule.declares_iff_of_reordered {payload other : Json} {absence : Absence}
    (h : Json.Reordered payload other) : Declares other absence ↔ Declares payload absence := by
  have hreads : ∀ v, (Declaration.absence (.ofList [(RuleName.optional, v)])).toOption =
      some absence ↔ Declares v absence :=
    fun v => toOption_eq_some_iff.trans (Declaration.absence_eq_ok_iff rfl)
  have hsame : (Declaration.absence (.ofList [(RuleName.optional, payload)])).toOption =
      (Declaration.absence (.ofList [(RuleName.optional, other)])).toOption :=
    Declaration.toOption_absence (.cons RuleName.optional h .nil)
  rw [← hreads, ← hreads, hsame]

/-! ## Types of fields -/

namespace Rulebook

open OptionalRule

/-- Without a default value, `optional` declares an absence exactly if its payload is one of those
that it takes, in whatever order its options come. The type of the field then goes by its other
rules, and `optional` is at fault otherwise, whatever these are; only a faulty `default` comes
before it. -/
theorem fieldType_optional (rules : Rulebook) {declaration : Declaration} {payload : Json}
    (hoptional : declaration.get? RuleName.optional = some payload)
    (hgiven : declaration.hasGivenDefault = false) (position : Position) :
    (∀ absence, declaration.absence = .ok absence ↔ Declares payload absence) ∧
      (∀ other, Json.Reordered payload other → ∀ absence,
        (Declares other absence ↔ Declares payload absence)) ∧
      (¬ declaration.HasFaultyDefault →
        (∀ absence, Declares payload absence →
          rules.fieldType declaration position =
            (rules.presentType declaration position).map (⟨·, some absence.type⟩)) ∧
        ((∀ absence, ¬ Declares payload absence) →
          ∃ fault, rules.fieldType declaration position = .error fault ∧
            fault.rule = RuleName.optional)) ∧
      (declaration.HasFaultyDefault →
        ∃ fault, rules.fieldType declaration position = .error fault ∧
          fault.rule = RuleName.default) ∧
      Absence.type .undefined = .literal .undefined ∧
      Absence.type .nullish = .union [.literal .undefined, .literal .null] ∧
      Absence.type .falsy =
        .union [.literal .undefined, .literal .null, .literal (.bool false),
          .literal (.number .zero), .literal (.string "")] := by
  have hreads : ∀ absence, declaration.absence = .ok absence ↔ Declares payload absence :=
    fun _ => Declaration.absence_eq_ok_iff hoptional
  refine ⟨hreads, fun other h absence => declares_iff_of_reordered h, fun hsound => ?_,
    fun hfaulty => ?_, by decide +kernel, by decide +kernel, by decide +kernel⟩
  · rw [fieldType_eq_parts, Declaration.givenDefault?_eq_ok_none hgiven hsound,
      Declaration.declaredAbsence_of_optional hoptional]
    constructor
    · intro absence hdeclares
      rw [(hreads absence).mpr hdeclares]
      cases rules.presentType declaration position <;> rfl
    · -- The other rules are not looked at before `optional` has been read.
      intro hrejected
      cases hread : declaration.absence with
      | ok absence => exact absurd ((hreads absence).mp hread) (hrejected absence)
      | error fault => exact ⟨fault, rfl, Declaration.rule_of_absence hread⟩
  · obtain ⟨fault, hfault⟩ := Declaration.exists_error_givenDefault?_iff.mpr hfaulty
    rw [fieldType_eq_parts, hfault]
    exact ⟨fault, rfl, Declaration.rule_of_givenDefault? hfault⟩

/-- A switch that is on beside an option that is not allowed. -/
theorem fieldType_optional_beside_fault :
    let payload : Json :=
      .object [("options", .object [("nullable", .bool true), ("values", .string "none")])]
    let declaration : Declaration := .ofList [("isInt", .null), (RuleName.optional, payload)]
    declaration.get? RuleName.optional = some payload ∧ declaration.hasGivenDefault = false ∧
      ∃ fault, builtin.fieldType declaration .top = .error fault ∧
        fault.rule = RuleName.optional := by
  intro payload declaration
  have hoptional : declaration.get? RuleName.optional = some payload := rfl
  have hread : declaration.absence = .error (.optionalValues (.string "none")) := rfl
  obtain ⟨hreads, -, hsound, -⟩ := fieldType_optional builtin hoptional rfl .top
  refine ⟨hoptional, rfl, (hsound ?_).2 ?_⟩
  · rintro ⟨other, hother, -⟩
    contradiction
  · intro absence hdeclares
    have hok := (hreads absence).mpr hdeclares
    rw [hread] at hok
    contradiction

/-- A `default` that is no object gives no default value, and hides a fault of `optional`. -/
theorem optional_hidden_by_faulty_default :
    let payload : Json := .number (.integer 3)
    let declaration : Declaration :=
      .ofList [(RuleName.default, payload), (RuleName.optional, payload)]
    declaration.get? RuleName.optional = some payload ∧ declaration.hasGivenDefault = false ∧
      (∀ absence, ¬ Declares payload absence) ∧
      ¬ ∃ fault, builtin.fieldType declaration .top = .error fault ∧
        fault.rule = RuleName.optional := by
  intro payload declaration
  have hrejected : ∀ absence, ¬ Declares (.number (.integer 3)) absence := by
    intro absence hdeclares
    cases hdeclares
  refine ⟨rfl, rfl, hrejected, ?_⟩
  rintro ⟨fault, hfault, hrule⟩
  have hdefault : builtin.fieldType declaration .top = .error (.defaultPayload "a number") := by
    with_unfolding_all rfl
  obtain rfl := Except.error.inj (hdefault.symm.trans hfault)
  exact absurd hrule (by decide)

end Rulebook

end ShapeInference
