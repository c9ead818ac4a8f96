import ShapeInference.Proofs.Outcome
import ShapeInference.Rule.Payload

/-!
# Faults name their rule

Whatever is wrong with the payload of a rule, the fault that is reported names that rule.
-/

namespace ShapeInference.Declaration

variable {declaration : Declaration} {fault : RuleFault}

theorem rule_of_givenDefault? (h : declaration.givenDefault? = .error fault) :
    fault.rule = RuleName.default := by
  rw [givenDefault?] at h
  split at h
  case h_3 =>
    obtain rfl := Except.error.inj h
    rfl
  all_goals contradiction

theorem rule_of_checkOption {option : String × Json} (h : checkOption option = .error fault) :
    fault.rule = RuleName.optional := by
  simp only [checkOption] at h
  repeat' split at h
  all_goals first
    | contradiction
    | obtain rfl := Except.error.inj h; rfl

theorem rule_of_chosenAbsence {options : Bindings Json} (h : chosenAbsence options = .error fault) :
    fault.rule = RuleName.optional := by
  rcases bind_eq_error_iff.mp h with hchecks | ⟨_, -, hchoice⟩
  · obtain ⟨option, -, hoption⟩ := exists_mem_of_forM_eq_error hchecks
    exact rule_of_checkOption hoption
  · split at hchoice
    · contradiction
    · split at hchoice <;> contradiction

/-- Every fault of an absence names the rule `optional`. -/
theorem rule_of_absence (h : declaration.absence = .error fault) :
    fault.rule = RuleName.optional := by
  rw [absence] at h
  split at h
  case h_3 =>
    split at h
    · contradiction
    · exact rule_of_chosenAbsence h
    · obtain rfl := Except.error.inj h
      rfl
  case h_4 =>
    obtain rfl := Except.error.inj h
    rfl
  all_goals contradiction

theorem rule_of_checkArrayPayload {name : String}
    (h : declaration.checkArrayPayload name = .error fault) : fault.rule = name := by
  rw [checkArrayPayload] at h
  split at h
  case h_4 =>
    obtain rfl := Except.error.inj h
    rfl
  all_goals contradiction

theorem rule_of_allowedValues (h : declaration.allowedValues = .error fault) :
    fault.rule = RuleName.isIn := by
  rw [allowedValues] at h
  split at h
  case h_2 => contradiction
  all_goals
    obtain rfl := Except.error.inj h
    rfl

/-- Every fault of a hint names the custom rule it stands in. -/
theorem rule_of_returnsHint {rule : String} (h : declaration.returnsHint rule = .error fault) :
    fault.rule = rule := by
  rw [returnsHint] at h
  split at h
  · obtain ⟨_, -, rfl⟩ := mapError_eq_error_iff.mp h
    rfl
  · contradiction

end ShapeInference.Declaration
