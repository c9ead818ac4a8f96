import ShapeInference.Proofs.Descriptor.Closed
import ShapeInference.Proofs.Rule.Parts

/-!
# Field types are normal

Whatever a declaration says of a field, its types have every closed property: those of JSON values,
those that hints spell, and those of rules have it, and so has what the strategies make of them.
Field types are therefore normal.

Main statements: `Descriptor.Closed.ofValue`, `Descriptor.Closed.ofJson`,
`Rulebook.closed_fieldType` and `Rulebook.normal_fieldType`.
-/

namespace ShapeInference

namespace Descriptor

variable {number : LinePoint → Prop} {p : Descriptor → Prop}

/-! ## Types of values -/

theorem Closed.literal (closed : Closed number p) {l : Literal} (h : l.numbers = []) :
    p (literal l) := by
  apply closed.primitive
  intro n hn
  have hnone : n ∈ l.numbers := hn
  rw [h] at hnone
  contradiction

mutual

/-- A closed property holds of the type of a value with fitting numbers. -/
theorem Closed.ofValue (closed : Closed number p) :
    ∀ value : Json, (∀ n ∈ value.numbers, number n) → p (ofValue value)
  | .null, _ => closed.literal rfl
  | .bool _, _ => closed.literal rfl
  | .number _, h => closed.primitive _ h
  | .string _, _ => closed.literal rfl
  | .array values, h => closed.array _ (closed.unionOf _ (closed.ofValues values h))
  | .object members, h => closed.ofFields _ (closed.ofMemberValues members h)

theorem Closed.ofValues (closed : Closed number p) :
    ∀ values : List Json, (∀ n ∈ Json.numbersOfAll values, number n) → ∀ d ∈ ofValues values, p d
  | [], _ => fun _ hd => absurd hd List.not_mem_nil
  | value :: rest, h => by
    obtain ⟨hvalue, hrest⟩ := List.forall_mem_append.mp h
    exact List.forall_mem_cons.mpr ⟨closed.ofValue value hvalue, closed.ofValues rest hrest⟩

theorem Closed.ofMemberValues (closed : Closed number p) :
    ∀ members : List (String × Json), (∀ n ∈ Json.numbersOfMembers members, number n) →
      ∀ field ∈ ofMemberValues members, p field.2
  | [], _ => fun _ hfield => absurd hfield List.not_mem_nil
  | (_, value) :: rest, h => by
    obtain ⟨hvalue, hrest⟩ := List.forall_mem_append.mp h
    exact List.forall_mem_cons.mpr ⟨closed.ofValue value hvalue, closed.ofMemberValues rest hrest⟩

end

theorem normal_ofValue (value : Json) : Normal (ofValue value) :=
  closed_normal.ofValue value fun _ _ => trivial

/-! ## Types that documents spell -/

/-- A closed property of the parts of a named form holds of its type. -/
theorem Closed.ofTypeName (closed : Closed number p) {name : String}
    {items : Except FormFault Descriptor}
    {properties : Except FormFault (List (String × Descriptor))}
    (hitems : ∀ d, items = .ok d → p d)
    (hproperties : ∀ fields, properties = .ok fields → ∀ field ∈ fields, p field.2)
    {d : Descriptor} (h : ofTypeName name items properties = .ok d) : p d := by
  simp only [Descriptor.ofTypeName] at h
  split at h
  case h_11 =>
    obtain ⟨e, he, rfl⟩ := map_eq_ok_iff.mp h
    exact closed.array e (hitems e he)
  case h_12 =>
    obtain ⟨fields, hfields, rfl⟩ := map_eq_ok_iff.mp h
    exact closed.ofFields fields (hproperties fields hfields)
  case h_13 => contradiction
  all_goals
    obtain rfl := Except.ok.inj h
    first | exact closed.unknown | exact closed.primitive _ fun _ hn => absurd hn List.not_mem_nil

theorem Closed.ofConst (closed : Closed number p) {value : Json}
    (hvalue : ∀ n ∈ value.numbers, number n) {d : Descriptor} (h : ofConst value = .ok d) : p d := by
  simp only [Descriptor.ofConst] at h
  split at h
  · rename_i l hl
    obtain rfl := Except.ok.inj h
    rw [← Literal.numbers_of_ofJson? hl] at hvalue
    exact closed.primitive _ hvalue
  · contradiction

mutual

/-- A closed property holds of every type that is read from a form with fitting numbers. -/
theorem Closed.ofJson (closed : Closed number p) : ∀ {value : Json} {d : Descriptor},
    (∀ n ∈ value.numbers, number n) → ofJson value = .ok d → p d
  | .null, _, _, h => by simp [Descriptor.ofJson] at h
  | .bool _, _, _, h => by simp [Descriptor.ofJson] at h
  | .number _, _, _, h => by simp [Descriptor.ofJson] at h
  | .array _, _, _, h => by simp [Descriptor.ofJson] at h
  | .string name, d, _, h => by
    rw [Descriptor.ofJson] at h
    refine closed.ofTypeName (fun e he => ?_) (fun fields hfields => ?_) h
    · obtain rfl := Except.ok.inj he
      exact closed.unknown
    · obtain rfl := Except.ok.inj hfields
      exact fun _ hfield => absurd hfield List.not_mem_nil
  | .object members, d, hmembers, h => by
    rw [Descriptor.ofJson] at h
    split at h
    · rename_i hany
      exact closed.atAnyOf hmembers (h ▸ hany)
    · rename_i value _ hconst
      exact closed.ofConst (fun n hn => hmembers n (Json.numbers_subset_of_get? hconst hn)) h
    · exact closed.ofTypeName (fun _ => closed.atItems hmembers)
        (fun _ => closed.atProperties hmembers) h
    · contradiction
    · contradiction

theorem Closed.ofJsons (closed : Closed number p) : ∀ {values : List Json} {ds : List Descriptor},
    (∀ n ∈ Json.numbersOfAll values, number n) → ofJsons values = .ok ds → ∀ d ∈ ds, p d
  | [], _, _, h => by
    obtain rfl := Except.ok.inj h
    exact fun _ hd => absurd hd List.not_mem_nil
  | value :: rest, _, hvalues, h => by
    simp only [Descriptor.ofJsons, bind_eq_ok_iff] at h
    obtain ⟨d, hd, ds, hds, h⟩ := h
    obtain rfl := Except.ok.inj h
    obtain ⟨hvalue, hrest⟩ := List.forall_mem_append.mp hvalues
    exact List.forall_mem_cons.mpr ⟨closed.ofJson hvalue hd, closed.ofJsons hrest hds⟩

theorem Closed.ofJsonFields (closed : Closed number p) :
    ∀ {members : List (String × Json)} {fields : List (String × Descriptor)},
      (∀ n ∈ Json.numbersOfMembers members, number n) → ofJsonFields members = .ok fields →
        ∀ field ∈ fields, p field.2
  | [], _, _, h => by
    obtain rfl := Except.ok.inj h
    exact fun _ hfield => absurd hfield List.not_mem_nil
  | (_, value) :: rest, _, hmembers, h => by
    simp only [Descriptor.ofJsonFields, bind_eq_ok_iff] at h
    obtain ⟨d, hd, fields, hfields, h⟩ := h
    obtain rfl := Except.ok.inj h
    obtain ⟨hvalue, hrest⟩ := List.forall_mem_append.mp hmembers
    exact List.forall_mem_cons.mpr ⟨closed.ofJson hvalue hd, closed.ofJsonFields hrest hfields⟩

theorem Closed.atAnyOf (closed : Closed number p) :
    ∀ {members : List (String × Json)} {d : Descriptor},
      (∀ n ∈ Json.numbersOfMembers members, number n) → atAnyOf members = some (.ok d) → p d
  | [], _, _, h => by simp [Descriptor.atAnyOf] at h
  | (_, value) :: rest, _, hmembers, h => by
    obtain ⟨hvalue, hrest⟩ := List.forall_mem_append.mp hmembers
    rw [Descriptor.atAnyOf] at h
    split at h
    · exact closed.ofAlternatives hvalue (Option.some.inj h)
    · exact closed.atAnyOf hrest h

theorem Closed.ofAlternatives (closed : Closed number p) : ∀ {value : Json} {d : Descriptor},
    (∀ n ∈ value.numbers, number n) → ofAlternatives value = .ok d → p d
  | .null, _, _, h => by simp [Descriptor.ofAlternatives] at h
  | .bool _, _, _, h => by simp [Descriptor.ofAlternatives] at h
  | .number _, _, _, h => by simp [Descriptor.ofAlternatives] at h
  | .string _, _, _, h => by simp [Descriptor.ofAlternatives] at h
  | .object _, _, _, h => by simp [Descriptor.ofAlternatives] at h
  | .array values, _, hvalues, h => by
    simp only [Descriptor.ofAlternatives, bind_eq_ok_iff] at h
    obtain ⟨ds, hds, h⟩ := h
    split at h
    · contradiction
    · obtain rfl := Except.ok.inj h
      exact closed.unionOf _ (closed.ofJsons hvalues hds)

theorem Closed.atItems (closed : Closed number p) :
    ∀ {members : List (String × Json)} {d : Descriptor},
      (∀ n ∈ Json.numbersOfMembers members, number n) → atItems members = .ok d → p d
  | [], _, _, h => by
    obtain rfl := Except.ok.inj h
    exact closed.unknown
  | (_, value) :: rest, _, hmembers, h => by
    obtain ⟨hvalue, hrest⟩ := List.forall_mem_append.mp hmembers
    rw [Descriptor.atItems] at h
    split at h
    · exact closed.ofJson hvalue h
    · exact closed.atItems hrest h

theorem Closed.atProperties (closed : Closed number p) :
    ∀ {members : List (String × Json)} {fields : List (String × Descriptor)},
      (∀ n ∈ Json.numbersOfMembers members, number n) → atProperties members = .ok fields →
        ∀ field ∈ fields, p field.2
  | [], _, _, h => by
    obtain rfl := Except.ok.inj h
    exact fun _ hfield => absurd hfield List.not_mem_nil
  | (_, value) :: rest, _, hmembers, h => by
    obtain ⟨hvalue, hrest⟩ := List.forall_mem_append.mp hmembers
    rw [Descriptor.atProperties] at h
    split at h
    · exact closed.ofProperties hvalue h
    · exact closed.atProperties hrest h

theorem Closed.ofProperties (closed : Closed number p) :
    ∀ {value : Json} {fields : List (String × Descriptor)},
      (∀ n ∈ value.numbers, number n) → ofProperties value = .ok fields →
        ∀ field ∈ fields, p field.2
  | .null, _, _, h => by simp [Descriptor.ofProperties] at h
  | .bool _, _, _, h => by simp [Descriptor.ofProperties] at h
  | .number _, _, _, h => by simp [Descriptor.ofProperties] at h
  | .string _, _, _, h => by simp [Descriptor.ofProperties] at h
  | .array _, _, _, h => by simp [Descriptor.ofProperties] at h
  | .object _, _, hmembers, h => closed.ofJsonFields hmembers h

end

theorem normal_ofJson {value : Json} {d : Descriptor} (h : ofJson value = .ok d) : Normal d :=
  closed_normal.ofJson (fun _ _ => trivial) h

end Descriptor

/-! ## Types of fields -/

theorem Absence.closed_type {number : LinePoint → Prop} {p : Descriptor → Prop}
    (closed : Descriptor.Closed number p) (absence : Absence) : p absence.type := by
  apply closed.unionOf
  intro d hd
  obtain ⟨literal, hliteral, rfl⟩ := List.mem_map.mp hd
  apply closed.primitive
  intro n hn
  -- The only number that stands for a field left out is zero.
  have hzero : ∀ l ∈ absence.literals, ∀ m ∈ l.numbers, m = .zero := by
    cases absence <;> decide
  rw [hzero literal hliteral n hn]
  exact closed.zero

/-- Only literals stand for a field left out. -/
theorem Absence.exists_literal_of_mem_type {absence : Absence} {d : Descriptor}
    (h : d ∈ absence.type.members) : ∃ value, d = .literal value := by
  have hnormal : ∀ e ∈ absence.literals.map Descriptor.literal, e.Normal := by
    intro e he
    obtain ⟨value, -, rfl⟩ := List.mem_map.mp he
    exact .primitive _
  have hne : absence.literals.map Descriptor.literal ≠ [] := by cases absence <;> simp [literals]
  have hknown : Descriptor.unknown ∉ absence.literals.map Descriptor.literal := by
    simp [Descriptor.literal]
  rw [Absence.type, Descriptor.members_unionOf hnormal hne hknown,
    Descriptor.mem_sortedMembers] at h
  obtain ⟨e, he, hd⟩ := List.mem_flatMap.mp h
  obtain ⟨value, -, rfl⟩ := List.mem_map.mp he
  exact ⟨value, List.mem_singleton.mp hd⟩

theorem RuleOutput.closed_type {number : LinePoint → Prop} {p : Descriptor → Prop}
    (closed : Descriptor.Closed number p) (output : RuleOutput) : p output.type := by
  cases output <;> exact closed.primitive _ fun _ hn => absurd hn List.not_mem_nil

/-- Both types of a field are normal. -/
structure FieldType.Normal (type : FieldType) : Prop where
  present : type.present.Normal
  absent : ∀ d, type.absent = some d → d.Normal

/-- Both types of a field have a property. -/
structure FieldType.All (p : Descriptor → Prop) (type : FieldType) : Prop where
  present : p type.present
  absent : ∀ d, type.absent = some d → p d

theorem FieldType.Normal.all {type : FieldType} (h : type.Normal) : type.All Descriptor.Normal :=
  ⟨h.present, h.absent⟩

/-- The numbers in the options of a declaration. -/
def Declaration.numbers (declaration : Declaration) : List LinePoint :=
  declaration.toJson.numbers

namespace Declaration

variable {declaration : Declaration}

theorem numbers_subset_of_get? {rule : String} {value : Json}
    (h : declaration.get? rule = some value) : value.numbers ⊆ declaration.numbers :=
  Json.numbers_subset_of_get? h

theorem numbers_subset_of_option {rule name : String} {value : Json}
    (h : ((declaration.get? rule).bind fun payload => payload.member? name) = some value) :
    value.numbers ⊆ declaration.numbers := by
  obtain ⟨payload, hpayload, hvalue⟩ := Option.bind_eq_some_iff.mp h
  exact List.Subset.trans (Json.numbers_subset_of_member? hvalue) (numbers_subset_of_get? hpayload)

theorem numbers_eraseAll_subset (declaration : Declaration) (names : List String) :
    numbers (declaration.eraseAll names) ⊆ declaration.numbers := by
  intro n hn
  rw [numbers, toJson, Json.numbers, Json.numbersOfMembers_eq] at hn ⊢
  obtain ⟨entry, hentry, hn⟩ := List.mem_flatMap.mp hn
  exact List.mem_flatMap.mpr ⟨entry, (List.mem_filter.mp hentry).1, hn⟩

theorem numbers_subset_of_givenDefault? {value : Json}
    (h : declaration.givenDefault? = .ok (some value)) : value.numbers ⊆ declaration.numbers := by
  rw [givenDefault?] at h
  split at h
  · cases h
  · rename_i payload hpayload
    have hvalue := Json.numbers_subset_of_get? (Except.ok.inj h)
    exact List.Subset.trans hvalue (numbers_subset_of_get? hpayload)
  · cases h

end Declaration

section

variable {number : LinePoint → Prop} {p : Descriptor → Prop} (closed : Descriptor.Closed number p)

include closed

theorem Descriptor.Closed.unionOf_pair {a b : Descriptor} (ha : p a) (hb : p b) :
    p (Descriptor.unionOf [a, b]) :=
  closed.unionOf _ (List.forall_mem_cons.mpr ⟨ha, List.forall_mem_singleton.mpr hb⟩)

/-- A closed property holds of what a built-in rule makes of a field, widened or not. -/
theorem RuleOutput.closed_fieldType (widen : Bool) (output : RuleOutput) :
    p (output.fieldType widen) := by
  rw [RuleOutput.fieldType]
  split
  · exact closed.unionOf_pair (output.closed_type closed) (closed.array _ (output.closed_type closed))
  · exact output.closed_type closed

/-- A closed property holds of the built-in type of a declaration. -/
theorem Rulebook.closed_builtinType (rules : Rulebook) (role : RuleRole) (widen : Bool)
    (declaration : Declaration) : p (rules.builtinType role widen declaration) := by
  apply closed.unionOf
  intro d hd
  obtain ⟨rule, -, rfl⟩ := List.mem_map.mp hd
  exact rule.2.output.closed_fieldType closed widen

/-- A closed property of the parts of a field type holds of the whole. -/
theorem FieldType.All.whole {type : FieldType} (h : type.All p) : p type.whole := by
  rw [FieldType.whole]
  split
  · exact h.present
  · rename_i absent habsent
    exact closed.unionOf_pair h.present (h.absent absent habsent)

theorem Declaration.closed_returnsHint {declaration : Declaration}
    (hnumbers : ∀ n ∈ declaration.numbers, number n) {rule : String} {d : Descriptor}
    (h : declaration.returnsHint rule = .ok d) : p d := by
  simp only [returnsHint] at h
  split at h
  · rename_i form hform
    have hvalue := fun n hn => hnumbers n (numbers_subset_of_option hform hn)
    exact closed.ofJson hvalue (mapError_eq_ok_iff.mp h)
  · obtain rfl := Except.ok.inj h
    exact closed.unknown

theorem Declaration.closed_allowedValues {declaration : Declaration}
    (hnumbers : ∀ n ∈ declaration.numbers, number n) {d : Descriptor}
    (h : declaration.allowedValues = .ok d) : p d := by
  simp only [allowedValues] at h
  split at h
  case h_2 values _ hoptions =>
    obtain rfl := Except.ok.inj h
    apply closed.unionOf
    apply closed.ofValues
    intro n hn
    exact hnumbers n (numbers_subset_of_option hoptions (List.mem_append_left _ hn))
  all_goals contradiction

end

theorem FieldType.all_required {p : Descriptor → Prop} {d : Descriptor} (h : p d) :
    (required d).All p where
  present := h
  absent _ hd := by contradiction

/-- The types that a declaration gives to a field have a closed property, if the numbers in its
options have what the property asks of numbers. -/
theorem Rulebook.closed_fieldType {number : LinePoint → Prop} {p : Descriptor → Prop}
    (closed : Descriptor.Closed number p) {rules : Rulebook} {declaration : Declaration}
    (hnumbers : ∀ n ∈ declaration.numbers, number n) {position : Position} {type : FieldType}
    (h : rules.fieldType declaration position = .ok type) : type.All p := by
  fun_induction Rulebook.fieldType rules declaration position generalizing type with
  | case1 declaration position _ _ ih =>
      obtain ⟨given, hgiven, h⟩ := bind_eq_ok_iff.mp h
      cases given with
      | some value =>
          obtain rfl := Except.ok.inj h
          have hvalue := Declaration.numbers_subset_of_givenDefault? hgiven
          exact FieldType.all_required (closed.ofValue value fun n hn => hnumbers n (hvalue hn))
      | none =>
          obtain ⟨absence, -, h⟩ := bind_eq_ok_iff.mp h
          obtain ⟨rest, hrest, h⟩ := bind_eq_ok_iff.mp h
          obtain rfl := Except.ok.inj h
          have hleft := declaration.numbers_eraseAll_subset RuleName.absence
          refine ⟨(ih (fun n hn => hnumbers n (hleft hn)) hrest).whole closed, fun d hd => ?_⟩
          obtain rfl := Option.some.inj hd
          exact absence.closed_type closed
  | case2 | case3 =>
      obtain ⟨d, hd, rfl⟩ := map_eq_ok_iff.mp h
      exact FieldType.all_required (Declaration.closed_returnsHint closed hnumbers hd)
  | case4 =>
      obtain ⟨d, hd, rfl⟩ := map_eq_ok_iff.mp h
      exact FieldType.all_required (Declaration.closed_allowedValues closed hnumbers hd)
  | case5 declaration position _ _ ih =>
      obtain ⟨_, -, h⟩ := bind_eq_ok_iff.mp h
      obtain ⟨element, helement, h⟩ := bind_eq_ok_iff.mp h
      obtain rfl := Except.ok.inj h
      have hleft := declaration.numbers_eraseAll_subset RuleName.array
      have hall := ih (fun n hn => hnumbers n (hleft hn)) helement
      exact FieldType.all_required (closed.array _ (hall.whole closed))
  | case6 | case7 =>
      obtain rfl := Except.ok.inj h
      exact FieldType.all_required (rules.closed_builtinType closed _ _ _)
  | case8 =>
      obtain rfl := Except.ok.inj h
      exact FieldType.all_required closed.unknown

/-- The types that a declaration gives to a field are normal. -/
theorem Rulebook.normal_fieldType {rules : Rulebook} {declaration : Declaration}
    {position : Position} {type : FieldType}
    (h : rules.fieldType declaration position = .ok type) : type.Normal := by
  have hall := Rulebook.closed_fieldType Descriptor.closed_normal (fun _ _ => trivial) h
  exact ⟨hall.present, hall.absent⟩

/-- Positions differ only in whether checks are widened there. -/
theorem Rulebook.fieldType_congr (rules : Rulebook) (declaration : Declaration)
    {position other : Position} (h : rules.widens position = rules.widens other) :
    rules.fieldType declaration position = rules.fieldType declaration other := by
  induction declaration, position using Rulebook.fieldType.induct rules generalizing other with
  | case1 declaration position chosen _ ih =>
      rw [fieldType_eq, fieldType_eq rules declaration other, chosen, ih h]
  | case7 declaration position chosen =>
      rw [fieldType_eq, fieldType_eq rules declaration other, chosen, h]
  | _ declaration position chosen =>
      -- The other strategies do not look at the position.
      rw [fieldType_eq, fieldType_eq rules declaration other, chosen]

/-- A rule written by the user gives the field the type that its hint spells, whatever the position,
as soon as no stronger strategy is chosen. -/
theorem Rulebook.fieldType_of_hint (rules : Rulebook) {declaration : Declaration} {rule : String}
    {form : Json} {d : Descriptor}
    (hchosen : declaration.strategy rules.catalog = .customSanitizer ∧
        rule = RuleName.customSanitizer ∨
      declaration.strategy rules.catalog = .customValidator ∧ rule = RuleName.custom)
    (hform : (declaration.get? rule).bind (·.member? "returns") = some form)
    (hd : Descriptor.ofJson form = .ok d) (position : Position) :
    rules.fieldType declaration position = .ok (.required d) := by
  have hreturns : declaration.returnsHint rule = .ok d := by
    rw [Declaration.returnsHint, hform]
    simp only [hd, Except.mapError]
  rcases hchosen with ⟨hstrategy, rfl⟩ | ⟨hstrategy, rfl⟩
  all_goals
    rw [fieldType_eq, hstrategy, hreturns]
    rfl

/-- A declaration gives a field left out the type of some absence. -/
theorem Rulebook.exists_absence_of_fieldType {rules : Rulebook} {declaration : Declaration}
    {position : Position} {type : FieldType}
    (h : rules.fieldType declaration position = .ok type) {d : Descriptor}
    (hd : type.absent = some d) : ∃ absence : Absence, d = absence.type := by
  rw [fieldType_eq_parts] at h
  obtain ⟨given, -, h⟩ := bind_eq_ok_iff.mp h
  cases given with
  | some value =>
      obtain rfl := Except.ok.inj h
      contradiction
  | none =>
      obtain ⟨declared, -, h⟩ := bind_eq_ok_iff.mp h
      obtain ⟨present, -, h⟩ := bind_eq_ok_iff.mp h
      obtain rfl := Except.ok.inj h
      obtain ⟨absence, -, rfl⟩ := Option.map_eq_some_iff.mp hd
      exact ⟨absence, rfl⟩

/-- Both types of a field are normal, and only literals stand for a field left out. -/
structure FieldType.Proper (type : FieldType) : Prop where
  normal : type.Normal
  literals : ∀ d, type.absent = some d → ∀ member ∈ d.members, ∃ value, member = .literal value

/-- A field type that is resolved is proper. -/
theorem Rulebook.proper_fieldType {rules : Rulebook} {declaration : Declaration}
    {position : Position} {type : FieldType}
    (h : rules.fieldType declaration position = .ok type) : type.Proper where
  normal := Rulebook.normal_fieldType h
  literals d hd member hmember := by
    obtain ⟨absence, rfl⟩ := Rulebook.exists_absence_of_fieldType h hd
    exact Absence.exists_literal_of_mem_type hmember

end ShapeInference
