import ShapeInference.Descriptor.Form
import ShapeInference.Proofs.Json.Reordered
import ShapeInference.Proofs.Outcome

/-!
# Descriptors do not depend on the order of members

Descriptors sort their fields, so it does not matter in which order a value or a document lists the
members of its objects.

Main statements: `Descriptor.ofValue_reordered` and `Descriptor.ofJson_reordered`.

## Implementation notes

Documents that spell no descriptor may be found faulty in different places when their members are
read in different orders. Only whether they spell one, and which, is compared.
-/

namespace ShapeInference.Descriptor

open Json

/-! ## Fields -/

theorem ofFields_cons_congr {fields others : List (String × Descriptor)}
    (h : ofFields fields = ofFields others) (field : String × Descriptor) :
    ofFields (field :: fields) = ofFields (field :: others) :=
  congrArg object (Bindings.sortedOfPairs_cons_congr (object.inj h) field)

/-- Two fields of different names may be given in either order. -/
theorem ofFields_swap {a b : String × Descriptor} (distinct : a.1 ≠ b.1)
    (rest : List (String × Descriptor)) : ofFields (a :: b :: rest) = ofFields (b :: a :: rest) :=
  congrArg object (Bindings.sortedOfPairs_swap distinct rest)

/-! ## Types of values -/

mutual

/-- The type of a value does not depend on the order of members. -/
theorem ofValue_reordered : ∀ {v w : Json}, Reordered v w → ofValue v = ofValue w
  | _, _, .same _ => rfl
  | _, _, .array elements => by
    rw [ofValue, ofValue, ofValues_reordered elements]
  | _, _, .object members => by
    rw [ofValue, ofValue, ofFields_reordered members]

/-- Reordering the members of values keeps the types of the values. -/
theorem ofValues_reordered : ∀ {vs ws : List Json}, ReorderedAll vs ws →
    ofValues vs = ofValues ws
  | _, _, .nil => rfl
  | _, _, .cons first rest => by
    rw [ofValues, ofValues, ofValue_reordered first, ofValues_reordered rest]

/-- Reordering members, at any depth, keeps the object they are collected into. -/
theorem ofFields_reordered : ∀ {ms ns : List (String × Json)}, ReorderedMembers ms ns →
    ofFields (ofMemberValues ms) = ofFields (ofMemberValues ns)
  | _, _, .nil => rfl
  | _, _, .cons name first rest => by
    rw [ofMemberValues, ofMemberValues, ofValue_reordered first]
    exact ofFields_cons_congr (ofFields_reordered rest) _
  | _, _, .swap distinct _ => ofFields_swap distinct _
  | _, _, .trans first second =>
    (ofFields_reordered first).trans (ofFields_reordered second)

end

/-! ## Types that documents spell -/

theorem atAnyOf_eq (ms : List (String × Json)) :
    atAnyOf ms = (Bindings.get? ms "anyOf").map ofAlternatives := by
  induction ms with
  | nil => rfl
  | cons member rest ih =>
      rw [atAnyOf, Bindings.get?_cons, ih]
      split <;> rfl

theorem atItems_eq (ms : List (String × Json)) :
    atItems ms = ((Bindings.get? ms "items").map ofJson).getD (.ok unknown) := by
  induction ms with
  | nil => rfl
  | cons member rest ih =>
      rw [atItems, Bindings.get?_cons, ih]
      split <;> rfl

theorem atProperties_eq (ms : List (String × Json)) :
    atProperties ms = ((Bindings.get? ms "properties").map ofProperties).getD (.ok []) := by
  induction ms with
  | nil => rfl
  | cons member rest ih =>
      rw [atProperties, Bindings.get?_cons, ih]
      split <;> rfl

theorem toOption_ofJsonFields_cons (name : String) (value : Json) (rest : List (String × Json)) :
    (ofJsonFields ((name, value) :: rest)).toOption =
      (ofJson value).toOption.bind fun d =>
        (ofJsonFields rest).toOption.map fun fields => (name, d) :: fields := by
  rw [ofJsonFields, toOption_bind]
  refine congrArg _ (funext fun d => ?_)
  rw [toOption_bind]
  cases (ofJsonFields rest).toOption <;> rfl

theorem map_ofFields_cons_congr {x y : Option (List (String × Descriptor))}
    (h : x.map ofFields = y.map ofFields) (field : String × Descriptor) :
    (x.map (field :: ·)).map ofFields = (y.map (field :: ·)).map ofFields := by
  cases x with
  | none => cases y with
    | none => rfl
    | some others => contradiction
  | some fields => cases y with
    | none => contradiction
    | some others => exact congrArg some (ofFields_cons_congr (Option.some.inj h) field)

/-- The form of a named type depends on its element type and its properties only by what they
give. -/
theorem ofTypeName_congr (name : String) {items items' : Except FormFault Descriptor}
    {properties properties' : Except FormFault (List (String × Descriptor))}
    (hitems : items.toOption = items'.toOption)
    (hproperties : properties.toOption.map ofFields = properties'.toOption.map ofFields) :
    (ofTypeName name items properties).toOption =
      (ofTypeName name items' properties').toOption := by
  simp only [ofTypeName]
  split
  case h_11 => rw [toOption_map, toOption_map, hitems]
  case h_12 => rw [toOption_map, toOption_map, hproperties]
  all_goals rfl

theorem ofConst_reordered {v w : Json} (h : Reordered v w) :
    (ofConst v).toOption = (ofConst w).toOption := by
  cases h <;> rfl

/-- Objects spell the same type if what they have under the names that are looked at is alike. -/
theorem ofJson_object_congr {ms ns : List (String × Json)}
    (hany : (atAnyOf ms).map Except.toOption = (atAnyOf ns).map Except.toOption)
    (hconst : Option.Rel Reordered (Bindings.get? ms "const") (Bindings.get? ns "const"))
    (htype : Option.Rel Reordered (Bindings.get? ms "type") (Bindings.get? ns "type"))
    (hitems : (atItems ms).toOption = (atItems ns).toOption)
    (hproperties : (atProperties ms).toOption.map ofFields =
      (atProperties ns).toOption.map ofFields) :
    (ofJson (.object ms)).toOption = (ofJson (.object ns)).toOption := by
  rw [ofJson, ofJson]
  generalize atAnyOf ms = any, atAnyOf ns = any' at hany
  generalize Bindings.get? ms "const" = const, Bindings.get? ns "const" = const' at hconst
  generalize Bindings.get? ms "type" = type, Bindings.get? ns "type" = type' at htype
  match any, any', hany with
  | some _, some _, hany => exact Option.some.inj hany
  | none, none, _ =>
      cases hconst with
      | some h => exact ofConst_reordered h
      | none =>
          cases htype with
          | none => rfl
          | @some value _ h =>
              cases h with
              | same =>
                  cases value with
                  | string name => exact ofTypeName_congr name hitems hproperties
                  | _ => rfl
              | array _ => rfl
              | object _ => rfl

mutual

/-- The type that a document spells, and whether it spells one, does not depend on the order of
members. -/
theorem ofJson_reordered : ∀ {v w : Json}, Reordered v w →
    (ofJson v).toOption = (ofJson w).toOption
  | _, _, .same _ => rfl
  | _, _, .array _ => rfl
  | _, _, .object members =>
    ofJson_object_congr (atAnyOf_reordered members) (members.get? "const") (members.get? "type")
      (atItems_reordered members) (atProperties_reordered members)

/-- Forms in another order of their members give the same types. -/
theorem ofJsons_reordered : ∀ {vs ws : List Json}, ReorderedAll vs ws →
    (ofJsons vs).toOption = (ofJsons ws).toOption
  | _, _, .nil => rfl
  | _, _, .cons first rest => by
    simp only [ofJsons, toOption_bind, ofJson_reordered first, ofJsons_reordered rest]

/-- Properties in another order give the same object. -/
theorem ofJsonFields_reordered : ∀ {ms ns : List (String × Json)}, ReorderedMembers ms ns →
    (ofJsonFields ms).toOption.map ofFields = (ofJsonFields ns).toOption.map ofFields
  | _, _, .nil => rfl
  | _, _, .cons name first rest => by
    rw [toOption_ofJsonFields_cons, toOption_ofJsonFields_cons, ofJson_reordered first,
      Option.map_bind, Option.map_bind]
    refine congrArg _ (funext fun d => ?_)
    exact map_ofFields_cons_congr (ofJsonFields_reordered rest) (name, d)
  | _, _, @ReorderedMembers.swap a b distinct ms => by
    obtain ⟨name, v⟩ := a
    obtain ⟨other, w⟩ := b
    simp only [toOption_ofJsonFields_cons]
    cases (ofJson v).toOption with
    | none => cases (ofJson w).toOption <;> rfl
    | some d => cases (ofJson w).toOption with
      | none => rfl
      | some e => cases (ofJsonFields ms).toOption with
        | none => rfl
        | some fields => exact congrArg some (ofFields_swap distinct fields)
  | _, _, .trans first second =>
    (ofJsonFields_reordered first).trans (ofJsonFields_reordered second)

theorem atAnyOf_reordered : ∀ {ms ns : List (String × Json)}, ReorderedMembers ms ns →
    (atAnyOf ms).map Except.toOption = (atAnyOf ns).map Except.toOption
  | _, _, .nil => rfl
  | _, _, .cons name first rest => by
    rw [atAnyOf, atAnyOf]
    split
    · exact congrArg some (ofAlternatives_reordered first)
    · exact atAnyOf_reordered rest
  | _, _, .swap distinct _ => by
    rw [atAnyOf_eq, atAnyOf_eq, Bindings.get?_swap distinct]
  | _, _, .trans first second =>
    (atAnyOf_reordered first).trans (atAnyOf_reordered second)

theorem ofAlternatives_reordered : ∀ {v w : Json}, Reordered v w →
    (ofAlternatives v).toOption = (ofAlternatives w).toOption
  | _, _, .same _ => rfl
  | _, _, .object _ => rfl
  | _, _, .array elements => by
    simp only [ofAlternatives, toOption_bind, ofJsons_reordered elements]

theorem atItems_reordered : ∀ {ms ns : List (String × Json)}, ReorderedMembers ms ns →
    (atItems ms).toOption = (atItems ns).toOption
  | _, _, .nil => rfl
  | _, _, .cons name first rest => by
    rw [atItems, atItems]
    split
    · exact ofJson_reordered first
    · exact atItems_reordered rest
  | _, _, .swap distinct _ => by
    rw [atItems_eq, atItems_eq, Bindings.get?_swap distinct]
  | _, _, .trans first second =>
    (atItems_reordered first).trans (atItems_reordered second)

theorem atProperties_reordered : ∀ {ms ns : List (String × Json)}, ReorderedMembers ms ns →
    (atProperties ms).toOption.map ofFields = (atProperties ns).toOption.map ofFields
  | _, _, .nil => rfl
  | _, _, .cons name first rest => by
    rw [atProperties, atProperties]
    split
    · exact ofProperties_reordered first
    · exact atProperties_reordered rest
  | _, _, .swap distinct _ => by
    rw [atProperties_eq, atProperties_eq, Bindings.get?_swap distinct]
  | _, _, .trans first second =>
    (atProperties_reordered first).trans (atProperties_reordered second)

theorem ofProperties_reordered : ∀ {v w : Json}, Reordered v w →
    (ofProperties v).toOption.map ofFields = (ofProperties w).toOption.map ofFields
  | _, _, .same _ => rfl
  | _, _, .array _ => rfl
  | _, _, .object members => ofJsonFields_reordered members

end

end ShapeInference.Descriptor
