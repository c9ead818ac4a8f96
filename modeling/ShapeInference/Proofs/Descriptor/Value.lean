import ShapeInference.Proofs.Descriptor.Normal

/-!
# Types of values

The type of a value says all about it except in which order an array lists its elements and how
often, and in which order an object lists its members. Values of which this is the only difference
are `Json.Similar`.

An array is known by the union over its elements. No element has an unknown type or a union for
one, so the union gives back the types of the elements, also where there is one or none.

Main statement: `Descriptor.ofValue_eq_iff_similar`.
-/

namespace ShapeInference

/-! ## Similar values -/

namespace Json

mutual

/-- Values are equal up to the order and repetition of elements and the order of members at every
depth. Numbers are equal as doubles. A name that an object repeats has the last of its values. -/
inductive Similar : Json → Json → Prop where
  | null : Similar .null .null
  | bool (value : Bool) : Similar (.bool value) (.bool value)
  | number {m n : Number}
      (equal : LinePoint.ofBinary64 m.toBinary64 = LinePoint.ofBinary64 n.toBinary64) :
      Similar (.number m) (.number n)
  | string (value : String) : Similar (.string value) (.string value)
  | array {vs ws : List Json} (left : Within vs ws) (right : Within ws vs) :
      Similar (.array vs) (.array ws)
  | object {ms ns : List (String × Json)}
      (names : ∀ name, name ∈ Bindings.names ms ↔ name ∈ Bindings.names ns)
      (values : ∀ name v w, Bindings.get? ms.reverse name = some v →
        Bindings.get? ns.reverse name = some w → Similar v w) :
      Similar (.object ms) (.object ns)

/-- Each of some values is similar to one among others. -/
inductive Within : List Json → List Json → Prop where
  | nil (ws : List Json) : Within [] ws
  | cons {v w : Json} {vs ws : List Json} (member : w ∈ ws) (first : Similar v w)
      (rest : Within vs ws) : Within (v :: vs) ws

end

theorem within_iff {vs ws : List Json} : Within vs ws ↔ ∀ v ∈ vs, ∃ w ∈ ws, Similar v w := by
  induction vs with
  | nil => exact iff_of_true (.nil ws) (List.forall_mem_nil _)
  | cons v rest ih =>
      rw [List.forall_mem_cons, ← ih]
      constructor
      · rintro (_ | ⟨hmem, hfirst, hrest⟩)
        exact ⟨⟨_, hmem, hfirst⟩, hrest⟩
      · rintro ⟨⟨w, hmem, hfirst⟩, hrest⟩
        exact .cons hmem hfirst hrest

theorem Similar.symm : ∀ {v w : Json}, Similar v w → Similar w v
  | _, _, .null => .null
  | _, _, .bool value => .bool value
  | _, _, .number equal => .number equal.symm
  | _, _, .string value => .string value
  | _, _, .array left right => .array right left
  | _, _, .object names values =>
    .object (fun name => (names name).symm) fun name v w hv hw => (values name w v hw hv).symm

/-- Values of different kinds are not similar. -/
theorem Similar.kind_eq {v w : Json} (h : Similar v w) : v.kind = w.kind := by
  cases h <;> rfl

/-- Arrays are similar exactly if each element of either is similar to one of the other. -/
theorem similar_array_iff {vs ws : List Json} :
    Similar (.array vs) (.array ws) ↔
      (∀ v ∈ vs, ∃ w ∈ ws, Similar v w) ∧ ∀ w ∈ ws, ∃ v ∈ vs, Similar w v := by
  rw [← within_iff, ← within_iff]
  constructor
  · rintro ⟨⟩
    constructor <;> assumption
  · rintro ⟨left, right⟩
    exact .array left right

/-- Objects that repeat no name are similar if they have the same names with similar values. -/
theorem similar_object_iff {ms ns : List (String × Json)} (hms : (Bindings.names ms).Nodup)
    (hns : (Bindings.names ns).Nodup) :
    Similar (.object ms) (.object ns) ↔
      (∀ name, name ∈ Bindings.names ms ↔ name ∈ Bindings.names ns) ∧
        ∀ name v w, (name, v) ∈ ms → (name, w) ∈ ns → Similar v w := by
  simp only [← Bindings.get?_eq_some_iff hms, ← Bindings.get?_eq_some_iff hns,
    ← Bindings.get?_reverse hms, ← Bindings.get?_reverse hns]
  constructor
  · rintro ⟨⟩
    constructor <;> assumption
  · rintro ⟨names, values⟩
    exact .object names values

end Json

namespace Descriptor

/-! ## Unions of alternatives -/

/-- Sorted alternatives are found again in the union with these members. -/
theorem ofMembers_inj {ds es : List Descriptor} (hds : ∀ d ∈ ds, d.isAlternative = true)
    (hes : ∀ e ∈ es, e.isAlternative = true) (h : ofMembers ds = ofMembers es) : ds = es := by
  have hempty : ∀ fs : List Descriptor, (∀ f ∈ fs, f.isAlternative = true) →
      ofMembers fs = unknown → fs = [] := by
    intro fs hfs hunknown
    by_contra hne
    have hmembers := members_ofMembers hne hfs
    rw [hunknown] at hmembers
    have := hfs unknown (hmembers ▸ List.mem_singleton_self _)
    contradiction
  by_cases hd : ds = []
  · subst hd
    exact (hempty es hes h.symm).symm
  · have he : es ≠ [] := by
      rintro rfl
      exact hd (hempty ds hds h)
    rw [← members_ofMembers hd hds, h, members_ofMembers he hes]

/-- Descriptors that are no unions are told apart, as a set, by their union. -/
theorem unionOf_eq_iff {ds es : List Descriptor} (hds : ∀ d ∈ ds, d.isAlternative = true)
    (hes : ∀ e ∈ es, e.isAlternative = true) :
    unionOf ds = unionOf es ↔ ∀ d, d ∈ ds ↔ d ∈ es := by
  have heq : ∀ fs : List Descriptor, (∀ f ∈ fs, f.isAlternative = true) →
      unionOf fs = ofMembers (sortedMembers fs) := by
    intro fs hfs
    have hu : unknown ∉ fs := fun hmem => by
      have := hfs unknown hmem
      contradiction
    rw [unionOf_of_unknown_not_mem hu, flatMap_members_of_isAlternative hfs]
  refine ⟨fun h d => ?_, unionOf_congr⟩
  rw [heq ds hds, heq es hes] at h
  have hsorted := ofMembers_inj (fun d hd => hds d (mem_sortedMembers.mp hd))
    (fun e he => hes e (mem_sortedMembers.mp he)) h
  rw [← mem_sortedMembers, hsorted, mem_sortedMembers]

/-! ## Types of values -/

/-- The type of a value is neither unknown nor a union. -/
theorem isAlternative_ofValue (value : Json) : (ofValue value).isAlternative = true := by
  cases value <;> rfl

/-- A value always has a known type. -/
theorem ofValue_ne_unknown (value : Json) : ofValue value ≠ unknown := by
  intro h
  have halternative := isAlternative_ofValue value
  rw [h] at halternative
  contradiction

theorem ofValues_eq_map (values : List Json) : ofValues values = values.map ofValue := by
  induction values with
  | nil => rfl
  | cons value rest ih => rw [ofValues, ih, List.map_cons]

theorem ofMemberValues_eq_map (members : List (String × Json)) :
    ofMemberValues members = members.map fun member => (member.1, ofValue member.2) := by
  induction members with
  | nil => rfl
  | cons member rest ih => rw [ofMemberValues, ih, List.map_cons]

/-- Arrays have one type exactly if each element of either has the type of one of the other. -/
theorem ofValue_array_eq_iff {vs ws : List Json} :
    ofValue (.array vs) = ofValue (.array ws) ↔
      (∀ v ∈ vs, ∃ w ∈ ws, ofValue v = ofValue w) ∧
        ∀ w ∈ ws, ∃ v ∈ vs, ofValue v = ofValue w := by
  have halternative : ∀ values : List Json, ∀ d ∈ values.map ofValue, d.isAlternative = true := by
    intro values d hd
    obtain ⟨value, -, rfl⟩ := List.mem_map.mp hd
    exact isAlternative_ofValue value
  rw [ofValue, ofValue, array.injEq, ofValues_eq_map, ofValues_eq_map,
    unionOf_eq_iff (halternative vs) (halternative ws)]
  simp only [List.mem_map]
  constructor
  · intro h
    refine ⟨fun v hv => ?_, fun w hw => (h _).mpr ⟨w, hw, rfl⟩⟩
    obtain ⟨w, hw, heq⟩ := (h _).mp ⟨v, hv, rfl⟩
    exact ⟨w, hw, heq.symm⟩
  · rintro ⟨hleft, hright⟩ d
    constructor
    · rintro ⟨v, hv, rfl⟩
      obtain ⟨w, hw, heq⟩ := hleft v hv
      exact ⟨w, hw, heq.symm⟩
    · rintro ⟨w, hw, rfl⟩
      exact hright w hw

/-- Objects have one type exactly if the last member of every name has. -/
theorem ofValue_object_eq_iff {ms ns : List (String × Json)} :
    ofValue (.object ms) = ofValue (.object ns) ↔
      ∀ name, (Bindings.get? ms.reverse name).map ofValue =
        (Bindings.get? ns.reverse name).map ofValue := by
  have hget : ∀ (members : List (String × Json)) (name : String),
      Bindings.get? (members.map fun member => (member.1, ofValue member.2)).reverse name =
        (Bindings.get? members.reverse name).map ofValue := by
    intro members name
    rw [← List.map_reverse]
    exact Bindings.get?_map (fun _ => ofValue) _ _
  rw [ofValue, ofValue, ofFields, ofFields, object.injEq, Bindings.sortedOfPairs_eq_iff,
    ofMemberValues_eq_map, ofMemberValues_eq_map]
  simp only [hget]

/-! ## Types and similarity -/

/-- Objects are of one type if the same names have values of one type. -/
theorem ofValue_object_eq_of {ms ns : List (String × Json)}
    (names : ∀ name, name ∈ Bindings.names ms ↔ name ∈ Bindings.names ns)
    (values : ∀ name v w, Bindings.get? ms.reverse name = some v →
      Bindings.get? ns.reverse name = some w → ofValue v = ofValue w) :
    ofValue (.object ms) = ofValue (.object ns) := by
  rw [ofValue_object_eq_iff]
  intro name
  have hbound := names name
  rw [← Bindings.isSome_get?_reverse_iff, ← Bindings.isSome_get?_reverse_iff] at hbound
  cases hv : Bindings.get? ms.reverse name with
  | none =>
      cases hw : Bindings.get? ns.reverse name with
      | none => rfl
      | some w => simp [hv, hw] at hbound
  | some v =>
      cases hw : Bindings.get? ns.reverse name with
      | none => simp [hv, hw] at hbound
      | some w => exact congrArg some (values name v w hv hw)

mutual

/-- Similar values have the same type. -/
theorem ofValue_eq_of_similar : ∀ {v w : Json}, Json.Similar v w → ofValue v = ofValue w
  | _, _, .null => rfl
  | _, _, .bool _ => rfl
  | _, _, .number equal => congrArg (fun place => literal (.number place)) equal
  | _, _, .string _ => rfl
  | _, _, .array left right => by
    refine ofValue_array_eq_iff.mpr ⟨exists_ofValue_eq_of_within left, fun w hw => ?_⟩
    obtain ⟨v, hv, heq⟩ := exists_ofValue_eq_of_within right w hw
    exact ⟨v, hv, heq.symm⟩
  | _, _, .object names values =>
    ofValue_object_eq_of names fun name v w hv hw => ofValue_eq_of_similar (values name v w hv hw)

theorem exists_ofValue_eq_of_within : ∀ {vs ws : List Json}, Json.Within vs ws →
    ∀ v ∈ vs, ∃ w ∈ ws, ofValue v = ofValue w
  | _, _, .nil _ => fun _ hv => absurd hv List.not_mem_nil
  | _, _, .cons member first rest =>
    List.forall_mem_cons.mpr
      ⟨⟨_, member, ofValue_eq_of_similar first⟩, exists_ofValue_eq_of_within rest⟩

end

mutual

/-- Values of one type are similar. -/
theorem similar_of_ofValue_eq : ∀ {v w : Json}, ofValue v = ofValue w → Json.Similar v w
  | .null, w, h => by
    cases w with
    | null => exact .null
    | _ => cases h
  | .bool b, w, h => by
    cases w with
    | bool c =>
        cases h
        exact .bool b
    | _ => cases h
  | .number m, w, h => by
    cases w with
    | number n =>
        apply Json.Similar.number
        injection h with hkind
        injection hkind with hliteral
        injection hliteral
    | _ => cases h
  | .string s, w, h => by
    cases w with
    | string t =>
        cases h
        exact .string s
    | _ => cases h
  | .array vs, w, h => by
    cases w with
    | array ws =>
        obtain ⟨hleft, hright⟩ := ofValue_array_eq_iff.mp h
        have hsimilar := similar_of_mem_elements vs
        refine .array (Json.within_iff.mpr fun v hv => ?_) (Json.within_iff.mpr fun w hw => ?_)
        · obtain ⟨w, hw, heq⟩ := hleft v hv
          exact ⟨w, hw, hsimilar v hv w heq⟩
        · obtain ⟨v, hv, heq⟩ := hright w hw
          exact ⟨v, hv, (hsimilar v hv w heq).symm⟩
    | _ => cases h
  | .object ms, w, h => by
    cases w with
    | object ns =>
        have hvalues := ofValue_object_eq_iff.mp h
        refine .object (fun name => ?_) fun name v w hv hw => ?_
        · rw [← Bindings.isSome_get?_reverse_iff, ← Option.isSome_map, hvalues, Option.isSome_map,
            Bindings.isSome_get?_reverse_iff]
        · have heq := hvalues name
          rw [hv, hw] at heq
          apply similar_of_mem_members ms (name, v) _ w (Option.some.inj heq)
          exact List.mem_reverse.mp (Bindings.mem_of_get?_eq_some hv)
    | _ => cases h

theorem similar_of_mem_elements :
    ∀ vs : List Json, ∀ v ∈ vs, ∀ w, ofValue v = ofValue w → Json.Similar v w
  | [] => fun _ hv => absurd hv List.not_mem_nil
  | _ :: rest =>
    List.forall_mem_cons.mpr ⟨fun _ h => similar_of_ofValue_eq h, similar_of_mem_elements rest⟩

theorem similar_of_mem_members : ∀ ms : List (String × Json), ∀ member ∈ ms, ∀ w,
    ofValue member.2 = ofValue w → Json.Similar member.2 w
  | [] => fun _ hmember => absurd hmember List.not_mem_nil
  | (_, _) :: rest =>
    List.forall_mem_cons.mpr ⟨fun _ h => similar_of_ofValue_eq h, similar_of_mem_members rest⟩

end

instance (v w : Json) : Decidable (Json.Similar v w) :=
  decidable_of_iff (ofValue v = ofValue w) ⟨similar_of_ofValue_eq, ofValue_eq_of_similar⟩

/-- Values have the same type exactly if they are similar, and then they are of one kind. -/
theorem ofValue_eq_iff_similar (v w : Json) :
    (ofValue v = ofValue w ↔ Json.Similar v w) ∧ (Json.Similar v w → v.kind = w.kind) :=
  ⟨⟨similar_of_ofValue_eq, ofValue_eq_of_similar⟩, Json.Similar.kind_eq⟩

/-- The integer one equals the double, and nesting counts even around a single element. -/
example :
    Json.Similar
        (.array [.number (.integer 1), .null, .number (.double ⟨false, 0x3FF0000000000000⟩)])
        (.array [.null, .number (.integer 1)]) ∧
      ¬ Json.Similar (.array [.array []]) (.array []) ∧
      ¬ Json.Similar (.array [.array [.null]]) (.array [.null]) := by
  decide +kernel

end Descriptor

end ShapeInference
