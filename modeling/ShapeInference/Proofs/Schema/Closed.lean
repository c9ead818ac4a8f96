import ShapeInference.Proofs.Schema.Meaning

/-!
# Closed properties of inferred types

A group whose types have a closed property means a type with that property, and so the type of a
schema has it, too, as soon as the numbers in the options of its declarations allow it.

Main statements: `Group.closed_meaning` and `Schema.closed_infer`.
-/

namespace ShapeInference

variable {number : LinePoint → Prop} {p : Descriptor → Prop}

namespace Descriptor.Closed

variable (closed : Descriptor.Closed number p)

include closed

theorem arrayAlternatives {d : Descriptor} (h : p d) : p d.arrayAlternatives := by
  cases d with
  | union ds =>
      rw [Descriptor.arrayAlternatives]
      split
      · apply closed.unionOf
        intro d hd
        exact closed.members _ h d (List.mem_filter.mp hd).1
      · exact h
  | _ => exact h

theorem foldlM_merge {start c : Descriptor} {ds : List Descriptor} (hs : p start)
    (hds : ∀ d ∈ ds, p d) (h : ds.foldlM Descriptor.merge start = .ok c) : p c := by
  induction ds generalizing start with
  | nil =>
      obtain rfl := Except.ok.inj h
      exact hs
  | cons d rest ih =>
      obtain ⟨hd, hrest⟩ := List.forall_mem_cons.mp hds
      rw [List.foldlM_cons, bind_eq_ok_iff] at h
      obtain ⟨next, hnext, h⟩ := h
      exact ih (closed.merge _ _ _ hs hd hnext) hrest h

theorem orAbsent {d : Descriptor} (h : p d) {absent : List Descriptor}
    (habsent : ∀ e ∈ absent, p e) : p (d.orAbsent absent) := by
  cases absent with
  | nil => exact h
  | cons e rest => exact closed.unionOf _ (List.forall_mem_cons.mpr ⟨h, habsent⟩)

end Descriptor.Closed

namespace Group

section

variable {group : Group FieldType} (h : group.All (FieldType.All p))

include h

theorem all_present : ∀ d ∈ group.present, p d := by
  intro d hd
  obtain ⟨type, htype, rfl⟩ := List.mem_map.mp hd
  exact (h.of_mem_ended htype).present

theorem all_absent : ∀ d ∈ group.absent, p d := by
  intro d hd
  obtain ⟨type, htype, hd⟩ := List.mem_filterMap.mp hd
  exact (h.of_mem_ended htype).absent d hd

theorem all_present_append {d : Descriptor} (hd : p d) : ∀ e ∈ group.present ++ [d], p e := by
  rw [List.forall_mem_append, List.forall_mem_singleton]
  exact ⟨all_present h, hd⟩

variable (closed : Descriptor.Closed number p)

include closed

theorem all_arrayAlternatives_append {d : Descriptor} (hd : p d) :
    ∀ e ∈ group.present.map Descriptor.arrayAlternatives ++ [d], p e := by
  rw [List.forall_mem_append, List.forall_mem_singleton, List.forall_mem_map]
  exact ⟨fun e he => closed.arrayAlternatives (all_present h e he), hd⟩

/-- A closed property of all that is said holds of what it settles to. -/
theorem closed_settle {said : List Descriptor} (hsaid : ∀ d ∈ said, p d) {d : Descriptor}
    (hd : settle said group.absent = some d) : p d := by
  obtain ⟨v, hv, rfl⟩ := settle_eq_some_iff.mp hd
  exact closed.orAbsent (closed.foldlM_merge closed.unknown hsaid hv) (all_absent h)

end

variable (closed : Descriptor.Closed number p)

include closed

/-- A closed property of what the fields mean holds of the object of them. -/
theorem closed_objectMeaning {group : Group FieldType}
    (hfields : ∀ name ∈ group.keys, ∀ d, (group.after (.key name)).meaning = some d → p d)
    {d : Descriptor} (hd : group.objectMeaning = some d) : p d := by
  obtain ⟨fields, hsome, rfl⟩ := Option.map_eq_some_iff.mp hd
  apply closed.ofFields
  intro field hfield
  obtain ⟨hkey, hmeaning⟩ := (mem_of_fieldMeanings hsome).mp hfield
  exact hfields field.1 (mem_keys.mpr hkey) field.2 hmeaning

/-- A group of types with a closed property means one with that property. -/
theorem closed_meaning {group : Group FieldType} (h : group.All (FieldType.All p)) {d : Descriptor}
    (hd : group.meaning = some d) : p d := by
  induction group using meaning.induct generalizing d with
  | case1 group hended =>
      rw [meaning_of_ended hended] at hd
      exact closed_settle h closed (all_present h) hd
  | case2 group hsome hkeyed ih =>
      rw [meaning_of_keyed hsome hkeyed] at hd
      obtain ⟨object, hobject, hd⟩ := Option.bind_eq_some_iff.mp hd
      have hpart : p object :=
        closed_objectMeaning closed (fun name hname d => ih ⟨name, hname⟩ (h.after _)) hobject
      exact closed_settle h closed (all_present_append h hpart) hd
  | case3 group hsome _ heach ih =>
      rw [meaning_of_each hsome heach] at hd
      obtain ⟨element, helement, hd⟩ := Option.bind_eq_some_iff.mp hd
      have hpart := closed.array _ (ih (h.after _) helement)
      exact closed_settle h closed (all_arrayAlternatives_append h closed hpart) hd
  | case4 group _ hkeyed heach =>
      rw [meaning_of_mixed hkeyed heach] at hd
      contradiction

end Group

/-- The type of a schema has a closed property, if the numbers in the options of its declarations
have what the property asks of numbers. -/
theorem Schema.closed_infer (closed : Descriptor.Closed number p) {schema : Schema}
    {rules : Rulebook} (hnumbers : ∀ entry ∈ schema, ∀ n ∈ entry.2.numbers, number n)
    {d : Descriptor} (h : schema.infer rules = .ok d) : p d := by
  obtain ⟨group, hgroup, hd⟩ := Option.bind_eq_some_iff.mp (infer_eq_ok_iff_meaning.mp h)
  have hall : group.All (FieldType.All p) := by
    intro member hmember
    obtain ⟨entry, hentry, hmember⟩ := (mem_of_mapM_eq_some hgroup).mp hmember
    obtain ⟨path, -, -, htype⟩ := Rulebook.member_eq_some_iff.mp hmember
    exact Rulebook.closed_fieldType closed (hnumbers entry hentry) htype
  apply Group.closed_objectMeaning closed _ hd
  intro name _ e he
  exact Group.closed_meaning closed (hall.after _) he

end ShapeInference
