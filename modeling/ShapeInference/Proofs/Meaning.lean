import ShapeInference.Proofs.Bindings
import ShapeInference.Proofs.Descriptor.Merge
import ShapeInference.Proofs.Group
import ShapeInference.Tree.Reconcile

/-!
# What a group means

The type of a place, read off the group of field types that are declared at and below it, without a
tree: what arrived is merged with what goes on, which is grouped by its first step. A group in which
some go on to fields and others to elements means nothing.

Main statements: `Group.meaning_of_ended`, `Group.meaning_of_keyed`, `Group.meaning_of_each` and
`Group.meaning_eq_none_of_clash`.
-/

namespace ShapeInference

/-- A type with those of a field left out as further alternatives, if there are any. -/
def Descriptor.orAbsent (d : Descriptor) : List Descriptor → Descriptor
  | [] => d
  | absent => .unionOf (d :: absent)

namespace Group

/-- What the types that arrived say of a present value. -/
def present (group : Group FieldType) : List Descriptor :=
  group.ended.map FieldType.present

/-- What the types that arrived say of a field left out. -/
def absent (group : Group FieldType) : List Descriptor :=
  group.ended.filterMap FieldType.absent

/-- What is said of a present value, merged, with the types of a field left out added. -/
def settle (said absent : List Descriptor) : Option Descriptor :=
  (Descriptor.mergeList said).toOption.map fun d => d.orAbsent absent

/-- The type of the place that a group is about, if what the group says agrees. -/
def meaning (group : Group FieldType) : Option Descriptor :=
  if hended : group.firsts = [] then
    settle group.present group.absent
  else if ∀ step ∈ group.firsts, step.isEach = false then do
    let fields ← group.keys.attach.mapM fun name =>
      (meaning (group.after (.key name.1))).map (name.1, ·)
    settle (group.present ++ [.ofFields fields]) group.absent
  else if heach : ∀ step ∈ group.firsts, step.isEach = true then do
    let element ← meaning (group.after .each)
    settle (group.present.map Descriptor.arrayAlternatives ++ [.array element]) group.absent
  else none
termination_by group.totalSteps
decreasing_by
  · exact totalSteps_after_lt (mem_keys.mp name.2)
  · exact totalSteps_after_lt (each_mem_firsts hended heach)

/-- The types of the fields that the things of a group go on to, under their names. -/
def fieldMeanings (group : Group FieldType) : Option (List (String × Descriptor)) :=
  group.keys.mapM fun name => (group.after (.key name)).meaning.map (name, ·)

/-- The object of these fields. -/
def objectMeaning (group : Group FieldType) : Option Descriptor :=
  group.fieldMeanings.map .ofFields

variable {group : Group FieldType}

/-- What is said settles exactly if it merges, and then to the merge and the absences. -/
theorem settle_eq_some_iff {said absent : List Descriptor} {d : Descriptor} :
    settle said absent = some d ↔
      ∃ v, Descriptor.mergeList said = .ok v ∧ v.orAbsent absent = d := by
  rw [settle]
  cases Descriptor.mergeList said <;> simp [Except.toOption]

theorem settle_singleton (d : Descriptor) : settle [d] [] = some d :=
  settle_eq_some_iff.mpr ⟨d, Descriptor.mergeList_singleton d, rfl⟩

/-- The fields have meanings exactly if what goes on to each of them has. -/
theorem fieldMeanings_eq_some_iff {fields : List (String × Descriptor)} :
    group.fieldMeanings = some fields ↔ Bindings.names fields = group.keys ∧
      ∀ field ∈ fields, (group.after (.key field.1)).meaning = some field.2 :=
  Bindings.mapM_eq_some_iff

/-- The fields with their meanings are the names gone to, each with what is meant there. -/
theorem mem_of_fieldMeanings {fields : List (String × Descriptor)}
    (h : group.fieldMeanings = some fields) {name : String} {d : Descriptor} :
    (name, d) ∈ fields ↔
      .key name ∈ group.firsts ∧ (group.after (.key name)).meaning = some d := by
  rw [mem_of_mapM_eq_some h]
  simp only [mem_keys, Option.map_eq_some_iff, Prod.mk.injEq]
  constructor
  · rintro ⟨_, hkey, _, hd, rfl, rfl⟩
    exact ⟨hkey, hd⟩
  · rintro ⟨hkey, hd⟩
    exact ⟨name, hkey, d, hd, rfl, rfl⟩

theorem exists_fieldMeanings_iff :
    (∃ fields, group.fieldMeanings = some fields) ↔
      ∀ name, .key name ∈ group.firsts → ∃ d, (group.after (.key name)).meaning = some d := by
  simp only [fieldMeanings, exists_mapM_eq_some_iff, mem_keys, Option.map_eq_some_iff,
    exists_comm (α := String × Descriptor), exists_and_left, exists_eq', and_true]

/-! ## The cases of a meaning -/

/-- Where nothing goes on, the meaning is what the arrived things settle to. -/
theorem meaning_of_ended (hended : group.firsts = []) :
    group.meaning = settle group.present group.absent := by
  rw [meaning, dif_pos hended]

/-- Where things go on to fields only, the object of these is one more thing said. -/
theorem meaning_of_keyed (hsome : group.firsts ≠ [])
    (hkeyed : ∀ step ∈ group.firsts, step.isEach = false) :
    group.meaning = group.objectMeaning.bind fun object =>
      settle (group.present ++ [object]) group.absent := by
  have hfields : (group.keys.attach.mapM fun name =>
      (meaning (group.after (.key name.1))).map (name.1, ·)) = group.fieldMeanings := by
    rw [List.mapM_subtype (g := fun name => (group.after (.key name)).meaning.map (name, ·))
      fun _ _ => rfl, List.unattach_attach, fieldMeanings]
  rw [meaning, dif_neg hsome, if_pos hkeyed, hfields, objectMeaning, Option.bind_map]
  rfl

/-- Where things go on to elements only, the array of these is one more thing said, and of the
others their array alternatives. -/
theorem meaning_of_each (hsome : group.firsts ≠ [])
    (heach : ∀ step ∈ group.firsts, step.isEach = true) :
    group.meaning = (group.after .each).meaning.bind fun element =>
      settle (group.present.map Descriptor.arrayAlternatives ++ [.array element])
        group.absent := by
  have hkeyed : ¬ ∀ step ∈ group.firsts, step.isEach = false := fun h => by
    have := h .each (each_mem_firsts hsome heach)
    contradiction
  rw [meaning, dif_neg hsome, if_neg hkeyed, dif_pos heach]
  rfl

/-- Where things go on both to fields and to elements, there is no meaning. -/
theorem meaning_of_mixed (hkeyed : ¬ ∀ step ∈ group.firsts, step.isEach = false)
    (heach : ¬ ∀ step ∈ group.firsts, step.isEach = true) : group.meaning = none := by
  have hsome : group.firsts ≠ [] := fun hnil => hkeyed (by simp [hnil])
  rw [meaning, dif_neg hsome, if_neg hkeyed, dif_neg heach]

/-- Where nothing has arrived, the place is the object of its fields. -/
theorem objectMeaning_eq_meaning (hended : group.ended = []) (hsome : group.firsts ≠ [])
    (hkeyed : ∀ step ∈ group.firsts, step.isEach = false) :
    group.objectMeaning = group.meaning := by
  have hsettle : ∀ d, settle (group.present ++ [d]) group.absent = some d := by
    intro d
    rw [present, absent, hended]
    exact settle_singleton d
  rw [meaning_of_keyed hsome hkeyed, funext hsettle, Option.bind_fun_some]

/-! ## Groups without a meaning -/

theorem objectMeaning_eq_none {name : String} (hkey : .key name ∈ group.firsts)
    (hnone : (group.after (.key name)).meaning = none) : group.objectMeaning = none := by
  refine Option.map_eq_none_iff.mpr (Option.eq_none_iff_forall_ne_some.mpr fun fields hfields => ?_)
  obtain ⟨d, hd⟩ := exists_fieldMeanings_iff.mp ⟨fields, hfields⟩ name hkey
  rw [hd] at hnone
  contradiction

/-- Without a meaning after one of its first steps a group has none. -/
theorem meaning_eq_none_of_after {step : Segment} (hstep : step ∈ group.firsts)
    (hnone : (group.after step).meaning = none) : group.meaning = none := by
  have hsome : group.firsts ≠ [] := List.ne_nil_of_mem hstep
  by_cases hkeyed : ∀ step ∈ group.firsts, step.isEach = false
  · cases step with
    | key name => rw [meaning_of_keyed hsome hkeyed, objectMeaning_eq_none hstep hnone]; rfl
    | each =>
        have := hkeyed _ hstep
        contradiction
  by_cases heach : ∀ step ∈ group.firsts, step.isEach = true
  · cases step with
    | key name =>
        have := heach _ hstep
        contradiction
    | each => rw [meaning_of_each hsome heach, hnone]; rfl
  exact meaning_of_mixed hkeyed heach

/-- A group in which things part has no meaning. -/
theorem meaning_eq_none_of_clash (h : group.Clash) : group.meaning = none := by
  obtain ⟨shared, name, rest, others, a, b, hkey, heach⟩ := h
  induction shared generalizing group with
  | nil =>
      refine meaning_of_mixed (fun h => ?_) (fun h => ?_)
      · have := h .each (mem_firsts.mpr ⟨others, b, heach⟩)
        contradiction
      · have := h (.key name) (mem_firsts.mpr ⟨rest, a, hkey⟩)
        contradiction
  | cons step shared ih =>
      refine meaning_eq_none_of_after (mem_firsts.mpr ⟨_, a, hkey⟩) ?_
      exact ih (mem_after.mpr hkey) (mem_after.mpr heach)

theorem objectMeaning_eq_none_of_clash {name : String} (h : (group.after (.key name)).Clash) :
    group.objectMeaning = none := by
  refine objectMeaning_eq_none ?_ (meaning_eq_none_of_clash h)
  obtain ⟨shared, _, rest, _, a, _, hmem, -⟩ := h
  exact mem_firsts.mpr ⟨_, a, mem_after.mp hmem⟩

end Group

end ShapeInference
