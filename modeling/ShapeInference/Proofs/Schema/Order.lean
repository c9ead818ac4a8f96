import ShapeInference.Proofs.Descriptor.Bound
import ShapeInference.Proofs.Schema.Closed

/-!
# Order and repetition of entries

What a group means depends only on which members it has: merging does, unions do, and so do the
groups one step further. Neither the order of entries nor their repetition therefore changes the
type of a schema, or whether it has one.

Main statements: `Group.normal_meaning`, `Group.meaning_congr` and `Schema.infer_eq_ok_of_same`.
-/

namespace ShapeInference

/-! ## Meanings are normal -/

namespace Group

section

variable {group : Group FieldType} (h : group.All FieldType.Normal)

include h

theorem All.all_normal : group.All (FieldType.All Descriptor.Normal) :=
  fun member hmember => (h member hmember).all

theorem normal_present : ∀ d ∈ group.present, d.Normal :=
  all_present h.all_normal

theorem normal_absent : ∀ d ∈ group.absent, d.Normal :=
  all_absent h.all_normal

theorem normal_present_append {d : Descriptor} (hd : d.Normal) :
    ∀ e ∈ group.present ++ [d], e.Normal :=
  all_present_append h.all_normal hd

theorem normal_arrayAlternatives_append {d : Descriptor} (hd : d.Normal) :
    ∀ e ∈ group.present.map Descriptor.arrayAlternatives ++ [d], e.Normal :=
  all_arrayAlternatives_append h.all_normal Descriptor.closed_normal hd

/-- A group of normal types means a normal one. -/
theorem normal_meaning {d : Descriptor} (hd : group.meaning = some d) : d.Normal :=
  closed_meaning Descriptor.closed_normal h.all_normal hd

end

theorem normal_objectMeaning {group : Group FieldType}
    (hfields : ∀ name ∈ group.keys, ∀ d, (group.after (.key name)).meaning = some d → d.Normal)
    {d : Descriptor} (hd : group.objectMeaning = some d) : d.Normal :=
  closed_objectMeaning Descriptor.closed_normal hfields hd

/-! ## Groups with the same members -/

/-- Each member of one group is one of the other. -/
def Same {α : Type} (group other : Group α) : Prop :=
  ∀ member, member ∈ group ↔ member ∈ other

section

variable {α : Type} {group other : Group α} (h : Same group other)

include h

theorem Same.mem_ended (a : α) : a ∈ group.ended ↔ a ∈ other.ended := by
  rw [Group.mem_ended, Group.mem_ended, h]

theorem Same.mem_firsts (step : Segment) : step ∈ group.firsts ↔ step ∈ other.firsts := by
  simp only [Group.mem_firsts, h _]

/-- Groups with the same members have the same after each step. -/
theorem Same.after (step : Segment) : Same (group.after step) (other.after step) := by
  rintro ⟨rest, a⟩
  rw [mem_after, mem_after, h]

end

theorem Same.mem_present {group other : Group FieldType} (h : Same group other) (d : Descriptor) :
    d ∈ group.present ↔ d ∈ other.present := by
  simp only [present, List.mem_map, h.mem_ended]

theorem Same.mem_absent {group other : Group FieldType} (h : Same group other) (d : Descriptor) :
    d ∈ group.absent ↔ d ∈ other.absent := by
  simp only [absent, List.mem_filterMap, h.mem_ended]

/-- Absences are added in any order and number. -/
theorem orAbsent_congr {absent others : List Descriptor} (h : ∀ e, e ∈ absent ↔ e ∈ others)
    (d : Descriptor) : d.orAbsent absent = d.orAbsent others := by
  cases absent with
  | nil =>
      cases others with
      | nil => rfl
      | cons e rest => exact absurd ((h e).mpr List.mem_cons_self) List.not_mem_nil
  | cons e rest =>
      cases others with
      | nil => exact absurd ((h e).mp List.mem_cons_self) List.not_mem_nil
      | cons f more =>
          apply Descriptor.unionOf_congr
          intro c
          rw [List.mem_cons, h, ← List.mem_cons]

/-- What is said settles the same in any order and number. -/
theorem settle_congr {said others absent absent' : List Descriptor}
    (hnormal : ∀ d ∈ said, d.Normal) (hsaid : ∀ d, d ∈ said ↔ d ∈ others)
    (habsent : ∀ d, d ∈ absent ↔ d ∈ absent') : settle said absent = settle others absent' := by
  have hnormal' : ∀ d ∈ others, d.Normal := fun d hd => hnormal d ((hsaid d).mpr hd)
  have hmerge : (Descriptor.mergeList said).toOption = (Descriptor.mergeList others).toOption := by
    ext d
    rw [toOption_eq_some_iff, toOption_eq_some_iff]
    constructor
    · exact Descriptor.mergeList_congr hnormal hsaid
    · exact Descriptor.mergeList_congr hnormal' fun d => (hsaid d).symm
  rw [settle, settle, hmerge]
  exact congrArg (Option.map · _) (funext (orAbsent_congr habsent))

theorem objectMeaning_eq_some {group other : Group FieldType}
    (hfirsts : ∀ step, step ∈ group.firsts ↔ step ∈ other.firsts)
    (hmeanings : ∀ name ∈ group.keys,
      (group.after (.key name)).meaning = (other.after (.key name)).meaning)
    {d : Descriptor} (hd : group.objectMeaning = some d) : other.objectMeaning = some d := by
  obtain ⟨fields, hfields, rfl⟩ := Option.map_eq_some_iff.mp hd
  have hall := exists_fieldMeanings_iff.mp ⟨fields, hfields⟩
  obtain ⟨others, hothers⟩ := exists_fieldMeanings_iff.mpr fun name hkey => by
    have hkey' := (hfirsts _).mpr hkey
    rw [← hmeanings name (mem_keys.mpr hkey')]
    exact hall name hkey'
  rw [objectMeaning, hothers, Option.map_some]
  refine congrArg (some ∘ Descriptor.object) (Bindings.sortedOfPairs_congr ?_ ?_ ?_)
  · rw [(fieldMeanings_eq_some_iff.mp hothers).1]
    exact other.nodup_keys
  · rw [(fieldMeanings_eq_some_iff.mp hfields).1]
    exact group.nodup_keys
  rintro ⟨name, d⟩
  rw [mem_of_fieldMeanings hothers, mem_of_fieldMeanings hfields, ← hfirsts]
  exact and_congr_right fun hkey => by rw [hmeanings name (mem_keys.mpr hkey)]

/-- Groups that go on to the same fields with the same meanings mean the same object. -/
theorem objectMeaning_congr {group other : Group FieldType}
    (hfirsts : ∀ step, step ∈ group.firsts ↔ step ∈ other.firsts)
    (hmeanings : ∀ name ∈ group.keys,
      (group.after (.key name)).meaning = (other.after (.key name)).meaning) :
    group.objectMeaning = other.objectMeaning := by
  have hmeanings' : ∀ name ∈ other.keys,
      (other.after (.key name)).meaning = (group.after (.key name)).meaning := by
    intro name hname
    have hkey := (hfirsts _).mpr (mem_keys.mp hname)
    exact (hmeanings name (mem_keys.mpr hkey)).symm
  ext d
  constructor
  · exact objectMeaning_eq_some hfirsts hmeanings
  · exact objectMeaning_eq_some (fun step => (hfirsts step).symm) hmeanings'

/-- What a group of normal types means depends only on what has arrived, on the first steps of the
others and on what the groups one step further mean. -/
theorem meaning_congr_of_after {group other : Group FieldType}
    (hnormal : group.All FieldType.Normal)
    (hpresent : ∀ d, d ∈ group.present ↔ d ∈ other.present)
    (habsent : ∀ d, d ∈ group.absent ↔ d ∈ other.absent)
    (hfirsts : ∀ step, step ∈ group.firsts ↔ step ∈ other.firsts)
    (hafter : ∀ step ∈ group.firsts, (group.after step).meaning = (other.after step).meaning) :
    group.meaning = other.meaning := by
  have hall : ∀ {p : Segment → Prop}, (∀ step ∈ group.firsts, p step) ↔
      ∀ step ∈ other.firsts, p step := by
    simp only [hfirsts, implies_true]
  have hnil : group.firsts = [] ↔ other.firsts = [] := by
    simp only [List.eq_nil_iff_forall_not_mem, hfirsts]
  by_cases hended : group.firsts = []
  · calc
      group.meaning = settle group.present group.absent := meaning_of_ended hended
      _ = settle other.present other.absent :=
        settle_congr (normal_present hnormal) hpresent habsent
      _ = other.meaning := (meaning_of_ended (hnil.mp hended)).symm
  by_cases hkeyed : ∀ step ∈ group.firsts, step.isEach = false
  · -- The fields may come in another order, but they make the same object.
    have hobject : group.objectMeaning = other.objectMeaning :=
      objectMeaning_congr hfirsts fun name hname => hafter _ (mem_keys.mp hname)
    have hsettle : ∀ object, group.objectMeaning = some object →
        settle (group.present ++ [object]) group.absent =
          settle (other.present ++ [object]) other.absent := by
      intro object hsome
      have hpart := normal_objectMeaning (fun _ _ _ => normal_meaning (hnormal.after _)) hsome
      apply settle_congr (normal_present_append hnormal hpart) _ habsent
      intro d
      rw [List.mem_append, List.mem_append, hpresent]
    calc
      group.meaning = group.objectMeaning.bind fun object =>
          settle (group.present ++ [object]) group.absent := meaning_of_keyed hended hkeyed
      _ = group.objectMeaning.bind fun object =>
          settle (other.present ++ [object]) other.absent := Option.bind_congr hsettle
      _ = other.objectMeaning.bind fun object =>
          settle (other.present ++ [object]) other.absent := by rw [hobject]
      _ = other.meaning := (meaning_of_keyed (hnil.not.mp hended) (hall.mp hkeyed)).symm
  by_cases heach : ∀ step ∈ group.firsts, step.isEach = true
  · have hsettle : ∀ element, (group.after .each).meaning = some element →
        settle (group.present.map Descriptor.arrayAlternatives ++ [.array element])
            group.absent =
          settle (other.present.map Descriptor.arrayAlternatives ++ [.array element])
            other.absent := by
      intro element hsome
      have hpart : (Descriptor.array element).Normal :=
        .array (normal_meaning (hnormal.after _) hsome)
      apply settle_congr (normal_arrayAlternatives_append hnormal hpart) _ habsent
      intro d
      simp only [List.mem_append, List.mem_map, hpresent]
    rw [meaning_of_each hended heach, meaning_of_each (hnil.not.mp hended) (hall.mp heach),
      ← hafter _ (each_mem_firsts hended heach)]
    exact Option.bind_congr hsettle
  · rw [meaning_of_mixed hkeyed heach, meaning_of_mixed (hall.not.mp hkeyed) (hall.not.mp heach)]

/-- What a group of normal types means depends only on which members it has. -/
theorem meaning_congr {group other : Group FieldType} (hsame : Same group other)
    (hnormal : group.All FieldType.Normal) : group.meaning = other.meaning :=
  meaning_congr_of_after hnormal hsame.mem_present hsame.mem_absent hsame.mem_firsts
    fun step _mem => meaning_congr (hsame.after step) (hnormal.after step)
termination_by group.totalSteps
decreasing_by exact totalSteps_after_lt _mem

end Group

/-! ## Schemas with the same entries -/

namespace Schema

variable {schema other : Schema} {rules : Rulebook}

theorem normal_group {group : Group FieldType} (h : schema.group rules = some group) :
    group.All FieldType.Normal := by
  intro member hmember
  obtain ⟨entry, -, hentry⟩ := (mem_of_mapM_eq_some h).mp hmember
  exact Rulebook.normal_of_member hentry

/-- Schemas with the same entries have groups with the same members. -/
theorem exists_group_same (h : ∀ entry, entry ∈ schema ↔ entry ∈ other) {group : Group FieldType}
    (hgroup : schema.group rules = some group) :
    ∃ group', other.group rules = some group' ∧ Group.Same group group' := by
  have hread := exists_mapM_eq_some_iff.mp ⟨group, hgroup⟩
  obtain ⟨group', hgroup'⟩ : ∃ group', other.group rules = some group' :=
    exists_mapM_eq_some_iff.mpr fun entry hentry => hread entry ((h entry).mpr hentry)
  refine ⟨group', hgroup', fun member => ?_⟩
  rw [mem_of_mapM_eq_some hgroup, mem_of_mapM_eq_some hgroup']
  simp only [h]

/-- What is inferred from a schema is inferred from every schema with the same entries. -/
theorem infer_eq_ok_of_same (h : ∀ entry, entry ∈ schema ↔ entry ∈ other) {d : Descriptor}
    (hd : schema.infer rules = .ok d) : other.infer rules = .ok d := by
  rw [infer_eq_ok_iff_meaning] at hd ⊢
  obtain ⟨group, hgroup, hobject⟩ := Option.bind_eq_some_iff.mp hd
  obtain ⟨group', hgroup', hsame⟩ := exists_group_same h hgroup
  have hnormal := normal_group hgroup
  rw [meaning, hgroup', Option.bind_some, ← hobject]
  exact (Group.objectMeaning_congr hsame.mem_firsts fun name _ =>
    Group.meaning_congr (hsame.after _) (hnormal.after _)).symm

/-- Schemas with the same entries have the same type, or both have none: neither order nor
repetition counts. -/
theorem infer_congr {schema other : Schema} (rules : Rulebook)
    (h : ∀ entry, entry ∈ schema ↔ entry ∈ other) :
    (∃ d, schema.infer rules = .ok d ∧ other.infer rules = .ok d) ∨
      ∃ defects defects', schema.infer rules = .error defects ∧
        other.infer rules = .error defects' := by
  cases hschema : schema.infer rules with
  | ok d => exact .inl ⟨d, rfl, infer_eq_ok_of_same h hschema⟩
  | error defects =>
      cases hother : other.infer rules with
      | ok d =>
          rw [infer_eq_ok_of_same (fun entry => (h entry).symm) hother] at hschema
          contradiction
      | error defects' => exact .inr ⟨defects, defects', rfl, rfl⟩

/-- An optional object and a field of it: the entries in either order, one of them repeated. -/
theorem infer_congr_swap :
    ∃ d,
      infer [("x", .ofList [("optional", .bool true)]), ("x.y", .ofList [("toInt", .bool true)]),
        ("x", .ofList [("optional", .bool true)])] .builtin = .ok d ∧
      infer [("x.y", .ofList [("toInt", .bool true)]), ("x", .ofList [("optional", .bool true)])]
        .builtin = .ok d := by
  have hsame : ∀ entry : String × Declaration,
      entry ∈ [("x", .ofList [("optional", .bool true)]), ("x.y", .ofList [("toInt", .bool true)]),
        ("x", .ofList [("optional", .bool true)])] ↔
      entry ∈ [("x.y", .ofList [("toInt", .bool true)]),
        ("x", .ofList [("optional", .bool true)])] := by
    simp [or_comm]
  have hok : infer [("x", .ofList [("optional", .bool true)]),
      ("x.y", .ofList [("toInt", .bool true)]), ("x", .ofList [("optional", .bool true)])]
        .builtin = .ok (.object [("x", .union [.literal .undefined,
          .object [("y", .primitive .integer)]])]) := by
    with_unfolding_all rfl
  rcases infer_congr .builtin hsame with hboth | ⟨defects, _, herror, _⟩
  · exact hboth
  · rw [hok] at herror
    contradiction

end Schema

end ShapeInference
