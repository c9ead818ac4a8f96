import ShapeInference.Proofs.Descriptor.Reach
import ShapeInference.Proofs.Schema.Order
import ShapeInference.Proofs.Tree.Places

/-!
# What the type of a schema has at a place

The type of a schema has at each place what the group of the entries there means, or something that
absorbs it. The path of an entry therefore leads somewhere in the type, and what the entry says of a
present value is absorbed there as long as no entry lets the field be left out.

Main statements: `Group.exists_settles`, `Group.exists_reach` and `Group.exists_absorbs`.
-/

namespace ShapeInference

open Descriptor (Below arrayAlternatives mergeList)

/-! ## Types with those of a field left out -/

namespace Descriptor

variable {d : Descriptor} {absent : List Descriptor} (hd : d.Normal)
  (habsent : ∀ e ∈ absent, e.Normal) (hknown : unknown ∉ absent)

include hd habsent hknown

theorem members_subset_orAbsent (hd' : d ≠ unknown) {e : Descriptor} (he : e ∈ d :: absent) :
    e.members ⊆ (d.orAbsent absent).members := by
  cases absent with
  | nil =>
      obtain rfl := List.mem_singleton.mp he
      exact List.Subset.refl _
  | cons f rest =>
      refine members_subset_unionOf (List.forall_mem_cons.mpr ⟨hd, habsent⟩) ?_ he
      exact List.not_mem_cons_of_ne_of_not_mem hd'.symm hknown

/-- What is reached below a descriptor is reached with absences added to it. -/
theorem reach_subset_orAbsent {step : Segment} {rest : List Segment} :
    d.reach (step :: rest) ⊆ (d.orAbsent absent).reach (step :: rest) := by
  intro e he
  obtain ⟨child, hchild, he⟩ := mem_reach_cons.mp he
  have hmembers : d.members ⊆ (d.orAbsent absent).members := by
    apply members_subset_orAbsent hd habsent hknown
    · exact ne_unknown_of_mem_children hchild
    · exact List.mem_cons_self
  exact mem_reach_cons.mpr ⟨child, children_subset hmembers step hchild, he⟩

end Descriptor

namespace Group

/-! ## One place -/

/-- What the types that arrived say of a present value: of an array, where others go on to its
elements. -/
def said (group : Group FieldType) : List Descriptor :=
  if .each ∈ group.firsts then group.present.map arrayAlternatives else group.present

/-- A type is what a group says of a present value: what the types that arrived say, and where
others go on, a shape that has what these mean one step further. -/
inductive Settles (group : Group FieldType) : Descriptor → Prop where
  | ended {d : Descriptor} (ended : group.firsts = []) (merged : mergeList group.said = .ok d) :
      Settles group d
  | shaped {c shape d : Descriptor} (merged : mergeList group.said = .ok c) (normal : shape.Normal)
      (further : ∀ step ∈ group.firsts, ∃ next ∈ shape.children step,
        (group.after step).meaning = some next)
      (some : group.firsts ≠ []) (shaped : c.merge shape = .ok d) : Settles group d

/-- The object of the fields has, at each of them, what they mean. -/
theorem exists_mem_children_of_objectMeaning {group : Group FieldType} {d : Descriptor}
    (hd : group.objectMeaning = some d) (hkeyed : ∀ step ∈ group.firsts, step.isEach = false)
    {step : Segment} (hstep : step ∈ group.firsts) :
    ∃ next ∈ d.children step, (group.after step).meaning = some next := by
  obtain ⟨fields, hfields, rfl⟩ := Option.map_eq_some_iff.mp hd
  cases step with
  | each =>
      have := hkeyed _ hstep
      contradiction
  | key name =>
      obtain ⟨next, hnext⟩ := exists_fieldMeanings_iff.mp ⟨fields, hfields⟩ name hstep
      have hdistinct : (Bindings.names fields).Nodup := by
        rw [(fieldMeanings_eq_some_iff.mp hfields).1]
        exact group.nodup_keys
      refine ⟨next, Descriptor.mem_children_object.mpr ⟨name, rfl, ?_⟩, hnext⟩
      rw [Bindings.get?_sortedOfPairs, Bindings.get?_reverse hdistinct,
        Bindings.get?_eq_some_iff hdistinct]
      exact (mem_of_fieldMeanings hfields).mpr ⟨hstep, hnext⟩

/-- What settles beside a shape with the further meanings is what the group says of a present
value, with its absences. -/
theorem exists_settles_of_shape {group : Group FieldType} {shape d : Descriptor}
    (hnormal : shape.Normal)
    (hfurther : ∀ step ∈ group.firsts, ∃ next ∈ shape.children step,
      (group.after step).meaning = some next)
    (hsome : group.firsts ≠ []) (hd : settle (group.said ++ [shape]) group.absent = some d) :
    ∃ v, group.Settles v ∧ v.orAbsent group.absent = d := by
  obtain ⟨v, hv, hd⟩ := settle_eq_some_iff.mp hd
  obtain ⟨c, hc, hv⟩ := Descriptor.mergeList_append_singleton_eq_ok_iff.mp hv
  exact ⟨v, .shaped hc hnormal hfurther hsome hv, hd⟩

section

variable {group : Group FieldType} (h : group.All FieldType.Normal)

include h

theorem normal_said : ∀ d ∈ group.said, d.Normal := by
  rw [said]
  split
  · rw [List.forall_mem_map]
    exact fun d hd => Descriptor.normal_arrayAlternatives (normal_present h d hd)
  · exact normal_present h

theorem Settles.normal {d : Descriptor} (hd : group.Settles d) : d.Normal := by
  cases hd with
  | ended _ merged => exact .mergeList (normal_said h) merged
  | shaped merged normal _ _ shaped =>
      exact (Descriptor.Normal.mergeList (normal_said h) merged).merge normal shaped

/-- What is said of a present value is below what the group settles for. -/
theorem Settles.below {d : Descriptor} (hd : group.Settles d) {e : Descriptor}
    (he : e ∈ group.said) : Below e d := by
  have hsaid := normal_said h
  cases hd with
  | ended _ merged => exact (Descriptor.below_of_foldlM_merge .unknown hsaid merged).2.2 e he
  | @shaped c shape _ merged normal _ _ shaped =>
      obtain ⟨hc, -, hbelow⟩ := Descriptor.below_of_foldlM_merge .unknown hsaid merged
      have hcd := Descriptor.below_of_merge_left hc normal shaped
      exact (hbelow e he).trans (hsaid e he) hc (hc.merge normal shaped) hcd

/-- A meaning is what the group settles for, with the types of a field left out. -/
theorem exists_settles {d : Descriptor} (hd : group.meaning = some d) :
    ∃ v, group.Settles v ∧ v.orAbsent group.absent = d := by
  by_cases hended : group.firsts = []
  · have hsaid : group.said = group.present := if_neg (by simp [hended])
    rw [meaning_of_ended hended, settle_eq_some_iff, ← hsaid] at hd
    obtain ⟨v, hv, hd⟩ := hd
    exact ⟨v, .ended hended hv, hd⟩
  by_cases hkeyed : ∀ step ∈ group.firsts, step.isEach = false
  · have hsaid : group.said = group.present := if_neg fun heach => by
      have := hkeyed _ heach
      contradiction
    rw [meaning_of_keyed hended hkeyed, ← hsaid] at hd
    obtain ⟨object, hobject, hd⟩ := Option.bind_eq_some_iff.mp hd
    have hnormal : object.Normal :=
      normal_objectMeaning (fun _ _ _ => normal_meaning (h.after _)) hobject
    apply exists_settles_of_shape hnormal _ hended hd
    intro step hstep
    exact exists_mem_children_of_objectMeaning hobject hkeyed hstep
  by_cases heach : ∀ step ∈ group.firsts, step.isEach = true
  · have hsaid : group.said = group.present.map arrayAlternatives :=
      if_pos (each_mem_firsts hended heach)
    rw [meaning_of_each hended heach, ← hsaid] at hd
    obtain ⟨element, helement, hd⟩ := Option.bind_eq_some_iff.mp hd
    have hnormal : (Descriptor.array element).Normal := .array (normal_meaning (h.after _) helement)
    apply exists_settles_of_shape hnormal _ hended hd
    intro step hstep
    cases step with
    | each => exact ⟨element, Descriptor.mem_children_array.mpr ⟨rfl, rfl⟩, helement⟩
    | key name =>
        have := heach _ hstep
        contradiction
  · rw [meaning_of_mixed hkeyed heach] at hd
    contradiction

/-- One step further from a type that a group settles for lies what the group means there, or
something that absorbs it. -/
theorem Settles.exists_child {d : Descriptor} (hd : group.Settles d) {step : Segment}
    (hstep : step ∈ group.firsts) :
    ∃ shape next, shape.Normal ∧ Below shape d ∧ next ∈ shape.children step ∧
      (group.after step).meaning = some next := by
  cases hd with
  | ended ended => simp [ended] at hstep
  | @shaped c shape _ merged normal further _ shaped =>
      obtain ⟨next, hnext, hmeaning⟩ := further step hstep
      have hc : c.Normal := .mergeList (normal_said h) merged
      exact ⟨shape, next, normal, Descriptor.below_of_merge_right hc normal shaped, hnext, hmeaning⟩

end

/-! ## Places further down -/

theorem All.normal {group : Group FieldType} (h : group.All FieldType.Proper) :
    group.All FieldType.Normal :=
  fun member hmember => (h member hmember).normal

theorem unknown_not_mem_absent {group : Group FieldType} (h : group.All FieldType.Proper) :
    Descriptor.unknown ∉ group.absent := by
  intro hmem
  obtain ⟨type, htype, habsent⟩ := List.mem_filterMap.mp hmem
  obtain ⟨value, hvalue⟩ :=
    (h.of_mem_ended htype).literals _ habsent _ (List.mem_singleton_self Descriptor.unknown)
  contradiction

/-- Where members of a group lead, its meaning has what the group means there, or something that
absorbs it. -/
theorem exists_reach {group : Group FieldType} (h : group.All FieldType.Proper) {d : Descriptor}
    (hd : group.meaning = some d) {steps : List Segment} (hne : group.beyond steps ≠ []) :
    ∃ n, (group.beyond steps).meaning = some n ∧ ∃ e ∈ d.reach steps, Below n e := by
  induction steps generalizing group d with
  | nil =>
      exact ⟨d, hd, d, Descriptor.mem_reach_nil.mpr rfl,
        Descriptor.below_refl (normal_meaning h.normal hd)⟩
  | cons step rest ih =>
      obtain ⟨v, hv, rfl⟩ := exists_settles h.normal hd
      have hstep := mem_firsts_of_beyond_ne_nil hne
      obtain ⟨shape, next, hshape, hbelow, hnext, hmeaning⟩ := hv.exists_child h.normal hstep
      obtain ⟨n, hn, x, hx, hnx⟩ := ih (h.after step) hmeaning hne
      have hvn : v.Normal := hv.normal h.normal
      -- What the shape has there is absorbed by what the whole has there.
      have hx' : x ∈ shape.reach (step :: rest) := Descriptor.mem_reach_cons.mpr ⟨next, hnext, hx⟩
      obtain ⟨y, hy, hxy⟩ := hbelow.exists_mem_reach hshape hvn hx'
      have hnn : n.Normal := normal_meaning (h.normal.beyond (step :: rest)) hn
      refine ⟨n, hn, y, ?_, hnx.trans hnn (hshape.of_mem_reach hx') (hvn.of_mem_reach hy) hxy⟩
      exact Descriptor.reach_subset_orAbsent hvn (normal_absent h.normal)
        (unknown_not_mem_absent h) hy

theorem mem_said {group : Group FieldType} {type : FieldType} (h : type ∈ group.ended) :
    (if .each ∈ group.firsts then type.present.arrayAlternatives else type.present) ∈
      group.said := by
  have hpresent : type.present ∈ group.present := List.mem_map.mpr ⟨type, h, rfl⟩
  rw [said]
  split
  · exact List.mem_map.mpr ⟨_, hpresent, rfl⟩
  · exact hpresent

/-- Where nothing is said of a field left out, what is said of a present value is absorbed. -/
theorem exists_absorbs {group : Group FieldType} (h : group.All FieldType.Proper) {d : Descriptor}
    (hd : group.meaning = some d) {steps : List Segment} (hnone : (group.beyond steps).absent = [])
    {type : FieldType} (htype : type ∈ (group.beyond steps).ended) :
    ∃ e ∈ d.reach steps,
      e.merge (if .each ∈ (group.beyond steps).firsts then type.present.arrayAlternatives
        else type.present) = .ok e := by
  have hplace : (group.beyond steps).All FieldType.Normal := h.normal.beyond steps
  have hsaid := mem_said htype
  obtain ⟨n, hn, e, he, hne⟩ := exists_reach h hd (List.ne_nil_of_mem (mem_ended.mp htype))
  obtain ⟨v, hv, hvn⟩ := exists_settles hplace hn
  rw [hnone] at hvn
  obtain rfl : v = n := hvn
  have hs : Descriptor.Normal _ := normal_said hplace _ hsaid
  have hen : e.Normal := (normal_meaning h.normal hd).of_mem_reach he
  have hbelow : Below _ e := (hv.below hplace hsaid).trans hs (hv.normal hplace) hen hne
  exact ⟨e, he, Descriptor.merge_swap hs.ordered hen.ordered hbelow⟩

end Group

/-! ## Whole schemas -/

namespace Schema

variable {schema : Schema} {rules : Rulebook}

theorem proper_group {group : Group FieldType} (h : schema.group rules = some group) :
    group.All FieldType.Proper := by
  intro member hmember
  obtain ⟨entry, -, hentry⟩ := (mem_of_mapM_eq_some h).mp hmember
  obtain ⟨path, -, -, htype⟩ := Rulebook.member_eq_some_iff.mp hentry
  exact Rulebook.proper_fieldType htype

/-- A schema goes on with a step exactly if its group does. -/
theorem goesOn_iff_of_group {group : Group FieldType} (h : schema.group rules = some group)
    {steps : List Segment} {step : Segment} :
    schema.goesOn steps step = true ↔ step ∈ (group.beyond steps).firsts := by
  rw [group_eq] at h
  obtain ⟨members, hmembers, rfl⟩ := Option.map_eq_some_iff.mp h
  rw [Group.beyond_mapThings, Group.firsts_mapThings, goesOn_iff_mem_firsts hmembers]

/-- What arrives at a place are the types of the entries with that path. -/
theorem mem_ended_beyond_iff {group : Group FieldType} (h : schema.group rules = some group)
    {steps : List Segment} {type : FieldType} :
    type ∈ (group.beyond steps).ended ↔
      ∃ entry ∈ schema, rules.member entry = some (steps, type) := by
  rw [Group.mem_ended, Group.mem_beyond, List.append_nil, mem_of_mapM_eq_some h]

/-- The type of a schema is what its group means. -/
theorem meaning_of_infer {root : Descriptor} (h : schema.infer rules = .ok root)
    (hne : schema ≠ []) : ∃ group, schema.group rules = some group ∧ group.meaning = some root := by
  have hmeaning := infer_eq_ok_iff_meaning.mp h
  obtain ⟨group, hgroup, -⟩ := Option.bind_eq_some_iff.mp hmeaning
  rw [meaning_eq_of_group hne hgroup] at hmeaning
  exact ⟨group, hgroup, hmeaning⟩

/-- The path of each entry leads somewhere in the type of a schema. If no entry with that path lets
the field be left out, something there absorbs what the entry says of a present value, taken for an
array if some entry goes on to elements. -/
theorem infer_absorbs {root : Descriptor} (h : schema.infer rules = .ok root)
    {entry : String × Declaration} (hentry : entry ∈ schema) :
    ∃ steps type, rules.member entry = some (steps, type) ∧ root.reach steps ≠ [] ∧
      ((∀ other ∈ schema, ∀ otherType, rules.member other = some (steps, otherType) →
          otherType.absent = none) →
        ∃ d ∈ root.reach steps,
          d.merge (if schema.goesOn steps .each then type.present.arrayAlternatives
            else type.present) = .ok d) := by
  obtain ⟨group, hgroup, hroot⟩ := meaning_of_infer h (List.ne_nil_of_mem hentry)
  obtain ⟨⟨steps, type⟩, hmember⟩ := exists_mapM_eq_some_iff.mp ⟨group, hgroup⟩ entry hentry
  have hproper := proper_group hgroup
  have hended := (mem_ended_beyond_iff hgroup).mpr ⟨entry, hentry, hmember⟩
  have hne : group.beyond steps ≠ [] := List.ne_nil_of_mem (Group.mem_ended.mp hended)
  obtain ⟨n, hn, e, he, -⟩ := Group.exists_reach hproper hroot hne
  refine ⟨steps, type, hmember, List.ne_nil_of_mem he, ?_⟩
  intro hnone
  have habsent : (group.beyond steps).absent = [] := by
    apply List.filterMap_eq_nil_iff.mpr
    intro other hother
    obtain ⟨source, hsource, hread⟩ := (mem_ended_beyond_iff hgroup).mp hother
    exact hnone source hsource other hread
  simp only [goesOn_iff_of_group hgroup]
  exact Group.exists_absorbs hproper hroot habsent hended

/-- A check of a scalar or an array, below an optional field, where another entry goes on to the
elements. -/
theorem infer_absorbs_through_elements :
    ∃ root, infer [("owner", .ofList [("optional", .bool true)]),
        ("owner.tags", .ofList [("isString", .bool true)]),
        ("owner.tags.*", .ofList [("isAlpha", .bool true)])] ⟨.builtin, true⟩ = .ok root ∧
      ∃ d ∈ root.reach [.key "owner", .key "tags"],
        d.merge (.array (.primitive .string)) = .ok d := by
  have hok : infer [("owner", .ofList [("optional", .bool true)]),
      ("owner.tags", .ofList [("isString", .bool true)]),
      ("owner.tags.*", .ofList [("isAlpha", .bool true)])] ⟨.builtin, true⟩ =
        .ok (.object [("owner", .union [.literal .undefined,
          .object [("tags", .array (.primitive .string))]])]) := by
    with_unfolding_all rfl
  have hmembers : group [("owner", .ofList [("optional", .bool true)]),
      ("owner.tags", .ofList [("isString", .bool true)]),
      ("owner.tags.*", .ofList [("isAlpha", .bool true)])] ⟨.builtin, true⟩ =
        some [([.key "owner"], ⟨.unknown, some (.literal .undefined)⟩),
          ([.key "owner", .key "tags"],
            .required (.union [.primitive .string, .array (.primitive .string)])),
          ([.key "owner", .key "tags", .each], .required (.primitive .string))] := by
    with_unfolding_all rfl
  obtain ⟨steps, type, hmember, -, habsorbs⟩ := infer_absorbs hok
    (List.mem_cons_of_mem _ List.mem_cons_self)
  have hread : Rulebook.member ⟨.builtin, true⟩
      ("owner.tags", .ofList [("isString", .bool true)]) =
        some ([.key "owner", .key "tags"],
          .required (.union [.primitive .string, .array (.primitive .string)])) := by
    with_unfolding_all rfl
  obtain ⟨rfl, rfl⟩ := Prod.mk.inj (Option.some.inj (hmember.symm.trans hread))
  refine ⟨_, hok, habsorbs fun other hother otherType hother' => ?_⟩
  have hmem := (mem_of_mapM_eq_some hmembers).mpr ⟨other, hother, hother'⟩
  obtain rfl : otherType =
      .required (.union [.primitive .string, .array (.primitive .string)]) := by
    simpa using hmem
  rfl

end Schema

end ShapeInference
