import ShapeInference.Proofs.Tree.Normal

/-!
# What a schema means

The tree that a schema grows gathers the group of its entries, as long as none is rejected, and an
entry that is rejected can either not be read or clashes with another. Inference therefore computes
the meaning of the group, and fails exactly when there is none.

Main statements: `Tree.gathers_grow` and `Schema.infer_eq_ok_iff_meaning`.
-/

namespace ShapeInference

/-! ## The group of a schema -/

/-- An entry with the steps of its path, if it can be read. -/
def Entry.place (rules : Rulebook) (entry : String × Declaration) :
    Option (List Segment × Entry) :=
  (Entry.read rules entry.1 entry.2).toOption.map fun read => (read.1.segments, read.2)

/-- The steps of an entry and the type that it gives the field, if its path is well formed and its
rules are in order. -/
def Rulebook.member (rules : Rulebook) (entry : String × Declaration) :
    Option (List Segment × FieldType) :=
  (Path.parse entry.1).toOption.bind fun path =>
    (rules.fieldType entry.2 path.position).toOption.map fun type => (path.segments, type)

/-- The group of the entries of a schema, if all of them are in order. -/
def Schema.group (schema : Schema) (rules : Rulebook) : Option (Group FieldType) :=
  schema.mapM rules.member

/-- The type of the data by the group of a schema. -/
def Schema.meaning (schema : Schema) (rules : Rulebook) : Option Descriptor :=
  (schema.group rules).bind Group.objectMeaning

theorem Entry.place_eq_some_iff {rules : Rulebook} {entry : String × Declaration}
    {member : List Segment × Entry} :
    Entry.place rules entry = some member ↔
      ∃ path placed, Entry.read rules entry.1 entry.2 = .ok (path, placed) ∧
        (path.segments, placed) = member := by
  simp [Entry.place, toOption_eq_some_iff]

/-- An entry is a member of the group exactly if its path is read and its type is resolved. -/
theorem Rulebook.member_eq_some_iff {rules : Rulebook} {entry : String × Declaration}
    {member : List Segment × FieldType} :
    rules.member entry = some member ↔ ∃ path, Path.parse entry.1 = .ok path ∧
      path.segments = member.1 ∧ rules.fieldType entry.2 path.position = .ok member.2 := by
  simp only [Rulebook.member, Option.bind_eq_some_iff, Option.map_eq_some_iff,
    toOption_eq_some_iff]
  constructor
  · rintro ⟨path, hpath, type, htype, rfl⟩
    exact ⟨path, hpath, rfl, htype⟩
  · rintro ⟨path, hpath, hsegments, htype⟩
    exact ⟨path, hpath, member.2, htype, by rw [hsegments]⟩

/-- Reading an entry gives its steps and its type. -/
theorem Rulebook.member_eq (rules : Rulebook) (entry : String × Declaration) :
    rules.member entry =
      (Entry.place rules entry).map fun member => (member.1, member.2.type) := by
  simp only [Rulebook.member, Entry.place, Entry.read]
  cases Path.parse entry.1 with
  | error fault => rfl
  | ok path =>
      simp only [Except.mapError, Except.toOption, bind, Except.bind, Option.bind_some]
      cases rules.fieldType entry.2 path.position <;> rfl

theorem Rulebook.normal_of_member {rules : Rulebook} {entry : String × Declaration}
    {member : List Segment × FieldType} (h : rules.member entry = some member) :
    member.2.Normal := by
  obtain ⟨path, -, -, htype⟩ := Rulebook.member_eq_some_iff.mp h
  exact Rulebook.normal_fieldType htype

theorem Entry.normal_of_place {rules : Rulebook} {entry : String × Declaration}
    {member : List Segment × Entry} (h : Entry.place rules entry = some member) :
    member.2.type.Normal := by
  obtain ⟨path, placed, hread, rfl⟩ := Entry.place_eq_some_iff.mp h
  exact Entry.normal_of_read hread

theorem Schema.group_eq (schema : Schema) (rules : Rulebook) :
    schema.group rules =
      (schema.mapM (Entry.place rules)).map (Group.mapThings Entry.type) := by
  rw [Schema.group, funext rules.member_eq, mapM_map]
  rfl

/-! ## One entry -/

namespace Tree

variable {tree : Tree} {path : Path} {entry : Entry} {group : Group Entry}

/-- An entry that is inserted is gathered with those before. -/
theorem gathers_insert (h : Node.FieldsGather group tree.fields)
    (hnone : (tree.insert path entry).2 = none) :
    Node.FieldsGather (group ++ [(path.segments, entry)]) (tree.insert path entry).1.fields :=
  h.set ((h.child path.root).insert hnone)

/-- An entry that is rejected parts from one before it. -/
theorem clash_of_insert {obstacle : Obstacle} (h : Node.FieldsGather group tree.fields)
    (hsome : (tree.insert path entry).2 = some obstacle) :
    Group.Clash (Group.after (.key path.root) (group ++ [(path.segments, entry)])) := by
  rw [Path.segments, Group.after_append_going]
  exact (h.child path.root).clash hsome

theorem verdict_of_read {rules : Rulebook} {source : String × Declaration}
    (hread : Entry.read rules source.1 source.2 = .ok (path, entry)) :
    tree.verdict rules source =
      (tree.insert path entry).2.map (Obstacle.defect path source.1) := by
  rw [verdict, add, hread]

theorem step_of_read {rules : Rulebook} {source : String × Declaration}
    (hread : Entry.read rules source.1 source.2 = .ok (path, entry)) :
    tree.step rules source = (tree.insert path entry).1 := by
  rw [step, add, hread]

/-! ## Entries one after another -/

/-- Growing a tree from entries that can be read either rejects none and gathers all, or two of
them clash below a top-level field. -/
theorem gathers_grow {rules : Rulebook} (h : Node.FieldsGather group tree.fields)
    {entries : List (String × Declaration)} {members : Group Entry}
    (hmembers : entries.mapM (Entry.place rules) = some members) :
    (tree.rejections rules entries = [] ∧
        Node.FieldsGather (group ++ members) (tree.grow rules entries).fields) ∨
      (tree.rejections rules entries ≠ [] ∧
        ∃ name, Group.Clash (Group.after (.key name) (group ++ members))) := by
  induction entries generalizing tree group members with
  | nil =>
      rw [List.mapM_nil] at hmembers
      obtain rfl := Option.some.inj hmembers
      rw [List.append_nil]
      exact .inl ⟨rfl, h⟩
  | cons source rest ih =>
      obtain ⟨member, hmember, later, hlater, rfl⟩ := mapM_cons_eq_some_iff.mp hmembers
      obtain ⟨path, placed, hread, rfl⟩ := Entry.place_eq_some_iff.mp hmember
      rw [rejections_cons, verdict_of_read hread, step_of_read hread]
      have happend : group ++ (path.segments, placed) :: later =
          group ++ [(path.segments, placed)] ++ later := by simp
      rw [happend]
      cases hwalk : (tree.insert path placed).2 with
      | none =>
          rcases ih (gathers_insert h hwalk) hlater with ⟨hnil, hgathers⟩ | hrejected
          · refine .inl ⟨hnil, ?_⟩
            rw [grow, List.foldl_cons, step_of_read hread]
            exact hgathers
          · exact .inr hrejected
      | some obstacle =>
          -- Later entries cannot undo the clash.
          refine .inr ⟨List.cons_ne_nil _ _, path.root, (clash_of_insert h hwalk).mono ?_⟩
          rw [Group.after_append _ _ later]
          exact List.subset_append_left _ _

/-- If no entry is rejected, all are placed. -/
theorem exists_members_of_rejections_eq_nil {rules : Rulebook}
    {entries : List (String × Declaration)} (h : tree.rejections rules entries = []) :
    ∃ members, entries.mapM (Entry.place rules) = some members := by
  rw [exists_mapM_eq_some_iff]
  induction entries generalizing tree with
  | nil => exact fun _ hentry => absurd hentry List.not_mem_nil
  | cons source rest ih =>
      rw [rejections_cons, List.append_eq_nil_iff, Option.toList_eq_nil_iff] at h
      obtain ⟨path, placed, hread, -⟩ := leaves_step h.1
      have hplace := Entry.place_eq_some_iff.mpr ⟨path, placed, hread, rfl⟩
      exact List.forall_mem_cons.mpr ⟨⟨_, hplace⟩, ih h.2⟩

end Tree

/-! ## Whole schemas -/

namespace Schema

variable {schema : Schema} {rules : Rulebook} {d : Descriptor}

/-- A schema is inferred exactly if no entry is rejected and the grown tree reconciles without a
disagreement. -/
theorem infer_eq_ok_iff_reconcile :
    schema.infer rules = .ok d ↔ Tree.empty.rejections rules schema = [] ∧
      (Tree.empty.grow rules schema).reconcile = (d, []) := by
  rw [infer_eq]
  cases hall : Tree.empty.rejections rules schema ++
      (Tree.empty.grow rules schema).reconcile.2 with
  | nil =>
      obtain ⟨hrejections, hdefects⟩ := List.append_eq_nil_iff.mp hall
      constructor
      · intro h
        exact ⟨hrejections, Prod.ext (Except.ok.inj h) hdefects⟩
      · rintro ⟨-, h⟩
        rw [h]
  | cons defect rest =>
      constructor
      · intro h
        contradiction
      · rintro ⟨hrejections, h⟩
        rw [hrejections, h] at hall
        contradiction

/-- A schema whose entries are placed is inferred exactly if its group means something. -/
theorem infer_eq_ok_iff_of_members {members : Group Entry}
    (hmembers : schema.mapM (Entry.place rules) = some members) :
    schema.infer rules = .ok d ↔ schema.meaning rules = some d := by
  have hnormal : members.All fun entry => entry.type.Normal := by
    intro member hmember
    obtain ⟨source, -, hplace⟩ := (mem_of_mapM_eq_some hmembers).mp hmember
    exact Entry.normal_of_place hplace
  have hempty : Node.FieldsGather [] Tree.empty.fields := .nil rfl
  rw [infer_eq_ok_iff_reconcile, meaning, group_eq, hmembers, Option.map_some, Option.bind_some]
  rcases Tree.gathers_grow hempty hmembers with ⟨hnil, hgathers⟩ | ⟨hrejected, name, hclash⟩
  · rw [Tree.reconcile_eq_iff hgathers hnormal, List.nil_append, and_iff_right hnil]
  · -- A clash leaves the group without a meaning, just as the rejection leaves no type.
    have hclash' : ((members.mapThings Entry.type).after (.key name)).Clash := by
      rw [Group.after_mapThings]
      exact hclash.mapThings _
    rw [Group.objectMeaning_eq_none_of_clash hclash']
    exact iff_of_false (fun h => hrejected h.1) (Option.some_ne_none d).symm

/-- A schema has a type exactly when it has a meaning, which is then that type. -/
theorem infer_eq_ok_iff_meaning : schema.infer rules = .ok d ↔ schema.meaning rules = some d := by
  cases hmembers : schema.mapM (Entry.place rules) with
  | some members => exact infer_eq_ok_iff_of_members hmembers
  | none =>
      constructor
      · intro h
        obtain ⟨hnil, -⟩ := infer_eq_ok_iff_reconcile.mp h
        obtain ⟨members, hsome⟩ := Tree.exists_members_of_rejections_eq_nil hnil
        rw [hmembers] at hsome
        contradiction
      · intro h
        rw [meaning, group_eq, hmembers] at h
        contradiction

/-- A schema has a group exactly if each entry has a path and a type. -/
theorem group_eq_some_iff {group : Group FieldType} :
    schema.group rules = some group ↔
      List.Forall₂ (fun entry member => ∃ path, Path.parse entry.1 = .ok path ∧
        path.segments = member.1 ∧ rules.fieldType entry.2 path.position = .ok member.2)
          schema group := by
  simp only [Schema.group, mapM_eq_some_iff, Rulebook.member_eq_some_iff]

/-- All things of the group of a schema go on to top-level fields. -/
theorem exists_key_of_mem_group {group : Group FieldType} (hgroup : schema.group rules = some group)
    {steps : List Segment} {type : FieldType} (hmem : (steps, type) ∈ group) :
    ∃ name rest, steps = .key name :: rest := by
  obtain ⟨entry, -, hentry⟩ := (mem_of_mapM_eq_some hgroup).mp hmem
  obtain ⟨path, -, hsegments, -⟩ := Rulebook.member_eq_some_iff.mp hentry
  exact ⟨path.root, path.below, hsegments.symm⟩

/-- No entry ends at the top of the data, so that a schema means what its group means. -/
theorem meaning_eq_of_group {group : Group FieldType} (hsome : schema ≠ [])
    (hgroup : schema.group rules = some group) :
    schema.meaning rules = group.meaning := by
  have hended : group.ended = [] := by
    rw [List.eq_nil_iff_forall_not_mem]
    intro type htype
    obtain ⟨name, rest, hsteps⟩ := exists_key_of_mem_group hgroup (Group.mem_ended.mp htype)
    contradiction
  have hkeyed : ∀ step ∈ group.firsts, step.isEach = false := by
    intro step hstep
    obtain ⟨more, type, hmem⟩ := Group.mem_firsts.mp hstep
    obtain ⟨name, rest, hsteps⟩ := exists_key_of_mem_group hgroup hmem
    rw [(List.cons.inj hsteps).1]
    rfl
  have hfirsts : group.firsts ≠ [] := by
    obtain ⟨entry, hentry⟩ := List.exists_mem_of_ne_nil _ hsome
    obtain ⟨⟨steps, type⟩, hmember⟩ := exists_mapM_eq_some_iff.mp ⟨group, hgroup⟩ entry hentry
    have hmem := (mem_of_mapM_eq_some hgroup).mpr ⟨entry, hentry, hmember⟩
    obtain ⟨name, rest, rfl⟩ := exists_key_of_mem_group hgroup hmem
    exact List.ne_nil_of_mem (Group.mem_firsts.mpr ⟨rest, type, hmem⟩)
  rw [meaning, hgroup, Option.bind_some, Group.objectMeaning_eq_meaning hended hfirsts hkeyed]

/-- A schema has a type exactly when every path is well formed, every declaration gives its field a
type where it sits, and the group of each top-level field has a meaning. The type is the object of
these meanings. -/
theorem infer_eq_ok_iff_groups (schema : Schema) (rules : Rulebook) (d : Descriptor) :
    schema.infer rules = .ok d ↔
      ∃ group : Group FieldType,
        List.Forall₂ (fun entry member => ∃ path, Path.parse entry.1 = .ok path ∧
          path.segments = member.1 ∧ rules.fieldType entry.2 path.position = .ok member.2)
            schema group ∧
          ∃ fields, (Bindings.names fields = group.keys ∧
            ∀ field ∈ fields, (group.after (.key field.1)).meaning = some field.2) ∧
              .ofFields fields = d := by
  simp only [infer_eq_ok_iff_meaning, meaning, Schema.group, Group.objectMeaning,
    Option.bind_eq_some_iff, Option.map_eq_some_iff, Group.fieldMeanings_eq_some_iff,
    mapM_eq_some_iff, Rulebook.member_eq_some_iff]

end Schema

end ShapeInference
