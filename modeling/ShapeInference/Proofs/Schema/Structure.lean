import ShapeInference.Proofs.Descriptor.Join
import ShapeInference.Proofs.Schema.Order

/-!
# Declarations that repeat the structure

A path through a place says that there is an object or an array. A declaration at the place that
says no more than this changes nothing: where the place goes on with a field, no rule or a check for
an object; where it goes on with elements, no rule or a check for an array.

Main statements: `Group.meaning_append_of_idle` and `Schema.infer_structural`.
-/

namespace ShapeInference

/-- The declarations that say of a place no more than that paths leave it with a step. -/
def Segment.structural : Segment → List Declaration
  | key _ => [∅, .ofList [("isObject", .bool true)]]
  | each => [∅, .ofList [(RuleName.isArray, .bool true)]]

/-- A type that says nothing of a field left out and nothing new of a place that paths leave with a
step. -/
structure FieldType.Idle (step : Segment) (type : FieldType) : Prop where
  present : type.present.Normal
  absent : type.absent = none
  below_object : step.isEach = false → ∀ fields, type.present.Below (.object fields)
  below_array : step.isEach = true →
    ∀ element, type.present.arrayAlternatives.Below (.array element)

namespace FieldType

theorem Idle.normal {step : Segment} {type : FieldType} (h : type.Idle step) : type.Normal where
  present := h.present
  absent d hd := by
    rw [h.absent] at hd
    contradiction

theorem idle_unknown (step : Segment) : (required .unknown).Idle step where
  present := .unknown
  absent := rfl
  below_object _ _ := Descriptor.below_unknown _
  below_array _ _ := Descriptor.below_unknown _

/-- That something is an object says nothing beside a field of it. -/
theorem idle_emptyObject (name : String) : (required .emptyObject).Idle (.key name) where
  present := .primitive _
  absent := rfl
  below_object _ _ := rfl
  below_array h _ := by contradiction

/-- That something is an array says nothing beside its elements. -/
theorem idle_array : (required (.array .unknown)).Idle .each where
  present := .array .unknown
  absent := rfl
  below_object h _ := by contradiction
  below_array _ element := Descriptor.below_array_iff.mpr ⟨element, rfl, Descriptor.below_unknown _⟩

end FieldType

/-- Under the builtin catalog, each structural declaration gives an idle type. -/
theorem Rulebook.idle_of_structural {widen : Bool} {step : Segment} {declaration : Declaration}
    (h : declaration ∈ step.structural) (position : Position) :
    ∃ type, fieldType ⟨.builtin, widen⟩ declaration position = .ok type ∧ type.Idle step := by
  have hnone : fieldType ⟨.builtin, widen⟩ ∅ position = .ok (.required .unknown) := by
    with_unfolding_all rfl
  cases step with
  | key name =>
      rcases List.mem_pair.mp h with rfl | rfl
      · exact ⟨_, hnone, FieldType.idle_unknown _⟩
      · refine ⟨_, ?_, FieldType.idle_emptyObject name⟩
        cases widen <;> cases position <;> with_unfolding_all rfl
  | each =>
      rcases List.mem_pair.mp h with rfl | rfl
      · exact ⟨_, hnone, FieldType.idle_unknown _⟩
      · refine ⟨_, ?_, FieldType.idle_array⟩
        with_unfolding_all rfl

/-! ## Groups -/

namespace Group

/-- What lies below something said need not be said. -/
theorem settle_eq_of_below {said more : List Descriptor} (hsub : said ⊆ more)
    (hnormal : ∀ d ∈ more, d.Normal) (hbelow : ∀ d ∈ more, ∃ e ∈ said, d.Below e)
    (absent : List Descriptor) : settle more absent = settle said absent := by
  have hnormal' : ∀ d ∈ said, d.Normal := fun d hd => hnormal d (hsub hd)
  have hbounds : ∀ b : Descriptor, b.Normal →
      ((∀ d ∈ more, d.Below b) ↔ ∀ d ∈ said, d.Below b) := by
    intro b hb
    refine ⟨fun h d hd => h d (hsub hd), fun h d hd => ?_⟩
    obtain ⟨e, he, hde⟩ := hbelow d hd
    exact hde.trans (hnormal d hd) (hnormal' e he) hb (h e he)
  have hmerge : (Descriptor.mergeList more).toOption = (Descriptor.mergeList said).toOption := by
    ext d
    rw [toOption_eq_some_iff, toOption_eq_some_iff, Descriptor.mergeList_eq_ok_iff hnormal,
      Descriptor.mergeList_eq_ok_iff hnormal', Descriptor.isJoin_congr hbounds]
  rw [settle, settle, hmerge]

/-- One more thing is said that lies below the last. -/
theorem settle_append_of_below {said : List Descriptor} {d shape : Descriptor}
    (hsaid : ∀ e ∈ said, e.Normal) (hd : d.Normal) (hshape : shape.Normal) (hbelow : d.Below shape)
    (absent : List Descriptor) :
    settle (said ++ [d] ++ [shape]) absent = settle (said ++ [shape]) absent := by
  have hnormal : ∀ e ∈ said ++ [d] ++ [shape], e.Normal := by
    simp only [List.mem_append, List.mem_singleton]
    rintro e ((he | rfl) | rfl)
    · exact hsaid e he
    · exact hd
    · exact hshape
  apply settle_eq_of_below _ hnormal
  · simp only [List.mem_append, List.mem_singleton]
    rintro e ((he | rfl) | rfl)
    · exact ⟨e, .inl he, Descriptor.below_refl (hsaid e he)⟩
    · exact ⟨shape, .inr rfl, hbelow⟩
    · exact ⟨e, .inr rfl, Descriptor.below_refl hshape⟩
  · intro e he
    simp only [List.mem_append, List.mem_singleton] at he ⊢
    exact he.imp_left .inl

section

variable {group : Group FieldType} {step : Segment} {type : FieldType}

/-- An idle type arrives where another thing goes on. -/
theorem meaning_append_arrived (hnormal : group.All FieldType.Normal) (hidle : type.Idle step)
    (hstep : step ∈ group.firsts) : meaning (group ++ [([], type)]) = group.meaning := by
  have hfirsts : firsts (group ++ [([], type)]) = group.firsts := by
    rw [firsts_append, firsts_arrived, List.append_nil]
  have hafter : ∀ other, after other (group ++ [([], type)]) = group.after other := by
    intro other
    rw [after_append, after_arrived, List.append_nil]
  have hpresent : present (group ++ [([], type)]) = group.present ++ [type.present] := by
    rw [present, ended_append, ended_arrived, List.map_append]
    rfl
  have habsent : absent (group ++ [([], type)]) = group.absent := by
    simp [absent, ended_append, hidle.absent]
  have hsome : group.firsts ≠ [] := List.ne_nil_of_mem hstep
  have hsome' : firsts (group ++ [([], type)]) ≠ [] := hfirsts ▸ hsome
  by_cases hkeyed : ∀ step ∈ group.firsts, step.isEach = false
  · have hobject : objectMeaning (group ++ [([], type)]) = group.objectMeaning :=
      objectMeaning_congr (fun _ => by rw [hfirsts]) fun _ _ => by rw [hafter]
    rw [meaning_of_keyed hsome hkeyed, meaning_of_keyed hsome' (hfirsts ▸ hkeyed), hobject,
      hpresent, habsent]
    apply Option.bind_congr
    intro object hmeaning
    have hshape := normal_objectMeaning (fun _ _ _ => normal_meaning (hnormal.after _)) hmeaning
    obtain ⟨fields, -, rfl⟩ := Option.map_eq_some_iff.mp hmeaning
    have hbelow := hidle.below_object (hkeyed step hstep) (Bindings.sortedOfPairs fields)
    exact settle_append_of_below (normal_present hnormal) hidle.present hshape hbelow _
  by_cases heach : ∀ step ∈ group.firsts, step.isEach = true
  · rw [meaning_of_each hsome heach, meaning_of_each hsome' (hfirsts ▸ heach), hafter, hpresent,
      habsent, List.map_append]
    apply Option.bind_congr
    intro element hmeaning
    have hsaid : ∀ d ∈ group.present.map Descriptor.arrayAlternatives, d.Normal := by
      intro d hd
      exact normal_arrayAlternatives_append hnormal .unknown d (List.mem_append_left _ hd)
    have hbelow := hidle.below_array (heach step hstep) element
    exact settle_append_of_below hsaid (Descriptor.normal_arrayAlternatives hidle.present)
      (.array (normal_meaning (hnormal.after _) hmeaning)) hbelow _
  · rw [meaning_of_mixed hkeyed heach, meaning_of_mixed (hfirsts ▸ hkeyed) (hfirsts ▸ heach)]

/-- An idle type may be added to a group wherever a thing of the group goes on with the step. -/
theorem meaning_append_of_idle (hnormal : group.All FieldType.Normal) (hidle : type.Idle step)
    {steps rest : List Segment} {other : FieldType}
    (hmember : (steps ++ step :: rest, other) ∈ group) :
    meaning (group ++ [(steps, type)]) = group.meaning := by
  induction steps generalizing group with
  | nil => exact meaning_append_arrived hnormal hidle (mem_firsts.mpr ⟨rest, other, hmember⟩)
  | cons first steps ih =>
      have hfirst : first ∈ group.firsts := mem_firsts.mpr ⟨steps ++ step :: rest, other, hmember⟩
      have hended : ended (group ++ [(first :: steps, type)]) = group.ended := ended_append_going
      have hall : (group ++ [(first :: steps, type)]).All FieldType.Normal := by
        intro member hmem
        rcases List.mem_append.mp hmem with hold | hnew
        · exact hnormal member hold
        · obtain rfl := List.mem_singleton.mp hnew
          exact hidle.normal
      apply meaning_congr_of_after hall
      · intro d
        rw [present, present, hended]
      · intro d
        rw [absent, absent, hended]
      · intro next
        rw [firsts_append_going, List.mem_append, List.mem_singleton]
        exact or_iff_left_of_imp fun heq => heq ▸ hfirst
      · intro next _
        by_cases heq : first = next
        · subst heq
          rw [after_append_going]
          exact ih (hnormal.after first) (mem_after.mpr hmember)
        · rw [after_append, after_going_of_ne heq, List.append_nil]

end

end Group

/-! ## Whole schemas -/

namespace Schema

variable {schema : Schema} {rules : Rulebook}

/-- One more entry is one more member of the group. -/
theorem group_append_singleton {entry : String × Declaration} {member : List Segment × FieldType}
    (h : rules.member entry = some member) :
    group (schema ++ [entry]) rules = (schema.group rules).map (· ++ [member]) := by
  rw [group, List.mapM_append, List.mapM_cons, List.mapM_nil, h, ← group]
  cases schema.group rules <;> rfl

/-- An idle type of a place changes nothing if the path of another entry leads through the place. -/
theorem infer_append_of_idle {entry source : String × Declaration} (hentry : entry ∈ schema)
    {path place : Path} (hpath : Path.parse entry.1 = .ok path)
    (hplace : Path.parse source.1 = .ok place) {step : Segment} {rest : List Segment}
    (hsteps : path.segments = place.segments ++ step :: rest) {type : FieldType}
    (htype : rules.fieldType source.2 place.position = .ok type) (hidle : type.Idle step)
    {d : Descriptor} :
    infer (schema ++ [source]) rules = .ok d ↔ schema.infer rules = .ok d := by
  have hsource : rules.member source = some (place.segments, type) :=
    Rulebook.member_eq_some_iff.mpr ⟨place, hplace, rfl, htype⟩
  have happend : group (schema ++ [source]) rules =
      (schema.group rules).map (· ++ [(place.segments, type)]) := group_append_singleton hsource
  rw [infer_eq_ok_iff_meaning, infer_eq_ok_iff_meaning]
  cases hgroup : schema.group rules with
  | none =>
      rw [hgroup, Option.map_none] at happend
      rw [meaning, meaning, happend, hgroup]
  | some group =>
      rw [hgroup, Option.map_some] at happend
      obtain ⟨member, hmember⟩ := exists_mapM_eq_some_iff.mp ⟨group, hgroup⟩ entry hentry
      obtain ⟨path', hpath', hsegments, -⟩ := Rulebook.member_eq_some_iff.mp hmember
      obtain rfl := Except.ok.inj (hpath.symm.trans hpath')
      have hmem : (place.segments ++ step :: rest, member.2) ∈ group := by
        rw [← hsteps, hsegments]
        exact (mem_of_mapM_eq_some hgroup).mpr ⟨entry, hentry, hmember⟩
      rw [meaning_eq_of_group (List.append_ne_nil_of_right_ne_nil _ (List.cons_ne_nil _ _)) happend,
        meaning_eq_of_group (List.ne_nil_of_mem hentry) hgroup,
        Group.meaning_append_of_idle (normal_group hgroup) hidle hmem]

/-- Declaring at a place, wherever in a schema, no more than that paths leave it changes neither
whether the schema has a type nor which. -/
theorem infer_structural {widen : Bool} {before after : Schema} {entry : String × Declaration}
    (hentry : entry ∈ before ++ after) {path place : Path}
    (hpath : Path.parse entry.1 = .ok path) {p : String} (hplace : Path.parse p = .ok place)
    {step : Segment} {rest : List Segment}
    (hsteps : path.segments = place.segments ++ step :: rest) {declaration : Declaration}
    (hdeclaration : declaration ∈ step.structural) (d : Descriptor) :
    infer (before ++ (p, declaration) :: after) ⟨.builtin, widen⟩ = .ok d ↔
      infer (before ++ after) ⟨.builtin, widen⟩ = .ok d := by
  obtain ⟨type, htype, hidle⟩ := Rulebook.idle_of_structural hdeclaration place.position
  have hsame : ∀ other, other ∈ before ++ (p, declaration) :: after ↔
      other ∈ before ++ after ++ [(p, declaration)] := by
    intro other
    simp only [List.mem_append, List.mem_cons, List.not_mem_nil, or_false]
    exact or_assoc.symm.trans or_right_comm
  have hlast : infer (before ++ after ++ [(p, declaration)]) ⟨.builtin, widen⟩ = .ok d ↔
      infer (before ++ after) ⟨.builtin, widen⟩ = .ok d :=
    infer_append_of_idle hentry hpath hplace hsteps htype hidle
  rw [← hlast]
  exact ⟨infer_eq_ok_of_same hsame, infer_eq_ok_of_same fun other => (hsame other).symm⟩

/-- A check for an array, at a place whose elements other entries go on to. -/
theorem infer_structural_of_elements :
    infer [("a.*.b", .ofList [("isInt", .bool true)]), ("a", .ofList [("isArray", .bool true)]),
      ("a", .ofList [("optional", .bool true)])] .builtin =
        .ok (.object [("a", .union [.literal .undefined,
          .array (.object [("b", .primitive .integer)])])]) := by
  have hok : infer [("a.*.b", .ofList [("isInt", .bool true)]),
      ("a", .ofList [("optional", .bool true)])] .builtin =
        .ok (.object [("a", .union [.literal .undefined,
          .array (.object [("b", .primitive .integer)])])]) := by
    with_unfolding_all rfl
  have hpath : Path.parse "a.*.b" = .ok ⟨"a", [.each, .key "b"]⟩ := by decide +kernel
  have hplace : Path.parse "a" = .ok ⟨"a", []⟩ := by decide +kernel
  exact (@infer_structural false [_] [_] _ List.mem_cons_self _ _ hpath _ hplace _ _ rfl _
    (List.mem_cons_of_mem _ List.mem_cons_self) _).mpr hok

end Schema

end ShapeInference
