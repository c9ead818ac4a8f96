import ShapeInference.Descriptor.Merge
import ShapeInference.Proofs.Descriptor.Normal
import ShapeInference.Proofs.Outcome

/-!
# Laws of merging

Merging is a partial operation on normal descriptors: idempotent, commutative and associative, each
law together with the question where it is defined.

Main statements: `Descriptor.merge_eq_ok_iff` lists the pairs that merge, and
`Descriptor.mergeInto_eq_ok_iff` says what is found under each name of merged objects.
-/

namespace ShapeInference.Descriptor

/-! ## Pairs that merge -/

/-- The pairs of descriptors that merge, and what they merge to. -/
inductive Merges : Descriptor → Descriptor → Descriptor → Prop where
  | unknownLeft (d : Descriptor) : Merges unknown d d
  | unknownRight (d : Descriptor) : Merges d unknown d
  | emptyLeft (fields : List (String × Descriptor)) :
      Merges emptyObject (object fields) (object fields)
  | emptyRight (fields : List (String × Descriptor)) :
      Merges (object fields) emptyObject (object fields)
  | object {left right fields : List (String × Descriptor)}
      (merged : mergeInto left right = .ok fields) :
      Merges (object left) (object right) (object fields)
  | array {left right d : Descriptor} (merged : merge left right = .ok d) :
      Merges (array left) (array right) (array d)
  | primitive (kind : Primitive) : Merges (primitive kind) (primitive kind) (primitive kind)
  | union (left right : List Descriptor) :
      Merges (union left) (union right) (unionOf (left ++ right))

/-- Descriptors that merge are one of these pairs. -/
theorem Merges.of_merge_eq {a b c : Descriptor} (h : merge a b = .ok c) : Merges a b c := by
  fun_cases merge a b <;> simp_all only [merge, Except.ok.injEq, reduceCtorEq, if_true, if_false]
  case case1 => exact .unknownLeft _
  case case2 => exact .unknownRight _
  case case3 => subst h; exact .emptyLeft _
  case case4 => subst h; exact .emptyRight _
  case case5 left right =>
    obtain ⟨fields, hfields, rfl⟩ := map_eq_ok_iff.mp h
    exact .object hfields
  case case6 left right =>
    obtain ⟨d, hd, rfl⟩ := map_eq_ok_iff.mp (mapError_eq_ok_iff.mp h)
    exact .array hd
  case case7 => subst h; exact .primitive _
  case case9 => subst h; exact .union _ _

theorem merge_unknown_left (d : Descriptor) : merge unknown d = .ok d := by
  cases d <;> simp [merge]

theorem merge_unknown_right (d : Descriptor) : merge d unknown = .ok d := by
  cases d <;> simp [merge]

theorem mergeList_singleton (d : Descriptor) : mergeList [d] = .ok d := by
  rw [mergeList, List.foldlM_cons, merge_unknown_left]
  rfl

theorem Merges.merge_eq {a b c : Descriptor} (h : Merges a b c) : merge a b = .ok c := by
  cases h with
  | unknownLeft => exact merge_unknown_left _
  | unknownRight => exact merge_unknown_right _
  | emptyLeft => simp [emptyObject, merge]
  | emptyRight => simp [emptyObject, merge]
  | object merged => simp [merge, merged, Except.map]
  | array merged => simp [merge, merged, Except.map, Except.mapError]
  | primitive => simp [merge]
  | union => simp [merge]

/-- A merge succeeds exactly at these pairs, with these results. -/
theorem merge_eq_ok_iff {a b c : Descriptor} : merge a b = .ok c ↔ Merges a b c :=
  ⟨Merges.of_merge_eq, Merges.merge_eq⟩

/-! ## Fields of merged objects -/

/-- What is found under a name of merged objects: what one side has if the other has nothing, and
the merge of both otherwise. -/
inductive MergesFound : Option Descriptor → Option Descriptor → Option Descriptor → Prop where
  | left (found : Option Descriptor) : MergesFound found none found
  | right (found : Option Descriptor) : MergesFound none found found
  | both {a b c : Descriptor} (merged : merge a b = .ok c) :
      MergesFound (some a) (some b) (some c)

theorem mergesFound_none_left {found result : Option Descriptor} :
    MergesFound none found result ↔ result = found := by
  constructor
  · rintro (_ | _) <;> rfl
  · rintro rfl
    exact .right _

theorem mergesFound_none_right {found result : Option Descriptor} :
    MergesFound found none result ↔ result = found := by
  constructor
  · rintro (_ | _) <;> rfl
  · rintro rfl
    exact .left _

/-- Where both sides have a field, the field is the merge of the two. -/
theorem mergesFound_some {a b : Descriptor} {result : Option Descriptor} :
    MergesFound (some a) (some b) result ↔ ∃ c, merge a b = .ok c ∧ result = some c := by
  constructor
  · rintro ⟨⟩
    exact ⟨_, by assumption, rfl⟩
  · rintro ⟨c, hc, rfl⟩
    exact .both hc

theorem MergesFound.exists_result {found result : Option Descriptor} {d : Descriptor}
    (h : MergesFound found (some d) result) : ∃ merged, result = some merged := by
  cases h with
  | right => exact ⟨d, rfl⟩
  | both => exact ⟨_, rfl⟩

/-- A field loop succeeds exactly if its first field merges and the others do after it. -/
theorem mergeInto_cons_eq_ok_iff {left rest fields : List (String × Descriptor)} {name : String}
    {d : Descriptor} :
    mergeInto left ((name, d) :: rest) = .ok fields ↔ ∃ merged,
      MergesFound (Bindings.get? left name) (some d) (some merged) ∧
        mergeInto (Bindings.setSorted left name merged) rest = .ok fields := by
  rw [mergeInto]
  cases Bindings.get? left name with
  | none =>
      simp only [mergesFound_none_left, Option.some.injEq]
      exact ⟨fun h => ⟨d, rfl, h⟩, fun ⟨_, heq, h⟩ => heq ▸ h⟩
  | some old =>
      simp only [mergesFound_some, Option.some.injEq]
      cases merge old d with
      | ok merged => simp
      | error c => simp

/-- Merging sorted fields succeeds exactly when it does under every name. -/
theorem mergeInto_eq_ok_iff {left right fields : List (String × Descriptor)}
    (hl : Bindings.Sorted left) (hr : Bindings.Sorted right) :
    mergeInto left right = .ok fields ↔ Bindings.Sorted fields ∧ ∀ name,
      MergesFound (Bindings.get? left name) (Bindings.get? right name)
        (Bindings.get? fields name) := by
  induction right generalizing left with
  | nil =>
      simp only [mergeInto, Except.ok.injEq, Bindings.get?, mergesFound_none_right]
      constructor
      · rintro rfl
        exact ⟨hl, fun _ => rfl⟩
      · rintro ⟨hf, h⟩
        exact hl.ext hf fun name => (h name).symm
  | cons field rest ih =>
      obtain ⟨key, d⟩ := field
      obtain ⟨-, hrest⟩ := Bindings.sorted_cons.mp hr
      -- Once the first field is merged in, the right has nothing more under its name.
      have hnone := hr.get?_rest_eq_none
      rw [mergeInto_cons_eq_ok_iff]
      constructor
      · rintro ⟨merged, hmerged, h⟩
        obtain ⟨hf, hfound⟩ := (ih (hl.setSorted key merged) hrest).mp h
        refine ⟨hf, fun name => ?_⟩
        have hname := hfound name
        rw [Bindings.get?_setSorted] at hname
        by_cases heq : key = name
        · subst heq
          rw [if_pos rfl, hnone, mergesFound_none_right] at hname
          rwa [Bindings.get?_cons, if_pos rfl, hname]
        · rw [if_neg (Ne.symm heq)] at hname
          rwa [Bindings.get?_cons, if_neg heq]
      · rintro ⟨hf, hfound⟩
        have hkeyed := hfound key
        rw [Bindings.get?_cons, if_pos rfl] at hkeyed
        obtain ⟨merged, hmerged⟩ := hkeyed.exists_result
        refine ⟨merged, hmerged ▸ hkeyed, (ih (hl.setSorted key merged) hrest).mpr ⟨hf, ?_⟩⟩
        intro name
        have hname := hfound name
        rw [Bindings.get?_cons] at hname
        rw [Bindings.get?_setSorted]
        by_cases heq : key = name
        · subst heq
          rw [if_pos rfl, hnone, mergesFound_none_right, hmerged]
        · rw [if_neg heq] at hname
          rwa [if_neg (Ne.symm heq)]

/-- Fields merge as soon as they do at every name. -/
theorem exists_mergeInto_eq_ok {left right : List (String × Descriptor)}
    (hr : Bindings.Sorted right)
    (h : ∀ name, ∃ result,
      MergesFound (Bindings.get? left name) (Bindings.get? right name) result) :
    ∃ fields, mergeInto left right = .ok fields := by
  induction right generalizing left with
  | nil => exact ⟨left, rfl⟩
  | cons field rest ih =>
      obtain ⟨key, d⟩ := field
      obtain ⟨-, hrest⟩ := Bindings.sorted_cons.mp hr
      obtain ⟨result, hresult⟩ := h key
      rw [Bindings.get?_cons, if_pos rfl] at hresult
      obtain ⟨merged, rfl⟩ := hresult.exists_result
      have hnext : ∀ name, ∃ result,
          MergesFound (Bindings.get? (Bindings.setSorted left key merged) name)
            (Bindings.get? rest name) result := by
        intro name
        rw [Bindings.get?_setSorted]
        by_cases heq : key = name
        · subst heq
          rw [if_pos rfl, hr.get?_rest_eq_none]
          exact ⟨_, .left _⟩
        · obtain ⟨found, hfound⟩ := h name
          rw [Bindings.get?_cons, if_neg heq] at hfound
          rw [if_neg (Ne.symm heq)]
          exact ⟨found, hfound⟩
      obtain ⟨fields, hfields⟩ := ih hrest hnext
      exact ⟨fields, mergeInto_cons_eq_ok_iff.mpr ⟨merged, hresult, hfields⟩⟩

/-! ## Normal forms -/

/-- What is found has a property if what was there has it, and if merging keeps it. -/
theorem MergesFound.keeps {p : Descriptor → Prop} {left right result : Option Descriptor}
    (h : MergesFound left right result) {c : Descriptor} (hc : result = some c)
    (hl : ∀ a, left = some a → p a) (hr : ∀ b, right = some b → p b)
    (hboth : ∀ a b, left = some a → right = some b → merge a b = .ok c → p c) : p c := by
  cases h with
  | left => exact hl c hc
  | right => exact hr c hc
  | both merged =>
      obtain rfl := Option.some.inj hc
      exact hboth _ _ rfl rfl merged

/-- A merge of normal descriptors is normal. -/
theorem Normal.merge {a b c : Descriptor} (ha : Normal a) (hb : Normal b)
    (h : merge a b = .ok c) : Normal c := by
  induction ha generalizing b c with
  | unknown =>
      rw [merge_unknown_left] at h
      exact Except.ok.inj h ▸ hb
  | primitive kind =>
      cases Merges.of_merge_eq h with
      | unknownRight => exact .primitive kind
      | emptyLeft => exact hb
      | primitive => exact hb
  | union increasing several flat parts _ =>
      cases Merges.of_merge_eq h with
      | unknownRight => exact .union increasing several flat parts
      | union _ right =>
          apply Normal.unionOf
          intro d hd
          rcases List.mem_append.mp hd with hleft | hright
          · exact parts d hleft
          · exact hb.of_mem_members hright
  | array part ih =>
      cases Merges.of_merge_eq h with
      | unknownRight => exact .array part
      | array merged => exact .array (ih hb.element merged)
  | object sorted parts ih =>
      cases Merges.of_merge_eq h with
      | unknownRight => exact .object sorted parts
      | emptyRight => exact .object sorted parts
      | object merged =>
          obtain ⟨hf, hfound⟩ := (mergeInto_eq_ok_iff sorted hb.sorted).mp merged
          refine normal_object_iff.mpr ⟨hf, fun name d hd => ?_⟩
          refine (hfound name).keeps hd (fun a ha => ?_) (fun b => hb.field) ?_
          · exact parts (name, a) (Bindings.mem_of_get?_eq_some ha)
          · intro a b ha hb' hmerge
            exact ih (name, a) (Bindings.mem_of_get?_eq_some ha) (hb.field hb') hmerge

/-! ## Idempotence and commutativity -/

/-- A normal descriptor merged with itself is itself. -/
theorem merge_self {a : Descriptor} (ha : Normal a) : merge a a = .ok a := by
  induction ha with
  | unknown => exact merge_unknown_left _
  | primitive kind => exact (Merges.primitive kind).merge_eq
  | @union ds increasing several flat parts _ =>
      have hd : Normal (union ds) := .union increasing several flat parts
      have hmem : sortedMembers (ds ++ ds) = sortedMembers ds :=
        sortedMembers_congr fun d => by rw [List.mem_append, or_self]
      calc
        merge (union ds) (union ds) = .ok (unionOf (ds ++ ds)) := (Merges.union ds ds).merge_eq
        _ = .ok (union (sortedMembers (ds ++ ds))) := by rw [unionOf_append_of_union hd hd]
        _ = .ok (union ds) := by rw [hmem, increasing.sortedMembers_eq]
  | array part ih => exact (Merges.array ih).merge_eq
  | @object fields sorted parts ih =>
      refine (Merges.object ((mergeInto_eq_ok_iff sorted sorted).mpr ⟨sorted, ?_⟩)).merge_eq
      intro name
      cases hd : Bindings.get? fields name with
      | none => exact .left none
      | some d => exact .both (ih (name, d) (Bindings.mem_of_get?_eq_some hd))

theorem MergesFound.swap {left right result : Option Descriptor}
    (h : MergesFound left right result)
    (hboth : ∀ a b c, left = some a → right = some b → Descriptor.merge a b = .ok c →
      Descriptor.merge b a = .ok c) : MergesFound right left result := by
  cases h with
  | left => exact .right _
  | right => exact .left _
  | both merged => exact .both (hboth _ _ _ rfl rfl merged)

/-- A merge that succeeds gives the same with its sides exchanged. -/
theorem merge_swap {a b c : Descriptor} (ha : Ordered a) (hb : Ordered b)
    (h : merge a b = .ok c) : merge b a = .ok c := by
  induction ha generalizing b c with
  | unknown =>
      rw [merge_unknown_left] at h
      rw [merge_unknown_right, h]
  | primitive kind =>
      cases Merges.of_merge_eq h with
      | unknownRight => exact merge_unknown_left _
      | emptyLeft fields => exact (Merges.emptyRight fields).merge_eq
      | primitive => exact h
  | @union ds =>
      cases Merges.of_merge_eq h with
      | unknownRight => exact merge_unknown_left _
      | union _ right =>
          have hcomm : unionOf (ds ++ right) = unionOf (right ++ ds) :=
            unionOf_congr fun d => by rw [List.mem_append, List.mem_append, or_comm]
          rw [hcomm]
          exact (Merges.union right ds).merge_eq
  | array part ih =>
      cases Merges.of_merge_eq h with
      | unknownRight => exact merge_unknown_left _
      | array merged => exact (Merges.array (ih hb.element merged)).merge_eq
  | object sorted parts ih =>
      cases Merges.of_merge_eq h with
      | unknownRight => exact merge_unknown_left _
      | emptyRight => exact (Merges.emptyLeft _).merge_eq
      | object merged =>
          obtain ⟨hf, hfound⟩ := (mergeInto_eq_ok_iff sorted hb.sorted).mp merged
          refine (Merges.object ((mergeInto_eq_ok_iff hb.sorted sorted).mpr ⟨hf, ?_⟩)).merge_eq
          refine fun name => (hfound name).swap fun a b c ha hb' hmerge => ?_
          exact ih (name, a) (Bindings.mem_of_get?_eq_some ha) (hb.field hb') hmerge

/-! ## Associativity -/

theorem MergesFound.unique {left right result other : Option Descriptor}
    (h : MergesFound left right result) (h' : MergesFound left right other) : result = other := by
  cases h with
  | left => exact (mergesFound_none_right.mp h').symm
  | right => exact (mergesFound_none_left.mp h').symm
  | both merged =>
      obtain ⟨c, hc, rfl⟩ := mergesFound_some.mp h'
      rw [merged] at hc
      exact congrArg some (Except.ok.inj hc)

/-- If types may be regrouped wherever all three sides have the name, so may the fields. -/
theorem MergesFound.regroup {x y z xy result : Option Descriptor}
    (hxy : MergesFound x y xy) (h : MergesFound xy z result)
    (hsome : ∀ a b c ab d, x = some a → y = some b → z = some c →
      Descriptor.merge a b = .ok ab → Descriptor.merge ab c = .ok d →
      ∃ bc, Descriptor.merge b c = .ok bc ∧ Descriptor.merge a bc = .ok d) :
    ∃ yz, MergesFound y z yz ∧ MergesFound x yz result := by
  cases hxy with
  | left => exact ⟨z, .right z, h⟩
  | right => exact ⟨result, h, .right result⟩
  | both merged =>
      cases h with
      | left => exact ⟨_, .left _, .both merged⟩
      | both merged' =>
          obtain ⟨bc, hbc, hd⟩ := hsome _ _ _ _ _ rfl rfl rfl merged merged'
          exact ⟨some bc, .both hbc, .both hd⟩

/-- With nothing known in the middle or on the right a merge may be regrouped. -/
theorem merge_regroup_of_unknown {a b c ab d : Descriptor} (h : b = unknown ∨ c = unknown)
    (hab : merge a b = .ok ab) (hd : merge ab c = .ok d) :
    ∃ bc, merge b c = .ok bc ∧ merge a bc = .ok d := by
  rcases h with rfl | rfl
  · rw [merge_unknown_right] at hab
    exact ⟨c, merge_unknown_left c, Except.ok.inj hab ▸ hd⟩
  · rw [merge_unknown_right] at hd
    exact ⟨b, merge_unknown_right b, Except.ok.inj hd ▸ hab⟩

/-- Objects whose fields may be regrouped at every name may be regrouped as a whole. -/
theorem mergeInto_regroup {as bs cs abs ds : List (String × Descriptor)}
    (ha : Bindings.Sorted as) (hb : Bindings.Sorted bs) (hc : Bindings.Sorted cs)
    (hab : mergeInto as bs = .ok abs) (hd : mergeInto abs cs = .ok ds)
    (hparts : ∀ name a b c ab d, Bindings.get? as name = some a →
      Bindings.get? bs name = some b → Bindings.get? cs name = some c →
      merge a b = .ok ab → merge ab c = .ok d → ∃ bc, merge b c = .ok bc ∧ merge a bc = .ok d) :
    ∃ bcs, mergeInto bs cs = .ok bcs ∧ mergeInto as bcs = .ok ds := by
  obtain ⟨hsab, hfab⟩ := (mergeInto_eq_ok_iff ha hb).mp hab
  obtain ⟨hsd, hfd⟩ := (mergeInto_eq_ok_iff hsab hc).mp hd
  have hnamed := fun name => (hfab name).regroup (hfd name) (hparts name)
  obtain ⟨bcs, hbc⟩ := exists_mergeInto_eq_ok hc fun name => (hnamed name).imp fun _ h => h.1
  obtain ⟨hsbc, hfbc⟩ := (mergeInto_eq_ok_iff hb hc).mp hbc
  refine ⟨bcs, hbc, (mergeInto_eq_ok_iff ha hsbc).mpr ⟨hsd, fun name => ?_⟩⟩
  obtain ⟨found, hfound, hresult⟩ := hnamed name
  rwa [(hfbc name).unique hfound]

/-- A union merged with the union of two others is the union of all three. -/
theorem merge_union_unionOf {as bs cs : List Descriptor} (hb : Normal (union bs))
    (hc : Normal (union cs)) :
    merge (union as) (unionOf (bs ++ cs)) = .ok (unionOf (sortedMembers (as ++ bs) ++ cs)) := by
  have hmem : unionOf (as ++ sortedMembers (bs ++ cs)) =
      unionOf (sortedMembers (as ++ bs) ++ cs) := by
    apply unionOf_congr
    intro e
    simp only [List.mem_append, mem_sortedMembers, or_assoc]
  calc
    merge (union as) (unionOf (bs ++ cs)) =
        merge (union as) (union (sortedMembers (bs ++ cs))) := by
      rw [unionOf_append_of_union hb hc]
    _ = .ok (unionOf (as ++ sortedMembers (bs ++ cs))) := (Merges.union as _).merge_eq
    _ = .ok (unionOf (sortedMembers (as ++ bs) ++ cs)) := by rw [hmem]

/-- What merges from the left merges from the right, and to the same descriptor. -/
theorem merge_regroup {a b c ab d : Descriptor} (ha : Normal a) (hb : Normal b) (hc : Normal c)
    (hab : merge a b = .ok ab) (hd : merge ab c = .ok d) :
    ∃ bc, merge b c = .ok bc ∧ merge a bc = .ok d := by
  induction ha generalizing b c ab d with
  | unknown =>
      rw [merge_unknown_left] at hab
      exact ⟨d, Except.ok.inj hab ▸ hd, merge_unknown_left d⟩
  | primitive kind =>
      cases Merges.of_merge_eq hab with
      | unknownRight => exact merge_regroup_of_unknown (.inl rfl) hab hd
      | primitive =>
          cases Merges.of_merge_eq hd with
          | unknownRight => exact merge_regroup_of_unknown (.inr rfl) hab hd
          | emptyLeft fields => exact ⟨_, hd, hd⟩
          | primitive => exact ⟨_, hd, hd⟩
      | emptyLeft fields =>
          cases Merges.of_merge_eq hd with
          | unknownRight => exact merge_regroup_of_unknown (.inr rfl) hab hd
          | emptyRight => exact ⟨_, hd, hab⟩
          | object merged => exact ⟨_, hd, (Merges.emptyLeft _).merge_eq⟩
  | @union as increasing several flat parts _ =>
      have has : Normal (union as) := .union increasing several flat parts
      cases Merges.of_merge_eq hab with
      | unknownRight => exact merge_regroup_of_unknown (.inl rfl) hab hd
      | union _ bs =>
          rw [unionOf_append_of_union has hb] at hd
          cases Merges.of_merge_eq hd with
          | unknownRight =>
              rw [← unionOf_append_of_union has hb]
              exact ⟨_, merge_unknown_right _, hab⟩
          | union _ cs =>
              exact ⟨_, (Merges.union bs cs).merge_eq, merge_union_unionOf hb hc⟩
  | array part ih =>
      cases Merges.of_merge_eq hab with
      | unknownRight => exact merge_regroup_of_unknown (.inl rfl) hab hd
      | array merged =>
          cases Merges.of_merge_eq hd with
          | unknownRight => exact merge_regroup_of_unknown (.inr rfl) hab hd
          | array merged' =>
              obtain ⟨bc, hbc, habc⟩ := ih hb.element hc.element merged merged'
              exact ⟨_, (Merges.array hbc).merge_eq, (Merges.array habc).merge_eq⟩
  | object sorted parts ih =>
      cases Merges.of_merge_eq hab with
      | unknownRight => exact merge_regroup_of_unknown (.inl rfl) hab hd
      | emptyRight =>
          cases Merges.of_merge_eq hd with
          | unknownRight => exact merge_regroup_of_unknown (.inr rfl) hab hd
          | emptyRight => exact ⟨_, (Merges.primitive _).merge_eq, hd⟩
          | object merged => exact ⟨_, (Merges.emptyLeft _).merge_eq, hd⟩
      | object merged =>
          cases Merges.of_merge_eq hd with
          | unknownRight => exact merge_regroup_of_unknown (.inr rfl) hab hd
          | emptyRight => exact ⟨_, (Merges.emptyRight _).merge_eq, hab⟩
          | object merged' =>
              obtain ⟨bcs, hbc, habc⟩ := mergeInto_regroup sorted hb.sorted hc.sorted merged merged'
                fun name a b c ab d hna hnb hnc hab hd =>
                  ih (name, a) (Bindings.mem_of_get?_eq_some hna) (hb.field hnb) (hc.field hnc)
                    hab hd
              exact ⟨_, (Merges.object hbc).merge_eq, (Merges.object habc).merge_eq⟩

/-- What merges from the right merges from the left, to the same. -/
theorem merge_regroup_right {a b c bc d : Descriptor} (ha : Normal a) (hb : Normal b)
    (hc : Normal c) (hbc : merge b c = .ok bc) (hd : merge a bc = .ok d) :
    ∃ ab, merge a b = .ok ab ∧ merge ab c = .ok d := by
  have hcb := merge_swap hb.ordered hc.ordered hbc
  have hd' := merge_swap ha.ordered (hb.merge hc hbc).ordered hd
  obtain ⟨ba, hba, hcba⟩ := merge_regroup hc hb ha hcb hd'
  exact ⟨ba, merge_swap hb.ordered ha.ordered hba,
    merge_swap hc.ordered (hb.merge ha hba).ordered hcba⟩

/-- Merging is associative, and defined on one side exactly when it is on the other. -/
theorem merge_assoc_iff {a b c : Descriptor} (ha : Normal a) (hb : Normal b) (hc : Normal c)
    (d : Descriptor) :
    (∃ ab, merge a b = .ok ab ∧ merge ab c = .ok d) ↔
      ∃ bc, merge b c = .ok bc ∧ merge a bc = .ok d := by
  constructor
  · rintro ⟨ab, hab, hd⟩
    exact merge_regroup ha hb hc hab hd
  · rintro ⟨bc, hbc, hd⟩
    exact merge_regroup_right ha hb hc hbc hd

/-- Fields, elements and members regroup at once. -/
theorem merge_assoc_iff_nested :
    ∃ bc,
      merge (object [("items", array (union [primitive .date, primitive .string])),
        ("owner", object [("id", primitive .integer)])]) (object [("owner", emptyObject)]) =
          .ok bc ∧
      merge (object [("items", array (union [primitive .boolean, primitive .string]))]) bc =
        .ok (object [("items", array
            (union [primitive .boolean, primitive .date, primitive .string])),
          ("owner", object [("id", primitive .integer)])]) :=
  (merge_assoc_iff (by decide) (by decide) (by decide) _).mp ⟨_, rfl, rfl⟩

end ShapeInference.Descriptor
