import Mathlib.Data.List.Perm.Basic
import ShapeInference.Proofs.Bindings
import ShapeInference.Proofs.Descriptor.Union

/-!
# Normal descriptors

A descriptor is normal when every union in it, however deep, has at least two members, none of them
unknown or a union, and when members and fields stand in order. The members of a normal descriptor
then say all about it, and unions of normal descriptors regroup freely.

Main statements: `Descriptor.Normal.unionOf`, `Descriptor.members_unionOf`,
`Descriptor.unionOf_append_left` and `Descriptor.unionOf_setUnion`.
-/

namespace ShapeInference.Descriptor

/-- Whether a descriptor may stand as a member of a union. -/
def isAlternative : Descriptor → Bool
  | unknown => false
  | union _ => false
  | _ => true

/-- Every union at every depth is flat, has at least two members and contains no unknown. Members
and fields increase strictly, as they do in the sets and maps that the lists stand for. -/
inductive Normal : Descriptor → Prop where
  | unknown : Normal unknown
  | primitive (kind : Primitive) : Normal (primitive kind)
  | union {ds : List Descriptor} (increasing : Increasing ds) (several : 2 ≤ ds.length)
      (flat : ∀ d ∈ ds, d.isAlternative = true) (parts : ∀ d ∈ ds, Normal d) : Normal (union ds)
  | array {d : Descriptor} (part : Normal d) : Normal (array d)
  | object {fields : List (String × Descriptor)} (sorted : Bindings.Sorted fields)
      (parts : ∀ field ∈ fields, Normal field.2) : Normal (object fields)

/-- At every depth members and fields increase strictly, as they do in the sets and maps that the
lists stand for. -/
inductive Ordered : Descriptor → Prop where
  | unknown : Ordered unknown
  | primitive (kind : Primitive) : Ordered (primitive kind)
  | union {ds : List Descriptor} (increasing : Increasing ds) (parts : ∀ d ∈ ds, Ordered d) :
      Ordered (union ds)
  | array {d : Descriptor} (part : Ordered d) : Ordered (array d)
  | object {fields : List (String × Descriptor)} (sorted : Bindings.Sorted fields)
      (parts : ∀ field ∈ fields, Ordered field.2) : Ordered (object fields)

theorem Ordered.field {fields : List (String × Descriptor)} (h : Ordered (.object fields))
    {name : String} {d : Descriptor} (hd : Bindings.get? fields name = some d) : Ordered d := by
  cases h with
  | object _ parts => exact parts (name, d) (Bindings.mem_of_get?_eq_some hd)

theorem Ordered.sorted {fields : List (String × Descriptor)} (h : Ordered (.object fields)) :
    Bindings.Sorted fields := by
  cases h with
  | object sorted _ => exact sorted

theorem Ordered.element {d : Descriptor} (h : Ordered (.array d)) : Ordered d := by
  cases h with
  | array part => exact part

theorem Normal.ordered {d : Descriptor} (h : Normal d) : Ordered d := by
  induction h with
  | unknown => exact .unknown
  | primitive kind => exact .primitive kind
  | union increasing _ _ _ ih => exact .union increasing ih
  | array _ ih => exact .array ih
  | object sorted _ ih => exact .object sorted ih

theorem Normal.field {fields : List (String × Descriptor)} (h : Normal (.object fields))
    {name : String} {d : Descriptor} (hd : Bindings.get? fields name = some d) : Normal d := by
  cases h with
  | object _ parts => exact parts (name, d) (Bindings.mem_of_get?_eq_some hd)

theorem Normal.sorted {fields : List (String × Descriptor)} (h : Normal (.object fields)) :
    Bindings.Sorted fields :=
  h.ordered.sorted

theorem Normal.element {d : Descriptor} (h : Normal (.array d)) : Normal d := by
  cases h with
  | array part => exact part

/-- An object is normal exactly if its fields are sorted and normal. -/
theorem normal_object_iff {fields : List (String × Descriptor)} :
    Normal (object fields) ↔
      Bindings.Sorted fields ∧ ∀ name d, Bindings.get? fields name = some d → Normal d := by
  constructor
  · exact fun h => ⟨h.sorted, fun _ _ hd => h.field hd⟩
  · rintro ⟨hsorted, hparts⟩
    refine Normal.object hsorted fun field hfield => ?_
    exact hparts field.1 field.2 (Bindings.get?_eq_some_of_mem hsorted.nodup hfield)

/-! ## A test for normal descriptors -/

mutual

/-- Whether a descriptor is normal. -/
def isNormal : Descriptor → Bool
  | unknown => true
  | primitive _ => true
  | union ds =>
    decide (Increasing ds) && decide (2 ≤ ds.length) && ds.all isAlternative && areNormal ds
  | array d => isNormal d
  | object fields => decide (Bindings.Sorted fields) && areNormalFields fields

/-- Whether descriptors are normal. -/
def areNormal : List Descriptor → Bool
  | [] => true
  | d :: rest => isNormal d && areNormal rest

/-- Whether the types of fields are normal. -/
def areNormalFields : List (String × Descriptor) → Bool
  | [] => true
  | (_, d) :: rest => isNormal d && areNormalFields rest

end

mutual

theorem isNormal_iff : ∀ {d : Descriptor}, d.isNormal = true ↔ Normal d
  | unknown => iff_of_true rfl .unknown
  | primitive kind => iff_of_true rfl (.primitive kind)
  | union ds => by
    simp only [isNormal, Bool.and_eq_true, decide_eq_true_eq, List.all_eq_true, areNormal_iff]
    constructor
    · rintro ⟨⟨⟨increasing, several⟩, flat⟩, parts⟩
      exact .union increasing several flat parts
    · rintro ⟨⟩
      refine ⟨⟨⟨?_, ?_⟩, ?_⟩, ?_⟩ <;> assumption
  | array d => by
    rw [isNormal, isNormal_iff]
    exact ⟨.array, Normal.element⟩
  | object fields => by
    simp only [isNormal, Bool.and_eq_true, decide_eq_true_eq, areNormalFields_iff]
    constructor
    · rintro ⟨sorted, parts⟩
      exact .object sorted parts
    · rintro ⟨⟩
      constructor <;> assumption

theorem areNormal_iff : ∀ {ds : List Descriptor}, areNormal ds = true ↔ ∀ d ∈ ds, Normal d
  | [] => by simp [areNormal]
  | d :: rest => by
    rw [areNormal, Bool.and_eq_true, isNormal_iff, areNormal_iff, List.forall_mem_cons]

theorem areNormalFields_iff :
    ∀ {fields : List (String × Descriptor)},
      areNormalFields fields = true ↔ ∀ field ∈ fields, Normal field.2
  | [] => by simp [areNormalFields]
  | (name, d) :: rest => by
    rw [areNormalFields, Bool.and_eq_true, isNormal_iff, areNormalFields_iff,
      List.forall_mem_cons]

end

instance : DecidablePred Normal := fun _ => decidable_of_iff _ isNormal_iff

/-! ## Members -/

theorem members_of_isAlternative {d : Descriptor} (h : d.isAlternative = true) :
    d.members = [d] := by
  cases d <;> first | rfl | contradiction

/-- Alternatives are their own members. -/
theorem flatMap_members_of_isAlternative {ds : List Descriptor}
    (h : ∀ d ∈ ds, d.isAlternative = true) : ds.flatMap members = ds := by
  induction ds with
  | nil => rfl
  | cons d rest ih =>
      rw [List.flatMap_cons, members_of_isAlternative (h d List.mem_cons_self),
        ih fun e he => h e (List.mem_cons_of_mem _ he), List.singleton_append]

/-- The members of a normal descriptor that is known are alternatives. -/
theorem Normal.isAlternative_of_mem {d e : Descriptor} (h : Normal d) (hd : d ≠ .unknown)
    (he : e ∈ d.members) : e.isAlternative = true := by
  cases h with
  | unknown => contradiction
  | primitive _ => rw [List.mem_singleton.mp he]; rfl
  | union _ _ flat _ => exact flat e he
  | array _ => rw [List.mem_singleton.mp he]; rfl
  | object _ _ => rw [List.mem_singleton.mp he]; rfl

theorem Normal.of_mem_members {d e : Descriptor} (h : Normal d) (he : e ∈ d.members) :
    Normal e := by
  cases h with
  | unknown => rw [List.mem_singleton.mp he]; exact .unknown
  | primitive kind => rw [List.mem_singleton.mp he]; exact .primitive kind
  | union _ _ _ parts => exact parts e he
  | array part => rw [List.mem_singleton.mp he]; exact .array part
  | object sorted parts => rw [List.mem_singleton.mp he]; exact .object sorted parts

/-- The members of a normal descriptor are in order, each once. -/
theorem Normal.increasing_members {d : Descriptor} (h : Normal d) : Increasing d.members := by
  cases h with
  | union increasing _ _ _ => exact increasing
  | _ => exact List.pairwise_singleton _ _

theorem Normal.members_ne_nil {d : Descriptor} (h : Normal d) : d.members ≠ [] := by
  cases h with
  | union _ several _ _ =>
      rintro rfl
      contradiction
  | _ => exact List.cons_ne_nil _ _

theorem ofMembers_of_two_le {ds : List Descriptor} (h : 2 ≤ ds.length) :
    ofMembers ds = union ds := by
  match ds, h with
  | _ :: _ :: _, _ => rfl

/-- A normal descriptor is built from its members. -/
theorem Normal.ofMembers_members {d : Descriptor} (h : Normal d) : ofMembers d.members = d := by
  cases h with
  | union _ several _ _ => exact ofMembers_of_two_le several
  | _ => rfl

/-- A normal descriptor is its only member, or else the union of its members. -/
theorem Normal.eq_member_or_union {d : Descriptor} (h : Normal d) :
    d.members = [d] ∨ 2 ≤ d.members.length ∧ d = .union d.members := by
  cases h with
  | union _ several _ _ => exact .inr ⟨several, rfl⟩
  | _ => exact .inl rfl

/-- What is built from alternatives has them as its members. -/
theorem members_ofMembers {ds : List Descriptor} (hne : ds ≠ [])
    (h : ∀ d ∈ ds, d.isAlternative = true) : (ofMembers ds).members = ds := by
  match ds, hne with
  | [d], _ => exact members_of_isAlternative (h d List.mem_cons_self)
  | _ :: _ :: _, _ => rfl

/-- What is built from normal alternatives in order is normal. -/
theorem normal_ofMembers {ds : List Descriptor} (increasing : Increasing ds)
    (flat : ∀ d ∈ ds, d.isAlternative = true) (parts : ∀ d ∈ ds, Normal d) :
    Normal (ofMembers ds) := by
  match ds with
  | [] => exact .unknown
  | [d] => exact parts d List.mem_cons_self
  | d :: e :: rest => exact .union increasing (by simp) flat parts

/-! ## Unions of normal descriptors -/

section

variable {ds : List Descriptor} (normal : ∀ d ∈ ds, Normal d)

include normal

theorem isAlternative_of_mem_flatMap (hu : unknown ∉ ds) :
    ∀ e ∈ ds.flatMap members, e.isAlternative = true := by
  intro e he
  obtain ⟨d, hd, hed⟩ := List.mem_flatMap.mp he
  have hne : d ≠ unknown := by
    rintro rfl
    exact hu hd
  exact (normal d hd).isAlternative_of_mem hne hed

/-- The members of a union are those of its parts. -/
theorem members_unionOf (hne : ds ≠ []) (hu : unknown ∉ ds) :
    (unionOf ds).members = sortedMembers (ds.flatMap members) := by
  rw [unionOf_of_unknown_not_mem hu]
  refine members_ofMembers ?_ fun e he =>
    isAlternative_of_mem_flatMap normal hu e (mem_sortedMembers.mp he)
  obtain ⟨d, hd⟩ := List.exists_mem_of_ne_nil ds hne
  obtain ⟨e, he⟩ := List.exists_mem_of_ne_nil _ (normal d hd).members_ne_nil
  exact List.ne_nil_of_mem (mem_sortedMembers.mpr (List.mem_flatMap.mpr ⟨d, hd, he⟩))

/-- A union of normal descriptors is normal. -/
theorem Normal.unionOf : Normal (unionOf ds) := by
  by_cases hu : Descriptor.unknown ∈ ds
  · rw [unionOf_of_unknown_mem hu]
    exact .unknown
  · rw [unionOf_of_unknown_not_mem hu]
    refine normal_ofMembers (increasing_sortedMembers _) ?_ ?_
    · intro e he
      exact isAlternative_of_mem_flatMap normal hu e (mem_sortedMembers.mp he)
    · intro e he
      obtain ⟨d, hd, hed⟩ := List.mem_flatMap.mp (mem_sortedMembers.mp he)
      exact (normal d hd).of_mem_members hed

/-- Nothing is known of a choice exactly when nothing is known of one of its parts. -/
theorem unionOf_eq_unknown_iff (hne : ds ≠ []) : unionOf ds = unknown ↔ unknown ∈ ds := by
  refine ⟨fun h => ?_, unionOf_of_unknown_mem⟩
  by_contra hu
  have hmem : unknown ∈ sortedMembers (ds.flatMap members) := by
    rw [← members_unionOf normal hne hu, h]
    exact List.mem_singleton_self _
  have := isAlternative_of_mem_flatMap normal hu unknown (mem_sortedMembers.mp hmem)
  contradiction

/-- A union among the parts of a union may be replaced by its own parts. -/
theorem unionOf_append_left (hne : ds ≠ []) (es : List Descriptor) :
    Descriptor.unionOf (Descriptor.unionOf ds :: es) = Descriptor.unionOf (ds ++ es) := by
  by_cases hds : unknown ∈ ds
  · rw [unionOf_of_unknown_mem hds, unionOf_of_unknown_mem List.mem_cons_self,
      unionOf_of_unknown_mem (List.mem_append_left _ hds)]
  by_cases hes : unknown ∈ es
  · rw [unionOf_of_unknown_mem (List.mem_cons_of_mem _ hes),
      unionOf_of_unknown_mem (List.mem_append_right _ hes)]
  have hhead : unknown ≠ unionOf ds := fun h =>
    hds ((unionOf_eq_unknown_iff normal hne).mp h.symm)
  have hcons : unknown ∉ unionOf ds :: es := List.not_mem_cons_of_ne_of_not_mem hhead hes
  have happend : unknown ∉ ds ++ es := fun h => (List.mem_append.mp h).elim hds hes
  have hmem : ∀ e, e ∈ (Descriptor.unionOf ds :: es).flatMap members ↔
      e ∈ (ds ++ es).flatMap members := by
    intro e
    rw [List.flatMap_cons, members_unionOf normal hne hds, List.flatMap_append, List.mem_append,
      List.mem_append, mem_sortedMembers]
  calc
    Descriptor.unionOf (Descriptor.unionOf ds :: es) =
        ofMembers (sortedMembers ((Descriptor.unionOf ds :: es).flatMap members)) :=
      unionOf_of_unknown_not_mem hcons
    _ = ofMembers (sortedMembers ((ds ++ es).flatMap members)) := by rw [sortedMembers_congr hmem]
    _ = Descriptor.unionOf (ds ++ es) := (unionOf_of_unknown_not_mem happend).symm

end

theorem Normal.unionOf_pair {a b : Descriptor} (ha : Normal a) (hb : Normal b) :
    Normal (Descriptor.unionOf [a, b]) :=
  .unionOf (List.forall_mem_cons.mpr ⟨ha, List.forall_mem_singleton.mpr hb⟩)

theorem unionOf_singleton {d : Descriptor} (h : Normal d) : unionOf [d] = d := by
  by_cases hd : d = unknown
  · subst hd
    rfl
  · rw [unionOf_of_unknown_not_mem (by simpa using Ne.symm hd), List.flatMap_singleton,
      h.increasing_members.sortedMembers_eq, h.ofMembers_members]

/-- A normal union is the union of its members. -/
theorem unionOf_of_normal {ds : List Descriptor} (h : Normal (union ds)) :
    unionOf ds = union ds := by
  cases h with
  | union increasing several flat _ =>
  have hu : unknown ∉ ds := fun hmem => by
    have := flat unknown hmem
    contradiction
  rw [unionOf_of_unknown_not_mem hu, flatMap_members_of_isAlternative flat,
    increasing.sortedMembers_eq, ofMembers_of_two_le several]

/-- The union of two unions has the members of both. -/
theorem unionOf_append_of_union {as bs : List Descriptor} (ha : Normal (union as))
    (hb : Normal (union bs)) : unionOf (as ++ bs) = union (sortedMembers (as ++ bs)) := by
  cases ha with
  | union increasing several flatLeft _ =>
  cases hb with
  | union _ _ flatRight _ =>
  have hflat : ∀ d ∈ as ++ bs, d.isAlternative = true := fun d hd =>
    (List.mem_append.mp hd).elim (flatLeft d) (flatRight d)
  have hu : unknown ∉ as ++ bs := fun hmem => by
    have := hflat unknown hmem
    contradiction
  have hlen : as.length ≤ (sortedMembers (as ++ bs)).length := by
    refine (List.subperm_of_subset increasing.nodup ?_).length_le
    exact fun d hd => mem_sortedMembers.mpr (List.mem_append_left _ hd)
  rw [unionOf_of_unknown_not_mem hu, flatMap_members_of_isAlternative hflat]
  exact ofMembers_of_two_le (several.trans hlen)

/-- Unions regroup freely. -/
theorem unionOf_pair_unionOf {ds es : List Descriptor} (normal : ∀ d ∈ ds, Normal d)
    (normal' : ∀ e ∈ es, Normal e) (hne : ds ≠ []) (hne' : es ≠ []) :
    unionOf [unionOf ds, unionOf es] = unionOf (ds ++ es) :=
  calc
    unionOf [unionOf ds, unionOf es] = unionOf (ds ++ [unionOf es]) :=
      unionOf_append_left normal hne _
    _ = unionOf (unionOf es :: ds) := unionOf_congr fun _ => List.perm_append_comm.mem_iff
    _ = unionOf (es ++ ds) := unionOf_append_left normal' hne' _
    _ = unionOf (ds ++ es) := unionOf_congr fun _ => List.perm_append_comm.mem_iff

/-- The union of normal descriptors is the union of their sets of members, with an unknown
swallowing the others and a lone member standing for itself. So neither the order nor the
repetition of the descriptors matters, nor how they are grouped. -/
theorem unionOf_setUnion {ds : List Descriptor} (normal : ∀ d ∈ ds, Normal d) (hne : ds ≠ []) :
    (unionOf ds = unknown ↔ unknown ∈ ds) ∧
      (unknown ∉ ds → ∃ ms, (unionOf ds).members = ms ∧ Increasing ms ∧
        (∀ m, m ∈ ms ↔ ∃ d ∈ ds, m ∈ d.members) ∧
        (ms = [unionOf ds] ∨ 2 ≤ ms.length ∧ unionOf ds = union ms)) ∧
      (∀ es, (∀ d, d ∈ es ↔ d ∈ ds) → unionOf es = unionOf ds) ∧
      ∀ es, (∀ e ∈ es, Normal e) → es ≠ [] →
        unionOf [unionOf ds, unionOf es] = unionOf (ds ++ es) := by
  refine ⟨unionOf_eq_unknown_iff normal hne, fun hu => ?_, fun es hes => unionOf_congr hes,
    fun es normal' hne' => unionOf_pair_unionOf normal normal' hne hne'⟩
  have hnormal : Normal (unionOf ds) := .unionOf normal
  refine ⟨_, rfl, hnormal.increasing_members, fun m => ?_, hnormal.eq_member_or_union⟩
  rw [members_unionOf normal hne hu, mem_sortedMembers, List.mem_flatMap]

/-- A union beside one of its members, and an array of it. -/
theorem unionOf_setUnion_of_nested :
    let nested : Descriptor := .union [.primitive .integer, .primitive .string]
    let ds : List Descriptor := [.primitive .string, .array nested, nested]
    (∀ d ∈ ds, Normal d) ∧ ds ≠ [] ∧ unionOf ds ≠ unknown ∧
      (∀ m, m ∈ (unionOf ds).members ↔
        m = .primitive .integer ∨ m = .primitive .string ∨ m = .array nested) ∧
      unionOf ds.reverse = unionOf ds ∧
      unionOf [unionOf ds, unionOf [nested]] = unionOf (ds ++ [nested]) := by
  intro nested ds
  have normal : ∀ d ∈ ds, Normal d := areNormal_iff.mp (by decide +kernel)
  have hnested : Normal nested := normal nested (by simp [ds])
  have hne : ds ≠ [] := List.cons_ne_nil _ _
  have hu : unknown ∉ ds := by simp [ds, nested]
  obtain ⟨hunknown, hmembers, horder, hgroups⟩ := unionOf_setUnion normal hne
  obtain ⟨_, rfl, -, hmem, -⟩ := hmembers hu
  refine ⟨normal, hne, mt hunknown.mp hu, fun m => ?_, horder _ fun _ => List.mem_reverse,
    hgroups [nested] (List.forall_mem_singleton.mpr hnested) (List.cons_ne_nil _ _)⟩
  rw [hmem]
  simp only [ds, nested, members, List.mem_cons, List.not_mem_nil, or_false, exists_eq_or_imp,
    exists_eq_left]
  tauto

/-! ## Objects of normal fields -/

theorem Normal.ofFields {fields : List (String × Descriptor)}
    (h : ∀ field ∈ fields, Normal field.2) : Normal (ofFields fields) := by
  refine normal_object_iff.mpr ⟨Bindings.sorted_sortedOfPairs fields, fun name d hd => ?_⟩
  rw [Bindings.get?_sortedOfPairs] at hd
  exact h (name, d) (List.mem_reverse.mp (Bindings.mem_of_get?_eq_some hd))

end ShapeInference.Descriptor
