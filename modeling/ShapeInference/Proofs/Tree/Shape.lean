import ShapeInference.Proofs.Descriptor.Join
import ShapeInference.Proofs.Tree.Disagreement
import ShapeInference.Proofs.Tree.Normal

/-!
# Shapes in the types of nodes

Where entries go on from a place, the type there has the shape that they need, whatever is declared
of the place itself: what the place's own entries say either merges into the shape or is a defect.
The types of a field left out stand beside the shape, and nothing else does.

Main statements: `Node.isShapeOr_of_array`, `Node.isShapeOr_of_object` and
`Tree.isSome_child?_iff`.
-/

namespace ShapeInference

/-! ## Shapes beside a field left out -/

namespace Descriptor

/-- Whether a descriptor is an array or an object with fields. -/
def isShaped : Descriptor → Bool
  | array _ => true
  | object _ => true
  | _ => false

/-- A descriptor is a shape as it is, where nothing stands for a field left out, and otherwise the
union of exactly the shape and what stands for a field left out. -/
def IsShapeOr (d shape : Descriptor) (absent : Option Descriptor) : Prop :=
  match absent with
  | none => d = shape
  | some absent => ∃ ds, d = union ds ∧ Increasing ds ∧
      ∀ member, member ∈ ds ↔ member = shape ∨ member ∈ absent.members

/-- What merges with an array merges to an array. -/
theorem exists_array_of_merge {c element d : Descriptor} (h : c.merge (array element) = .ok d) :
    ∃ merged, d = array merged := by
  cases Merges.of_merge_eq h with
  | unknownLeft => exact ⟨_, rfl⟩
  | array merged => exact ⟨_, rfl⟩

/-- What merges with an object merges to an object with at least its names. -/
theorem exists_object_of_merge {c d : Descriptor} {fields : List (String × Descriptor)}
    (hc : c.Normal) (hfields : (object fields).Normal) (h : c.merge (object fields) = .ok d) :
    ∃ merged, d = object merged ∧ ∀ name other, Bindings.get? fields name = some other →
      ∃ more, Bindings.get? merged name = some more := by
  have hbelow : Below (object fields) d := below_of_merge_right hc hfields h
  obtain ⟨merged, hd, hall⟩ := (below_object_iff hfields.sorted (hc.merge hfields h)).mp hbelow
  refine ⟨merged, hd, ?_⟩
  intro name other hother
  obtain ⟨more, hmore, -⟩ := hall name other hother
  exact ⟨more, hmore⟩

/-- Only literals stand for a field left out, so that a shape is one alternative more. -/
theorem isShapeOr_unionOf {shape absent : Descriptor} (hshaped : shape.isShaped = true)
    (habsent : absent.Normal) (hliterals : ∀ member ∈ absent.members, ∃ value,
      member = .literal value) : (unionOf [shape, absent]).IsShapeOr shape (some absent) := by
  have halternative : shape.isAlternative = true := by
    cases shape <;> first | rfl | contradiction
  have hunknown : unknown ∉ [shape, absent] := by
    rw [List.mem_pair, not_or]
    constructor <;> rintro rfl
    · contradiction
    · obtain ⟨value, hvalue⟩ := hliterals unknown (List.mem_singleton_self _)
      contradiction
  have hmem : ∀ member, member ∈ sortedMembers ([shape, absent].flatMap members) ↔
      member = shape ∨ member ∈ absent.members := by
    intro member
    simp [mem_sortedMembers, members_of_isAlternative halternative]
  have hseveral : 2 ≤ (sortedMembers ([shape, absent].flatMap members)).length := by
    obtain ⟨member, hmember⟩ := List.exists_mem_of_ne_nil _ habsent.members_ne_nil
    have hne : shape ≠ member := by
      obtain ⟨value, rfl⟩ := hliterals member hmember
      rintro rfl
      contradiction
    have hpair : [shape, member] ⊆ sortedMembers ([shape, absent].flatMap members) :=
      List.cons_subset.mpr ⟨(hmem shape).mpr (.inl rfl),
        List.cons_subset.mpr ⟨(hmem member).mpr (.inr hmember), List.nil_subset _⟩⟩
    exact (List.subperm_of_subset (List.pairwise_pair.mpr hne) hpair).length_le
  refine ⟨_, ?_, increasing_sortedMembers _, hmem⟩
  rw [unionOf_of_unknown_not_mem hunknown, ofMembers_of_two_le hseveral]

end Descriptor

/-! ## One node -/

theorem Account.merge_of_defects_eq_nil {account : Account} {location : List String}
    {said : Sourced} (h : (account.add location said).defects = []) :
    account.type.merge said.type = .ok (account.add location said).type := by
  obtain ⟨_, ⟨rfl, -⟩, hmerge⟩ := settles_add.mp ⟨rfl, h⟩
  exact hmerge

namespace Node

/-- Only literals stand for a field left out at a node. -/
def AbsentLiterals (node : Node) : Prop :=
  ∀ absent, node.absentType? = some absent →
    ∀ member ∈ absent.members, ∃ value, member = .literal value

/-- A node whose account has a shape concludes to the shape, or to it and the absence. -/
theorem isShapeOr_conclude {node : Node} (h : node.Normal) (hliterals : node.AbsentLiterals)
    {account : Account} (hshaped : account.type.isShaped = true) :
    (node.conclude account).1.IsShapeOr account.type node.absentType? := by
  rw [conclude]
  cases habsent : node.absentType? with
  | none => rfl
  | some absent =>
      exact Descriptor.isShapeOr_unionOf hshaped (h.declared.absent absent habsent)
        (hliterals absent habsent)

/-- A node without defects adds its shape to what its own entries say. -/
theorem merge_of_defects_eq_nil {node : Node} {location : List String} {defects : List Defect}
    {shape : Sourced} (h : (node.conclude
      (((node.account location).addDefects defects).add location shape)).2 = []) :
    (node.account location).type.merge shape.type =
      .ok (((node.account location).addDefects defects).add location shape).type := by
  rw [defects_conclude] at h
  exact Account.merge_of_defects_eq_nil h

variable {declared : Declared} {origin : String} {location : List String}

/-- A node that paths go through the elements of is an array. -/
theorem isShapeOr_of_array {element : Node} (h : (array declared origin element).Normal)
    (hliterals : (array declared origin element).AbsentLiterals)
    (hdefects : ((array declared origin element).reconcile location).2 = []) :
    ∃ type, ((array declared origin element).reconcile location).1.IsShapeOr (.array type)
      declared.absent := by
  rw [reconcile] at hdefects ⊢
  obtain ⟨type, htype⟩ := Descriptor.exists_array_of_merge (merge_of_defects_eq_nil hdefects)
  have hor := isShapeOr_conclude h hliterals (by rw [htype]; rfl)
  rw [htype] at hor
  exact ⟨type, hor⟩

/-- Each child of a node has a field in what it reconciles to. -/
theorem exists_field_of_child {fields : List (String × Node)} {name : String} {child : Node}
    (hchild : Bindings.get? fields name = some child) :
    ∃ type, Bindings.get? (Bindings.sortedOfPairs (reconcileFields location fields).1) name =
      some type := by
  have hname : name ∈ Bindings.names fields :=
    Bindings.isSome_get?_iff.mp (Option.isSome_of_eq_some hchild)
  rw [Bindings.get?_sortedOfPairs, ← Option.isSome_iff_exists, Bindings.isSome_get?_iff,
    reconcileFields_eq, Bindings.names, List.map_reverse, List.mem_reverse, List.map_map]
  exact hname

/-- A node that paths go through the fields of is an object with these fields. -/
theorem isShapeOr_of_object {fields : List (String × Node)}
    (h : (object declared origin fields).Normal)
    (hliterals : (object declared origin fields).AbsentLiterals)
    (hdefects : ((object declared origin fields).reconcile location).2 = []) :
    ∃ types, (∀ name child, Bindings.get? fields name = some child →
        ∃ type, Bindings.get? types name = some type) ∧
      ((object declared origin fields).reconcile location).1.IsShapeOr (.object types)
        declared.absent := by
  have hparts : (Descriptor.ofFields (reconcileFields location fields).1).Normal := by
    cases h with
    | object own parts =>
        exact .ofFields (normal_of_mem_reconcileFields fun field hfield =>
          (parts field hfield).reconcile)
  rw [reconcile] at hdefects ⊢
  obtain ⟨types, htypes, hfields⟩ := Descriptor.exists_object_of_merge (h.account location) hparts
    (merge_of_defects_eq_nil hdefects)
  have hor := isShapeOr_conclude h hliterals (by rw [htypes]; rfl)
  rw [htypes] at hor
  refine ⟨types, ?_, hor⟩
  intro name child hchild
  obtain ⟨type, htype⟩ := exists_field_of_child hchild
  exact hfields name type htype

/-- Declarations let a field be left out only in favour of literals. -/
theorem Holds.absentLiterals {rules : Rulebook} {schema : Schema} {path : Path} {node : Node}
    (h : node.Holds rules schema path) : node.AbsentLiterals := by
  intro absent habsent member hmember
  have hproper : ∀ held ∈ node.entries, held.type.Proper := by
    intro held hheld
    obtain ⟨entry, -, -, -, htype⟩ := exists_mem_of_forall₂ h.entries hheld
    exact Rulebook.proper_fieldType htype
  have hall : ∀ d ∈ node.entries.filterMap fun held => held.type.absent,
      d.Normal ∧ ∀ part ∈ d.members, ∃ value, part = .literal value := by
    intro d hd
    obtain ⟨held, hheld, hd⟩ := List.mem_filterMap.mp hd
    exact ⟨(hproper held hheld).normal.absent d hd, (hproper held hheld).literals d hd⟩
  rw [h.absent] at habsent
  generalize node.entries.filterMap (fun held => held.type.absent) = ds at hall habsent
  cases ds with
  | nil => contradiction
  | cons d rest =>
      obtain rfl := Option.some.inj habsent
      have hunknown : Descriptor.unknown ∉ d :: rest := by
        intro hmem
        obtain ⟨value, hvalue⟩ := (hall _ hmem).2 _ (List.mem_singleton_self Descriptor.unknown)
        contradiction
      rw [Descriptor.members_unionOf (fun d hd => (hall d hd).1) (List.cons_ne_nil _ _) hunknown,
        Descriptor.mem_sortedMembers] at hmember
      obtain ⟨part, hpart, hmember⟩ := List.mem_flatMap.mp hmember
      exact (hall part hpart).2 member hmember

end Node

namespace Tree

variable {rules : Rulebook} {entries : List (String × Declaration)} {path : Path} {node : Node}

/-- There is a node one step further just where an accepted entry goes on with that step. -/
theorem isSome_child?_iff (h : (empty.grow rules entries).at? path = some node) (step : Segment) :
    (node.child? step).isSome = true ↔
      Schema.goesOn (empty.accepted rules entries) path.segments step = true := by
  obtain ⟨members, hmembers, hgathers⟩ := gathers_accepted rules entries
  have hat := at?_of_gathers hgathers path
  rw [h] at hat
  rw [(hat.2.child? step).isSome_iff, ne_eq, Group.after_eq_nil_iff, not_not,
    Schema.goesOn_iff_mem_firsts hmembers]

/-- Let any entries be tried, in any order, and let a node of the tree be reconciled without a
defect. If the path of an accepted entry goes on from its place to each element, then the type is an
array, and if one goes on to a field, an object with all fields that accepted entries go on to. If
its own entries let the field be left out, the type is the union of exactly that shape and of what
stands for the field left out. -/
theorem isShapeOr_of_goesOn (rules : Rulebook) (entries : List (String × Declaration))
    {path : Path} {node : Node}
    (hnode : (Growth.ofEntries rules entries).tree.at? path = some node) {location : List String}
    (hdefects : (node.reconcile location).2 = []) :
    let accepted : Schema := empty.accepted rules entries
    let type := (node.reconcile location).1
    (accepted.goesOn path.segments .each = true →
      ∃ element, type.IsShapeOr (.array element) node.absentType?) ∧
    ((∃ name, accepted.goesOn path.segments (.key name) = true) →
      ∃ fields, (∀ name, accepted.goesOn path.segments (.key name) = true →
          ∃ d, Bindings.get? fields name = some d) ∧
        type.IsShapeOr (.object fields) node.absentType?) := by
  intro accepted type
  rw [Growth.tree_ofEntries] at hnode
  have hnormal : node.Normal := (normal_empty.grow rules entries).at? hnode
  have hliterals : node.AbsentLiterals := (holds_of_at? hnode).absentLiterals
  have hchild : ∀ step, (node.child? step).isSome = true ↔
      accepted.goesOn path.segments step = true := isSome_child?_iff hnode
  constructor
  · intro heach
    have hsome := (hchild .each).mpr heach
    cases node with
    | array declared origin element => exact Node.isShapeOr_of_array hnormal hliterals hdefects
    | plain declared => contradiction
    | object declared origin fields => contradiction
  · rintro ⟨name, hname⟩
    have hsome := (hchild (.key name)).mpr hname
    cases node with
    | object declared origin fields =>
        obtain ⟨types, htypes, hor⟩ := Node.isShapeOr_of_object hnormal hliterals hdefects
        refine ⟨types, ?_, hor⟩
        intro other hother
        obtain ⟨child, hfound⟩ := Option.isSome_iff_exists.mp ((hchild (.key other)).mpr hother)
        exact htypes other child hfound
    | plain declared => contradiction
    | array declared origin element => contradiction

/-- Both fields may be left out, and the third entry is stopped. The field in the other comes first,
and its elements before itself. -/
theorem isShapeOr_of_goesOn_nested :
    ∃ entries outer inner,
      entries = [("owner.tags.*", .ofList [("isString", .bool true)]),
        ("owner.tags", .ofList [("isArray", .bool true),
          ("optional", .object [("options", .object [("nullable", .bool true)])])]),
        ("owner.*", .ofList [("isString", .bool true)]),
        ("owner", .ofList [("isObject", .bool true), ("optional", .bool true)])] ∧
      (empty.accepted .builtin entries).map Prod.fst = ["owner.tags.*", "owner.tags", "owner"] ∧
      (Growth.ofEntries .builtin entries).tree.at? ⟨"owner", []⟩ = some outer ∧
      (Growth.ofEntries .builtin entries).tree.at? ⟨"owner", [.key "tags"]⟩ = some inner ∧
      (outer.reconcile ["owner"]).2 = [] ∧ (inner.reconcile ["owner", "tags"]).2 = [] ∧
      (∃ fields, (∃ d, Bindings.get? fields "tags" = some d) ∧
        (outer.reconcile ["owner"]).1.IsShapeOr (.object fields) (some Absence.undefined.type)) ∧
      ∃ element, (inner.reconcile ["owner", "tags"]).1.IsShapeOr (.array element)
        (some Absence.nullish.type) := by
  obtain ⟨entries, hentries⟩ : ∃ entries : List (String × Declaration),
      entries = [("owner.tags.*", .ofList [("isString", .bool true)]),
        ("owner.tags", .ofList [("isArray", .bool true),
          ("optional", .object [("options", .object [("nullable", .bool true)])])]),
        ("owner.*", .ofList [("isString", .bool true)]),
        ("owner", .ofList [("isObject", .bool true), ("optional", .bool true)])] :=
    ⟨_, rfl⟩
  have haccepted :
      (empty.accepted .builtin entries).map Prod.fst = ["owner.tags.*", "owner.tags", "owner"] := by
    rw [hentries]
    decide +kernel
  -- What is known of the two nodes, read off at once.
  have houter : ((Growth.ofEntries .builtin entries).tree.at? ⟨"owner", []⟩).map
      (fun node => (node.absentType?, (node.reconcile ["owner"]).2.length)) =
        some (some Absence.undefined.type, 0) := by
    rw [hentries]
    decide +kernel
  have hinner : ((Growth.ofEntries .builtin entries).tree.at? ⟨"owner", [.key "tags"]⟩).map
      (fun node => (node.absentType?, (node.reconcile ["owner", "tags"]).2.length)) =
        some (some Absence.nullish.type, 0) := by
    rw [hentries]
    decide +kernel
  have hgoesOn : Schema.goesOn (empty.accepted .builtin entries) [.key "owner"] (.key "tags") =
      true ∧ Schema.goesOn (empty.accepted .builtin entries) [.key "owner", .key "tags"] .each =
        true := by
    rw [hentries]
    decide +kernel
  obtain ⟨outer, hat, hfacts⟩ := Option.map_eq_some_iff.mp houter
  obtain ⟨inner, hbelow, hmore⟩ := Option.map_eq_some_iff.mp hinner
  obtain ⟨habsent, hlength⟩ := Prod.mk.inj hfacts
  obtain ⟨hnullish, hnone⟩ := Prod.mk.inj hmore
  have hclean := List.eq_nil_of_length_eq_zero hlength
  have hsound := List.eq_nil_of_length_eq_zero hnone
  obtain ⟨fields, hfields, hobject⟩ :=
    (isShapeOr_of_goesOn .builtin entries hat hclean).2 ⟨"tags", hgoesOn.1⟩
  obtain ⟨element, harray⟩ := (isShapeOr_of_goesOn .builtin entries hbelow hsound).1 hgoesOn.2
  rw [habsent] at hobject
  rw [hnullish] at harray
  exact ⟨entries, outer, inner, hentries, haccepted, hat, hbelow, hclean, hsound,
    ⟨fields, hfields "tags" hgoesOn.1, hobject⟩, element, harray⟩

end Tree

end ShapeInference
