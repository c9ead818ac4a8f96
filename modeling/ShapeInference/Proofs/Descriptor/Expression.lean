import ShapeInference.Proofs.Descriptor.Readable

/-!
# Type expressions tell types apart

The type expression of a normal descriptor with finite numbers determines it, up to the two ways to
say that an object has no known fields.

Main statements: `Descriptor.oneLine_unifyEmpty` and `Descriptor.oneLine_eq_iff`.
-/

namespace ShapeInference

namespace Descriptor

/-! ## Objects without fields -/

mutual

/-- The descriptor with `emptyObject` in the place of each object without fields. The members of a
union keep their order. -/
def unifyEmpty : Descriptor → Descriptor
  | unknown => unknown
  | primitive kind => primitive kind
  | union ds => union (unifyEmptyAll ds)
  | array d => array (unifyEmpty d)
  | object [] => emptyObject
  | object (field :: rest) => object (unifyEmptyFields (field :: rest))

/-- Descriptors with `emptyObject` in the place of each object without fields. -/
def unifyEmptyAll : List Descriptor → List Descriptor
  | [] => []
  | d :: rest => unifyEmpty d :: unifyEmptyAll rest

/-- Fields with `emptyObject` in the place of each object without fields. -/
def unifyEmptyFields : List (String × Descriptor) → List (String × Descriptor)
  | [] => []
  | (name, d) :: rest => (name, unifyEmpty d) :: unifyEmptyFields rest

end

theorem unifyEmptyAll_eq_map (ds : List Descriptor) : unifyEmptyAll ds = ds.map unifyEmpty := by
  induction ds with
  | nil => rfl
  | cons d rest ih => rw [unifyEmptyAll, ih, List.map_cons]

theorem unifyEmptyFields_eq_map (fields : List (String × Descriptor)) :
    unifyEmptyFields fields = fields.map fun field => (field.1, field.2.unifyEmpty) := by
  induction fields with
  | nil => rfl
  | cons field rest ih => rw [unifyEmptyFields, ih, List.map_cons]

/-- Unifying the empty objects inside neither makes a union nor undoes one. -/
theorem isUnion_unifyEmpty (d : Descriptor) : d.unifyEmpty.isUnion = d.isUnion := by
  fun_cases unifyEmpty d <;> rfl

mutual

/-- The two spellings of an object without fields have one text, at any depth. -/
theorem oneLine_unifyEmpty : ∀ d : Descriptor, d.unifyEmpty.oneLine = d.oneLine
  | unknown => rfl
  | primitive _ => rfl
  | union ds => by
      rw [unifyEmpty, oneLine_union, oneLine_union, alternativeTexts_unifyEmptyAll ds]
  | array d => by
      rw [unifyEmpty, oneLine_array, oneLine_array, isUnion_unifyEmpty, oneLine_unifyEmpty d]
  | object [] => rfl
  | object (field :: rest) => by
      have hfields := fieldTexts_unifyEmptyFields (field :: rest)
      rw [unifyEmpty, oneLine_object_cons, ← hfields, unifyEmptyFields, oneLine_object_cons]

theorem alternativeTexts_unifyEmptyAll :
    ∀ ds : List Descriptor, alternativeTexts (unifyEmptyAll ds) = alternativeTexts ds
  | [] => rfl
  | d :: rest => by
      rw [unifyEmptyAll, alternativeTexts, alternativeTexts, oneLine_unifyEmpty d,
        alternativeTexts_unifyEmptyAll rest]

theorem fieldTexts_unifyEmptyFields :
    ∀ fields : List (String × Descriptor), fieldTexts (unifyEmptyFields fields) = fieldTexts fields
  | [] => rfl
  | (name, d) :: rest => by
      rw [unifyEmptyFields, fieldTexts, fieldTexts, oneLine_unifyEmpty d,
        fieldTexts_unifyEmptyFields rest]

end

/-- A normal descriptor with finite numbers is readable once its empty objects are unified. -/
theorem Normal.readable_unifyEmpty {d : Descriptor} (h : Normal d) (hfinite : d.FiniteNumbers) :
    Readable d.unifyEmpty := by
  induction h with
  | unknown => exact .unknown
  | primitive kind => exact .primitive hfinite
  | @union ds increasing several flat parts ih =>
      have hunion : ∀ e ∈ ds, e.isUnion = false := by
        intro e he
        have halternative := flat e he
        cases e <;> first | rfl | contradiction
      rw [unifyEmpty, unifyEmptyAll_eq_map]
      apply Readable.union
      · rwa [List.length_map]
      · rw [List.forall_mem_map]
        intro e he
        rw [isUnion_unifyEmpty, hunion e he]
      · rw [List.forall_mem_map]
        exact fun e he => ih e he (hfinite.of_mem_union he)
  | array _ ih => exact .array (ih hfinite)
  | @object fields sorted parts ih =>
      cases fields with
      | nil => exact .primitive nofun
      | cons field rest =>
          rw [unifyEmpty, unifyEmptyFields_eq_map]
          apply Readable.object
          · exact List.cons_ne_nil _ _
          · rw [List.forall_mem_map]
            exact fun e he => ih e he (hfinite.of_mem_object he)

/-- Normal descriptors with finite numbers have the same expression exactly when they differ at most
in how they say that an object has no known fields. -/
theorem oneLine_eq_iff {a b : Descriptor} (ha : Normal a) (hb : Normal b)
    (hafinite : a.FiniteNumbers) (hbfinite : b.FiniteNumbers) :
    a.oneLine = b.oneLine ↔ a.unifyEmpty = b.unifyEmpty := by
  constructor
  · intro h
    have htold := (ha.readable_unifyEmpty hafinite).told.whole
    have hends : EndsUnion [] := ⟨nofun, by decide⟩
    have htexts : a.unifyEmpty.oneLine.toList ++ [] = b.unifyEmpty.oneLine.toList ++ [] := by
      rw [oneLine_unifyEmpty, oneLine_unifyEmpty, h]
    exact (htold _ (hb.readable_unifyEmpty hbfinite) [] [] hends hends htexts).1
  · intro h
    rw [← oneLine_unifyEmpty a, h, oneLine_unifyEmpty b]

/-- The two empty objects are written alike, in the order in which the members of a union stand.
Brackets belong to one alternative or to all, whatever a literal among them looks like. -/
theorem oneLine_eq_iff_edges :
    (object [("a b", union [emptyObject, array (object [])])]).oneLine =
        (object [("a b", union [emptyObject, array emptyObject])]).oneLine ∧
      (union [emptyObject, array emptyObject]).oneLine ≠
        (union [array emptyObject, object []]).oneLine ∧
      (union [literal (.string "\" | []; )"), array (literal .null)]).oneLine ≠
        (array (union [literal .null, literal (.string "\" | []; )")])).oneLine :=
  ⟨(oneLine_eq_iff (by decide) (by decide) (by decide) (by decide)).mpr (by decide),
    (oneLine_eq_iff (by decide) (by decide) (by decide) (by decide)).not.mpr (by decide),
    (oneLine_eq_iff (by decide) (by decide) (by decide) (by decide)).not.mpr (by decide)⟩

end Descriptor

end ShapeInference
