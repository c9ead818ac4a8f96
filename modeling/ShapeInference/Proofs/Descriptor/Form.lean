import ShapeInference.Descriptor.Form
import ShapeInference.Proofs.Binary64
import ShapeInference.Proofs.Descriptor.Normal

/-!
# Documents of normal descriptors

A normal descriptor with finite numbers is read back from its document. The document is therefore
canonical: descriptors that differ have documents that differ.

Main statements: `Literal.ofJson?_eq_of_toJson?` and `Descriptor.ofJson_toJson`.
-/

namespace ShapeInference

/-! ## Literals -/

namespace Literal

/-- A finite number is read back from its integer or its double. -/
theorem ofBinary64_numberAt (p : LinePoint) : .ofBinary64 (numberAt p).toBinary64 = p := by
  have hback : LinePoint.ofBinary64 p.toBinary64 = p := p.ofBinary64_toBinary64
  simp only [numberAt]
  split
  · rename_i i hinteger
    have hnearest : LinePoint.ofBinary64 (.ofInt i) = p := by
      rw [Binary64.ofBinary64_ofInt hinteger, hback]
    split
    · rename_i hrange
      rcases lt_or_eq_of_le hrange.2 with hlt | rfl
      · have hmin : min i 0x7FFFFFFFFFFFFFFF = i := by omega
        rwa [hmin]
      · -- The greatest integer is written instead, and its nearest double is the same.
        rw [min_eq_right (by omega), Number.toBinary64, Binary64.ofInt_pred_two_pow]
        exact hnearest
    · exact hback
  · exact hback

/-- The numbers of a literal. -/
def numbers : Literal → List LinePoint
  | number p => [p]
  | _ => []

/-- A literal is read back from the scalar that spells it. -/
theorem ofJson?_eq_of_toJson? {l : Literal} (hfinite : ∀ p ∈ l.numbers, p.isFinite = true)
    {value : Json} (h : l.toJson? = some value) : ofJson? value = some l := by
  cases l with
  | undefined => contradiction
  | number p =>
      have hp : p.isFinite = true := hfinite p (List.mem_singleton_self p)
      obtain rfl := Option.some.inj h
      rw [if_pos hp, ofJson?, ofBinary64_numberAt]
  | _ =>
      obtain rfl := Option.some.inj h
      rfl

end Literal

namespace Descriptor

/-! ## Numbers -/

mutual

/-- The number literals in a descriptor. -/
def numbers : Descriptor → List LinePoint
  | unknown => []
  | primitive (.literal l) => l.numbers
  | primitive _ => []
  | union ds => numbersOfAll ds
  | array d => numbers d
  | object fields => numbersOfFields fields

/-- The number literals in descriptors. -/
def numbersOfAll : List Descriptor → List LinePoint
  | [] => []
  | d :: rest => numbers d ++ numbersOfAll rest

/-- The number literals in the types of fields. -/
def numbersOfFields : List (String × Descriptor) → List LinePoint
  | [] => []
  | (_, d) :: rest => numbers d ++ numbersOfFields rest

end

/-- Every number literal in the descriptor is finite. -/
def FiniteNumbers (d : Descriptor) : Prop :=
  ∀ p ∈ d.numbers, p.isFinite = true

instance (d : Descriptor) : Decidable d.FiniteNumbers :=
  inferInstanceAs (Decidable (∀ p ∈ d.numbers, p.isFinite = true))

theorem numbers_union (ds : List Descriptor) : (union ds).numbers = ds.flatMap numbers := by
  rw [numbers]
  induction ds with
  | nil => rfl
  | cons d rest ih => rw [numbersOfAll, List.flatMap_cons, ih]

theorem numbers_object (fields : List (String × Descriptor)) :
    (object fields).numbers = fields.flatMap fun field => field.2.numbers := by
  rw [numbers]
  induction fields with
  | nil => rfl
  | cons field rest ih => rw [numbersOfFields, List.flatMap_cons, ih]

theorem FiniteNumbers.of_mem_union {ds : List Descriptor} (h : (union ds).FiniteNumbers)
    {d : Descriptor} (hd : d ∈ ds) : d.FiniteNumbers := by
  intro p hp
  apply h
  rw [numbers_union]
  exact List.mem_flatMap.mpr ⟨d, hd, hp⟩

theorem FiniteNumbers.of_mem_object {fields : List (String × Descriptor)}
    (h : (object fields).FiniteNumbers) {field : String × Descriptor} (hfield : field ∈ fields) :
    field.2.FiniteNumbers := by
  intro p hp
  apply h
  rw [numbers_object]
  exact List.mem_flatMap.mpr ⟨field, hfield, hp⟩

/-! ## Reading one document -/

theorem ofJson_typeForm (name : String) :
    ofJson (typeForm name) = ofTypeName name (.ok unknown) (.ok []) := by
  simp [typeForm, ofJson, atAnyOf, Bindings.get?, atItems, atProperties]

theorem ofJson_const {value : Json} {l : Literal} (h : Literal.ofJson? value = some l) :
    ofJson (.object [("const", value)]) = .ok (literal l) := by
  simp [ofJson, atAnyOf, Bindings.get?, ofConst, h]

/-- A list of alternatives is read as the union of what its values are read as. -/
theorem ofJson_anyOf {values : List Json} {ds : List Descriptor} (h : ofJsons values = .ok ds)
    (hne : ds ≠ []) : ofJson (.object [("anyOf", .array values)]) = .ok (unionOf ds) := by
  cases ds with
  | nil => contradiction
  | cons d rest => simp [ofJson, atAnyOf, ofAlternatives, h, bind, Except.bind]

theorem ofJson_array (value : Json) :
    ofJson (.object [("type", .string "array"), ("items", value)]) =
      (ofJson value).map array := by
  simp [ofJson, atAnyOf, Bindings.get?, atItems, ofTypeName]

theorem ofJson_object (members : List (String × Json)) :
    ofJson (.object [("type", .string "object"), ("properties", .object members)]) =
      (ofJsonFields members).map ofFields := by
  simp [ofJson, atAnyOf, Bindings.get?, atProperties, ofProperties, ofTypeName]

theorem ofJson_primitiveForm {kind : Primitive} (h : (primitive kind).FiniteNumbers) :
    ofJson (primitiveForm kind) = .ok (primitive kind) := by
  cases kind with
  | literal l =>
      rw [primitiveForm]
      split
      · rename_i value hvalue
        exact ofJson_const (Literal.ofJson?_eq_of_toJson? h hvalue)
      · rename_i hnone
        cases l with
        | undefined => rw [ofJson_typeForm]; rfl
        | _ => contradiction
  | _ => rw [primitiveForm, ofJson_typeForm]; rfl

/-! ## Reading documents one after another -/

/-- If each descriptor of a list is read back from its form, so is the list. -/
theorem ofJsons_toJsons {ds : List Descriptor} (h : ∀ d ∈ ds, ofJson (toJson d) = .ok d) :
    ofJsons (toJsons ds) = .ok ds := by
  induction ds with
  | nil => rfl
  | cons d rest ih =>
      obtain ⟨hd, hrest⟩ := List.forall_mem_cons.mp h
      simp [toJsons, ofJsons, hd, ih hrest, bind, Except.bind, pure, Except.pure]

/-- If each field is read back from its form, so are the fields. -/
theorem ofJsonFields_toJsonFields {fields : List (String × Descriptor)}
    (h : ∀ field ∈ fields, ofJson (toJson field.2) = .ok field.2) :
    ofJsonFields (toJsonFields fields) = .ok fields := by
  induction fields with
  | nil => rfl
  | cons field rest ih =>
      obtain ⟨hfield, hrest⟩ := List.forall_mem_cons.mp h
      simp [toJsonFields, ofJsonFields, hfield, ih hrest, bind, Except.bind, pure, Except.pure]

/-- A normal descriptor is read back from its document. -/
theorem ofJson_toJson {d : Descriptor} (h : Normal d) (hfinite : d.FiniteNumbers) :
    ofJson (toJson d) = .ok d := by
  induction h with
  | unknown => rw [toJson, ofJson_typeForm]; rfl
  | primitive kind => rw [toJson, ofJson_primitiveForm hfinite]
  | @union ds increasing several flat parts ih =>
      have hread := ofJsons_toJsons fun d hd => ih d hd (hfinite.of_mem_union hd)
      have hne : ds ≠ [] := by
        rintro rfl
        contradiction
      rw [toJson, ofJson_anyOf hread hne,
        unionOf_of_normal (.union increasing several flat parts)]
  | @array d part ih =>
      have hread : ofJson (toJson d) = .ok d := ih hfinite
      rw [toJson, ofJson_array, hread, Except.map]
  | @object fields sorted parts ih =>
      have hread := ofJsonFields_toJsonFields fun field hfield =>
        ih field hfield (hfinite.of_mem_object hfield)
      rw [toJson, ofJson_object, hread, Except.map, ofFields, sorted.sortedOfPairs_eq]

/-- A normal descriptor with finite numbers is read back from its document, which no other such
descriptor has. -/
theorem toJson_canonical {a : Descriptor} (ha : Normal a) (hfinite : a.FiniteNumbers) :
    ofJson (toJson a) = .ok a ∧
      ∀ b, Normal b → b.FiniteNumbers → (toJson a = toJson b ↔ a = b) := by
  refine ⟨ofJson_toJson ha hfinite, fun b hb hfinite' => ⟨fun h => ?_, congrArg toJson⟩⟩
  have hread : (.ok a : Except FormFault Descriptor) = .ok b := by
    rw [← ofJson_toJson ha hfinite, h, ofJson_toJson hb hfinite']
  exact Except.ok.inj hread

/-- Fields may be named like the keys of a document, `undefined` and `null` differ, and so do the two
empty objects. The number `2 ^ 63` is written as the integer before it, and still differs from the
double before it. -/
theorem toJson_canonical_edges :
    ofJson (toJson (object [("anyOf", union [literal .undefined, literal .null]),
      ("const", emptyObject), ("properties", object []),
      ("type", array (literal (.number ⟨0x43E0000000000000⟩)))])) =
        .ok (object [("anyOf", union [literal .undefined, literal .null]),
          ("const", emptyObject), ("properties", object []),
          ("type", array (literal (.number ⟨0x43E0000000000000⟩)))]) ∧
      toJson (object [("anyOf", union [literal .undefined, literal .null]),
        ("const", emptyObject), ("properties", object []),
        ("type", array (literal (.number ⟨0x43E0000000000000⟩)))]) ≠
          toJson (object [("anyOf", union [literal .undefined, literal .null]),
            ("const", emptyObject), ("properties", object []),
            ("type", array (literal (.number ⟨0x43DFFFFFFFFFFFFF⟩)))]) := by
  obtain ⟨hread, hcanonical⟩ := toJson_canonical
    (a := object [("anyOf", union [literal .undefined, literal .null]),
      ("const", emptyObject), ("properties", object []),
      ("type", array (literal (.number ⟨0x43E0000000000000⟩)))]) (by decide) (by decide)
  exact ⟨hread, (hcanonical _ (by decide) (by decide)).not.mpr (by decide)⟩

end Descriptor

end ShapeInference
