import ShapeInference.Descriptor.Text
import ShapeInference.Proofs.Json.Text

/-!
# Type expressions by their parts

How the text of a descriptor is put together from the texts of its parts, on one line and on
several, and which characters the names and literals in it have.

Main statements: `Descriptor.oneLine_array` and `Descriptor.toList_fieldLines`.
-/

namespace ShapeInference

namespace Descriptor

/-! ## On one line -/

theorem oneLine_union (ds : List Descriptor) :
    (union ds).oneLine = " | ".intercalate (alternativeTexts ds) := by
  rw [oneLine]

theorem alternativeTexts_eq_map (ds : List Descriptor) : alternativeTexts ds = ds.map oneLine := by
  induction ds with
  | nil => rfl
  | cons d rest ih => rw [alternativeTexts, ih, List.map_cons]

theorem fieldTexts_eq_map (fields : List (String × Descriptor)) :
    fieldTexts fields = fields.map fun field => fieldName field.1 ++ ": " ++ field.2.oneLine := by
  induction fields with
  | nil => rfl
  | cons field rest ih => rw [fieldTexts, ih, List.map_cons]

/-- The elements of an array stand before the brackets, alternatives in parentheses. -/
theorem oneLine_array (d : Descriptor) :
    (array d).oneLine = (if d.isUnion then "(" ++ d.oneLine ++ ")" else d.oneLine) ++ "[]" := by
  cases d with
  | union ds =>
      rw [oneLine.eq_def, oneLine_union]
      simp [isUnion, String.append_assoc]
  | _ => rfl

/-- An object is written as its fields with semicolons between, in braces. -/
theorem oneLine_object_cons (field : String × Descriptor) (rest : List (String × Descriptor)) :
    (object (field :: rest)).oneLine =
      "\x7b " ++ "; ".intercalate (fieldTexts (field :: rest)) ++ " \x7d" := by
  rw [oneLine.eq_def]

/-! ## On several lines -/

theorem multiLineAt_union (depth : Nat) (ds : List Descriptor) :
    multiLineAt depth (union ds) = " | ".intercalate (alternativesAt depth ds) := by
  rw [multiLineAt.eq_def]

/-- An object over several lines is its field lines between two braces. -/
theorem multiLineAt_object_cons (depth : Nat) (field : String × Descriptor)
    (rest : List (String × Descriptor)) :
    multiLineAt depth (object (field :: rest)) =
      "\x7b\n" ++ String.join (fieldLines (depth + 1) (field :: rest)) ++ indent depth ++
        "\x7d" := by
  rw [multiLineAt.eq_def]

theorem multiLineAt_array_object_cons (depth : Nat) (field : String × Descriptor)
    (rest : List (String × Descriptor)) :
    multiLineAt depth (array (object (field :: rest))) =
      multiLineAt depth (object (field :: rest)) ++ "[]" := by
  rw [multiLineAt.eq_def, multiLineAt_object_cons]
  simp [String.append_assoc]

theorem toList_indent (depth : Nat) : (indent depth).toList = List.replicate (2 * depth) ' ' :=
  String.toList_ofList

/-- The line of the first field comes before those of the others. -/
theorem toList_fieldLines (depth : Nat) (name : String) (d : Descriptor)
    (rest : List (String × Descriptor)) :
    (String.join (fieldLines depth ((name, d) :: rest))).toList =
      List.replicate (2 * depth) ' ' ++ ((fieldName name).toList ++ (": ".toList ++
        ((multiLineAt depth d).toList ++
          ';' :: '\n' :: (String.join (fieldLines depth rest)).toList))) := by
  rw [fieldLines, String.join_cons]
  simp [toList_indent]

/-! ## Names -/

/-- A character that is no letter, digit or sign of identifiers is in none of them. -/
theorem not_mem_identifier {name : String} (h : isIdentifier name = true) {c : Char}
    (hstart : startsIdentifier c = false) (hdigit : c.isDigit = false) : c ∉ name.toList := by
  intro hc
  rw [isIdentifier] at h
  cases hname : name.toList with
  | nil =>
      rw [hname] at hc
      contradiction
  | cons first rest =>
      rw [hname] at h hc
      obtain ⟨hfirst, hrest⟩ := Bool.and_eq_true_iff.mp h
      rcases List.mem_cons.mp hc with rfl | hmem
      · rw [hstart] at hfirst
        contradiction
      · have hletter := List.all_eq_true.mp hrest c hmem
        rw [hstart, hdigit] at hletter
        contradiction

theorem exists_cons_of_isIdentifier {name : String} (h : isIdentifier name = true) :
    ∃ c rest, name.toList = c :: rest := by
  cases hname : name.toList with
  | nil =>
      rw [isIdentifier, hname] at h
      contradiction
  | cons c rest => exact ⟨c, rest, rfl⟩

end Descriptor

end ShapeInference
