import ShapeInference.Proofs.Json.Numbers
import ShapeInference.Proofs.Path
import ShapeInference.Proofs.Schema.Fields
import ShapeInference.Proofs.Schema.Order

/-!
# Inferring again from what was inferred

A type that was inferred can be written into a schema: one entry for each field, with a hint that
spells the type of the field. Whatever the rules in force, that schema has the same type again.

Main statements: `Rulebook.fieldType_hint`, `Schema.infer_of_fields` and `Schema.infer_hints`.
-/

namespace ShapeInference

/-! ## Hints -/

/-- The declaration whose hint spells a type. -/
def Declaration.hint (d : Descriptor) : Declaration :=
  .ofList [(RuleName.customSanitizer, .object [("returns", d.toJson)])]

theorem Declaration.strategy_hint (d : Descriptor) (catalog : Catalog) :
    (hint d).strategy catalog = .customSanitizer := by
  rfl

/-- A hint gives the field the type that it spells, whatever the rules and the position. -/
theorem Rulebook.fieldType_hint (rules : Rulebook) {d : Descriptor} (hnormal : d.Normal)
    (hfinite : d.FiniteNumbers) (position : Position) :
    rules.fieldType (.hint d) position = .ok (.required d) := by
  have hform : ((Declaration.hint d).get? RuleName.customSanitizer).bind (·.member? "returns") =
      some d.toJson := by
    rfl
  exact rules.fieldType_of_hint (.inl ⟨Declaration.strategy_hint d rules.catalog, rfl⟩) hform
    (Descriptor.ofJson_toJson hnormal hfinite) position

/-! ## One entry for each field -/

namespace Group

/-- The group of things that say of each field what its type is. -/
def ofFields (fields : List (String × Descriptor)) : Group FieldType :=
  fields.map fun field => ([.key field.1], .required field.2)

theorem ofFields_cons (field : String × Descriptor) (rest : List (String × Descriptor)) :
    ofFields (field :: rest) = [([.key field.1], .required field.2)] ++ ofFields rest := rfl

theorem keys_ofFields {fields : List (String × Descriptor)} (h : (Bindings.names fields).Nodup) :
    (ofFields fields).keys = Bindings.names fields := by
  have hfirsts : (ofFields fields).firsts = (Bindings.names fields).map .key := by
    simp [firsts, ofFields, Bindings.names, Function.comp_def]
  rw [keys, hfirsts, List.filterMap_map]
  simpa [Function.comp_def] using h.dedup

/-- After the name of a field there is the type of that field, arrived. -/
theorem after_ofFields {fields : List (String × Descriptor)} (h : (Bindings.names fields).Nodup)
    {name : String} {d : Descriptor} (hfield : (name, d) ∈ fields) :
    (ofFields fields).after (.key name) = [([], .required d)] := by
  induction fields with
  | nil => contradiction
  | cons field rest ih =>
      obtain ⟨hnot, hrest⟩ := List.nodup_cons.mp h
      rw [ofFields_cons, after_append]
      rcases List.mem_cons.mp hfield with rfl | hmem
      · have hnone : (ofFields rest).after (.key name) = [] := by
          rw [after_eq_nil_iff, ← mem_keys, keys_ofFields hrest]
          exact hnot
        rw [after_going_self, hnone, List.append_nil]
      · have hne : field.1 ≠ name := by
          rintro rfl
          exact hnot (List.mem_map.mpr ⟨_, hmem, rfl⟩)
        rw [after_going_of_ne (by simpa using hne), List.nil_append, ih hrest hmem]

/-- A single type that has arrived means itself. -/
theorem meaning_arrived (d : Descriptor) :
    meaning [([], FieldType.required d)] = some d := by
  rw [meaning_of_ended (firsts_arrived _)]
  exact settle_singleton d

/-- Fields with one type each make up the object of these fields. -/
theorem objectMeaning_ofFields {fields : List (String × Descriptor)}
    (h : Bindings.Sorted fields) : (ofFields fields).objectMeaning = some (.object fields) := by
  have hfields : (ofFields fields).fieldMeanings = some fields := by
    rw [fieldMeanings_eq_some_iff, keys_ofFields h.nodup]
    refine ⟨rfl, ?_⟩
    intro field hfield
    rw [after_ofFields h.nodup hfield, meaning_arrived]
  rw [objectMeaning, hfields, Option.map_some, Descriptor.ofFields, h.sortedOfPairs_eq]

end Group

namespace Schema

variable {schema : Schema} {rules : Rulebook}

/-- A schema that gives one type to each field of an object has the type of the object. -/
theorem infer_of_fields {fields : List (String × Descriptor)} (hsorted : Bindings.Sorted fields)
    (hschema : List.Forall₂ (fun entry field => Path.parse entry.1 = .ok ⟨field.1, []⟩ ∧
      rules.fieldType entry.2 .top = .ok (.required field.2)) schema fields) :
    schema.infer rules = .ok (.object fields) := by
  have hgroup : schema.group rules = some (.ofFields fields) := by
    rw [group_eq_some_iff, Group.ofFields, List.forall₂_map_right_iff]
    apply hschema.imp
    rintro entry field ⟨hpath, htype⟩
    exact ⟨_, hpath, rfl, htype⟩
  rw [infer_eq_ok_iff_meaning, meaning, hgroup, Option.bind_some,
    Group.objectMeaning_ofFields hsorted]

/-- An inferred type is an object whose fields are named by paths. -/
theorem exists_fields_of_infer {root : Descriptor} (h : schema.infer rules = .ok root) :
    ∃ fields, root = .object fields ∧
      ∀ field ∈ fields, Path.parse field.1 = .ok ⟨field.1, []⟩ := by
  obtain ⟨-, hreconcile⟩ := infer_eq_ok_iff_reconcile.mp h
  obtain ⟨fields, hfields, -, hnames⟩ := bestEffort_eq_object schema rules
  have hroot : root = .object fields := by
    rw [← hfields, bestEffort_eq, hreconcile]
  refine ⟨fields, hroot, ?_⟩
  intro field hfield
  obtain ⟨entry, -, hleads⟩ := (hnames field.1).mp (List.mem_map.mpr ⟨field, hfield, rfl⟩)
  obtain ⟨path, hpath, hname⟩ := Path.leadsInto_iff.mp hleads
  rw [← hname]
  exact Path.parse_root hpath

/-! ## Schemas without infinite numbers -/

/-- Every number in the options of a schema's declarations is finite, as are all numbers that JSON
texts spell. -/
def FiniteNumbers (schema : Schema) : Prop :=
  ∀ entry ∈ schema, ∀ p ∈ entry.2.numbers, p.isFinite = true

instance : Decidable schema.FiniteNumbers :=
  inferInstanceAs (Decidable (∀ entry ∈ schema, ∀ p ∈ entry.2.numbers, p.isFinite = true))

/-- A schema that is read has the finite numbers of its document. -/
theorem finiteNumbers_of_ofJson {value : Json} (hfinite : value.FiniteNumbers)
    (h : ofJson value = .ok schema) : schema.FiniteNumbers := by
  cases value with
  | object members =>
      intro entry hentry
      obtain ⟨⟨path, options⟩, hmember, hspelled⟩ := exists_of_mem_mapM_ok h hentry
      have hoptions : options.FiniteNumbers := Json.finiteNumbers_object_iff.mp hfinite _ hmember
      cases options with
      | object rules =>
          obtain rfl := Except.ok.inj hspelled
          have hrules := Json.finiteNumbers_object_iff.mp hoptions
          apply Json.finiteNumbers_object_iff.mpr
          intro rule hrule
          rw [OrderedMap.entries_ofList] at hrule
          exact hrules rule (Bindings.ofPairs_subset rules hrule)
      | _ => contradiction
  | _ => contradiction

/-- A schema that is read from a text has finite numbers only. -/
theorem finiteNumbers_of_read {text : String} {value : Json} (hread : Json.read text = .ok value)
    (h : ofJson value = .ok schema) : schema.FiniteNumbers :=
  finiteNumbers_of_ofJson (Json.finiteNumbers_of_read hread) h

/-! ## The fixpoint -/

/-- Inferring is a fixpoint: what a schema is inferred to, written as hints for its fields in any
order, is inferred again by any rules. A schema that was read from a text has finite numbers
(`finiteNumbers_of_read`); an infinite one would have no hint that spells it. -/
theorem infer_hints {root : Descriptor} (hfinite : schema.FiniteNumbers)
    (h : schema.infer rules = .ok root) :
    ∃ fields, root = .object fields ∧ ∀ (hints : Schema) (others : Rulebook),
      hints.Perm (fields.map fun field => (field.1, .ofList
        [("customSanitizer", .object [("returns", field.2.toJson)])])) →
          hints.infer others = .ok root := by
  obtain ⟨hnormal, hnumbers⟩ := closed_infer Descriptor.closed_finite hfinite h
  obtain ⟨fields, rfl, hparse⟩ := exists_fields_of_infer h
  refine ⟨fields, rfl, ?_⟩
  intro hints others hperm
  have hinorder : infer (fields.map fun field => (field.1, .hint field.2)) others =
      .ok (.object fields) := by
    apply infer_of_fields hnormal.sorted
    rw [List.forall₂_map_left_iff, List.forall₂_same]
    rintro ⟨name, d⟩ hfield
    have hget := Bindings.get?_eq_some_of_mem hnormal.sorted.nodup hfield
    exact ⟨hparse _ hfield,
      others.fieldType_hint (hnormal.field hget) (hnumbers.of_mem_object hfield) .top⟩
  exact infer_eq_ok_of_same (fun entry => hperm.symm.mem_iff) hinorder

/-- An absence in a union, an enumeration of a fraction and a text, elements of an array and an
empty object, written as hints from the last field to the first, are inferred again by other
rules. -/
theorem infer_hints_reversed :
    infer [("x.*.id", .ofList [("toInt", .bool true),
            ("optional", .object [("options", .object [("nullable", .bool true)])])]),
          ("n", .ofList [("isIn", .object [("options",
            .array [.array [.number (.double ⟨false, 0x3FF8000000000000⟩), .string "a"]])])]),
          ("o", .ofList [("isObject", .bool true)])] .builtin =
        .ok (.object [
          ("n", .union [.literal (.number ⟨0x3FF8000000000000⟩), .literal (.string "a")]),
          ("o", .emptyObject),
          ("x", .array (.object [("id",
            .union [.primitive .integer, .literal .undefined, .literal .null])]))]) ∧
      infer [("x", .ofList [("customSanitizer", .object [("returns",
            .object [("type", .string "array"), ("items",
              .object [("type", .string "object"), ("properties",
                .object [("id", .object [("anyOf", .array [.object [("type", .string "integer")],
                  .object [("type", .string "undefined")],
                  .object [("const", .null)]])])])])])])]),
          ("o", .ofList [("customSanitizer", .object [("returns",
            .object [("type", .string "emptyObject")])])]),
          ("n", .ofList [("customSanitizer", .object [("returns",
            .object [("anyOf", .array [
              .object [("const", .number (.double ⟨false, 0x3FF8000000000000⟩))],
              .object [("const", .string "a")]])])])])] ⟨.builtin, true⟩ =
        .ok (.object [
          ("n", .union [.literal (.number ⟨0x3FF8000000000000⟩), .literal (.string "a")]),
          ("o", .emptyObject),
          ("x", .array (.object [("id",
            .union [.primitive .integer, .literal .undefined, .literal .null])]))]) := by
  refine (fun hinfer => ⟨hinfer, ?_⟩ : _ → _ ∧ _) (by with_unfolding_all rfl)
  obtain ⟨fields, hroot, hhints⟩ := infer_hints (by decide +kernel) hinfer
  obtain rfl := Descriptor.object.inj hroot
  apply hhints
  refine (List.Perm.of_eq ?_).trans (List.reverse_perm _)
  with_unfolding_all rfl

end Schema

end ShapeInference
