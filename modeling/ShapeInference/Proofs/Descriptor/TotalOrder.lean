import ShapeInference.Proofs.Bindings
import ShapeInference.Proofs.Descriptor.Union

/-!
# What the order of descriptors is

Descriptors of different kinds come in the order of the kinds. Two unions, and two objects, are
decided by the first place where their members or fields differ, and a proper beginning comes
before what it begins. Since members and fields stand sorted, the order sees them as sets and maps
and not as the lists that hold them.

Main statements: `Descriptor.compareLists_eq_lt_iff`, `Descriptor.compareFields_eq_lt_iff` and
`Descriptor.compare_isTotalOrder`.
-/

namespace ShapeInference

/-- Doubles are at one place on the number line if they are equal or are the two zeros. -/
theorem LinePoint.ofBinary64_eq_iff {x y : Binary64} :
    ofBinary64 x = ofBinary64 y ↔ x = y ∨ x.magnitude = 0 ∧ y.magnitude = 0 := by
  obtain ⟨negative, magnitude⟩ := x
  obtain ⟨negative', magnitude'⟩ := y
  simp only [ofBinary64, LinePoint.mk.injEq, Binary64.mk.injEq]
  cases negative <;> cases negative' <;> simp <;> omega

namespace Descriptor

/-- One descriptor comes before another. -/
def Precedes (a b : Descriptor) : Prop :=
  a.compare b = .lt

/-! ## Sequences -/

/-- Members are compared by their first difference, and come before all that they begin. -/
theorem compareLists_eq_lt_iff {as bs : List Descriptor} :
    compareLists as bs = .lt ↔ List.Lex Precedes as bs := by
  induction as generalizing bs with
  | nil =>
      cases bs with
      | nil => simp [compareLists]
      | cons b bs => exact iff_of_true rfl .nil
  | cons a as ih =>
      cases bs with
      | nil => simp [compareLists]
      | cons b bs =>
          rw [compareLists, Ordering.then_eq_lt, compare_eq_iff, ih, List.cons_lex_cons_iff]
          rfl

/-- Fields are compared by their first difference, the name before the type, and come before all
that they begin. -/
theorem compareFields_eq_lt_iff {fields others : List (String × Descriptor)} :
    compareFields fields others = .lt ↔
      List.Lex (Prod.Lex (· < ·) Precedes) fields others := by
  induction fields generalizing others with
  | nil =>
      cases others with
      | nil => simp [compareFields]
      | cons other others => exact iff_of_true rfl .nil
  | cons field fields ih =>
      cases others with
      | nil => simp [compareFields]
      | cons other others =>
          obtain ⟨name, d⟩ := field
          obtain ⟨name', e⟩ := other
          rw [compareFields, Ordering.then_eq_lt, Ordering.then_eq_lt, compare_lt_iff_lt,
            compare_eq_iff_eq, compare_eq_iff, ih, List.cons_lex_cons_iff, Prod.lex_iff,
            Prod.mk.injEq, and_or_left, or_assoc, and_assoc]
          rfl

/-! ## Kinds -/

/-- Kinds decide before parts do. -/
theorem compare_of_rank_lt {a b : Descriptor} (h : a.rank < b.rank) : Precedes a b := by
  cases a <;> cases b <;> first
    | rfl
    | simp [rank] at h

/-- The kinds come in the order unknown, primitive, union, array, object. -/
theorem increasing_kinds (kind : Primitive) (members : List Descriptor) (element : Descriptor)
    (fields : List (String × Descriptor)) :
    Increasing [unknown, primitive kind, union members, array element, object fields] := by
  have hranks : ([unknown, primitive kind, union members, array element, object fields].map
      rank).Pairwise (· < ·) := by
    change [0, 1, 2, 3, 4].Pairwise (· < ·)
    decide
  exact (List.pairwise_map.mp hranks).imp compare_of_rank_lt

/-! ## Sets and maps -/

/-- Unions compare equal if they have the same members, in whatever order these were given. -/
theorem compare_sortedMembers_eq_iff {ds es : List Descriptor} :
    (union (sortedMembers ds)).compare (union (sortedMembers es)) = .eq ↔
      ∀ d, d ∈ ds ↔ d ∈ es := by
  rw [compare_eq_iff, union.injEq]
  refine ⟨fun h d => ?_, sortedMembers_congr⟩
  rw [← mem_sortedMembers, h, mem_sortedMembers]

/-- Objects compare equal if they have the same fields, in whatever order these were given. -/
theorem compare_ofFields_eq_iff {fields others : List (String × Descriptor)} :
    (ofFields fields).compare (ofFields others) = .eq ↔
      ∀ name, Bindings.get? fields.reverse name = Bindings.get? others.reverse name := by
  rw [compare_eq_iff, ofFields, ofFields, object.injEq, Bindings.sortedOfPairs_eq_iff]

/-! ## The order as a whole -/

theorem eq_of_isLE {a b : Descriptor} (hab : (a.compare b).isLE) (hba : (b.compare a).isLE) :
    a = b := by
  rw [compare_swap b a] at hba
  apply compare_eq_iff.mp
  cases h : a.compare b with
  | eq => rfl
  | lt =>
      rw [h] at hba
      contradiction
  | gt =>
      rw [h] at hab
      contradiction

theorem isLE_total (a b : Descriptor) : (a.compare b).isLE ∨ (b.compare a).isLE := by
  rw [compare_swap b a]
  cases a.compare b <;> simp

/-- Two numbers are equal in the order exactly if they are the same double or both zero. -/
theorem compare_number_eq_iff {x y : Binary64} :
    (literal (.number (.ofBinary64 x))).compare (literal (.number (.ofBinary64 y))) = .eq ↔
      x = y ∨ x.magnitude = 0 ∧ y.magnitude = 0 := by
  rw [compare_eq_iff, ← LinePoint.ofBinary64_eq_iff, literal, literal]
  simp

/-- Comparison is antisymmetric, transitive and total, and only equal descriptors compare equal,
numbers being equal as doubles. Descriptors come in the order of their kinds. Unions and objects
stand for sets and maps and are compared as the sorted sequences of their members and fields, by the
first difference and a proper beginning first. -/
theorem compare_isTotalOrder (a b c : Descriptor) :
    (b.compare a = (a.compare b).swap ∧
      ((a.compare b).isLE → (b.compare a).isLE → a = b) ∧
      ((a.compare b).isLE → (b.compare c).isLE → (a.compare c).isLE) ∧
      ((a.compare b).isLE ∨ (b.compare a).isLE) ∧
      (a.compare b = .eq ↔ a = b)) ∧
    (∀ x y : Binary64,
      (literal (.number (.ofBinary64 x))).compare (literal (.number (.ofBinary64 y))) = .eq ↔
        x = y ∨ x.magnitude = 0 ∧ y.magnitude = 0) ∧
    (∀ kind members element fields,
      Increasing [unknown, primitive kind, union members, array element, object fields]) ∧
    (∀ ds es,
      (Precedes (union ds) (union es) ↔ List.Lex Precedes ds es) ∧
      Increasing (sortedMembers ds) ∧
      ((union (sortedMembers ds)).compare (union (sortedMembers es)) = .eq ↔
        ∀ d, d ∈ ds ↔ d ∈ es)) ∧
    ∀ fields others,
      (Precedes (object fields) (object others) ↔
        List.Lex (Prod.Lex (· < ·) Precedes) fields others) ∧
      Bindings.Sorted (Bindings.sortedOfPairs fields) ∧
      ((ofFields fields).compare (ofFields others) = .eq ↔
        ∀ name, Bindings.get? fields.reverse name = Bindings.get? others.reverse name) :=
  ⟨⟨compare_swap b a, eq_of_isLE, Std.TransCmp.isLE_trans, isLE_total a b, compare_eq_iff⟩,
    fun _ _ => compare_number_eq_iff, increasing_kinds,
    fun ds _ => ⟨compareLists_eq_lt_iff, increasing_sortedMembers ds, compare_sortedMembers_eq_iff⟩,
    fun fields _ => ⟨compareFields_eq_lt_iff, Bindings.sorted_sortedOfPairs fields,
      compare_ofFields_eq_iff⟩⟩

/-- A union below a field comes before the unions that it begins, and an array after all unions. -/
theorem compare_isTotalOrder_nested :
    let short : Descriptor := .object [("k", .union [.literal .null, .array .unknown])]
    let long : Descriptor :=
      .object [("k", .union [.literal .null, .array .unknown, .object []])]
    let last : Descriptor := .object [("k", .array (.literal .null))]
    (short.compare long).isLE ∧ (long.compare last).isLE ∧ (short.compare last).isLE ∧
      long.compare short = .gt ∧
      (literal (.number (.ofBinary64 ⟨true, 0⟩))).compare
        (literal (.number (.ofBinary64 ⟨false, 0⟩))) = .eq := by
  intro short long last
  have hshort : (short.compare long).isLE := by decide
  have hlong : (long.compare last).isLE := by decide
  obtain ⟨⟨hswap, -, htrans, -⟩, hzero, -⟩ := compare_isTotalOrder short long last
  refine ⟨hshort, hlong, htrans hshort hlong, ?_, (hzero _ _).mpr (.inr ⟨rfl, rfl⟩)⟩
  rw [hswap]
  decide

end Descriptor

end ShapeInference
