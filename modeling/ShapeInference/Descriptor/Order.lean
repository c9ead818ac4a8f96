import ShapeInference.Descriptor.Basic

/-!
# The order of descriptors

Descriptors are ordered by kind, and within a kind by their parts from left to right, a sequence
before its extensions. Unions keep their members in this order.

Main statement: `Descriptor.compare_eq_iff`, the order tells apart all descriptors that differ.
-/

namespace ShapeInference

namespace Literal

/-- The place of a kind of literal among the kinds. -/
def rank : Literal → Nat
  | undefined => 0
  | null => 1
  | bool _ => 2
  | number _ => 3
  | string _ => 4

/-- Literals by kind, then by value. -/
def compare : Literal → Literal → Ordering
  | bool a, bool b => Ord.compare a b
  | number a, number b => Ord.compare a.place b.place
  | string a, string b => Ord.compare a b
  | a, b => Ord.compare a.rank b.rank

theorem compare_eq_iff {a b : Literal} : a.compare b = .eq ↔ a = b := by
  cases a <;> cases b <;> simp [compare, rank, LinePoint.ext_iff]

end Literal

namespace Primitive

/-- The place of a kind of primitive among the kinds. -/
def rank : Primitive → Nat
  | boolean => 0
  | date => 1
  | integer => 2
  | float => 3
  | string => 4
  | emptyObject => 5
  | literal _ => 6

/-- Primitives by kind, literals among themselves by value. -/
def compare : Primitive → Primitive → Ordering
  | literal a, literal b => a.compare b
  | a, b => Ord.compare a.rank b.rank

theorem compare_eq_iff {a b : Primitive} : a.compare b = .eq ↔ a = b := by
  cases a <;> cases b <;> simp [compare, rank, Literal.compare_eq_iff]

end Primitive

namespace Descriptor

/-- The place of a kind of descriptor among the kinds. -/
def rank : Descriptor → Nat
  | unknown => 0
  | primitive _ => 1
  | union _ => 2
  | array _ => 3
  | object _ => 4

mutual

/-- Descriptors by kind, then by parts. -/
def compare : Descriptor → Descriptor → Ordering
  | primitive a, primitive b => a.compare b
  | union as, union bs => compareLists as bs
  | array a, array b => compare a b
  | object as, object bs => compareFields as bs
  | a, b => Ord.compare a.rank b.rank

/-- Sequences of descriptors by their first difference. -/
def compareLists : List Descriptor → List Descriptor → Ordering
  | [], [] => .eq
  | [], _ :: _ => .lt
  | _ :: _, [] => .gt
  | a :: as, b :: bs => (compare a b).then (compareLists as bs)

/-- Sequences of fields by their first difference, the name before the type. -/
def compareFields : List (String × Descriptor) → List (String × Descriptor) → Ordering
  | [], [] => .eq
  | [], _ :: _ => .lt
  | _ :: _, [] => .gt
  | (k, a) :: as, (l, b) :: bs =>
    (Ord.compare k l).then ((compare a b).then (compareFields as bs))

end

mutual

theorem compare_eq_iff : ∀ {a b : Descriptor}, a.compare b = .eq ↔ a = b
  | unknown, b => by cases b <;> simp [compare, rank]
  | primitive a, b => by cases b <;> simp [compare, rank, Primitive.compare_eq_iff]
  | union as, b => by cases b <;> simp [compare, rank, compareLists_eq_iff]
  | array a, b => by cases b <;> simp [compare, rank, compare_eq_iff]
  | object as, b => by cases b <;> simp [compare, rank, compareFields_eq_iff]

theorem compareLists_eq_iff : ∀ {as bs : List Descriptor}, compareLists as bs = .eq ↔ as = bs
  | [], bs => by cases bs <;> simp [compareLists]
  | a :: as, bs => by
    cases bs <;> simp [compareLists, Ordering.then_eq_eq, compare_eq_iff, compareLists_eq_iff]

theorem compareFields_eq_iff :
    ∀ {as bs : List (String × Descriptor)}, compareFields as bs = .eq ↔ as = bs
  | [], bs => by cases bs <;> simp [compareFields]
  | (k, a) :: as, bs => by
    cases bs with
    | nil => simp [compareFields]
    | cons b bs =>
      simp [compareFields, Ordering.then_eq_eq, compare_eq_iff, compareFields_eq_iff, Prod.ext_iff,
        and_assoc]

end

instance : DecidableEq Descriptor := fun a b =>
  decidable_of_iff (a.compare b = .eq) compare_eq_iff

end Descriptor

end ShapeInference
