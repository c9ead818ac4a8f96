import Mathlib.Data.String.Basic
import ShapeInference.Descriptor.Order

/-!
# The order of descriptors is total

Comparison is antisymmetric and transitive at every nesting, and `Descriptor.compare_eq_iff` makes
it total. Descriptors of different kinds are told apart by their rank alone, so only descriptors of
one kind need an induction.
-/

namespace ShapeInference

/-- Transitivity of a comparison by a first and then by a second part. -/
theorem then_lt_trans {o₁ o₂ o₃ p₁ p₂ p₃ : Ordering}
    (hlt : o₁ = .lt → o₂ = .lt → o₃ = .lt) (hleft : o₁ = .eq → o₃ = o₂)
    (hright : o₂ = .eq → o₃ = o₁) (hrest : o₁ = .eq → o₂ = .eq → p₁ = .lt → p₂ = .lt → p₃ = .lt)
    (h₁ : o₁.then p₁ = .lt) (h₂ : o₂.then p₂ = .lt) : o₃.then p₃ = .lt := by
  rcases Ordering.then_eq_lt.mp h₁ with h | ⟨h, hp⟩
  · rcases Ordering.then_eq_lt.mp h₂ with h' | ⟨h', -⟩
    · exact Ordering.then_eq_lt.mpr (Or.inl (hlt h h'))
    · exact Ordering.then_eq_lt.mpr (Or.inl ((hright h').trans h))
  · rcases Ordering.then_eq_lt.mp h₂ with h' | ⟨h', hp'⟩
    · exact Ordering.then_eq_lt.mpr (Or.inl ((hleft h).trans h'))
    · exact Ordering.then_eq_lt.mpr (Or.inr ⟨(hleft h).trans h', hrest h h' hp hp'⟩)

namespace Literal

theorem compare_swap (a b : Literal) : a.compare b = (b.compare a).swap := by
  cases a <;> cases b <;> first | rfl | exact Std.OrientedOrd.eq_swap

theorem compare_lt_trans {a b c : Literal} (hab : a.compare b = .lt) (hbc : b.compare c = .lt) :
    a.compare c = .lt := by
  cases a <;> cases b <;> cases c <;> first
    | contradiction
    | rfl
    | exact @Std.TransCmp.lt_trans _ Ord.compare _ _ _ _ hab hbc

end Literal

namespace Primitive

theorem compare_swap (a b : Primitive) : a.compare b = (b.compare a).swap := by
  cases a <;> cases b <;> first | rfl | exact Literal.compare_swap _ _

theorem compare_lt_trans {a b c : Primitive} (hab : a.compare b = .lt)
    (hbc : b.compare c = .lt) : a.compare c = .lt := by
  cases a <;> cases b <;> cases c <;> first
    | contradiction
    | rfl
    | exact Literal.compare_lt_trans hab hbc

end Primitive

namespace Descriptor

mutual

/-- Comparing the other way round gives the mirrored result. -/
theorem compare_swap : ∀ a b : Descriptor, a.compare b = (b.compare a).swap
  | unknown, b => by cases b <;> rfl
  | primitive p, b => by
    cases b <;> first | rfl | exact Primitive.compare_swap _ _
  | union as, b => by
    cases b <;> first | rfl | exact compareLists_swap _ _
  | array a, b => by
    cases b <;> first | rfl | exact compare_swap a _
  | object as, b => by
    cases b <;> first | rfl | exact compareFields_swap _ _

theorem compareLists_swap : ∀ as bs : List Descriptor,
    compareLists as bs = (compareLists bs as).swap
  | [], bs => by cases bs <;> rfl
  | a :: as, [] => rfl
  | a :: as, b :: bs => by
    rw [compareLists, compareLists, compare_swap a b, compareLists_swap as bs,
      Ordering.swap_then]

theorem compareFields_swap : ∀ as bs : List (String × Descriptor),
    compareFields as bs = (compareFields bs as).swap
  | [], bs => by cases bs <;> rfl
  | a :: as, [] => rfl
  | (k, a) :: as, (l, b) :: bs => by
    rw [compareFields, compareFields, compare_swap a b, compareFields_swap as bs,
      Std.OrientedOrd.eq_swap (a := k), Ordering.swap_then, Ordering.swap_then]

end

theorem compare_self (a : Descriptor) : a.compare a = .eq := compare_eq_iff.mpr rfl

mutual

/-- The order is transitive, at every depth. -/
theorem compare_lt_trans : ∀ {a b c : Descriptor},
    a.compare b = .lt → b.compare c = .lt → a.compare c = .lt
  | unknown, b, c, hab, hbc => by cases b <;> cases c <;> first | contradiction | rfl
  | primitive p, b, c, hab, hbc => by
    cases b <;> cases c <;> first
      | contradiction
      | rfl
      | exact Primitive.compare_lt_trans hab hbc
  | union as, b, c, hab, hbc => by
    cases b <;> cases c <;> first
      | contradiction
      | rfl
      | exact compareLists_lt_trans hab hbc
  | array a, b, c, hab, hbc => by
    cases b <;> cases c <;> first
      | contradiction
      | rfl
      | exact compare_lt_trans (a := a) hab hbc
  | object as, b, c, hab, hbc => by
    cases b <;> cases c <;> first
      | contradiction
      | rfl
      | exact compareFields_lt_trans hab hbc

theorem compareLists_lt_trans : ∀ {as bs cs : List Descriptor},
    compareLists as bs = .lt → compareLists bs cs = .lt → compareLists as cs = .lt
  | [], bs, cs, hab, hbc => by cases bs <;> cases cs <;> first | contradiction | rfl
  | a :: as, [], cs, hab, hbc => by contradiction
  | a :: as, b :: bs, [], hab, hbc => by contradiction
  | a :: as, b :: bs, c :: cs, hab, hbc => by
    refine then_lt_trans compare_lt_trans ?_ ?_ ?_ hab hbc
    · exact fun h => by rw [compare_eq_iff.mp h]
    · exact fun h => by rw [compare_eq_iff.mp h]
    · exact fun _ _ => compareLists_lt_trans

theorem compareFields_lt_trans : ∀ {as bs cs : List (String × Descriptor)},
    compareFields as bs = .lt → compareFields bs cs = .lt → compareFields as cs = .lt
  | [], bs, cs, hab, hbc => by cases bs <;> cases cs <;> first | contradiction | rfl
  | a :: as, [], cs, hab, hbc => by contradiction
  | a :: as, b :: bs, [], hab, hbc => by contradiction
  | (k, a) :: as, (l, b) :: bs, (m, c) :: cs, hab, hbc => by
    refine then_lt_trans (fun h h' => Std.TransCmp.lt_trans h h') ?_ ?_ ?_ hab hbc
    · exact fun h => by rw [Std.LawfulEqCmp.eq_of_compare h]
    · exact fun h => by rw [Std.LawfulEqCmp.eq_of_compare h]
    · intro _ _
      refine then_lt_trans compare_lt_trans ?_ ?_ ?_
      · exact fun h => by rw [compare_eq_iff.mp h]
      · exact fun h => by rw [compare_eq_iff.mp h]
      · exact fun _ _ => compareFields_lt_trans

end

instance : Std.LawfulEqCmp Descriptor.compare where
  compare_self := compare_self _
  eq_of_compare := compare_eq_iff.mp

instance : Std.TransCmp Descriptor.compare where
  eq_swap := compare_swap _ _
  isLE_trans {a b c} hab hbc := by
    rcases h : a.compare b with _ | _ | _
    · rcases h' : b.compare c with _ | _ | _
      · rw [compare_lt_trans h h']; rfl
      · rw [← compare_eq_iff.mp h', h]; rfl
      · rw [h'] at hbc; contradiction
    · rw [compare_eq_iff.mp h]; exact hbc
    · rw [h] at hab; contradiction

end Descriptor

end ShapeInference
