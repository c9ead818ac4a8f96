import ShapeInference.Proofs.Descriptor.Form
import ShapeInference.Proofs.Descriptor.Merge

/-!
# Closed properties of descriptors

A property of descriptors is closed when all ways to make descriptors from others keep it: wrapping
them, joining alternatives, taking a union apart and merging. Whatever is made of the numbers in
values has a closed property as soon as the literals of these numbers have it. Being normal is
closed, and so is being normal without infinite numbers.

Main statements: `Descriptor.closed_normal` and `Descriptor.closed_finite`.
-/

namespace ShapeInference

/-! ## Numbers of values -/

namespace Json

mutual

/-- The numbers in a value, as places on the number line. -/
def numbers : Json → List LinePoint
  | null => []
  | bool _ => []
  | number n => [.ofBinary64 n.toBinary64]
  | string _ => []
  | array values => numbersOfAll values
  | object members => numbersOfMembers members

/-- The numbers in values. -/
def numbersOfAll : List Json → List LinePoint
  | [] => []
  | value :: rest => numbers value ++ numbersOfAll rest

/-- The numbers in the members of an object. -/
def numbersOfMembers : List (String × Json) → List LinePoint
  | [] => []
  | (_, value) :: rest => numbers value ++ numbersOfMembers rest

end

/-- Every number in the value is finite, as are all numbers that JSON texts spell. -/
def FiniteNumbers (value : Json) : Prop :=
  ∀ p ∈ value.numbers, p.isFinite = true

theorem numbersOfAll_eq (values : List Json) : numbersOfAll values = values.flatMap numbers := by
  induction values with
  | nil => rfl
  | cons value rest ih => rw [numbersOfAll, ih, List.flatMap_cons]

theorem numbersOfMembers_eq (members : List (String × Json)) :
    numbersOfMembers members = members.flatMap fun member => member.2.numbers := by
  induction members with
  | nil => rfl
  | cons member rest ih => rw [numbersOfMembers, ih, List.flatMap_cons]

theorem numbers_subset_of_get? {members : List (String × Json)} {name : String} {value : Json}
    (h : Bindings.get? members name = some value) : value.numbers ⊆ numbersOfMembers members := by
  intro p hp
  rw [numbersOfMembers_eq]
  exact List.mem_flatMap.mpr ⟨(name, value), Bindings.mem_of_get?_eq_some h, hp⟩

theorem numbers_subset_of_member? {value member : Json} {name : String}
    (h : value.member? name = some member) : member.numbers ⊆ value.numbers := by
  cases value with
  | object members => exact numbers_subset_of_get? h
  | _ => contradiction

end Json

theorem Literal.numbers_of_ofJson? {value : Json} {l : Literal} (h : ofJson? value = some l) :
    l.numbers = value.numbers := by
  cases value <;> first | contradiction | (obtain rfl := Option.some.inj h; rfl)

namespace Descriptor

/-! ## Closed properties -/

/-- A property of descriptors that all ways to make descriptors from others keep. A primitive has it
if its number, where it has one, has a property that zero has. -/
structure Closed (number : LinePoint → Prop) (p : Descriptor → Prop) : Prop where
  zero : number .zero
  unknown : p unknown
  primitive : ∀ kind, (∀ n ∈ (primitive kind).numbers, number n) → p (primitive kind)
  array : ∀ d, p d → p (array d)
  ofFields : ∀ fields, (∀ field ∈ fields, p field.2) → p (ofFields fields)
  unionOf : ∀ ds, (∀ d ∈ ds, p d) → p (unionOf ds)
  members : ∀ d, p d → ∀ e ∈ d.members, p e
  merge : ∀ a b c, p a → p b → merge a b = .ok c → p c

/-- Being normal is kept by everything descriptors are built with. -/
theorem closed_normal : Closed (fun _ => True) Normal where
  zero := trivial
  unknown := .unknown
  primitive kind _ := .primitive kind
  array _ := .array
  ofFields _ := .ofFields
  unionOf _ := .unionOf
  members _ h _ := h.of_mem_members
  merge _ _ _ := Normal.merge

/-! ## Finite numbers -/

theorem numbers_ofMembers (ds : List Descriptor) : (ofMembers ds).numbers = ds.flatMap numbers := by
  match ds with
  | [] => rfl
  | [d] => rw [ofMembers, List.flatMap_singleton]
  | d :: e :: rest => exact numbers_union _

theorem FiniteNumbers.of_mem_members {d e : Descriptor} (h : d.FiniteNumbers) (he : e ∈ d.members) :
    e.FiniteNumbers := by
  cases d with
  | union ds => exact h.of_mem_union he
  | _ =>
      rw [List.mem_singleton.mp he]
      exact h

theorem finiteNumbers_object_iff {fields : List (String × Descriptor)} :
    (object fields).FiniteNumbers ↔ ∀ field ∈ fields, field.2.FiniteNumbers := by
  refine ⟨fun h field => h.of_mem_object, ?_⟩
  intro h p hp
  rw [numbers_object] at hp
  obtain ⟨field, hfield, hp⟩ := List.mem_flatMap.mp hp
  exact h field hfield p hp

/-- Fields with finite numbers are collected into an object with finite numbers. -/
theorem finiteNumbers_ofFields {fields : List (String × Descriptor)}
    (h : ∀ field ∈ fields, field.2.FiniteNumbers) : (ofFields fields).FiniteNumbers := by
  rw [ofFields, finiteNumbers_object_iff]
  rintro ⟨name, d⟩ hfield
  have hget := Bindings.get?_eq_some_of_mem (Bindings.sorted_sortedOfPairs fields).nodup hfield
  rw [Bindings.get?_sortedOfPairs] at hget
  exact h (name, d) (List.mem_reverse.mp (Bindings.mem_of_get?_eq_some hget))

theorem finiteNumbers_unionOf {ds : List Descriptor} (h : ∀ d ∈ ds, d.FiniteNumbers) :
    (unionOf ds).FiniteNumbers := by
  by_cases hu : unknown ∈ ds
  · rw [unionOf_of_unknown_mem hu]
    exact fun p hp => absurd hp List.not_mem_nil
  · rw [unionOf_of_unknown_not_mem hu]
    intro p hp
    rw [numbers_ofMembers] at hp
    obtain ⟨e, he, hp⟩ := List.mem_flatMap.mp hp
    obtain ⟨d, hd, hed⟩ := List.mem_flatMap.mp (mem_sortedMembers.mp he)
    exact (h d hd).of_mem_members hed p hp

/-- Merging makes no numbers up. -/
theorem FiniteNumbers.merge {a b c : Descriptor} (ha : Normal a) (hb : Normal b)
    (hfa : a.FiniteNumbers) (hfb : b.FiniteNumbers) (h : merge a b = .ok c) : c.FiniteNumbers := by
  induction ha generalizing b c with
  | unknown =>
      rw [merge_unknown_left] at h
      exact Except.ok.inj h ▸ hfb
  | primitive kind =>
      cases Merges.of_merge_eq h with
      | unknownRight => exact hfa
      | emptyLeft => exact hfb
      | primitive => exact hfb
  | union =>
      cases Merges.of_merge_eq h with
      | unknownRight => exact hfa
      | union left right =>
          apply finiteNumbers_unionOf
          intro d hd
          rcases List.mem_append.mp hd with hleft | hright
          · exact hfa.of_mem_union hleft
          · exact hfb.of_mem_union hright
  | array part ih =>
      cases Merges.of_merge_eq h with
      | unknownRight => exact hfa
      | @array _ right d merged =>
          have hpart : d.FiniteNumbers := ih hb.element hfa hfb merged
          exact hpart
  | object sorted parts ih =>
      cases Merges.of_merge_eq h with
      | unknownRight => exact hfa
      | emptyRight => exact hfa
      | object merged =>
          obtain ⟨hf, hfound⟩ := (mergeInto_eq_ok_iff sorted hb.sorted).mp merged
          rw [finiteNumbers_object_iff]
          rintro ⟨name, d⟩ hfield
          have hd := Bindings.get?_eq_some_of_mem hf.nodup hfield
          refine (hfound name).keeps hd ?_ ?_ ?_
          · exact fun a ha => hfa.of_mem_object (Bindings.mem_of_get?_eq_some ha)
          · exact fun b hb' => hfb.of_mem_object (Bindings.mem_of_get?_eq_some hb')
          · intro a b ha hb' hmerge
            have hamem := Bindings.mem_of_get?_eq_some ha
            have hbmem := Bindings.mem_of_get?_eq_some hb'
            exact ih (name, a) hamem (hb.field hb') (hfa.of_mem_object hamem)
              (hfb.of_mem_object hbmem) hmerge

/-- Being normal without infinite numbers is closed. -/
theorem closed_finite :
    Closed (fun n => n.isFinite = true) fun d => d.Normal ∧ d.FiniteNumbers where
  zero := rfl
  unknown := ⟨.unknown, fun _ hp => absurd hp List.not_mem_nil⟩
  primitive kind h := ⟨.primitive kind, h⟩
  array _ h := ⟨.array h.1, h.2⟩
  ofFields _ h := ⟨.ofFields fun field hfield => (h field hfield).1,
    finiteNumbers_ofFields fun field hfield => (h field hfield).2⟩
  unionOf _ h := ⟨.unionOf fun d hd => (h d hd).1, finiteNumbers_unionOf fun d hd => (h d hd).2⟩
  members _ h _ he := ⟨h.1.of_mem_members he, h.2.of_mem_members he⟩
  merge _ _ _ ha hb h := ⟨ha.1.merge hb.1 h, ha.2.merge ha.1 hb.1 hb.2 h⟩

end Descriptor

end ShapeInference
