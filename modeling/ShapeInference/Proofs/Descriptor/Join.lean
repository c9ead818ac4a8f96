import ShapeInference.Path
import ShapeInference.Proofs.Descriptor.Bound

/-!
# Joins of descriptors

The join of descriptors lies below just those descriptors that are above all of them. Merging many
descriptors finds their join, and fails if there is none. What lies above a descriptor that is
wrapped for a step has a child there that lies above the descriptor itself.

Main statements: `Descriptor.mergeList_eq_ok_iff`, `Descriptor.below_inside_iff` and
`Descriptor.below_object_iff`.
-/

namespace ShapeInference.Descriptor

/-- The type of a value of which only the type one step further is known. -/
def inside : Segment → Descriptor → Descriptor
  | .key name, d => object [(name, d)]
  | .each, d => array d

/-- The type of a value of which only the type some steps further is known. -/
def nest (steps : List Segment) (d : Descriptor) : Descriptor :=
  steps.foldr inside d

/-- The type one step further in an object or an array. -/
def child? : Segment → Descriptor → Option Descriptor
  | .key name, d => d.field? name
  | .each, d => d.element?

/-- A normal descriptor is the join of others if it lies below just what is above all of them. -/
structure IsJoin (ds : List Descriptor) (c : Descriptor) : Prop where
  normal : Normal c
  below_iff : ∀ b, Normal b → (Below c b ↔ ∀ d ∈ ds, Below d b)

theorem nest_cons (step : Segment) (rest : List Segment) (d : Descriptor) :
    nest (step :: rest) d = inside step (nest rest d) := rfl

theorem inside_inj {step : Segment} {d e : Descriptor} : inside step d = inside step e ↔ d = e := by
  cases step <;> simp [inside]

/-- What is nested along the same steps can be told apart. -/
theorem nest_inj {steps : List Segment} {d e : Descriptor} :
    nest steps d = nest steps e ↔ d = e := by
  induction steps with
  | nil => rfl
  | cons step rest ih => rw [nest_cons, nest_cons, inside_inj, ih]

theorem Normal.inside {d : Descriptor} (h : Normal d) (step : Segment) :
    Normal (inside step d) := by
  cases step with
  | key name =>
      apply Normal.object (Bindings.sorted_singleton _)
      rw [List.forall_mem_singleton]
      exact h
  | each => exact .array h

theorem Normal.nest {d : Descriptor} (h : Normal d) (steps : List Segment) :
    Normal (nest steps d) := by
  induction steps with
  | nil => exact h
  | cons step rest ih => exact ih.inside step

theorem Normal.child? {d e : Descriptor} (h : Normal d) {step : Segment}
    (he : d.child? step = some e) : Normal e := by
  cases step with
  | key name =>
      cases d with
      | object fields => exact h.field he
      | _ => contradiction
  | each =>
      cases d with
      | array element =>
          obtain rfl := Option.some.inj he
          exact h.element
      | _ => contradiction

/-! ## Joins -/

/-- The join of descriptors is above all of them. -/
theorem IsJoin.above {ds : List Descriptor} {c : Descriptor} (h : IsJoin ds c) :
    ∀ d ∈ ds, Below d c :=
  (h.below_iff c h.normal).mp (below_refl h.normal)

theorem IsJoin.unique {ds : List Descriptor} {c d : Descriptor} (hc : IsJoin ds c)
    (hd : IsJoin ds d) : c = d := by
  apply Below.antisymm hc.normal hd.normal
  · exact (hc.below_iff d hd.normal).mpr hd.above
  · exact (hd.below_iff c hc.normal).mpr hc.above

/-- Lists with the same upper bounds have the same join. -/
theorem isJoin_congr {as bs : List Descriptor} {c : Descriptor}
    (h : ∀ b, Normal b → ((∀ d ∈ as, Below d b) ↔ ∀ d ∈ bs, Below d b)) :
    IsJoin as c ↔ IsJoin bs c := by
  constructor
  · intro hc
    exact ⟨hc.normal, fun b hb => (hc.below_iff b hb).trans (h b hb)⟩
  · intro hc
    exact ⟨hc.normal, fun b hb => (hc.below_iff b hb).trans (h b hb).symm⟩

section

variable {ds : List Descriptor} (hds : ∀ d ∈ ds, Normal d)

include hds

/-- A merge of a list is its join. -/
theorem isJoin_of_mergeList {c : Descriptor} (hc : mergeList ds = .ok c) : IsJoin ds c := by
  obtain ⟨hn, -, hbelow⟩ := below_of_foldlM_merge .unknown hds hc
  refine ⟨hn, fun b hb => ⟨?_, ?_⟩⟩
  · intro hcb d hd
    exact (hbelow d hd).trans (hds d hd) hn hb hcb
  · intro hall
    obtain ⟨e, he, heb⟩ := exists_foldlM_merge_below .unknown hds hb (below_unknown b) hall
    obtain rfl := Except.ok.inj (Eq.trans (Eq.symm he) hc)
    exact heb

/-- Descriptors with a common upper bound have a join. -/
theorem exists_isJoin {b : Descriptor} (hb : Normal b) (h : ∀ d ∈ ds, Below d b) :
    ∃ c, IsJoin ds c := by
  obtain ⟨c, hc, -⟩ := exists_foldlM_merge_below .unknown hds hb (below_unknown b) h
  exact ⟨c, isJoin_of_mergeList hds hc⟩

/-- Merging many descriptors succeeds exactly with their join. -/
theorem mergeList_eq_ok_iff {c : Descriptor} : mergeList ds = .ok c ↔ IsJoin ds c := by
  refine ⟨isJoin_of_mergeList hds, fun hc => ?_⟩
  obtain ⟨e, he, -⟩ := exists_foldlM_merge_below .unknown hds hc.normal (below_unknown c) hc.above
  rw [hc.unique (isJoin_of_mergeList hds he)]
  exact he

end

/-! ## What lies above objects and arrays -/

/-- What lies above an object is an object that has, at each of its names, something above the
field. -/
theorem below_object_iff {fields : List (String × Descriptor)} (hsorted : Bindings.Sorted fields)
    {b : Descriptor} (hb : Normal b) :
    Below (object fields) b ↔ ∃ others, b = object others ∧ ∀ name d,
      Bindings.get? fields name = some d → ∃ e, Bindings.get? others name = some e ∧ Below d e := by
  constructor
  · intro h
    cases Merges.of_merge_eq h with
    | @object _ others _ merged =>
        obtain ⟨-, hfound⟩ := (mergeInto_eq_ok_iff hsorted hb.sorted).mp merged
        refine ⟨others, rfl, ?_⟩
        intro name d hd
        have hname := hfound name
        rw [hd] at hname
        cases hother : Bindings.get? others name with
        | none =>
            rw [hother, mergesFound_none_right] at hname
            contradiction
        | some e =>
            rw [hother, mergesFound_some] at hname
            obtain ⟨c, hc, heq⟩ := hname
            obtain rfl := Option.some.inj heq
            exact ⟨e, rfl, hc⟩
  · rintro ⟨others, rfl, hall⟩
    apply (Merges.object ((mergeInto_eq_ok_iff hsorted hb.sorted).mpr ⟨hb.sorted, ?_⟩)).merge_eq
    intro name
    cases hd : Bindings.get? fields name with
    | none => exact .right _
    | some d =>
        obtain ⟨e, he, hbelow⟩ := hall name d hd
        rw [he]
        exact .both hbelow

/-- What lies above an array is an array of something above its elements. -/
theorem below_array_iff {d b : Descriptor} : Below (array d) b ↔ ∃ e, b = array e ∧ Below d e := by
  constructor
  · intro h
    cases Merges.of_merge_eq h with
    | array merged => exact ⟨_, rfl, merged⟩
  · rintro ⟨e, rfl, hbelow⟩
    exact (Merges.array hbelow).merge_eq

/-- A wrapped descriptor lies below just what has something above it one step further. -/
theorem below_inside_iff {step : Segment} {d b : Descriptor} (hb : Normal b) :
    Below (inside step d) b ↔ ∃ e, b.child? step = some e ∧ Below d e := by
  cases step with
  | key name =>
      rw [inside, below_object_iff (Bindings.sorted_singleton _) hb]
      constructor
      · rintro ⟨others, rfl, hall⟩
        exact hall name d (by simp [Bindings.get?])
      · rintro ⟨e, he, hbelow⟩
        cases b with
        | object others =>
            refine ⟨others, rfl, ?_⟩
            intro other d' hd'
            simp only [Bindings.get?, Option.ite_none_right_eq_some, Option.some.injEq] at hd'
            obtain ⟨rfl, rfl⟩ := hd'
            exact ⟨e, he, hbelow⟩
        | _ => contradiction
  | each =>
      rw [inside, below_array_iff]
      constructor
      · rintro ⟨e, rfl, hbelow⟩
        exact ⟨e, rfl, hbelow⟩
      · rintro ⟨e, he, hbelow⟩
        cases b with
        | array element =>
            obtain rfl := Option.some.inj he
            exact ⟨element, rfl, hbelow⟩
        | _ => contradiction

end ShapeInference.Descriptor
