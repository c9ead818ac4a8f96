import ShapeInference.Path
import ShapeInference.Proofs.Descriptor.Bound

/-!
# What steps lead to inside a descriptor

Steps lead from a descriptor through the fields of objects and the elements of arrays. A union is
entered through each of its members, so that several descriptors may be reached. What is reached in
one of two descriptors that merge is reached in the result too, unless it merges there with what is
reached in the other.

Main statements: `Descriptor.mem_reach_of_merge`, `Descriptor.Below.exists_mem_reach` and
`Descriptor.Describes.of_merge`.
-/

namespace ShapeInference.Descriptor

/-- The descriptors one step further: of a field of the members that are objects, or of the elements
of the members that are arrays. -/
def children (step : Segment) (d : Descriptor) : List Descriptor :=
  d.members.filterMap fun member =>
    match step with
    | .key name => member.field? name
    | .each => member.element?

/-- The descriptors that steps lead to. -/
def reach : List Segment → Descriptor → List Descriptor
  | [], d => [d]
  | step :: rest, d => (d.children step).flatMap (reach rest)

/-- Steps lead to something that is known. -/
def Describes (d : Descriptor) (steps : List Segment) : Prop :=
  ∃ reached ∈ d.reach steps, reached ≠ unknown

theorem mem_reach_nil {d e : Descriptor} : e ∈ d.reach [] ↔ e = d :=
  List.mem_singleton

/-- What is reached along a path is reached from a child at its first step. -/
theorem mem_reach_cons {d e : Descriptor} {step : Segment} {rest : List Segment} :
    e ∈ d.reach (step :: rest) ↔ ∃ child ∈ d.children step, e ∈ child.reach rest :=
  List.mem_flatMap

/-- A path is described exactly if a child at its first step describes the rest. -/
theorem describes_cons {d : Descriptor} {step : Segment} {rest : List Segment} :
    d.Describes (step :: rest) ↔ ∃ child ∈ d.children step, child.Describes rest := by
  simp only [Describes, mem_reach_cons]
  constructor
  · rintro ⟨reached, ⟨child, hchild, hreached⟩, hknown⟩
    exact ⟨child, hchild, reached, hreached, hknown⟩
  · rintro ⟨child, hchild, reached, hreached, hknown⟩
    exact ⟨reached, ⟨child, hchild, hreached⟩, hknown⟩

/-! ## One step -/

@[simp] theorem children_unknown (step : Segment) : unknown.children step = [] := by
  cases step <;> rfl

@[simp] theorem children_primitive (step : Segment) (kind : Primitive) :
    (primitive kind).children step = [] := by
  cases step <;> rfl

@[simp] theorem mem_children_object {fields : List (String × Descriptor)} {step : Segment}
    {child : Descriptor} :
    child ∈ (object fields).children step ↔
      ∃ name, step = .key name ∧ Bindings.get? fields name = some child := by
  cases step <;> simp [children, members, field?, element?]

@[simp] theorem mem_children_array {d : Descriptor} {step : Segment} {child : Descriptor} :
    child ∈ (array d).children step ↔ step = .each ∧ d = child := by
  cases step <;> simp [children, members, field?, element?, eq_comm]

/-- More members have more below them. -/
theorem children_subset {d e : Descriptor} (h : d.members ⊆ e.members) (step : Segment) :
    d.children step ⊆ e.children step :=
  List.filterMap_subset _ h

theorem ne_unknown_of_mem_children {d child : Descriptor} {step : Segment}
    (h : child ∈ d.children step) : d ≠ unknown := by
  rintro rfl
  simp at h

theorem Normal.of_mem_children {d child : Descriptor} {step : Segment} (h : Normal d)
    (hchild : child ∈ d.children step) : Normal child := by
  obtain ⟨member, hmember, hchild⟩ := List.mem_filterMap.mp hchild
  have hnormal := h.of_mem_members hmember
  cases step with
  | key name =>
      cases member with
      | object fields => exact hnormal.field hchild
      | _ => contradiction
  | each =>
      cases member with
      | array element =>
          obtain rfl := Option.some.inj hchild
          exact hnormal.element
      | _ => contradiction

theorem Normal.of_mem_reach {d e : Descriptor} {steps : List Segment} (h : Normal d)
    (he : e ∈ d.reach steps) : Normal e := by
  induction steps generalizing d with
  | nil => rwa [mem_reach_nil.mp he]
  | cons step rest ih =>
      obtain ⟨child, hchild, he⟩ := mem_reach_cons.mp he
      exact ih (h.of_mem_children hchild) he

/-! ## Unions -/

/-- Each descriptor of a union brings its members into it. -/
theorem members_subset_unionOf {ds : List Descriptor} (normal : ∀ d ∈ ds, Normal d)
    (hu : unknown ∉ ds) {d : Descriptor} (hd : d ∈ ds) : d.members ⊆ (unionOf ds).members := by
  intro e he
  rw [members_unionOf normal (List.ne_nil_of_mem hd) hu, mem_sortedMembers]
  exact List.mem_flatMap.mpr ⟨d, hd, he⟩

/-- The members of two merged unions are the members of either. -/
theorem mem_members_union_merge {left right : List Descriptor} (ha : Normal (union left))
    (hb : Normal (union right)) {e : Descriptor} :
    e ∈ (unionOf (left ++ right)).members ↔ e ∈ left ∨ e ∈ right := by
  rw [unionOf_append_of_union ha hb, members, mem_sortedMembers, List.mem_append]

/-! ## Merging -/

section

variable {a b c : Descriptor} (ha : Normal a) (hb : Normal b) (h : merge a b = .ok c)

include ha hb h

/-- What the right side has one step further is kept, or merges with something of the left side. -/
theorem mem_children_of_merge {step : Segment} {y : Descriptor} (hy : y ∈ b.children step) :
    y ∈ c.children step ∨
      ∃ x ∈ a.children step, ∃ z ∈ c.children step, merge x y = .ok z := by
  cases Merges.of_merge_eq h with
  | unknownLeft => exact .inl hy
  | unknownRight => simp at hy
  | emptyLeft => exact .inl hy
  | emptyRight => simp [emptyObject] at hy
  | @object left right fields merged =>
      obtain ⟨name, rfl, hright⟩ := mem_children_object.mp hy
      have hfound := ((mergeInto_eq_ok_iff ha.sorted hb.sorted).mp merged).2 name
      cases hx : Bindings.get? left name with
      | none =>
          rw [hx, hright, mergesFound_none_left] at hfound
          exact .inl (mem_children_object.mpr ⟨name, rfl, hfound⟩)
      | some x =>
          rw [hx, hright, mergesFound_some] at hfound
          obtain ⟨z, hz, hfound⟩ := hfound
          exact .inr ⟨x, mem_children_object.mpr ⟨name, rfl, hx⟩,
            z, mem_children_object.mpr ⟨name, rfl, hfound⟩, hz⟩
  | @array left right d merged =>
      obtain ⟨rfl, rfl⟩ := mem_children_array.mp hy
      exact .inr ⟨left, mem_children_array.mpr ⟨rfl, rfl⟩,
        d, mem_children_array.mpr ⟨rfl, rfl⟩, merged⟩
  | primitive => simp at hy
  | union left right =>
      refine .inl (children_subset ?_ step hy)
      exact fun e he => (mem_members_union_merge ha hb).mpr (.inr he)

/-- What the result has one step further stems from one side or is merged from both. -/
theorem mem_children_merge {step : Segment} {z : Descriptor} (hz : z ∈ c.children step) :
    z ∈ a.children step ∨ z ∈ b.children step ∨
      ∃ x ∈ a.children step, ∃ y ∈ b.children step, merge x y = .ok z := by
  cases Merges.of_merge_eq h with
  | unknownLeft => exact .inr (.inl hz)
  | unknownRight => exact .inl hz
  | emptyLeft => exact .inr (.inl hz)
  | emptyRight => exact .inl hz
  | @object left right fields merged =>
      obtain ⟨name, rfl, hresult⟩ := mem_children_object.mp hz
      have hfound := ((mergeInto_eq_ok_iff ha.sorted hb.sorted).mp merged).2 name
      simp only [mem_children_object, Segment.key.injEq, exists_eq_left']
      rw [hresult] at hfound
      cases hx : Bindings.get? left name with
      | none =>
          rw [hx, mergesFound_none_left] at hfound
          exact .inr (.inl hfound.symm)
      | some x =>
          cases hy : Bindings.get? right name with
          | none =>
              rw [hy, hx, mergesFound_none_right] at hfound
              exact .inl hfound.symm
          | some y =>
              rw [hx, hy, mergesFound_some] at hfound
              obtain ⟨z', hmerge, heq⟩ := hfound
              obtain rfl := Option.some.inj heq
              exact .inr (.inr ⟨x, rfl, y, rfl, hmerge⟩)
  | @array left right d merged =>
      obtain ⟨rfl, rfl⟩ := mem_children_array.mp hz
      exact .inr (.inr ⟨left, mem_children_array.mpr ⟨rfl, rfl⟩,
        right, mem_children_array.mpr ⟨rfl, rfl⟩, merged⟩)
  | primitive => simp at hz
  | union left right =>
      obtain ⟨member, hmember, hz⟩ := List.mem_filterMap.mp hz
      rcases (mem_members_union_merge ha hb).mp hmember with hleft | hright
      · exact .inl (List.mem_filterMap.mpr ⟨member, hleft, hz⟩)
      · exact .inr (.inl (List.mem_filterMap.mpr ⟨member, hright, hz⟩))

/-- What steps lead to on the right side is kept, or merges with something on the left side. -/
theorem mem_reach_of_merge {steps : List Segment} {y : Descriptor} (hy : y ∈ b.reach steps) :
    y ∈ c.reach steps ∨ ∃ x ∈ a.reach steps, ∃ z ∈ c.reach steps, merge x y = .ok z := by
  induction steps generalizing a b c with
  | nil =>
      rw [mem_reach_nil.mp hy]
      exact .inr ⟨a, mem_reach_nil.mpr rfl, c, mem_reach_nil.mpr rfl, h⟩
  | cons step rest ih =>
      obtain ⟨next, hnext, hy⟩ := mem_reach_cons.mp hy
      rcases mem_children_of_merge ha hb h hnext with hkept | ⟨x, hx, z, hz, hmerge⟩
      · exact .inl (mem_reach_cons.mpr ⟨next, hkept, hy⟩)
      · rcases ih (ha.of_mem_children hx) (hb.of_mem_children hnext) hmerge hy with
          hkept | ⟨x', hx', z', hz', hmerge'⟩
        · exact .inl (mem_reach_cons.mpr ⟨z, hz, hkept⟩)
        · exact .inr ⟨x', mem_reach_cons.mpr ⟨x, hx, hx'⟩,
            z', mem_reach_cons.mpr ⟨z, hz, hz'⟩, hmerge'⟩

/-- Where steps lead to nothing known on the right side, they do so in the result unless the left
side knows something there. -/
theorem unknown_mem_reach_or_describes {steps : List Segment} (hb' : unknown ∈ b.reach steps) :
    unknown ∈ c.reach steps ∨ a.Describes steps := by
  rcases mem_reach_of_merge ha hb h hb' with hkept | ⟨x, hx, z, hz, hmerge⟩
  · exact .inl hkept
  · rw [merge_unknown_right, Except.ok.injEq] at hmerge
    subst hmerge
    by_cases hknown : x = unknown
    · exact .inl (hknown ▸ hz)
    · exact .inr ⟨x, hx, hknown⟩

/-- The result knows of a place only what one of the sides does. -/
theorem Describes.of_merge {steps : List Segment} (hc : c.Describes steps) :
    a.Describes steps ∨ b.Describes steps := by
  induction steps generalizing a b c with
  | nil =>
      obtain ⟨z, hz, hknown⟩ := hc
      rw [mem_reach_nil.mp hz] at hknown
      by_cases hu : a = unknown
      · subst hu
        rw [merge_unknown_left, Except.ok.injEq] at h
        exact .inr ⟨b, mem_reach_nil.mpr rfl, h ▸ hknown⟩
      · exact .inl ⟨a, mem_reach_nil.mpr rfl, hu⟩
  | cons step rest ih =>
      simp only [describes_cons] at hc ⊢
      obtain ⟨z, hz, hdescribes⟩ := hc
      rcases mem_children_merge ha hb h hz with hleft | hright | ⟨x, hx, y, hy, hmerge⟩
      · exact .inl ⟨z, hleft, hdescribes⟩
      · exact .inr ⟨z, hright, hdescribes⟩
      · refine (ih (ha.of_mem_children hx) (hb.of_mem_children hy) hmerge hdescribes).imp ?_ ?_
        · exact fun hdescribes => ⟨x, hx, hdescribes⟩
        · exact fun hdescribes => ⟨y, hy, hdescribes⟩

end

theorem not_describes_unknown (steps : List Segment) : ¬ unknown.Describes steps := by
  cases steps with
  | nil =>
      rintro ⟨reached, hreached, hknown⟩
      exact hknown (mem_reach_nil.mp hreached)
  | cons step rest => simp [describes_cons]

/-- Many descriptors know of a place only what one of them does. -/
theorem Describes.of_foldlM_merge {steps : List Segment} {ds : List Descriptor}
    (hds : ∀ d ∈ ds, Normal d) {start c : Descriptor} (hs : Normal start)
    (h : ds.foldlM merge start = .ok c) (hc : c.Describes steps) :
    start.Describes steps ∨ ∃ d ∈ ds, d.Describes steps := by
  induction ds generalizing start with
  | nil =>
      obtain rfl := Except.ok.inj h
      exact .inl hc
  | cons d rest ih =>
      obtain ⟨hd, hrest⟩ := List.forall_mem_cons.mp hds
      rw [List.foldlM_cons, bind_eq_ok_iff] at h
      obtain ⟨next, hnext, h⟩ := h
      rw [List.exists_mem_cons_iff, ← or_assoc]
      exact (ih hrest (hs.merge hd hnext) h).imp_left (of_merge hs hd hnext)

/-- A path that a merged list describes is described by one of the list. -/
theorem Describes.of_mergeList {steps : List Segment} {ds : List Descriptor}
    (hds : ∀ d ∈ ds, Normal d) {c : Descriptor} (h : mergeList ds = .ok c)
    (hc : c.Describes steps) : ∃ d ∈ ds, d.Describes steps :=
  (hc.of_foldlM_merge hds .unknown h).resolve_left (not_describes_unknown steps)

/-! ## Bounds -/

/-- What is reached in a descriptor is below something that is reached in each bound of it. -/
theorem Below.exists_mem_reach {a b : Descriptor} (ha : Normal a) (hb : Normal b) (h : Below a b)
    {steps : List Segment} {x : Descriptor} (hx : x ∈ a.reach steps) :
    ∃ y ∈ b.reach steps, Below x y := by
  have hswap : merge b a = .ok b := merge_swap ha.ordered hb.ordered h
  have hn : Normal x := ha.of_mem_reach hx
  rcases mem_reach_of_merge hb ha hswap hx with hkept | ⟨y, hy, z, hz, hmerge⟩
  · exact ⟨x, hkept, below_refl hn⟩
  · exact ⟨z, hz, below_of_merge_right (hb.of_mem_reach hy) hn hmerge⟩

end ShapeInference.Descriptor
