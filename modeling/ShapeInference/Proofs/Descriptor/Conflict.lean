import ShapeInference.Proofs.Descriptor.Merge

/-!
# Conflicts of merging

Merging two objects stops at the first name, in the order of names, whose types do not merge. Which
name that is does not depend on the side that is walked, so merging the other way round finds the
same conflict with its sides exchanged.

Main statements: `Descriptor.mergeInto_eq_error_iff` and `Descriptor.merge_eq_error_iff_swap`.
-/

namespace ShapeInference

/-- The conflict with its sides exchanged. -/
def Conflict.swap (c : Conflict) : Conflict :=
  ⟨c.trail, c.right, c.left⟩

@[simp] theorem Conflict.swap_swap (c : Conflict) : c.swap.swap = c := rfl

theorem Conflict.swap_under (step : String) (c : Conflict) :
    (c.under step).swap = c.swap.under step := rfl

namespace Descriptor

/-! ## The first name -/

/-- The types that two objects give to one field do not merge. -/
def ConflictsUnder (left right : List (String × Descriptor)) (name : String) (c : Conflict) :
    Prop :=
  ∃ a b, Bindings.get? left name = some a ∧ Bindings.get? right name = some b ∧
    merge a b = .error c

/-- The conflict of two objects under the first name whose types do not merge. -/
inductive FirstConflict (left right : List (String × Descriptor)) : Conflict → Prop where
  | under {name : String} {c : Conflict} (here : ConflictsUnder left right name c)
      (before : ∀ other < name, ∀ d, ¬ ConflictsUnder left right other d) :
      FirstConflict left right (c.under name)

section

variable {left right : List (String × Descriptor)}

theorem ConflictsUnder.unique {name : String} {c d : Conflict}
    (hc : ConflictsUnder left right name c) (hd : ConflictsUnder left right name d) : c = d := by
  obtain ⟨a, b, ha, hb, hc⟩ := hc
  obtain ⟨a', b', ha', hb', hd⟩ := hd
  obtain rfl := Option.some.inj (ha.symm.trans ha')
  obtain rfl := Option.some.inj (hb.symm.trans hb')
  exact Except.error.inj (hc.symm.trans hd)

theorem FirstConflict.unique {c d : Conflict} (hc : FirstConflict left right c)
    (hd : FirstConflict left right d) : c = d := by
  obtain @⟨name, c, here, before⟩ := hc
  obtain @⟨name', d, here', before'⟩ := hd
  rcases lt_trichotomy name name' with hlt | rfl | hgt
  · exact absurd here (before' name hlt c)
  · rw [here.unique here']
  · exact absurd here' (before name' hgt d)

/-- If the parts mirror their conflicts, so do the fields of a name. -/
theorem conflictsUnder_iff_swap
    (hparts : ∀ name a b, Bindings.get? left name = some a → Bindings.get? right name = some b →
      ∀ c, merge a b = .error c ↔ merge b a = .error c.swap) (name : String) (c : Conflict) :
    ConflictsUnder left right name c ↔ ConflictsUnder right left name c.swap := by
  constructor
  · rintro ⟨a, b, ha, hb, hab⟩
    exact ⟨b, a, hb, ha, (hparts name a b ha hb c).mp hab⟩
  · rintro ⟨b, a, hb, ha, hba⟩
    exact ⟨a, b, ha, hb, (hparts name a b ha hb c).mpr hba⟩

/-- The first conflict of two objects, read from the other side, is the first one there. -/
theorem FirstConflict.swap {c : Conflict}
    (hswap : ∀ name d, ConflictsUnder left right name d ↔ ConflictsUnder right left name d.swap)
    (h : FirstConflict left right c) : FirstConflict right left c.swap := by
  obtain @⟨name, c, here, before⟩ := h
  rw [Conflict.swap_under]
  refine .under ((hswap name c).mp here) fun other hlt d hd => before other hlt d.swap ?_
  rwa [hswap, Conflict.swap_swap]

/-- A field loop that fails does so at its first field or at a later one, with that field merged. -/
theorem mergeInto_cons_eq_error {name : String} {d : Descriptor} {c : Conflict}
    (h : mergeInto left ((name, d) :: right) = .error c) :
    (∃ e, ConflictsUnder left ((name, d) :: right) name e ∧ c = e.under name) ∨
      ∃ merged, MergesFound (Bindings.get? left name) (some d) (some merged) ∧
        mergeInto (Bindings.setSorted left name merged) right = .error c := by
  rw [mergeInto] at h
  cases hold : Bindings.get? left name with
  | none =>
      rw [hold] at h
      exact .inr ⟨d, .right _, h⟩
  | some old =>
      simp only [hold] at h
      cases hmerge : merge old d with
      | ok merged =>
          rw [hmerge] at h
          exact .inr ⟨merged, .both hmerge, h⟩
      | error e =>
          rw [hmerge] at h
          have hd : Bindings.get? ((name, d) :: right) name = some d := by
            rw [Bindings.get?_cons, if_pos rfl]
          exact .inl ⟨e, ⟨old, d, hold, hd, hmerge⟩, (Except.error.inj h).symm⟩

/-- Once a field is merged in, what conflicts under another name is what did before. -/
theorem conflictsUnder_setSorted_iff {key name : String} (hne : key ≠ name)
    (merged d : Descriptor) (c : Conflict) :
    ConflictsUnder (Bindings.setSorted left key merged) right name c ↔
      ConflictsUnder left ((key, d) :: right) name c := by
  rw [ConflictsUnder, ConflictsUnder, Bindings.get?_setSorted, if_neg hne.symm, Bindings.get?_cons,
    if_neg hne]

theorem ConflictsUnder.le_of_sorted {key name : String} {d : Descriptor} {c : Conflict}
    (hr : Bindings.Sorted ((key, d) :: right))
    (h : ConflictsUnder left ((key, d) :: right) name c) : key ≤ name := by
  obtain ⟨-, b, -, hb, -⟩ := h
  have hmem : name ∈ Bindings.names ((key, d) :: right) := by
    rw [← Bindings.isSome_get?_iff, hb]
    rfl
  rcases List.mem_cons.mp hmem with rfl | hrest
  · exact le_rfl
  · exact ((Bindings.sorted_cons.mp hr).1 name hrest).le

/-- What a field loop fails with is the first conflict of the two objects. -/
theorem firstConflict_of_mergeInto (hr : Bindings.Sorted right) {c : Conflict}
    (h : mergeInto left right = .error c) : FirstConflict left right c := by
  induction right generalizing left with
  | nil => contradiction
  | cons field rest ih =>
      obtain ⟨key, d⟩ := field
      rcases mergeInto_cons_eq_error h with ⟨e, here, rfl⟩ | ⟨merged, hmerged, hrest⟩
      · refine .under here fun other hlt e he => ?_
        exact absurd (he.le_of_sorted hr) (not_le.mpr hlt)
      · obtain @⟨name, c, here, before⟩ := ih (Bindings.sorted_cons.mp hr).2 hrest
        have hne : key ≠ name := by
          rintro rfl
          obtain ⟨-, b, -, hb, -⟩ := here
          rw [hr.get?_rest_eq_none] at hb
          contradiction
        refine .under ((conflictsUnder_setSorted_iff hne merged d c).mp here) ?_
        intro other hlt e he
        by_cases heq : key = other
        · -- Under the first name itself the types did merge.
          subst heq
          obtain ⟨a, b, ha, hb, hab⟩ := he
          rw [Bindings.get?_cons, if_pos rfl, Option.some.injEq] at hb
          subst hb
          rw [ha, mergesFound_some] at hmerged
          obtain ⟨m, hm, -⟩ := hmerged
          rw [hm] at hab
          contradiction
        · exact before other hlt e ((conflictsUnder_setSorted_iff heq merged d e).mpr he)

/-- Objects that conflict at some name are never merged. -/
theorem ConflictsUnder.mergeInto_ne_ok (hl : Bindings.Sorted left) (hr : Bindings.Sorted right)
    {name : String} {c : Conflict} (h : ConflictsUnder left right name c)
    (fields : List (String × Descriptor)) : mergeInto left right ≠ .ok fields := by
  intro hmerge
  obtain ⟨a, b, ha, hb, hab⟩ := h
  have hfound := ((mergeInto_eq_ok_iff hl hr).mp hmerge).2 name
  rw [ha, hb, mergesFound_some] at hfound
  obtain ⟨m, hm, -⟩ := hfound
  rw [hm] at hab
  contradiction

/-- Merging sorted fields fails with the conflict under the first name that has one. -/
theorem mergeInto_eq_error_iff (hl : Bindings.Sorted left) (hr : Bindings.Sorted right)
    {c : Conflict} : mergeInto left right = .error c ↔ FirstConflict left right c := by
  refine ⟨firstConflict_of_mergeInto hr, fun h => ?_⟩
  cases hmerge : mergeInto left right with
  | error d => rw [h.unique (firstConflict_of_mergeInto hr hmerge)]
  | ok fields =>
      obtain @⟨name, c, here, -⟩ := h
      exact absurd hmerge (here.mergeInto_ne_ok hl hr fields)

end

/-! ## The other way round -/

theorem error_here_iff_swap {a b : Descriptor} {c : Conflict} :
    (Except.error ⟨[], a, b⟩ : Except Conflict Descriptor) = .error c ↔
      (Except.error ⟨[], b, a⟩ : Except Conflict Descriptor) = .error c.swap := by
  obtain ⟨trail, left, right⟩ := c
  simp only [Conflict.swap, Except.error.injEq, Conflict.mk.injEq]
  exact and_congr_right fun _ => and_comm

theorem merge_object_eq_error_iff {left right : List (String × Descriptor)} {c : Conflict} :
    merge (object left) (object right) = .error c ↔ mergeInto left right = .error c := by
  rw [merge, map_eq_error_iff]

/-- Arrays conflict exactly if their elements do, one wildcard further up. -/
theorem merge_array_eq_error_iff {a b : Descriptor} {c : Conflict} :
    merge (array a) (array b) = .error c ↔ ∃ d, merge a b = .error d ∧ d.under "*" = c := by
  simp only [merge, mapError_eq_error_iff, map_eq_error_iff]

/-- Descriptors conflict exactly when they do the other way round, at the same place and with their
sides exchanged. -/
theorem merge_eq_error_iff_swap {a b : Descriptor} (ha : Ordered a) (hb : Ordered b)
    {c : Conflict} : merge a b = .error c ↔ merge b a = .error c.swap := by
  induction ha generalizing b c with
  | unknown => simp [merge_unknown_left, merge_unknown_right]
  | primitive kind =>
      cases b with
      | unknown => simp [merge]
      | primitive other =>
          by_cases h : kind = other
          · simp [merge, h]
          · simpa only [merge, h, Ne.symm h, if_false] using error_here_iff_swap
      | union ds => simpa only [merge] using error_here_iff_swap
      | array d => simpa only [merge] using error_here_iff_swap
      | object fields =>
          cases kind with
          | emptyObject => simp [merge]
          | _ => simpa only [merge] using error_here_iff_swap
  | @union ds =>
      cases b with
      | unknown => simp [merge]
      | union es => simp [merge]
      | _ => simpa only [merge] using error_here_iff_swap
  | @array d part ih =>
      cases b with
      | unknown => simp [merge]
      | array e =>
          rw [merge_array_eq_error_iff, merge_array_eq_error_iff]
          constructor
          · rintro ⟨f, hf, rfl⟩
            exact ⟨f.swap, (ih hb.element).mp hf, rfl⟩
          · rintro ⟨f, hf, hswap⟩
            refine ⟨f.swap, (ih hb.element).mpr hf, ?_⟩
            rw [← Conflict.swap_under, hswap, Conflict.swap_swap]
      | _ => simpa only [merge] using error_here_iff_swap
  | @object fields sorted parts ih =>
      cases b with
      | unknown => simp [merge]
      | object others =>
          have hswap : ∀ name d, ConflictsUnder fields others name d ↔
              ConflictsUnder others fields name d.swap :=
            conflictsUnder_iff_swap fun name d e hd he _ =>
              ih (name, d) (Bindings.mem_of_get?_eq_some hd) (hb.field he)
          rw [merge_object_eq_error_iff, merge_object_eq_error_iff,
            mergeInto_eq_error_iff sorted hb.sorted, mergeInto_eq_error_iff hb.sorted sorted]
          refine ⟨FirstConflict.swap hswap, fun h => ?_⟩
          exact h.swap fun name d => (hswap name d.swap).symm
      | primitive kind =>
          cases kind with
          | emptyObject => simp [merge]
          | _ => simpa only [merge] using error_here_iff_swap
      | _ => simpa only [merge] using error_here_iff_swap

/-- Merging is commutative, and conflicts are mirror images: the other way round it gives the same
descriptor, or the conflict at the same place with its sides exchanged. -/
theorem merge_comm_iff {a b : Descriptor} (ha : Ordered a) (hb : Ordered b) :
    (∀ c, merge a b = .ok c ↔ merge b a = .ok c) ∧
      ∀ trail left right, merge a b = .error ⟨trail, left, right⟩ ↔
        merge b a = .error ⟨trail, right, left⟩ := by
  constructor
  · intro c
    exact ⟨merge_swap ha hb, merge_swap hb ha⟩
  · intro trail left right
    exact merge_eq_error_iff_swap ha hb

/-- Two fields conflict inside the elements of the first list, and the lists that come after it
do, too. Either way round, the first of these conflicts is found. -/
theorem merge_comm_iff_first_of_three :
    merge
      (object [("items", array (object [("id", union [primitive .date, primitive .string]),
        ("size", primitive .float)])), ("tags", array (primitive .string))])
      (object [("items", array (object [("id", primitive .string),
        ("size", primitive .integer)])), ("tags", array (primitive .boolean))]) =
          .error ⟨["items", "*", "id"], union [primitive .date, primitive .string],
            primitive .string⟩ :=
  ((merge_comm_iff (Normal.ordered (by decide)) (Normal.ordered (by decide))).2 _ _ _).mp rfl

end Descriptor

end ShapeInference
