import ShapeInference.Json.Basic
import ShapeInference.Proofs.Bindings

/-!
# JSON values up to the order of members

`Json.Reordered` relates values that differ only in the order in which objects, at any depth, list
their members. It is generated by the swap of two neighbours, so that a property of members is shown
to be independent of their order by looking at two of them at a time.

Main statement: `Json.reorderedMembers_iff`, which says what the relation means where no name
repeats.
-/

namespace ShapeInference.Json

mutual

/-- Values are equal up to the order of the members of objects at every depth. -/
inductive Reordered : Json → Json → Prop where
  | same (value : Json) : Reordered value value
  | array {vs ws : List Json} (elements : ReorderedAll vs ws) : Reordered (.array vs) (.array ws)
  | object {ms ns : List (String × Json)} (members : ReorderedMembers ms ns) :
      Reordered (.object ms) (.object ns)

/-- Values are equal one by one, each up to the order of members. -/
inductive ReorderedAll : List Json → List Json → Prop where
  | nil : ReorderedAll [] []
  | cons {v w : Json} {vs ws : List Json} (first : Reordered v w) (rest : ReorderedAll vs ws) :
      ReorderedAll (v :: vs) (w :: ws)

/-- Members of different names change places, and their values are equal up to the order of
members. -/
inductive ReorderedMembers : List (String × Json) → List (String × Json) → Prop where
  | nil : ReorderedMembers [] []
  | cons (name : String) {v w : Json} {ms ns : List (String × Json)} (first : Reordered v w)
      (rest : ReorderedMembers ms ns) : ReorderedMembers ((name, v) :: ms) ((name, w) :: ns)
  | swap {a b : String × Json} (distinct : a.1 ≠ b.1) (ms : List (String × Json)) :
      ReorderedMembers (a :: b :: ms) (b :: a :: ms)
  | trans {ms ns ks : List (String × Json)} (first : ReorderedMembers ms ns)
      (second : ReorderedMembers ns ks) : ReorderedMembers ms ks

end

mutual

/-- Reordering twice is reordering. -/
theorem Reordered.trans : ∀ {v w u : Json}, Reordered v w → Reordered w u → Reordered v u
  | _, _, _, .same _, h => h
  | _, _, _, .array elements, .same _ => .array elements
  | _, _, _, .array elements, .array more => .array (elements.trans more)
  | _, _, _, .object members, .same _ => .object members
  | _, _, _, .object members, .object more => .object (members.trans more)

theorem ReorderedAll.trans : ∀ {vs ws us : List Json}, ReorderedAll vs ws → ReorderedAll ws us →
    ReorderedAll vs us
  | _, _, _, .nil, .nil => .nil
  | _, _, _, .cons first rest, .cons second more => .cons (first.trans second) (rest.trans more)

end

theorem ReorderedMembers.refl (ms : List (String × Json)) : ReorderedMembers ms ms := by
  induction ms with
  | nil => exact .nil
  | cons member rest ih => exact .cons member.1 (.same member.2) ih

/-! ## What is found under a name -/

theorem optionRel_refl : ∀ x : Option Json, Option.Rel Reordered x x
  | none => .none
  | some value => .some (.same value)

theorem optionRel_trans {x y z : Option Json} (h : Option.Rel Reordered x y)
    (h' : Option.Rel Reordered y z) : Option.Rel Reordered x z := by
  cases h with
  | none => exact h'
  | some first =>
      cases h' with
      | some second => exact .some (first.trans second)

/-- The same names are bound, to values that are equal up to the order of members. -/
theorem ReorderedMembers.get? : ∀ {ms ns : List (String × Json)}, ReorderedMembers ms ns →
    ∀ name, Option.Rel Reordered (Bindings.get? ms name) (Bindings.get? ns name)
  | _, _, .nil, _ => .none
  | _, _, .cons key first rest, name => by
    rw [Bindings.get?_cons, Bindings.get?_cons]
    by_cases h : key = name
    · rw [if_pos h, if_pos h]
      exact .some first
    · rw [if_neg h, if_neg h]
      exact rest.get? name
  | _, _, .swap distinct _, name => by
    rw [Bindings.get?_swap distinct]
    exact optionRel_refl _
  | _, _, .trans first second, name => optionRel_trans (first.get? name) (second.get? name)

theorem Reordered.member? {v w : Json} (h : Reordered v w) (name : String) :
    Option.Rel Reordered (v.member? name) (w.member? name) := by
  cases h with
  | same => exact optionRel_refl _
  | array _ => exact .none
  | object members => exact members.get? name

/-- Members of members. -/
theorem ReorderedMembers.member? {ms ns : List (String × Json)} (h : ReorderedMembers ms ns)
    (name inner : String) :
    Option.Rel Reordered ((Bindings.get? ms name).bind (·.member? inner))
      ((Bindings.get? ns name).bind (·.member? inner)) := by
  generalize Bindings.get? ms name = x, Bindings.get? ns name = y, h.get? name = hget
  cases hget with
  | none => exact .none
  | some hvalue => exact hvalue.member? inner

/-! ## Rearrangements -/

theorem ReorderedMembers.names_perm : ∀ {ms ns : List (String × Json)}, ReorderedMembers ms ns →
    (Bindings.names ms).Perm (Bindings.names ns)
  | _, _, .nil => .nil
  | _, _, .cons name _ rest => rest.names_perm.cons name
  | _, _, .swap _ _ => List.Perm.swap _ _ _
  | _, _, .trans first second => first.names_perm.trans second.names_perm

/-- Members are kept or dropped by their names. -/
theorem ReorderedMembers.filter (p : String → Bool) : ∀ {ms ns : List (String × Json)},
    ReorderedMembers ms ns →
      ReorderedMembers (ms.filter fun member => p member.1) (ns.filter fun member => p member.1)
  | _, _, .nil => .nil
  | _, _, .cons name first rest => by
    rw [List.filter_cons, List.filter_cons]
    split
    · exact .cons name first (rest.filter p)
    · exact rest.filter p
  | _, _, @ReorderedMembers.swap a b distinct ms => by
    rw [List.filter_cons, List.filter_cons, List.filter_cons, List.filter_cons]
    cases p a.1
    · exact .refl _
    · cases p b.1
      · exact .refl _
      · exact .swap distinct _
  | _, _, .trans first second => .trans (first.filter p) (second.filter p)

/-- Members of distinct names are reordered by any permutation. -/
theorem ReorderedMembers.of_perm {ms ns : List (String × Json)} (h : ms.Perm ns)
    (distinct : (Bindings.names ms).Nodup) : ReorderedMembers ms ns := by
  induction h with
  | nil => exact .nil
  | cons member _ ih => exact .cons member.1 (.same member.2) (ih (List.nodup_cons.mp distinct).2)
  | swap a b rest =>
      obtain ⟨hnot, -⟩ := List.nodup_cons.mp distinct
      exact .swap (fun heq : b.1 = a.1 => hnot (heq ▸ List.mem_cons_self)) rest
  | trans first _ ih ih' =>
      exact .trans (ih distinct) (ih' ((first.map Prod.fst).nodup_iff.mp distinct))

/-- Members without repeated names are equal up to order as soon as the same names are bound, to
values that are. -/
theorem reorderedMembers_iff {ms ns : List (String × Json)} (hms : (Bindings.names ms).Nodup)
    (hns : (Bindings.names ns).Nodup) :
    ReorderedMembers ms ns ↔
      ∀ name, Option.Rel Reordered (Bindings.get? ms name) (Bindings.get? ns name) := by
  refine ⟨ReorderedMembers.get?, fun h => ?_⟩
  induction ms generalizing ns with
  | nil =>
      cases ns with
      | nil => exact .nil
      | cons member rest =>
          have hnone := h member.1
          rw [Bindings.get?_cons, if_pos rfl] at hnone
          cases hnone
  | cons member rest ih =>
      obtain ⟨key, v⟩ := member
      obtain ⟨hkey, hrest⟩ := List.nodup_cons.mp hms
      have hfirst := h key
      rw [Bindings.get?_cons, if_pos rfl] at hfirst
      generalize hfound : Bindings.get? ns key = found at hfirst
      cases hfirst with
      | @some _ w hvalue =>
          obtain ⟨before, after, rfl⟩ := List.append_of_mem (Bindings.mem_of_get?_eq_some hfound)
          have hperm : ((key, w) :: (before ++ after)).Perm (before ++ (key, w) :: after) :=
            List.perm_middle.symm
          have hfront := (hperm.map Prod.fst).nodup_iff.mpr hns
          obtain ⟨hkey', hothers⟩ := List.nodup_cons.mp hfront
          refine .trans (.cons key hvalue (ih hrest hothers fun name => ?_)) (.of_perm hperm hfront)
          by_cases heq : key = name
          · subst heq
            rw [Bindings.get?_eq_none_iff.mpr hkey, Bindings.get?_eq_none_iff.mpr hkey']
            exact .none
          · have hname := h name
            rw [Bindings.get?_append, Bindings.get?_cons, Bindings.get?_cons, if_neg heq,
              if_neg heq] at hname
            rw [Bindings.get?_append]
            exact hname

end ShapeInference.Json
