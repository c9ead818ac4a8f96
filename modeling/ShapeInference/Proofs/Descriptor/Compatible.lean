import ShapeInference.Proofs.Descriptor.Bound

/-!
# Compatible descriptors

Descriptors are compatible when they merge. A conflict of many descriptors is always one of two of
them: what two descriptors merge to is compatible with whatever both are compatible with.

Main statements: `Descriptor.Compatible.of_merge` and `Descriptor.exists_mergeList_iff`.
-/

namespace ShapeInference.Descriptor

/-- Two descriptors merge. -/
def Compatible (a b : Descriptor) : Prop :=
  ∃ c, merge a b = .ok c

theorem compatible_unknown (d : Descriptor) : Compatible d unknown :=
  ⟨d, merge_unknown_right d⟩

theorem compatible_array_iff {a b : Descriptor} :
    Compatible (array a) (array b) ↔ Compatible a b := by
  constructor
  · rintro ⟨_, h⟩
    cases Merges.of_merge_eq h with
    | array merged => exact ⟨_, merged⟩
  · rintro ⟨c, h⟩
    exact ⟨array c, (Merges.array h).merge_eq⟩

/-- Objects are compatible exactly if their fields are at every name that both have. -/
theorem compatible_object_iff {left right : List (String × Descriptor)}
    (hl : Bindings.Sorted left) (hr : Bindings.Sorted right) :
    Compatible (object left) (object right) ↔ ∀ name a b, Bindings.get? left name = some a →
      Bindings.get? right name = some b → Compatible a b := by
  constructor
  · rintro ⟨_, h⟩ name a b ha hb
    cases Merges.of_merge_eq h with
    | object merged =>
        have hfound := ((mergeInto_eq_ok_iff hl hr).mp merged).2 name
        rw [ha, hb, mergesFound_some] at hfound
        obtain ⟨c, hc, -⟩ := hfound
        exact ⟨c, hc⟩
  · intro h
    have hnamed : ∀ name, ∃ result,
        MergesFound (Bindings.get? left name) (Bindings.get? right name) result := by
      intro name
      cases ha : Bindings.get? left name with
      | none => exact ⟨_, .right _⟩
      | some a =>
          cases hb : Bindings.get? right name with
          | none => exact ⟨_, .left _⟩
          | some b =>
              obtain ⟨c, hc⟩ := h name a b ha hb
              exact ⟨_, .both hc⟩
    obtain ⟨fields, hfields⟩ := exists_mergeInto_eq_ok hr hnamed
    exact ⟨object fields, (Merges.object hfields).merge_eq⟩

/-- What two descriptors merge to is compatible with whatever both are compatible with. -/
theorem Compatible.of_merge {a b c ab : Descriptor} (ha : Normal a) (hb : Normal b) (hc : Normal c)
    (hab : merge a b = .ok ab) (hac : Compatible a c) (hbc : Compatible b c) : Compatible ab c := by
  induction ha generalizing b c ab with
  | unknown =>
      rw [merge_unknown_left] at hab
      exact Except.ok.inj hab ▸ hbc
  | primitive kind =>
      cases Merges.of_merge_eq hab with
      | unknownRight => exact hac
      | emptyLeft => exact hbc
      | primitive => exact hac
  | union increasing several flat parts _ =>
      have has : Normal (union _) := .union increasing several flat parts
      cases Merges.of_merge_eq hab with
      | unknownRight => exact hac
      | union _ bs =>
          obtain ⟨_, hac⟩ := hac
          cases Merges.of_merge_eq hac with
          | unknownRight => exact compatible_unknown _
          | union _ cs =>
              rw [unionOf_append_of_union has hb]
              exact ⟨_, (Merges.union _ cs).merge_eq⟩
  | array part ih =>
      cases Merges.of_merge_eq hab with
      | unknownRight => exact hac
      | array merged =>
          obtain ⟨_, hac⟩ := hac
          cases Merges.of_merge_eq hac with
          | unknownRight => exact compatible_unknown _
          | array merged' =>
              rw [compatible_array_iff] at hbc ⊢
              exact ih hb.element hc.element merged ⟨_, merged'⟩ hbc
  | object sorted parts ih =>
      cases Merges.of_merge_eq hab with
      | unknownRight => exact hac
      | emptyRight => exact hac
      | object merged =>
          obtain ⟨hfields, hfound⟩ := (mergeInto_eq_ok_iff sorted hb.sorted).mp merged
          obtain ⟨_, hac⟩ := hac
          cases Merges.of_merge_eq hac with
          | unknownRight => exact compatible_unknown _
          | emptyRight => exact ⟨_, (Merges.emptyRight _).merge_eq⟩
          | object =>
              have hac := (compatible_object_iff sorted hc.sorted).mp ⟨_, hac⟩
              rw [compatible_object_iff hb.sorted hc.sorted] at hbc
              rw [compatible_object_iff hfields hc.sorted]
              intro name d e hd he
              -- Under each name stands what one side has, or a merge of both.
              apply (hfound name).keeps hd
              · exact fun a ha => hac name a e ha he
              · exact fun b hb => hbc name b e hb he
              · intro a b ha hb' hd'
                exact ih (name, a) (Bindings.mem_of_get?_eq_some ha) (hb.field hb') (hc.field he)
                  hd' (hac name a e ha he) (hbc name b e hb' he)

/-! ## Many descriptors -/

/-- Descriptors that are compatible with the start and with each other can be merged into it one
by one. -/
theorem exists_foldlM_merge {start : Descriptor} {ds : List Descriptor} (hs : Normal start)
    (hds : ∀ d ∈ ds, Normal d) (hstart : ∀ d ∈ ds, Compatible start d)
    (hpairs : ds.Pairwise Compatible) : ∃ c, ds.foldlM merge start = .ok c := by
  induction ds generalizing start with
  | nil => exact ⟨start, rfl⟩
  | cons d rest ih =>
      obtain ⟨hd, hrest⟩ := List.forall_mem_cons.mp hds
      obtain ⟨⟨next, hnext⟩, hlater⟩ := List.forall_mem_cons.mp hstart
      obtain ⟨hpair, hpairs⟩ := List.pairwise_cons.mp hpairs
      have hnextRest : ∀ e ∈ rest, Compatible next e := fun e he =>
        .of_merge hs hd (hrest e he) hnext (hlater e he) (hpair e he)
      obtain ⟨c, hc⟩ := ih (hs.merge hd hnext) hrest hnextRest hpairs
      refine ⟨c, ?_⟩
      rw [List.foldlM_cons, bind_eq_ok_iff]
      exact ⟨next, hnext, hc⟩

/-- Many descriptors merge exactly when every two of them do. -/
theorem exists_mergeList_iff {ds : List Descriptor} (hds : ∀ d ∈ ds, Normal d) :
    (∃ c, mergeList ds = .ok c) ↔ ∀ a ∈ ds, ∀ b ∈ ds, Compatible a b := by
  constructor
  · rintro ⟨c, hc⟩ a ha b hb
    obtain ⟨hn, -, hbelow⟩ := below_of_foldlM_merge .unknown hds hc
    obtain ⟨d, hd, -⟩ := exists_merge_below (hds a ha) (hds b hb) hn (hbelow a ha) (hbelow b hb)
    exact ⟨d, hd⟩
  · intro h
    have hpairs : ds.Pairwise Compatible := List.pairwise_of_forall_mem_list h
    exact exists_foldlM_merge .unknown hds (fun d _ => ⟨d, merge_unknown_left d⟩) hpairs

/-- Many descriptors merge exactly when every two of them do. Lists of the same descriptors, in
whatever order and however often, merge to the same descriptor or both conflict. -/
theorem mergeList_pairwise :
    (∀ ds : List Descriptor, (∀ d ∈ ds, Normal d) →
      ((∃ c, mergeList ds = .ok c) ↔ ∀ a ∈ ds, ∀ b ∈ ds, ∃ c, merge a b = .ok c)) ∧
    ∀ as bs : List Descriptor, (∀ d ∈ as, Normal d) → (∀ d, d ∈ as ↔ d ∈ bs) →
      (∃ c, mergeList as = .ok c ∧ mergeList bs = .ok c) ∨
        ∃ c d, mergeList as = .error c ∧ mergeList bs = .error d := by
  refine ⟨fun ds hds => exists_mergeList_iff hds, ?_⟩
  intro as bs has h
  have hbs : ∀ d ∈ bs, Normal d := fun d hd => has d ((h d).mpr hd)
  cases ha : mergeList as with
  | ok c => exact .inl ⟨c, rfl, mergeList_congr has h ha⟩
  | error c =>
      cases hb : mergeList bs with
      | error d => exact .inr ⟨c, d, rfl, rfl⟩
      | ok d =>
          have := mergeList_congr hbs (fun e => (h e).symm) hb
          rw [ha] at this
          contradiction

/-- Three objects agree in pairs on elements, on an object without known fields and on
alternatives, so that they merge together. In another order and with a repetition, they merge to the
same object. -/
theorem mergeList_pairwise_of_three :
    ∃ as bs : List Descriptor,
      as = [object [("items", array unknown), ("owner", emptyObject)],
        object [("items", array (primitive .string)),
          ("since", union [primitive .date, literal .undefined])],
        object [("owner", object [("id", primitive .integer)]),
          ("since", union [literal .undefined, literal .null])]] ∧
      bs = as.reverse ++ as ∧
      (∀ a ∈ as, ∀ b ∈ as, ∃ c, merge a b = .ok c) ∧
      ∃ c, mergeList as = .ok c ∧ mergeList bs = .ok c := by
  obtain ⟨hpairs, hsame⟩ := mergeList_pairwise
  refine ⟨_, _, rfl, rfl, (hpairs _ (by decide)).mp ⟨_, rfl⟩, ?_⟩
  apply (hsame _ _ (by decide) fun d => ?_).resolve_right
  · rintro ⟨c, -, hc, -⟩
    contradiction
  · rw [List.mem_append, List.mem_reverse, or_self]

end ShapeInference.Descriptor
