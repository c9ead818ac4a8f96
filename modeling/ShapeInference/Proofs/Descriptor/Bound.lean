import ShapeInference.Proofs.Descriptor.Merge

/-!
# Merging as a least upper bound

A descriptor is below another that it adds nothing to. Where descriptors merge, the result is their
least upper bound, and descriptors with a common upper bound merge. Merging many of them therefore
depends only on which there are.

Main statement: `Descriptor.mergeList_congr`.
-/

namespace ShapeInference.Descriptor

/-- Merging `a` into `b` adds nothing. -/
def Below (a b : Descriptor) : Prop :=
  merge a b = .ok b

theorem below_refl {a : Descriptor} (ha : Normal a) : Below a a := merge_self ha

theorem below_unknown (a : Descriptor) : Below unknown a := merge_unknown_left a

theorem Below.trans {a b c : Descriptor} (ha : Normal a) (hb : Normal b) (hc : Normal c)
    (hab : Below a b) (hbc : Below b c) : Below a c := by
  obtain ⟨bc, hbc', hac⟩ := merge_regroup ha hb hc hab hbc
  obtain rfl : c = bc := Except.ok.inj (Eq.trans (Eq.symm hbc) hbc')
  exact hac

/-- Two normal descriptors that lie below each other are equal. -/
theorem Below.antisymm {a b : Descriptor} (ha : Normal a) (hb : Normal b) (hab : Below a b)
    (hba : Below b a) : a = b :=
  Except.ok.inj (Eq.trans (Eq.symm (merge_swap hb.ordered ha.ordered hba)) hab)

theorem below_of_merge_left {a b c : Descriptor} (ha : Normal a) (hb : Normal b)
    (h : merge a b = .ok c) : Below a c := by
  obtain ⟨ab, hab, hc⟩ := merge_regroup ha ha hb (merge_self ha) h
  obtain rfl := Except.ok.inj (hab.symm.trans h)
  exact hc

theorem below_of_merge_right {a b c : Descriptor} (ha : Normal a) (hb : Normal b)
    (h : merge a b = .ok c) : Below b c :=
  below_of_merge_left hb ha (merge_swap ha.ordered hb.ordered h)

/-- Descriptors with a common upper bound merge, and to a least one. -/
theorem exists_merge_below {a b bound : Descriptor} (ha : Normal a) (hb : Normal b)
    (hbound : Normal bound) (hab : Below a bound) (hbb : Below b bound) :
    ∃ c, merge a b = .ok c ∧ Below c bound :=
  merge_regroup_right ha hb hbound hbb hab

/-- A merge is a least upper bound. It absorbs both sides in either order, whatever else absorbs
both sides absorbs it, and it is there as soon as something absorbs both sides. -/
theorem merge_isLeast {a b : Descriptor} (ha : Normal a) (hb : Normal b) :
    merge a a = .ok a ∧
      (∀ c, merge a b = .ok c →
        merge a c = .ok c ∧ merge c a = .ok c ∧ merge b c = .ok c ∧ merge c b = .ok c) ∧
      ∀ d, Normal d → merge a d = .ok d → merge b d = .ok d →
        ∃ c, merge a b = .ok c ∧ merge c d = .ok d := by
  refine ⟨merge_self ha, fun c hc => ?_, fun d hd => exists_merge_below ha hb hd⟩
  have hn : Normal c := ha.merge hb hc
  have hac : merge a c = .ok c := below_of_merge_left ha hb hc
  have hbc : merge b c = .ok c := below_of_merge_right ha hb hc
  exact ⟨hac, merge_swap ha.ordered hn.ordered hac, hbc, merge_swap hb.ordered hn.ordered hbc⟩

/-- Unknown elements, an object without known fields and alternatives are absorbed inside fields. -/
theorem merge_isLeast_nested :
    ∃ c,
      merge (object [("items", array unknown), ("owner", emptyObject),
          ("since", union [primitive .date, literal .undefined])])
        (object [("items", array (primitive .string)),
          ("owner", object [("id", primitive .integer)])]) = .ok c ∧
      merge c (object [("items", array (primitive .string)),
          ("owner", object [("id", primitive .integer), ("name", primitive .string)]),
          ("since", union [primitive .date, literal .undefined, literal .null])]) =
        .ok (object [("items", array (primitive .string)),
          ("owner", object [("id", primitive .integer), ("name", primitive .string)]),
          ("since", union [primitive .date, literal .undefined, literal .null])]) :=
  (merge_isLeast (by decide) (by decide)).2.2 _ (by decide) rfl rfl

/-! ## Many descriptors -/

/-- A fold of merges lies above its start and above every descriptor it took in. -/
theorem below_of_foldlM_merge {start c : Descriptor} {ds : List Descriptor} (hs : Normal start)
    (hds : ∀ d ∈ ds, Normal d) (h : ds.foldlM merge start = .ok c) :
    Normal c ∧ Below start c ∧ ∀ d ∈ ds, Below d c := by
  induction ds generalizing start with
  | nil =>
      obtain rfl := Except.ok.inj h
      exact ⟨hs, below_refl hs, fun _ hd => absurd hd List.not_mem_nil⟩
  | cons d rest ih =>
      obtain ⟨hd, hrest⟩ := List.forall_mem_cons.mp hds
      rw [List.foldlM_cons, bind_eq_ok_iff] at h
      obtain ⟨next, hnext, h⟩ := h
      have hn : Normal next := hs.merge hd hnext
      obtain ⟨hc, hnc, hrc⟩ := ih hn hrest h
      have hsn := below_of_merge_left hs hd hnext
      have hdn := below_of_merge_right hs hd hnext
      refine ⟨hc, hsn.trans hs hn hc hnc, List.forall_mem_cons.mpr ⟨?_, hrc⟩⟩
      exact hdn.trans hd hn hc hnc

/-- What has a common bound can be merged one by one, and the result stays below the bound. -/
theorem exists_foldlM_merge_below {start bound : Descriptor} {ds : List Descriptor}
    (hs : Normal start) (hds : ∀ d ∈ ds, Normal d) (hb : Normal bound)
    (hstart : Below start bound) (hbelow : ∀ d ∈ ds, Below d bound) :
    ∃ c, ds.foldlM merge start = .ok c ∧ Below c bound := by
  induction ds generalizing start with
  | nil => exact ⟨start, rfl, hstart⟩
  | cons d rest ih =>
      obtain ⟨hd, hrest⟩ := List.forall_mem_cons.mp hds
      obtain ⟨hdb, hrb⟩ := List.forall_mem_cons.mp hbelow
      obtain ⟨next, hnext, hnb⟩ := exists_merge_below hs hd hb hstart hdb
      obtain ⟨c, hc, hcb⟩ := ih (hs.merge hd hnext) hrest hnb hrb
      refine ⟨c, ?_, hcb⟩
      rw [List.foldlM_cons, bind_eq_ok_iff]
      exact ⟨next, hnext, hc⟩

theorem Normal.mergeList {c : Descriptor} {ds : List Descriptor} (hds : ∀ d ∈ ds, Normal d)
    (h : mergeList ds = .ok c) : Normal c :=
  (below_of_foldlM_merge .unknown hds h).1

/-- Merging many descriptors depends only on which there are. -/
theorem mergeList_congr {as bs : List Descriptor} (has : ∀ d ∈ as, Normal d)
    (h : ∀ d, d ∈ as ↔ d ∈ bs) {c : Descriptor} (hc : mergeList as = .ok c) :
    mergeList bs = .ok c := by
  have hbs : ∀ d ∈ bs, Normal d := fun d hd => has d ((h d).mpr hd)
  obtain ⟨hn, -, hbelow⟩ := below_of_foldlM_merge .unknown has hc
  obtain ⟨e, he, hec⟩ := exists_foldlM_merge_below .unknown hbs hn (below_unknown c)
    fun d hd => hbelow d ((h d).mpr hd)
  -- Each of the two results is an upper bound of all descriptors, and each is a least one.
  obtain ⟨hen, -, hbelow'⟩ := below_of_foldlM_merge .unknown hbs he
  obtain ⟨f, hf, hfe⟩ := exists_foldlM_merge_below .unknown has hen (below_unknown e)
    fun d hd => hbelow' d ((h d).mp hd)
  obtain rfl : f = c := Except.ok.inj (hf.symm.trans hc)
  rw [hfe.antisymm hn hen hec]
  exact he

end ShapeInference.Descriptor
