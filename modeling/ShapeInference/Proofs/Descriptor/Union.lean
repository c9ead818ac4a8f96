import Mathlib.Data.List.Nodup
import ShapeInference.Descriptor.Union
import ShapeInference.Proofs.Descriptor.Order

/-!
# Members of unions

The sorted members of descriptors are determined by which descriptors there are, so that a union
depends neither on the order nor on the repetition of what it is built from.

Main statements: `Descriptor.mem_sortedMembers`, `Descriptor.Increasing.ext` and
`Descriptor.unionOf_congr`.
-/

namespace ShapeInference.Descriptor

/-- The descriptors increase strictly. -/
def Increasing (ds : List Descriptor) : Prop :=
  ds.Pairwise fun a b => a.compare b = .lt

instance (ds : List Descriptor) : Decidable (Increasing ds) :=
  inferInstanceAs (Decidable (ds.Pairwise fun a b => a.compare b = .lt))

theorem increasing_cons {d : Descriptor} {ds : List Descriptor} :
    Increasing (d :: ds) ↔ (∀ e ∈ ds, d.compare e = .lt) ∧ Increasing ds :=
  List.pairwise_cons

theorem Increasing.nodup {ds : List Descriptor} (h : Increasing ds) : ds.Nodup :=
  h.imp fun {a b} hlt heq => by
    subst heq
    rw [compare_self] at hlt
    contradiction

/-- Increasing lists with the same members are equal. -/
theorem Increasing.ext {as bs : List Descriptor} (ha : Increasing as) (hb : Increasing bs)
    (h : ∀ d, d ∈ as ↔ d ∈ bs) : as = bs := by
  have hperm : as.Perm bs := (List.perm_ext_iff_of_nodup ha.nodup hb.nodup).mpr h
  refine hperm.eq_of_pairwise ?_ ha hb
  intro a b _ _ hlt hgt
  exact absurd hgt (Std.OrientedCmp.not_lt_of_lt hlt)

/-! ## Insertion -/

theorem mem_insertMember {d e : Descriptor} {ds : List Descriptor} :
    e ∈ insertMember d ds ↔ e = d ∨ e ∈ ds := by
  induction ds with
  | nil => simp [insertMember]
  | cons f rest ih =>
      simp only [insertMember]
      split
      · simp
      · rename_i h
        rw [compare_eq_iff.mp h]
        simp
      · simp only [List.mem_cons, ih]
        exact or_left_comm

theorem Increasing.insertMember {ds : List Descriptor} (h : Increasing ds) (d : Descriptor) :
    Increasing (insertMember d ds) := by
  induction ds with
  | nil => exact List.pairwise_singleton _ _
  | cons f rest ih =>
      obtain ⟨hf, hrest⟩ := increasing_cons.mp h
      simp only [Descriptor.insertMember]
      split
      · rename_i hlt
        refine increasing_cons.mpr ⟨?_, h⟩
        intro e he
        rcases List.mem_cons.mp he with rfl | hmem
        · exact hlt
        · exact compare_lt_trans hlt (hf e hmem)
      · exact h
      · rename_i hgt
        refine increasing_cons.mpr ⟨?_, ih hrest⟩
        intro e he
        rcases mem_insertMember.mp he with rfl | hmem
        · exact Std.OrientedCmp.gt_iff_lt.mp hgt
        · exact hf e hmem

/-- Sorted members are in order, each once. -/
theorem increasing_sortedMembers (ds : List Descriptor) : Increasing (sortedMembers ds) := by
  have hfold : ∀ (ds set : List Descriptor), Increasing set →
      Increasing (ds.foldl (fun set d => Descriptor.insertMember d set) set) := by
    intro ds
    induction ds with
    | nil => exact fun _ h => h
    | cons d rest ih => exact fun _ h => ih _ (h.insertMember d)
  exact hfold ds [] List.Pairwise.nil

/-- Sorting neither adds nor drops a member. -/
theorem mem_sortedMembers {e : Descriptor} {ds : List Descriptor} :
    e ∈ sortedMembers ds ↔ e ∈ ds := by
  have hfold : ∀ ds set : List Descriptor,
      e ∈ ds.foldl (fun set d => insertMember d set) set ↔ e ∈ ds ∨ e ∈ set := by
    intro ds
    induction ds with
    | nil => simp
    | cons d rest ih =>
        intro set
        rw [List.foldl_cons, ih, mem_insertMember, List.mem_cons, or_left_comm, or_assoc]
  rw [sortedMembers, hfold ds [], or_iff_left List.not_mem_nil]

/-- Sorted members depend only on which members are given. -/
theorem sortedMembers_congr {as bs : List Descriptor} (h : ∀ d, d ∈ as ↔ d ∈ bs) :
    sortedMembers as = sortedMembers bs := by
  apply (increasing_sortedMembers as).ext (increasing_sortedMembers bs)
  intro d
  rw [mem_sortedMembers, mem_sortedMembers, h]

theorem Increasing.sortedMembers_eq {ds : List Descriptor} (h : Increasing ds) :
    sortedMembers ds = ds :=
  (increasing_sortedMembers ds).ext h fun _ => mem_sortedMembers

/-! ## Unions -/

theorem isUnknown_iff {d : Descriptor} : d.isUnknown = true ↔ d = unknown := by
  cases d <;> simp [isUnknown]

theorem any_isUnknown_iff {ds : List Descriptor} :
    ds.any isUnknown = true ↔ unknown ∈ ds := by
  simp [List.any_eq_true, isUnknown_iff]

/-- An unknown alternative swallows the others. -/
theorem unionOf_of_unknown_mem {ds : List Descriptor} (h : unknown ∈ ds) :
    unionOf ds = unknown := by
  rw [unionOf, if_pos (any_isUnknown_iff.mpr h)]

/-- Without an unknown part a union is built from the members of all its parts. -/
theorem unionOf_of_unknown_not_mem {ds : List Descriptor} (h : unknown ∉ ds) :
    unionOf ds = ofMembers (sortedMembers (ds.flatMap members)) := by
  rw [unionOf, if_neg (fun hany => h (any_isUnknown_iff.mp hany))]

/-- A union depends only on which descriptors it is built from. -/
theorem unionOf_congr {as bs : List Descriptor} (h : ∀ d, d ∈ as ↔ d ∈ bs) :
    unionOf as = unionOf bs := by
  by_cases hu : unknown ∈ as
  · rw [unionOf_of_unknown_mem hu, unionOf_of_unknown_mem ((h _).mp hu)]
  · have hu' : unknown ∉ bs := fun hmem => hu ((h _).mpr hmem)
    rw [unionOf_of_unknown_not_mem hu, unionOf_of_unknown_not_mem hu']
    congr 1
    apply sortedMembers_congr
    intro d
    simp only [List.mem_flatMap, h]

end ShapeInference.Descriptor
