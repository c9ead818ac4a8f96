import Mathlib.Data.List.Induction
import ShapeInference.Proofs.Descriptor.Normal
import ShapeInference.Proofs.Meaning
import ShapeInference.Proofs.Outcome
import ShapeInference.Proofs.Rulebook
import ShapeInference.Proofs.Tree.Gathering

/-!
# Reconciling what a node gathers

Reconciling a node finds no defect exactly when the group that it gathers has a meaning, and the
type is then that meaning. An account goes on after a defect, but it settles for a type only if
everything said so far merges.

Main statements: `Account.settles_add`, `Node.Gathers.reconcile_eq_iff` and
`Tree.reconcile_eq_iff`.
-/

namespace ShapeInference

namespace Account

variable {account : Account} {d : Descriptor}

/-- All that was said agrees, and amounts to a type. -/
def Settles (account : Account) (d : Descriptor) : Prop :=
  account.type = d ∧ account.defects = []

/-- An account settles with one thing more exactly if it did before and the two merge. -/
theorem settles_add {location : List String} {said : Sourced} :
    (account.add location said).Settles d ↔
      ∃ earlier, account.Settles earlier ∧ earlier.merge said.type = .ok d := by
  simp only [Settles, add]
  cases hmerge : account.type.merge said.type with
  | ok type =>
      constructor
      · rintro ⟨rfl, hdefects⟩
        exact ⟨account.type, ⟨rfl, hdefects⟩, hmerge⟩
      · rintro ⟨_, ⟨rfl, hdefects⟩, hd⟩
        rw [hmerge] at hd
        exact ⟨Except.ok.inj hd, hdefects⟩
  | error c =>
      constructor
      · rintro ⟨-, hdefects⟩
        exact absurd hdefects (List.append_ne_nil_of_right_ne_nil _ (List.cons_ne_nil _ _))
      · rintro ⟨_, ⟨rfl, -⟩, hd⟩
        rw [hmerge] at hd
        contradiction

theorem settles_addDefects {defects : List Defect} :
    (account.addDefects defects).Settles d ↔ account.Settles d ∧ defects = [] := by
  simp only [Settles, addDefects, List.append_eq_nil_iff, and_assoc]

/-- An account settles with many things more exactly if all of them merge one by one. -/
theorem settles_foldl_add {location : List String} {said : List Sourced} :
    (said.foldl (add location) account).Settles d ↔
      ∃ earlier, account.Settles earlier ∧
        (said.map Sourced.type).foldlM Descriptor.merge earlier = .ok d := by
  induction said generalizing account with
  | nil => simp [pure, Except.pure]
  | cons first rest ih =>
      simp only [List.foldl_cons, List.map_cons, List.foldlM_cons, ih, settles_add, bind_eq_ok_iff]
      constructor
      · rintro ⟨next, ⟨earlier, hearlier, hnext⟩, hd⟩
        exact ⟨earlier, hearlier, next, hnext, hd⟩
      · rintro ⟨earlier, hearlier, next, hnext, hd⟩
        exact ⟨next, ⟨earlier, hearlier, hnext⟩, hd⟩

theorem settles_empty : empty.Settles d ↔ d = .unknown := by
  simp [Settles, empty, eq_comm]

theorem add_empty (location : List String) (said : Sourced) :
    empty.add location said = ⟨some said.source, said.type, []⟩ := by
  rw [add, empty, Descriptor.merge_unknown_left]
  rfl

end Account

/-- A list merges with one more at its end exactly if it merges and the two do. -/
theorem Descriptor.mergeList_append_singleton_eq_ok_iff {ds : List Descriptor} {e d : Descriptor} :
    mergeList (ds ++ [e]) = .ok d ↔ ∃ c, mergeList ds = .ok c ∧ c.merge e = .ok d := by
  simp only [mergeList, List.foldlM_append, bind_eq_ok_iff, List.foldlM_cons, List.foldlM_nil]
  simp [pure, Except.pure]

namespace Declared

theorem entries_ofEntries (entries : List Entry) : (ofEntries entries).entries = entries := by
  induction entries using List.reverseRecOn with
  | nil => rfl
  | append_singleton entries entry ih => rw [ofEntries_append_singleton, add, ih]

/-- The union of the types of a field left out, if there are any. -/
def unionOfAbsent : List Descriptor → Option Descriptor
  | [] => none
  | absent => some (.unionOf absent)

/-- One more absence joins the union of those before. -/
theorem joinAbsent_unionOfAbsent {absent : List Descriptor} {d : Descriptor}
    (h : ∀ e ∈ absent, e.Normal) (hd : d.Normal) :
    joinAbsent (unionOfAbsent absent) (some d) = unionOfAbsent (absent ++ [d]) := by
  cases absent with
  | nil => exact congrArg some (Descriptor.unionOf_singleton hd).symm
  | cons e rest =>
      exact congrArg some (Descriptor.unionOf_append_left h (List.cons_ne_nil _ _) [d])

/-- The absence that entries declare is the union of theirs. -/
theorem absent_ofEntries {entries : List Entry} (h : ∀ entry ∈ entries, entry.type.Normal) :
    (ofEntries entries).absent =
      unionOfAbsent ((entries.map Entry.type).filterMap FieldType.absent) := by
  induction entries using List.reverseRecOn with
  | nil => rfl
  | append_singleton entries entry ih =>
      have hentries : ∀ entry ∈ entries, entry.type.Normal := fun e he =>
        h e (List.mem_append_left _ he)
      have hentry : entry.type.Normal := h entry (List.mem_append_right _ List.mem_cons_self)
      rw [ofEntries_append_singleton, add, ih hentries, List.map_append, List.filterMap_append]
      cases habsent : entry.type.absent with
      | none => simp [joinAbsent, habsent]
      | some d =>
          have hnormal : ∀ e ∈ (entries.map Entry.type).filterMap FieldType.absent,
              e.Normal := by
            intro e he
            obtain ⟨type, htype, he⟩ := List.mem_filterMap.mp he
            obtain ⟨entry, hentry, rfl⟩ := List.mem_map.mp htype
            exact (hentries entry hentry).absent e he
          rw [joinAbsent_unionOfAbsent hnormal (hentry.absent d habsent)]
          simp [habsent]

end Declared

theorem Descriptor.orAbsent_eq (d : Descriptor) {absent : List Descriptor}
    (h : ∀ e ∈ absent, e.Normal) :
    d.orAbsent absent =
      match Declared.unionOfAbsent absent with
      | none => d
      | some all => .unionOf [d, all] := by
  cases absent with
  | nil => rfl
  | cons e rest =>
      calc
        unionOf (d :: e :: rest) = unionOf (e :: rest ++ [d]) :=
          unionOf_congr fun f => by simp [or_comm, or_left_comm]
        _ = unionOf [unionOf (e :: rest), d] :=
          (unionOf_append_left h (List.cons_ne_nil _ _) [d]).symm
        _ = unionOf [d, unionOf (e :: rest)] :=
          unionOf_congr fun f => by simp [or_comm]

namespace Node

/-! ## One node -/

section

variable {group : Group Entry} {node : Node}
  (hdeclared : node.declared = .ofEntries group.ended)

include hdeclared

/-- The account of a node settles exactly to the merge of what its entries say. -/
theorem settles_account {location : List String} {d : Descriptor} :
    (node.account location).Settles d ↔
      Descriptor.mergeList (group.ended.map fun entry => (said node.isArray entry).type) =
        .ok d := by
  have hfold : node.account location =
      (group.ended.map (said node.isArray)).foldl (Account.add location) .empty := by
    rw [account, entries, hdeclared, Declared.entries_ofEntries, List.foldl_map]
  simp only [hfold, Account.settles_foldl_add, Account.settles_empty, exists_eq_left,
    List.map_map, Descriptor.mergeList]
  rfl

/-- A node concludes without a defect exactly if its account settles, and then with the absences
added. -/
theorem conclude_eq_iff (hgroup : ∀ entry ∈ group.ended, entry.type.Normal) {account : Account}
    {d : Descriptor} :
    node.conclude account = (d, []) ↔
      ∃ v, account.Settles v ∧ v.orAbsent (group.mapThings Entry.type).absent = d := by
  have habsent : ∀ e ∈ (group.mapThings Entry.type).absent, e.Normal := by
    intro e he
    rw [Group.absent, Group.ended_mapThings] at he
    obtain ⟨type, htype, he⟩ := List.mem_filterMap.mp he
    obtain ⟨entry, hentry, rfl⟩ := List.mem_map.mp htype
    exact (hgroup entry hentry).absent e he
  have hconclude : node.conclude account =
      (account.type.orAbsent (group.mapThings Entry.type).absent, account.defects) := by
    rw [Descriptor.orAbsent_eq _ habsent, conclude, absentType?, hdeclared,
      Declared.absent_ofEntries hgroup, Group.absent, Group.ended_mapThings]
    split <;> simp_all
  rw [hconclude, Prod.mk.injEq]
  constructor
  · rintro ⟨hd, hdefects⟩
    exact ⟨account.type, ⟨rfl, hdefects⟩, hd⟩
  · rintro ⟨_, ⟨rfl, hdefects⟩, hd⟩
    exact ⟨hd, hdefects⟩

/-- A node without shape settles what its own entries say. -/
theorem conclude_account_iff (hgroup : ∀ entry ∈ group.ended, entry.type.Normal)
    {location : List String} {d : Descriptor} :
    node.conclude (node.account location) = (d, []) ↔
      Group.settle (group.ended.map fun entry => (said node.isArray entry).type)
        (group.mapThings Entry.type).absent = some d := by
  simp only [conclude_eq_iff hdeclared hgroup, settles_account hdeclared,
    Group.settle_eq_some_iff]

/-- A node with a shape settles what the shape says, too, if nothing is wrong further down. -/
theorem conclude_account_add_iff (hgroup : ∀ entry ∈ group.ended, entry.type.Normal)
    {location : List String} {defects : List Defect} {shape : Sourced} {d : Descriptor} :
    node.conclude (((node.account location).addDefects defects).add location shape) = (d, []) ↔
      defects = [] ∧
        Group.settle ((group.ended.map fun entry => (said node.isArray entry).type) ++ [shape.type])
          (group.mapThings Entry.type).absent = some d := by
  simp only [conclude_eq_iff hdeclared hgroup, Account.settles_add, Account.settles_addDefects,
    settles_account hdeclared, Group.settle_eq_some_iff,
    Descriptor.mergeList_append_singleton_eq_ok_iff]
  constructor
  · rintro ⟨v, ⟨c, ⟨hc, hdefects⟩, hv⟩, hd⟩
    exact ⟨hdefects, v, ⟨c, hc, hv⟩, hd⟩
  · rintro ⟨hdefects, v, ⟨c, hc, hv⟩, hd⟩
    exact ⟨v, ⟨c, ⟨hc, hdefects⟩, hv⟩, hd⟩

end

/-! ## All fields -/

/-- Fields reconcile each by itself, at its own location. -/
theorem reconcileFields_eq (location : List String) (fields : List (String × Node)) :
    reconcileFields location fields =
      (fields.map fun field => (field.1, (reconcile (location ++ [field.1]) field.2).1),
        fields.flatMap fun field => (reconcile (location ++ [field.1]) field.2).2) := by
  induction fields with
  | nil => rfl
  | cons field rest ih => simp [reconcileFields, ih]

section

variable {group : Group Entry} {fields : List (String × Node)} (h : FieldsGather group fields)
  (hchildren : ∀ field ∈ fields, ∀ location d, field.2.reconcile location = (d, []) ↔
    ((group.mapThings Entry.type).after (.key field.1)).meaning = some d)

include h hchildren

/-- Fields reconcile without a defect exactly if each has a meaning. -/
theorem FieldsGather.exists_meanings_iff (location : List String) :
    (reconcileFields location fields).2 = [] ↔
      ∃ types, (group.mapThings Entry.type).fieldMeanings = some types := by
  rw [reconcileFields_eq, Group.exists_fieldMeanings_iff, List.flatMap_eq_nil_iff]
  constructor
  · intro hnil name hkey
    rw [Group.firsts_mapThings] at hkey
    obtain ⟨field, hfield, rfl⟩ := List.mem_map.mp ((h.bound name).mpr hkey)
    exact ⟨_, (hchildren field hfield _ _).mp (Prod.ext rfl (hnil field hfield))⟩
  · intro hall field hfield
    have hkey := (h.bound field.1).mp (List.mem_map.mpr ⟨field, hfield, rfl⟩)
    obtain ⟨d, hd⟩ := hall field.1 ((Group.firsts_mapThings Entry.type group).symm ▸ hkey)
    rw [(hchildren field hfield _ d).mpr hd]

/-- Fields that reconcile without a defect reconcile to their meanings. -/
theorem FieldsGather.ofFields_eq {location : List String}
    (hnil : (reconcileFields location fields).2 = []) {types : List (String × Descriptor)}
    (htypes : (group.mapThings Entry.type).fieldMeanings = some types) :
    Descriptor.ofFields (reconcileFields location fields).1 = .ofFields types := by
  rw [reconcileFields_eq] at hnil ⊢
  refine congrArg Descriptor.object (Bindings.sortedOfPairs_congr ?_ ?_ ?_)
  · rw [Bindings.names, List.map_map]
    exact h.distinct
  · rw [(Group.fieldMeanings_eq_some_iff.mp htypes).1]
    exact Group.nodup_keys _
  rintro ⟨name, d⟩
  rw [Group.mem_of_fieldMeanings htypes, Group.firsts_mapThings, ← h.bound, List.mem_map]
  constructor
  · rintro ⟨field, hfield, heq⟩
    obtain ⟨rfl, rfl⟩ := Prod.mk.inj heq
    refine ⟨List.mem_map.mpr ⟨field, hfield, rfl⟩,
      (hchildren field hfield (location ++ [field.1]) _).mp ?_⟩
    exact Prod.ext rfl (List.flatMap_eq_nil_iff.mp hnil field hfield)
  · rintro ⟨hname, hd⟩
    obtain ⟨field, hfield, rfl⟩ := List.mem_map.mp hname
    exact ⟨field, hfield, by rw [(hchildren field hfield _ d).mpr hd]⟩

/-- The nodes of fields are reconciled to what their groups mean. -/
theorem FieldsGather.reconcileFields_eq_iff (location : List String) (d : Descriptor) :
    (.ofFields (reconcileFields location fields).1 = d ∧
        (reconcileFields location fields).2 = []) ↔
      (group.mapThings Entry.type).objectMeaning = some d := by
  rw [Group.objectMeaning, Option.map_eq_some_iff]
  constructor
  · rintro ⟨hd, hnil⟩
    obtain ⟨types, htypes⟩ := (h.exists_meanings_iff hchildren location).mp hnil
    exact ⟨types, htypes, (h.ofFields_eq hchildren hnil htypes).symm.trans hd⟩
  · rintro ⟨types, htypes, hd⟩
    have hnil := (h.exists_meanings_iff hchildren location).mpr ⟨types, htypes⟩
    exact ⟨(h.ofFields_eq hchildren hnil htypes).trans hd, hnil⟩

end

/-! ## Whole nodes -/

theorem said_map_eq_present (group : Group Entry) :
    (group.ended.map fun entry => (said false entry).type) =
      (group.mapThings Entry.type).present := by
  rw [Group.present, Group.ended_mapThings, List.map_map]
  rfl

theorem said_map_eq_arrayAlternatives (group : Group Entry) :
    (group.ended.map fun entry => (said true entry).type) =
      (group.mapThings Entry.type).present.map Descriptor.arrayAlternatives := by
  rw [Group.present, Group.ended_mapThings, List.map_map, List.map_map]
  rfl

/-- A node is reconciled without defect exactly when its group has a meaning, and to that. -/
theorem Gathers.reconcile_eq_iff {group : Group Entry} {node : Node} (h : Gathers group node)
    (hgroup : group.All fun entry => entry.type.Normal) (location : List String) (d : Descriptor) :
    node.reconcile location = (d, []) ↔ (group.mapThings Entry.type).meaning = some d := by
  induction h generalizing location d with
  | @plain group ended =>
      have hended : ∀ entry ∈ group.ended, entry.type.Normal := fun _ => hgroup.of_mem_ended
      rw [← Group.firsts_mapThings Entry.type] at ended
      rw [reconcile, conclude_account_iff rfl hended, Group.meaning_of_ended ended,
        ← said_map_eq_present]
      rfl
  | @object group origin fields hsome keyed distinct bound children ih =>
      have hended : ∀ entry ∈ group.ended, entry.type.Normal := fun _ => hgroup.of_mem_ended
      have hfields : FieldsGather group fields := ⟨distinct, bound, children⟩
      have hchildren : ∀ field ∈ fields, ∀ location d,
          field.2.reconcile location = (d, []) ↔
            ((group.mapThings Entry.type).after (.key field.1)).meaning = some d := by
        intro field hfield
        rw [Group.after_mapThings]
        exact ih field.1 field.2 (Bindings.get?_eq_some_of_mem distinct hfield)
          (hgroup.after _)
      rw [← Group.firsts_mapThings Entry.type] at hsome keyed
      rw [reconcile, conclude_account_add_iff rfl hended, Group.meaning_of_keyed hsome keyed,
        Option.bind_eq_some_iff, ← said_map_eq_present]
      constructor
      · rintro ⟨hnil, hd⟩
        exact ⟨_, (hfields.reconcileFields_eq_iff hchildren location _).mp ⟨rfl, hnil⟩, hd⟩
      · rintro ⟨object, hobject, hd⟩
        obtain ⟨rfl, hnil⟩ := (hfields.reconcileFields_eq_iff hchildren location _).mpr hobject
        exact ⟨hnil, hd⟩
  | @array group origin element hsome each child ih =>
      have hended : ∀ entry ∈ group.ended, entry.type.Normal := fun _ => hgroup.of_mem_ended
      have helement := ih (hgroup.after _) (location ++ [Segment.wildcard])
      rw [← Group.firsts_mapThings Entry.type] at hsome each
      rw [reconcile, conclude_account_add_iff rfl hended, Group.meaning_of_each hsome each,
        Option.bind_eq_some_iff, ← said_map_eq_arrayAlternatives, Group.after_mapThings]
      constructor
      · rintro ⟨hnil, hd⟩
        exact ⟨_, (helement _).mp (Prod.ext rfl hnil), hd⟩
      · rintro ⟨type, htype, hd⟩
        have heq := (helement type).mpr htype
        rw [heq]
        exact ⟨rfl, hd⟩

end Node

/-- A tree is reconciled without defect exactly when the groups below its fields have meanings. -/
theorem Tree.reconcile_eq_iff {tree : Tree} {group : Group Entry}
    (h : Node.FieldsGather group tree.fields) (hgroup : group.All fun entry => entry.type.Normal)
    {d : Descriptor} :
    tree.reconcile = (d, []) ↔ (group.mapThings Entry.type).objectMeaning = some d := by
  have hchildren : ∀ field ∈ tree.fields, ∀ location d, field.2.reconcile location = (d, []) ↔
      ((group.mapThings Entry.type).after (.key field.1)).meaning = some d := by
    intro field hfield
    rw [Group.after_mapThings]
    have hchild := h.children _ _ (Bindings.get?_eq_some_of_mem h.distinct hfield)
    exact hchild.reconcile_eq_iff (hgroup.after _)
  rw [← h.reconcileFields_eq_iff hchildren [], reconcile, Prod.mk.injEq]

end ShapeInference
