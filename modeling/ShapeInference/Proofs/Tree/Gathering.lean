import ShapeInference.Proofs.Group
import ShapeInference.Proofs.Tree.Rejection

/-!
# What a node gathers

A node gathers a group of entries when it is what their walks leave behind: it holds the entries
that have arrived, has the shape that the others need, and each node below it gathers what goes on
to it. A walk that arrives adds its entry to the group, and a walk is stopped only by entries from
which it parts.

Main statements: `Node.Gathers.insert` and `Node.Gathers.clash`.
-/

namespace ShapeInference

/-- What entries declare together, added in order. -/
def Declared.ofEntries (entries : List Entry) : Declared :=
  entries.foldl Declared.add .nothing

theorem Declared.ofEntries_append_singleton (entries : List Entry) (entry : Entry) :
    ofEntries (entries ++ [entry]) = (ofEntries entries).add entry :=
  List.foldl_append

namespace Node

/-- A node is what a group of entries makes of a place that nothing was said of. -/
inductive Gathers : Group Entry → Node → Prop where
  | plain {group : Group Entry} (ended : group.firsts = []) :
      Gathers group (plain (.ofEntries group.ended))
  | object {group : Group Entry} {origin : String} {fields : List (String × Node)}
      (some : group.firsts ≠ []) (keyed : ∀ step ∈ group.firsts, step.isEach = false)
      (distinct : (Bindings.names fields).Nodup)
      (bound : ∀ name, name ∈ Bindings.names fields ↔ .key name ∈ group.firsts)
      (children : ∀ name child, Bindings.get? fields name = .some child →
        Gathers (group.after (.key name)) child) :
      Gathers group (object (.ofEntries group.ended) origin fields)
  | array {group : Group Entry} {origin : String} {element : Node}
      (some : group.firsts ≠ []) (each : ∀ step ∈ group.firsts, step.isEach = true)
      (child : Gathers (group.after .each) element) :
      Gathers group (array (.ofEntries group.ended) origin element)

/-- Nodes bound to names gather what goes on from a group to fields of these names. -/
structure FieldsGather (group : Group Entry) (fields : List (String × Node)) : Prop where
  distinct : (Bindings.names fields).Nodup
  bound : ∀ name, name ∈ Bindings.names fields ↔ .key name ∈ group.firsts
  children : ∀ name child, Bindings.get? fields name = some child →
    Gathers (group.after (.key name)) child

theorem gathers_empty {group : Group Entry} (h : group = []) : Gathers group empty := by
  subst h
  exact .plain rfl

/-- Under each name there is a node that gathers what goes on to it, the empty one if nothing
does. -/
theorem FieldsGather.child {group : Group Entry} {fields : List (String × Node)}
    (h : FieldsGather group fields) (name : String) :
    Gathers (group.after (.key name)) ((Bindings.get? fields name).getD empty) := by
  cases hchild : Bindings.get? fields name with
  | none =>
      refine gathers_empty (Group.after_eq_nil_iff.mpr fun hmem => ?_)
      exact Bindings.get?_eq_none_iff.mp hchild ((h.bound name).mpr hmem)
  | some child => exact h.children name child hchild

/-- A child that gathers one thing more makes fields that do. -/
theorem FieldsGather.set {group : Group Entry} {fields : List (String × Node)}
    (h : FieldsGather group fields) {name : String} {rest : List Segment} {entry : Entry}
    {child : Node} (hchild : Gathers (group.after (.key name) ++ [(rest, entry)]) child) :
    FieldsGather (group ++ [(.key name :: rest, entry)]) (Bindings.set fields name child) where
  distinct := Bindings.nodup_names_set h.distinct name child
  bound other := by
    have hbound := h.bound other
    rw [Group.firsts_append, Group.firsts_going, List.mem_append, List.mem_singleton,
      Segment.key.injEq, ← hbound, Bindings.names_set]
    split
    · rename_i hmem
      exact ⟨.inl, fun hor => hor.elim id fun heq => heq ▸ hmem⟩
    · rw [List.mem_append, List.mem_singleton]
  children other found hfound := by
    rw [Bindings.get?_set] at hfound
    by_cases heq : other = name
    · rw [if_pos heq, Option.some.injEq] at hfound
      subst heq hfound
      rwa [Group.after_append_going]
    · rw [if_neg heq] at hfound
      have hne : Segment.key name ≠ .key other := fun h => heq (Segment.key.inj h).symm
      rw [Group.after_append, Group.after_going_of_ne hne, List.append_nil]
      exact h.children other found hfound

theorem FieldsGather.nil {group : Group Entry} (h : group.firsts = []) :
    FieldsGather group [] where
  distinct := List.nodup_nil
  bound name := by simp [h]
  children name child hchild := by simp [Bindings.get?] at hchild

/-- A node that takes in an entry gathers it. -/
theorem Gathers.addEntry {group : Group Entry} {node : Node} (h : Gathers group node)
    (entry : Entry) : Gathers (group ++ [([], entry)]) (node.addEntry entry) := by
  have hfirsts : Group.firsts (group ++ [([], entry)]) = group.firsts := by
    rw [Group.firsts_append, Group.firsts_arrived, List.append_nil]
  have hafter : ∀ step, Group.after step (group ++ [([], entry)]) = group.after step := by
    intro step
    rw [Group.after_append, Group.after_arrived, List.append_nil]
  have hended : Declared.ofEntries (Group.ended (group ++ [([], entry)])) =
      (Declared.ofEntries group.ended).add entry := by
    rw [Group.ended_append, Group.ended_arrived, Declared.ofEntries_append_singleton]
  cases h with
  | plain ended =>
      rw [Node.addEntry, ← hended]
      exact .plain (hfirsts.trans ended)
  | object hsome keyed distinct bound children =>
      rw [Node.addEntry, ← hended]
      refine .object (hfirsts ▸ hsome) (hfirsts ▸ keyed) distinct (hfirsts ▸ bound) ?_
      intro name child hchild
      rw [hafter]
      exact children name child hchild
  | array hsome each child =>
      rw [Node.addEntry, ← hended]
      refine .array (hfirsts ▸ hsome) (hfirsts ▸ each) ?_
      rwa [hafter]

theorem gathers_empty_of_firsts {group : Group Entry} (h : group.firsts = []) (step : Segment) :
    Gathers (group.after step) empty := by
  apply gathers_empty
  rw [Group.after_eq_nil_iff, h]
  exact List.not_mem_nil

/-! ## One walk -/

section

variable {group : Group Entry} {rest : List Segment} {entry : Entry}

/-- An object with a child that gathers one thing more gathers it. -/
theorem FieldsGather.gathers_set {fields : List (String × Node)} (h : FieldsGather group fields)
    (hkeyed : ∀ step ∈ group.firsts, step.isEach = false) {name : String} {child : Node}
    (hchild : Gathers (group.after (.key name) ++ [(rest, entry)]) child) (origin : String) :
    Gathers (group ++ [(.key name :: rest, entry)])
      (object (.ofEntries group.ended) origin (Bindings.set fields name child)) := by
  obtain ⟨distinct, bound, children⟩ := h.set hchild
  rw [← Group.ended_append_going]
  exact .object Group.firsts_append_going_ne_nil
    (Group.isEach_of_mem_firsts_append_going hkeyed rfl) distinct bound children

/-- An array whose element gathers one thing more gathers it. -/
theorem gathers_array (heach : ∀ step ∈ group.firsts, step.isEach = true) {element : Node}
    (helement : Gathers (group.after .each ++ [(rest, entry)]) element) (origin : String) :
    Gathers (group ++ [(.each :: rest, entry)])
      (array (.ofEntries group.ended) origin element) := by
  rw [← Group.after_append_going] at helement
  rw [← Group.ended_append_going]
  exact .array Group.firsts_append_going_ne_nil
    (Group.isEach_of_mem_firsts_append_going heach rfl) helement

end

/-- A walk that arrives adds its entry to the group. -/
theorem Gathers.insert {entry : Entry} {depth : Nat} {steps : List Segment} {group : Group Entry}
    {node : Node} (h : Gathers group node) (hnone : (node.insert entry depth steps).2 = none) :
    Gathers (group ++ [(steps, entry)]) (node.insert entry depth steps).1 := by
  induction steps generalizing depth group node with
  | nil => exact h.addEntry entry
  | cons step rest ih =>
      -- The walk is not stopped, so the node has no shape yet or the one that the step needs.
      cases step with
      | key name =>
          cases h with
          | plain ended =>
              have hkeyed : ∀ step ∈ group.firsts, step.isEach = false := by simp [ended]
              have hchild := ih (gathers_empty_of_firsts ended (.key name)) hnone
              exact (FieldsGather.nil ended).gathers_set hkeyed hchild entry.source
          | object hsome keyed distinct bound children =>
              have hfields : FieldsGather group _ := ⟨distinct, bound, children⟩
              have hchild := ih (hfields.child name) hnone
              exact hfields.gathers_set keyed hchild _
          | array => contradiction
      | each =>
          cases h with
          | plain ended =>
              have heach : ∀ step ∈ group.firsts, step.isEach = true := by simp [ended]
              have helement := ih (gathers_empty_of_firsts ended .each) hnone
              exact gathers_array heach helement entry.source
          | object => contradiction
          | array hsome each child =>
              have helement := ih child hnone
              exact gathers_array each helement _

/-- A walk is stopped only by an entry from which it parts. -/
theorem Gathers.clash {entry : Entry} {depth : Nat} {steps : List Segment} {group : Group Entry}
    {node : Node} {obstacle : Obstacle} (h : Gathers group node)
    (hsome : (node.insert entry depth steps).2 = some obstacle) :
    Group.Clash (group ++ [(steps, entry)]) := by
  induction steps generalizing depth group node with
  | nil => contradiction
  | cons step rest ih =>
      have hfurther : Group.Clash (group.after step ++ [(rest, entry)]) →
          Group.Clash (group ++ [(step :: rest, entry)]) := by
        intro hclash
        have hafter : Group.Clash (Group.after step (group ++ [(step :: rest, entry)])) := by
          rwa [Group.after_append_going]
        exact hafter.of_after
      have hfirsts := @Group.firsts_append_going _ group step rest entry
      cases h with
      | plain =>
          rw [insert_plain_eq_none] at hsome
          contradiction
      | object hne keyed distinct bound children =>
          cases step with
          | key name =>
              have hfields : FieldsGather group _ := ⟨distinct, bound, children⟩
              exact hfurther (ih (hfields.child name) hsome)
          | each =>
              obtain ⟨name, hname⟩ := Group.exists_key_mem_firsts hne keyed
              have hkey := List.mem_append_left [.each] hname
              have heach := List.mem_append_right group.firsts (List.mem_singleton_self .each)
              rw [← hfirsts] at hkey heach
              exact Group.clash_of_firsts hkey heach
      | array hne each child =>
          cases step with
          | key name =>
              have hkey := List.mem_append_right group.firsts (List.mem_singleton_self (.key name))
              have heach := List.mem_append_left [.key name] (Group.each_mem_firsts hne each)
              rw [← hfirsts] at hkey heach
              exact Group.clash_of_firsts hkey heach
          | each => exact hfurther (ih child hsome)

end Node

end ShapeInference
