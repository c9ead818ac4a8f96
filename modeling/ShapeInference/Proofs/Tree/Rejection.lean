import Mathlib.Data.List.Perm.Basic
import ShapeInference.Proofs.Bindings
import ShapeInference.Schema

/-!
# Rejected entries leave no trace

A walk can only be stopped at a node that had its shape before the walk began: nodes made on the
way have the shape that the path needs. Up to that node nothing was made, so the tree is as it was.
A tree is therefore made by its accepted entries alone.

Main statements: `Node.insert_eq_self`, `Node.leaves_insert` and `Tree.grow_accepted`.
-/

namespace ShapeInference

namespace Node

/-! ## One walk -/

/-- A walk from a node without shape arrives. -/
theorem insert_plain_eq_none (entry : Entry) (depth : Nat) (steps : List Segment)
    (declared : Declared) : (insert entry depth steps (plain declared)).2 = none := by
  induction steps generalizing depth declared with
  | nil => rfl
  | cons step rest ih =>
      cases step with
      | key name => exact ih (depth + 1) .nothing
      | each => exact ih (depth + 1) .nothing

/-- A walk that is stopped leaves the node as it was. -/
theorem insert_eq_self {entry : Entry} {depth : Nat} {steps : List Segment} {node : Node}
    {obstacle : Obstacle} (h : (insert entry depth steps node).2 = some obstacle) :
    (insert entry depth steps node).1 = node := by
  induction steps generalizing depth node with
  | nil => simp [insert] at h
  | cons step rest ih =>
      cases node with
      | plain declared =>
          rw [insert_plain_eq_none] at h
          contradiction
      | object declared origin fields =>
          cases step with
          | key name =>
              cases hchild : Bindings.get? fields name with
              | none =>
                  simp only [insert, hchild, Option.getD_none, empty] at h
                  rw [insert_plain_eq_none] at h
                  contradiction
              | some child =>
                  simp only [insert, hchild, Option.getD_some] at h ⊢
                  rw [ih h, Bindings.set_eq_self hchild]
          | each => rfl
      | array declared origin element =>
          cases step with
          | key name => rfl
          | each =>
              simp only [insert] at h ⊢
              rw [ih h]

/-! ## Entries below a node -/

mutual

/-- The entries at and below a node, each with the steps that lead to it. -/
def leaves : Node → List (List Segment × Entry)
  | plain declared => declared.entries.map fun entry => ([], entry)
  | object declared _ fields =>
    (declared.entries.map fun entry => ([], entry)) ++ leavesOfFields fields
  | array declared _ element =>
    (declared.entries.map fun entry => ([], entry)) ++
      (leaves element).map fun leaf => (.each :: leaf.1, leaf.2)

/-- The entries at and below the nodes of fields. -/
def leavesOfFields : List (String × Node) → List (List Segment × Entry)
  | [] => []
  | (name, node) :: rest =>
    ((leaves node).map fun leaf => (.key name :: leaf.1, leaf.2)) ++ leavesOfFields rest

end

theorem leaves_addEntry (entry : Entry) (node : Node) :
    (node.addEntry entry).leaves.Perm (([], entry) :: node.leaves) := by
  cases node with
  | plain declared =>
      simp only [addEntry, leaves, Declared.add, List.map_append, List.map_cons, List.map_nil]
      exact List.perm_append_singleton _ _
  | object declared origin fields =>
      simp only [addEntry, leaves, Declared.add, List.map_append, List.map_cons, List.map_nil]
      exact (List.perm_append_singleton _ _).append_right _
  | array declared origin element =>
      simp only [addEntry, leaves, Declared.add, List.map_append, List.map_cons, List.map_nil]
      exact (List.perm_append_singleton _ _).append_right _

theorem leavesOfFields_set {fields : List (String × Node)} {name : String} {child : Node}
    {leaf : List Segment × Entry}
    (h : child.leaves.Perm (leaf :: ((Bindings.get? fields name).getD empty).leaves)) :
    (leavesOfFields (Bindings.set fields name child)).Perm
      ((.key name :: leaf.1, leaf.2) :: leavesOfFields fields) := by
  induction fields with
  | nil =>
      have hmap := h.map fun leaf => (Segment.key name :: leaf.1, leaf.2)
      simpa [Bindings.set, leavesOfFields, Bindings.get?, leaves, empty, Declared.nothing]
        using hmap
  | cons field rest ih =>
      obtain ⟨key, old⟩ := field
      by_cases hk : key = name
      · subst hk
        rw [Bindings.get?_cons, if_pos rfl, Option.getD_some] at h
        have hmap := h.map fun leaf => (Segment.key key :: leaf.1, leaf.2)
        simpa [Bindings.set, leavesOfFields] using hmap.append_right (leavesOfFields rest)
      · rw [Bindings.get?_cons, if_neg hk] at h
        simp only [Bindings.set, hk, if_false, leavesOfFields]
        exact ((ih h).append_left _).trans List.perm_middle

/-- A walk that arrives adds exactly its own entry. -/
theorem leaves_insert {entry : Entry} {depth : Nat} {steps : List Segment} {node : Node}
    (h : (insert entry depth steps node).2 = none) :
    (insert entry depth steps node).1.leaves.Perm ((steps, entry) :: node.leaves) := by
  induction steps generalizing depth node with
  | nil => exact leaves_addEntry entry node
  | cons step rest ih =>
      cases step with
      | key name =>
          cases node with
          | plain declared =>
              have hchild : (insert entry (depth + 1) rest empty).1.leaves.Perm
                  ((rest, entry) :: empty.leaves) := ih h
              have hset := @leavesOfFields_set [] name _ _ hchild
              simp only [insert, leaves]
              exact (hset.append_left _).trans (List.perm_append_singleton _ _)
          | object declared origin fields =>
              simp only [insert] at h ⊢
              exact ((leavesOfFields_set (ih h)).append_left _).trans List.perm_middle
          | array declared origin element => simp [insert] at h
      | each =>
          cases node with
          | plain declared =>
              have hchild : (insert entry (depth + 1) rest empty).1.leaves.Perm
                  ((rest, entry) :: empty.leaves) := ih h
              have hmap := hchild.map fun leaf => (Segment.each :: leaf.1, leaf.2)
              simp only [insert, leaves]
              exact (hmap.append_left _).trans (List.perm_append_singleton _ _)
          | object declared origin fields => simp [insert] at h
          | array declared origin element =>
              simp only [insert] at h ⊢
              have hchild := (ih h).map fun leaf => (Segment.each :: leaf.1, leaf.2)
              exact (hchild.append_left _).trans List.perm_middle

end Node

namespace Tree

/-! ## One entry -/

/-- The entries of a tree, each with the steps that lead to it. -/
def leaves (tree : Tree) : List (List Segment × Entry) :=
  Node.leavesOfFields tree.fields

/-- A rejected entry leaves the tree as it was. -/
theorem insert_eq_self {tree : Tree} {path : Path} {entry : Entry} {obstacle : Obstacle}
    (h : (tree.insert path entry).2 = some obstacle) : (tree.insert path entry).1 = tree := by
  simp only [insert] at h ⊢
  rw [Node.insert_eq_self h]
  cases hroot : tree.fields.get? path.root with
  | none =>
      rw [hroot, Option.getD_none, Node.empty, Node.insert_plain_eq_none] at h
      contradiction
  | some node => rw [Option.getD_some, Bindings.set_eq_self hroot]

/-- An insertion adds the leaf of its entry and no other. -/
theorem leaves_insert {tree : Tree} {path : Path} {entry : Entry}
    (h : (tree.insert path entry).2 = none) :
    (tree.insert path entry).1.leaves.Perm ((path.segments, entry) :: tree.leaves) :=
  Node.leavesOfFields_set (Node.leaves_insert h)

/-- Why a tree rejects an entry, if it does. -/
def verdict (rules : Rulebook) (tree : Tree) (entry : String × Declaration) : Option Defect :=
  (tree.add rules entry.1 entry.2).2

/-- The tree after an entry was tried. -/
def step (rules : Rulebook) (tree : Tree) (entry : String × Declaration) : Tree :=
  (tree.add rules entry.1 entry.2).1

/-- A rejected entry leaves the tree as it was. -/
theorem step_eq_self {rules : Rulebook} {tree : Tree} {entry : String × Declaration}
    {defect : Defect} (h : tree.verdict rules entry = some defect) :
    tree.step rules entry = tree := by
  simp only [verdict, step, add] at h ⊢
  split at h
  · rfl
  · rename_i path placed _
    obtain ⟨obstacle, hobstacle, -⟩ := Option.map_eq_some_iff.mp h
    exact insert_eq_self hobstacle

/-- An accepted entry is added at its path, and nothing else is. -/
theorem leaves_step {rules : Rulebook} {tree : Tree} {entry : String × Declaration}
    (h : tree.verdict rules entry = none) :
    ∃ path placed, Entry.read rules entry.1 entry.2 = .ok (path, placed) ∧
      (tree.step rules entry).leaves.Perm ((path.segments, placed) :: tree.leaves) := by
  simp only [verdict, step, add] at h ⊢
  split at h
  · contradiction
  · rename_i path placed hread
    rw [hread]
    exact ⟨path, placed, rfl, leaves_insert (Option.map_eq_none_iff.mp h)⟩

/-! ## Entries one after another -/

/-- The tree after entries were tried. -/
def grow (rules : Rulebook) (tree : Tree) (entries : List (String × Declaration)) : Tree :=
  entries.foldl (step rules) tree

/-- Each entry with the verdict of the tree that the entries before it made. -/
def verdicts (rules : Rulebook) : Tree → List (String × Declaration) →
    List ((String × Declaration) × Option Defect)
  | _, [] => []
  | tree, entry :: rest =>
    (entry, tree.verdict rules entry) :: verdicts rules (tree.step rules entry) rest

/-- The entries that are not rejected. -/
def accepted (rules : Rulebook) (tree : Tree) (entries : List (String × Declaration)) :
    List (String × Declaration) :=
  ((tree.verdicts rules entries).filter (·.2.isNone)).map Prod.fst

/-- The defects of the rejected entries. -/
def rejections (rules : Rulebook) (tree : Tree) (entries : List (String × Declaration)) :
    List Defect :=
  (tree.verdicts rules entries).filterMap Prod.snd

/-- The verdict on the first entry comes before those on the others, which its step prepares. -/
theorem rejections_cons (rules : Rulebook) (tree : Tree) (entry : String × Declaration)
    (rest : List (String × Declaration)) :
    tree.rejections rules (entry :: rest) =
      (tree.verdict rules entry).toList ++ (tree.step rules entry).rejections rules rest := by
  cases h : tree.verdict rules entry <;> simp [rejections, verdicts, h]

/-- What the accepted entries make, all entries make. -/
theorem grow_accepted (rules : Rulebook) (tree : Tree) (entries : List (String × Declaration)) :
    tree.grow rules (tree.accepted rules entries) = tree.grow rules entries := by
  induction entries generalizing tree with
  | nil => rfl
  | cons entry rest ih =>
      have hnext := ih (tree.step rules entry)
      cases h : tree.verdict rules entry with
      | none => simpa [accepted, verdicts, grow, h] using hnext
      | some defect =>
          rw [step_eq_self h] at hnext
          simpa [accepted, verdicts, grow, h, step_eq_self h] using hnext

/-- None of the accepted entries is rejected when the others are left out. -/
theorem rejections_accepted (rules : Rulebook) (tree : Tree)
    (entries : List (String × Declaration)) :
    tree.rejections rules (tree.accepted rules entries) = [] := by
  induction entries generalizing tree with
  | nil => rfl
  | cons entry rest ih =>
      have hnext := ih (tree.step rules entry)
      cases h : tree.verdict rules entry with
      | none => simpa [accepted, rejections, verdicts, h] using hnext
      | some defect =>
          rw [step_eq_self h] at hnext
          simpa [accepted, rejections, verdicts, h, step_eq_self h] using hnext

end Tree

namespace Growth

theorem add_eq (rules : Rulebook) (growth : Growth) (entry : String × Declaration) :
    growth.add rules entry =
      ⟨growth.tree.step rules entry,
        growth.rejected ++ (growth.tree.verdict rules entry).toList⟩ := rfl

/-- A growth is its tree and the rejections on the way. -/
theorem ofEntries_eq (rules : Rulebook) (entries : List (String × Declaration)) :
    ofEntries rules entries =
      ⟨Tree.empty.grow rules entries, Tree.empty.rejections rules entries⟩ := by
  have hfold : ∀ growth : Growth, entries.foldl (add rules) growth =
      ⟨growth.tree.grow rules entries,
        growth.rejected ++ growth.tree.rejections rules entries⟩ := by
    induction entries with
    | nil => exact fun growth => by simp [Tree.grow, Tree.rejections, Tree.verdicts]
    | cons entry rest ih =>
        intro growth
        rw [List.foldl_cons, ih, add_eq]
        rw [Tree.rejections_cons, List.append_assoc]
        rfl
  exact hfold empty

theorem tree_ofEntries (rules : Rulebook) (entries : List (String × Declaration)) :
    (ofEntries rules entries).tree = Tree.empty.grow rules entries :=
  congrArg tree (ofEntries_eq rules entries)

end Growth

/-- The result for a schema is that for its accepted entries, with the rejections first. -/
theorem Schema.infer_eq (schema : Schema) (rules : Rulebook) :
    schema.infer rules =
      match Tree.empty.rejections rules schema ++ (Tree.empty.grow rules schema).reconcile.2 with
      | [] => .ok (Tree.empty.grow rules schema).reconcile.1
      | defects => .error defects :=
  congrArg
    (fun growth : Growth =>
      match growth.rejected ++ growth.tree.reconcile.2 with
      | [] => Except.ok growth.tree.reconcile.1
      | defects => .error defects)
    (Growth.ofEntries_eq rules schema)

/-- A rejected entry leaves the tree as it was and appends its one defect; an accepted one adds its
one leaf and no defect. A schema is therefore reconciled as if its rejected entries were not there,
after their defects in order. -/
theorem rejection_leaves_no_trace (rules : Rulebook) :
    (∀ (entries : List (String × Declaration)) (entry : String × Declaration),
      let growth := Growth.ofEntries rules entries
      match growth.tree.verdict rules entry with
      | some defect => growth.add rules entry = ⟨growth.tree, growth.rejected ++ [defect]⟩
      | none => (growth.add rules entry).rejected = growth.rejected ∧
          ∃ path placed, Entry.read rules entry.1 entry.2 = .ok (path, placed) ∧
            (growth.add rules entry).tree.leaves.Perm
              ((path.segments, placed) :: growth.tree.leaves)) ∧
    ∀ schema : Schema,
      let kept := Growth.ofEntries rules (Tree.empty.accepted rules schema)
      (Growth.ofEntries rules schema).tree = kept.tree ∧ kept.rejected = [] ∧
        schema.infer rules =
          match Tree.empty.rejections rules schema ++ kept.tree.reconcile.2 with
          | [] => .ok kept.tree.reconcile.1
          | defects => .error defects := by
  constructor
  · intro entries entry growth
    rw [Growth.add_eq]
    cases h : growth.tree.verdict rules entry with
    | none => exact ⟨List.append_nil _, Tree.leaves_step h⟩
    | some defect =>
        simp only [Tree.step_eq_self h, Option.toList]
  · intro schema kept
    have hkept : kept = ⟨Tree.empty.grow rules schema, []⟩ := by
      rw [← Tree.grow_accepted, ← Tree.rejections_accepted rules .empty schema]
      exact Growth.ofEntries_eq rules _
    rw [hkept, Schema.infer_eq, Growth.ofEntries_eq]
    exact ⟨rfl, rfl, rfl⟩

end ShapeInference
