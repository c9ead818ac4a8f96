import ShapeInference.Proofs.Descriptor.Merge
import ShapeInference.Proofs.Tree.Reconcile

/-!
# Trees of normal types

Only normal types enter a tree, and all that is made of them on the way is normal: what a node says
of a field left out, the accounts of nodes, and the type of the whole data, even where defects leave
something out.

Main statements: `Node.Normal.insert`, `Node.Normal.reconcile` and `Tree.normal_grow`.
-/

namespace ShapeInference

/-- The array alternatives of a normal descriptor are normal. -/
theorem Descriptor.normal_arrayAlternatives {d : Descriptor} (h : d.Normal) :
    d.arrayAlternatives.Normal := by
  cases h with
  | union increasing several flat parts =>
      rw [arrayAlternatives]
      split
      · exact .unionOf fun d hd => parts d (List.mem_filter.mp hd).1
      · exact .union increasing several flat parts
  | unknown => exact .unknown
  | primitive kind => exact .primitive kind
  | array part => exact .array part
  | object sorted parts => exact .object sorted parts

/-- An entry is read if its text spells a path and its rules give a type there. -/
theorem Entry.read_eq_ok_iff {rules : Rulebook} {source : String} {declaration : Declaration}
    {path : Path} {entry : Entry} :
    Entry.read rules source declaration = .ok (path, entry) ↔
      Path.parse source = .ok path ∧ entry.source = source ∧ entry.declaration = declaration ∧
        rules.fieldType declaration path.position = .ok entry.type := by
  obtain ⟨source', declaration', type'⟩ := entry
  simp only [Entry.read, bind_eq_ok_iff, mapError_eq_ok_iff]
  constructor
  · rintro ⟨read, hread, type, htype, h⟩
    obtain ⟨rfl, hentry⟩ := Prod.mk.inj (Except.ok.inj h)
    obtain ⟨rfl, rfl, rfl⟩ := Entry.mk.inj hentry
    exact ⟨hread, rfl, rfl, htype⟩
  · rintro ⟨hread, rfl, rfl, htype⟩
    exact ⟨path, hread, type', htype, rfl⟩

/-- The type of an entry that is read is normal. -/
theorem Entry.normal_of_read {rules : Rulebook} {source : String} {declaration : Declaration}
    {path : Path} {entry : Entry}
    (h : Entry.read rules source declaration = .ok (path, entry)) : entry.type.Normal :=
  Rulebook.normal_fieldType (Entry.read_eq_ok_iff.mp h).2.2.2

namespace Declared

/-- All types that are declared of a place are normal. -/
structure Normal (declared : Declared) : Prop where
  entries : ∀ entry ∈ declared.entries, entry.type.Normal
  absent : ∀ d, declared.absent = some d → d.Normal

theorem normal_nothing : nothing.Normal where
  entries _ hentry := absurd hentry List.not_mem_nil
  absent _ hd := by contradiction

theorem normal_joinAbsent {earlier later : Option Descriptor}
    (hearlier : ∀ d, earlier = some d → d.Normal) (hlater : ∀ d, later = some d → d.Normal)
    {d : Descriptor} (h : joinAbsent earlier later = some d) : d.Normal := by
  cases later with
  | none => exact hearlier d h
  | some e =>
      cases earlier with
      | none => exact hlater d h
      | some f =>
          obtain rfl := Option.some.inj h
          exact (hearlier f rfl).unionOf_pair (hlater e rfl)

theorem Normal.add {declared : Declared} (h : declared.Normal) {entry : Entry}
    (hentry : entry.type.Normal) : (declared.add entry).Normal where
  entries := List.forall_mem_append.mpr ⟨h.entries, List.forall_mem_singleton.mpr hentry⟩
  absent _ := normal_joinAbsent h.absent hentry.absent

end Declared

namespace Node

/-- All types that are declared at and below a node are normal. -/
inductive Normal : Node → Prop where
  | plain {declared : Declared} (own : declared.Normal) : Normal (plain declared)
  | object {declared : Declared} {origin : String} {fields : List (String × Node)}
      (own : declared.Normal) (parts : ∀ field ∈ fields, Normal field.2) :
      Normal (object declared origin fields)
  | array {declared : Declared} {origin : String} {element : Node} (own : declared.Normal)
      (part : Normal element) : Normal (array declared origin element)

theorem normal_empty : empty.Normal := .plain Declared.normal_nothing

theorem Normal.declared {node : Node} (h : node.Normal) : node.declared.Normal := by
  cases h with
  | plain own => exact own
  | object own _ => exact own
  | array own _ => exact own

/-! ## One walk -/

theorem Normal.addEntry {node : Node} (h : node.Normal) {entry : Entry}
    (hentry : entry.type.Normal) : (node.addEntry entry).Normal := by
  cases h with
  | plain own => exact .plain (own.add hentry)
  | object own parts => exact .object (own.add hentry) parts
  | array own part => exact .array (own.add hentry) part

theorem normal_getD_get? {fields : List (String × Node)} (h : ∀ field ∈ fields, field.2.Normal)
    (name : String) : ((Bindings.get? fields name).getD empty).Normal := by
  cases hfound : Bindings.get? fields name with
  | none => exact normal_empty
  | some node => exact h (name, node) (Bindings.mem_of_get?_eq_some hfound)

theorem normal_of_mem_set {fields : List (String × Node)} (h : ∀ field ∈ fields, field.2.Normal)
    (name : String) {node : Node} (hnode : node.Normal) :
    ∀ field ∈ Bindings.set fields name node, field.2.Normal := by
  intro field hfield
  rcases Bindings.eq_or_mem_of_mem_set hfield with rfl | hmem
  · exact hnode
  · exact h field hmem

/-- A walk leaves normal types behind, whether it arrives or is stopped. -/
theorem Normal.insert {entry : Entry} (hentry : entry.type.Normal) {depth : Nat}
    {steps : List Segment} {node : Node} (h : node.Normal) :
    (node.insert entry depth steps).1.Normal := by
  induction steps generalizing depth node with
  | nil => exact h.addEntry hentry
  | cons step rest ih =>
      cases step with
      | key name =>
          cases h with
          | plain own =>
              refine .object own (List.forall_mem_singleton.mpr ?_)
              exact ih normal_empty
          | object own parts =>
              exact .object own (normal_of_mem_set parts name (ih (normal_getD_get? parts name)))
          | array own part => exact .array own part
      | each =>
          cases h with
          | plain own => exact .array own (ih normal_empty)
          | object own parts => exact .object own parts
          | array own part => exact .array own (ih part)

/-! ## Nodes further down -/

theorem Normal.child? {node child : Node} (h : node.Normal) {step : Segment}
    (hchild : node.child? step = some child) : child.Normal := by
  cases h with
  | plain own => cases step <;> contradiction
  | object own parts =>
      cases step with
      | key name => exact parts (name, child) (Bindings.mem_of_get?_eq_some hchild)
      | each => contradiction
  | array own part =>
      cases step with
      | key name => contradiction
      | each =>
          obtain rfl := Option.some.inj hchild
          exact part

theorem Normal.at? {steps : List Segment} {node found : Node} (h : node.Normal)
    (hfound : node.at? steps = some found) : found.Normal := by
  induction steps generalizing node with
  | nil =>
      obtain rfl := Option.some.inj hfound
      exact h
  | cons step rest ih =>
      obtain ⟨child, hchild, hrest⟩ := Option.bind_eq_some_iff.mp hfound
      exact ih (h.child? hchild) hrest

/-! ## Reconciling -/

theorem normal_account_add {account : Account} (h : account.type.Normal) {said : Sourced}
    (hsaid : said.type.Normal) (location : List String) :
    (account.add location said).type.Normal := by
  simp only [Account.add]
  split
  · rename_i type hmerge
    exact h.merge hsaid hmerge
  · exact h

theorem Normal.said {node : Node} (h : node.Normal) {entry : Entry} (hentry : entry ∈ node.entries)
    (throughElements : Bool) : (said throughElements entry).type.Normal := by
  have hpresent := (h.declared.entries entry hentry).present
  cases throughElements with
  | true => exact Descriptor.normal_arrayAlternatives hpresent
  | false => exact hpresent

theorem Normal.account {node : Node} (h : node.Normal) (location : List String) :
    (node.account location).type.Normal := by
  rw [Node.account]
  refine List.foldlRecOn (motive := fun account : Account => account.type.Normal) node.entries _
    Descriptor.Normal.unknown ?_
  intro account haccount entry hentry
  exact normal_account_add haccount (h.said hentry node.isArray) location

theorem Normal.conclude {node : Node} (h : node.Normal) {account : Account}
    (haccount : account.type.Normal) : (node.conclude account).1.Normal := by
  rw [Node.conclude]
  split
  · exact haccount
  · rename_i absent habsent
    exact haccount.unionOf_pair (h.declared.absent absent habsent)

/-- What the shape of a node says is added to what its own entries say. -/
theorem Normal.conclude_account_add {node : Node} (h : node.Normal) {shape : Sourced}
    (hshape : shape.type.Normal) (location : List String) (defects : List Defect) :
    (node.conclude (((node.account location).addDefects defects).add location shape)).1.Normal := by
  have haccount : ((node.account location).addDefects defects).type.Normal := h.account location
  exact h.conclude (normal_account_add haccount hshape location)

theorem normal_of_mem_reconcileFields {location : List String} {fields : List (String × Node)}
    (h : ∀ field ∈ fields, ∀ location, (field.2.reconcile location).1.Normal) :
    ∀ field ∈ (reconcileFields location fields).1, field.2.Normal := by
  rw [reconcileFields_eq]
  intro field hfield
  obtain ⟨child, hchild, rfl⟩ := List.mem_map.mp hfield
  exact h child hchild _

/-- The type at a node is normal, whatever defects there are. -/
theorem Normal.reconcile {node : Node} (h : node.Normal) (location : List String) :
    (node.reconcile location).1.Normal := by
  induction h generalizing location with
  | plain own => exact (Normal.plain own).conclude ((Normal.plain own).account location)
  | @object declared origin fields own parts ih =>
      have hnode : (Node.object declared origin fields).Normal := .object own parts
      have hfields : (Descriptor.ofFields (reconcileFields location fields).1).Normal :=
        .ofFields (normal_of_mem_reconcileFields ih)
      exact Normal.conclude_account_add hnode hfields location _
  | @array declared origin element own part ih =>
      have hnode : (Node.array declared origin element).Normal := .array own part
      have helement := ih (location ++ [Segment.wildcard])
      exact Normal.conclude_account_add hnode (.array helement) location _

end Node

namespace Tree

/-- All types that are declared in a tree are normal. -/
def Normal (tree : Tree) : Prop :=
  ∀ field ∈ tree.fields, field.2.Normal

theorem normal_empty : empty.Normal := fun _ hfield => absurd hfield List.not_mem_nil

/-- An insertion keeps the tree normal. -/
theorem Normal.insert {tree : Tree} (h : tree.Normal) {entry : Entry} (hentry : entry.type.Normal)
    (path : Path) : (tree.insert path entry).1.Normal :=
  Node.normal_of_mem_set h path.root ((Node.normal_getD_get? h path.root).insert hentry)

/-- Trying an entry leaves normal types behind, whether it is accepted or rejected. -/
theorem Normal.step {tree : Tree} (h : tree.Normal) (rules : Rulebook)
    (entry : String × Declaration) : (tree.step rules entry).Normal := by
  simp only [Tree.step, Tree.add]
  split
  · exact h
  · rename_i path placed hread
    exact h.insert (Entry.normal_of_read hread) path

/-- A normal tree stays normal however many entries it takes in. -/
theorem Normal.grow {tree : Tree} (h : tree.Normal) (rules : Rulebook)
    (entries : List (String × Declaration)) : (tree.grow rules entries).Normal :=
  List.foldlRecOn entries _ h fun _ hgrown entry _ => hgrown.step rules entry

theorem Normal.at? {tree : Tree} (h : tree.Normal) {path : Path} {node : Node}
    (hnode : tree.at? path = some node) : node.Normal := by
  obtain ⟨root, hroot, hbelow⟩ := Option.bind_eq_some_iff.mp hnode
  have hnormal : root.Normal := h (path.root, root) (Bindings.mem_of_get?_eq_some hroot)
  exact hnormal.at? hbelow

/-- A normal tree reconciles to a normal type. -/
theorem Normal.reconcile {tree : Tree} (h : tree.Normal) : tree.reconcile.1.Normal :=
  .ofFields (Node.normal_of_mem_reconcileFields fun field hfield => (h field hfield).reconcile)

end Tree

/-- Every type that is made anywhere is normal: those of values and of documents, merges of normal
types, both parts of the type of a field, and whatever entries are inserted, the types at every node
and that of the whole data, with defects or without. -/
theorem normal_everywhere (rules : Rulebook) :
    (∀ value, (Descriptor.ofValue value).Normal) ∧
      (∀ value d, Descriptor.ofJson value = .ok d → d.Normal) ∧
      (∀ a b c : Descriptor, a.Normal → b.Normal → a.merge b = .ok c → c.Normal) ∧
      (∀ declaration position type, rules.fieldType declaration position = .ok type →
        type.present.Normal ∧ ∀ d, type.absent = some d → d.Normal) ∧
      ∀ entries : List (String × Declaration),
        let tree := (Growth.ofEntries rules entries).tree
        (∀ path node, tree.at? path = some node →
          (∀ entry ∈ node.entries,
            entry.type.present.Normal ∧ ∀ d, entry.type.absent = some d → d.Normal) ∧
          ∀ d, node.absentType? = some d → d.Normal) ∧
        tree.reconcile.1.Normal := by
  refine ⟨Descriptor.normal_ofValue, fun _ _ => Descriptor.normal_ofJson,
    fun _ _ _ ha hb => ha.merge hb, fun _ _ _ htype => ?_, fun entries => ?_⟩
  · have hnormal := Rulebook.normal_fieldType htype
    exact ⟨hnormal.present, hnormal.absent⟩
  · intro tree
    have hgrown : tree = Tree.empty.grow rules entries :=
      congrArg Growth.tree (Growth.ofEntries_eq rules entries)
    have htree : tree.Normal := hgrown ▸ Tree.normal_empty.grow rules entries
    refine ⟨fun path node hnode => ?_, htree.reconcile⟩
    have hdeclared := (htree.at? hnode).declared
    refine ⟨fun entry hentry => ?_, hdeclared.absent⟩
    have hentry := hdeclared.entries entry hentry
    exact ⟨hentry.present, hentry.absent⟩

/-- A union inside a union is flattened. A field that takes the literal `true` by default cannot have
a field of its own; the optional field below it and the type in spite of the defect are normal. -/
theorem normal_everywhere_with_defect :
    (∃ d,
      Descriptor.ofJson (.object [("anyOf", .array [.string "string",
        .object [("anyOf", .array [.string "undefined", .string "string"])]])]) = .ok d ∧
      d.Normal) ∧
    ∃ tree,
      tree = (Growth.ofEntries .builtin
        [("x", .ofList [("default", .object [("options", .bool true)])]),
          ("x.y", .ofList [("optional", .bool true)])]).tree ∧
      (∃ node d, tree.at? ⟨"x", [.key "y"]⟩ = some node ∧ node.absentType? = some d ∧ d.Normal) ∧
      tree.reconcile.2.length = 1 ∧ tree.reconcile.1.Normal := by
  obtain ⟨-, hdocument, -, -, hentries⟩ := normal_everywhere .builtin
  refine ⟨⟨_, rfl, hdocument (.object [("anyOf", .array [.string "string",
    .object [("anyOf", .array [.string "undefined", .string "string"])]])]) _ rfl⟩, ?_⟩
  obtain ⟨hnodes, hroot⟩ := hentries
    [("x", .ofList [("default", .object [("options", .bool true)])]),
      ("x.y", .ofList [("optional", .bool true)])]
  have hbelow : (((Growth.ofEntries .builtin
      [("x", .ofList [("default", .object [("options", .bool true)])]),
        ("x.y", .ofList [("optional", .bool true)])]).tree.at? ⟨"x", [.key "y"]⟩).bind
          Node.absentType?) = some (.literal .undefined) := by
    decide +kernel
  obtain ⟨node, hnode, habsent⟩ := Option.bind_eq_some_iff.mp hbelow
  refine ⟨_, rfl, ⟨node, _, hnode, habsent, (hnodes _ node hnode).2 _ habsent⟩, ?_, hroot⟩
  decide +kernel

end ShapeInference
