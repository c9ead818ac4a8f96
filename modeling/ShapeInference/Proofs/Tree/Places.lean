import ShapeInference.Proofs.Schema.Meaning

/-!
# What a tree holds at each place

After any entries were tried, accepted or not, the node at a place is what the accepted entries make
of it: it is there as soon as one of their paths goes to the place or through it, holds those that
end there, has the shape that the others need, and remembers the first of these.

Main statements: `Tree.gathers_accepted`, `Tree.originAt?_grow` and `Tree.holds_of_at?`.
-/

namespace ShapeInference

/-! ## Entries by their paths -/

/-- Going some steps is only a part of going a path. -/
def GoesOnFrom (steps path : List Segment) : Prop :=
  steps <+: path ∧ steps ≠ path

instance (steps path : List Segment) : Decidable (GoesOnFrom steps path) :=
  inferInstanceAs (Decidable (steps <+: path ∧ steps ≠ path))

/-- The steps of the path that a text spells, if it spells one. -/
def Path.steps? (text : String) : Option (List Segment) :=
  (parse text).toOption.map segments

namespace Schema

/-- The entries whose path ends at a place. -/
def endingAt (schema : Schema) (steps : List Segment) : Schema :=
  schema.filter fun entry => Path.steps? entry.1 = some steps

/-- The entries whose path goes on from a place. -/
def goingOnFrom (schema : Schema) (steps : List Segment) : Schema :=
  schema.filter fun entry => (Path.steps? entry.1).any fun path => decide (GoesOnFrom steps path)

/-- Whether the path of some entry goes on from a place with a given step. -/
def goesOn (schema : Schema) (steps : List Segment) (step : Segment) : Bool :=
  schema.any fun entry => (Path.steps? entry.1).any fun path => decide (steps ++ [step] <+: path)

/-- The top-level fields that the paths of entries lead into, in order. -/
def roots (schema : Schema) : List String :=
  schema.filterMap fun entry => (Path.parse entry.1).toOption.map Path.root

end Schema

namespace Node

/-- Whether paths go through the fields of a node. -/
def isObject : Node → Bool
  | object _ _ _ => true
  | _ => false

/-- The path that gave a node its shape, if it has one. -/
def origin? : Node → Option String
  | plain _ => none
  | object _ origin _ => some origin
  | array _ origin _ => some origin

/-- A node holds at a place what a schema declares: the entries that end there in their order, each
with the type that its declaration gives a field there; the union of the types of the field left
out, if there are any; and the shape that the entries going on need, with the path of the first. -/
structure Holds (rules : Rulebook) (schema : Schema) (path : Path) (node : Node) : Prop where
  entries : List.Forall₂ (fun entry held => held.source = entry.1 ∧ held.declaration = entry.2 ∧
    rules.fieldType entry.2 path.position = .ok held.type)
      (schema.endingAt path.segments) node.entries
  absent : node.absentType? =
    Declared.unionOfAbsent (node.entries.filterMap fun held => held.type.absent)
  object : node.isObject = true ↔ ∃ name, schema.goesOn path.segments (.key name) = true
  array : node.isArray = true ↔ schema.goesOn path.segments .each = true
  not_both : ¬ (node.isObject = true ∧ node.isArray = true)
  origin : node.origin? = (schema.goingOnFrom path.segments).head?.map Prod.fst

end Node

theorem goesOnFrom_nil_iff {path : List Segment} : GoesOnFrom [] path ↔ path ≠ [] := by
  simp [GoesOnFrom, eq_comm]

theorem not_goesOnFrom_nil (steps : List Segment) : ¬ GoesOnFrom steps [] := by
  simp [GoesOnFrom]

/-- A path goes on from a place exactly if it starts with the same step and goes on after it. -/
theorem goesOnFrom_cons_iff {step other : Segment} {steps path : List Segment} :
    GoesOnFrom (step :: steps) (other :: path) ↔ step = other ∧ GoesOnFrom steps path := by
  simp only [GoesOnFrom, List.cons_prefix_cons, ne_eq, List.cons.injEq]
  constructor
  · rintro ⟨⟨rfl, hleads⟩, hne⟩
    exact ⟨rfl, hleads, fun heq => hne ⟨rfl, heq⟩⟩
  · rintro ⟨rfl, hleads, hne⟩
    exact ⟨⟨rfl, hleads⟩, fun heq => hne heq.2⟩

theorem Path.segments_inj {path other : Path} (h : path.segments = other.segments) :
    path = other := by
  obtain ⟨root, below⟩ := path
  obtain ⟨root', below'⟩ := other
  simpa [Path.segments] using h

theorem Path.steps?_eq_some_iff {text : String} {steps : List Segment} :
    Path.steps? text = some steps ↔ ∃ path, Path.parse text = .ok path ∧ path.segments = steps := by
  simp [Path.steps?, toOption_eq_some_iff]

theorem Schema.mem_endingAt {schema : Schema} {steps : List Segment}
    {entry : String × Declaration} :
    entry ∈ schema.endingAt steps ↔ entry ∈ schema ∧ Path.steps? entry.1 = some steps := by
  simp [endingAt]

theorem Schema.mem_goingOnFrom {schema : Schema} {steps : List Segment}
    {entry : String × Declaration} :
    entry ∈ schema.goingOnFrom steps ↔
      entry ∈ schema ∧ ∃ path, Path.steps? entry.1 = some path ∧ GoesOnFrom steps path := by
  simp [goingOnFrom, Option.any_eq_true]

/-- A schema goes on with a step exactly if a path begins with the place and the step. -/
theorem Schema.goesOn_iff {schema : Schema} {steps : List Segment} {step : Segment} :
    schema.goesOn steps step = true ↔
      ∃ entry ∈ schema, ∃ path, Path.steps? entry.1 = some path ∧ steps ++ [step] <+: path := by
  simp [goesOn, Option.any_eq_true]

theorem Entry.steps?_of_place {rules : Rulebook} {entry : String × Declaration}
    {member : List Segment × Entry} (h : Entry.place rules entry = some member) :
    Path.steps? entry.1 = some member.1 := by
  obtain ⟨path, placed, hread, rfl⟩ := Entry.place_eq_some_iff.mp h
  exact Path.steps?_eq_some_iff.mpr ⟨path, (Entry.read_eq_ok_iff.mp hread).1, rfl⟩

namespace Node

/-! ## Nodes that gather groups -/

theorem Gathers.declared {group : Group Entry} {node : Node} (h : Gathers group node) :
    node.declared = .ofEntries group.ended := by
  cases h <;> rfl

theorem Gathers.entries {group : Group Entry} {node : Node} (h : Gathers group node) :
    node.entries = group.ended := by
  rw [Node.entries, h.declared, Declared.entries_ofEntries]

/-- A node is an object exactly if something goes on to a field. -/
theorem Gathers.isObject_iff {group : Group Entry} {node : Node} (h : Gathers group node) :
    node.isObject = true ↔ ∃ name, .key name ∈ group.firsts := by
  cases h with
  | plain ended => simp [isObject, ended]
  | object hsome keyed distinct bound children =>
      exact iff_of_true rfl (Group.exists_key_mem_firsts hsome keyed)
  | array hsome each child =>
      refine iff_of_false Bool.false_ne_true ?_
      rintro ⟨name, hname⟩
      have := each _ hname
      contradiction

/-- A node is an array exactly if something goes on to elements. -/
theorem Gathers.isArray_iff {group : Group Entry} {node : Node} (h : Gathers group node) :
    node.isArray = true ↔ .each ∈ group.firsts := by
  cases h with
  | plain ended => simp [isArray, ended]
  | object hsome keyed distinct bound children =>
      apply iff_of_false Bool.false_ne_true
      intro heach
      have := keyed _ heach
      contradiction
  | array hsome each child => exact iff_of_true rfl (Group.each_mem_firsts hsome each)

/-- What is found at a place that a group is about: nothing if the group is empty, and otherwise a
node that gathers the group. -/
def Found (group : Group Entry) : Option Node → Prop
  | none => group = []
  | some node => group ≠ [] ∧ Gathers group node

theorem Found.isSome_iff {group : Group Entry} {found : Option Node} (h : Found group found) :
    found.isSome = true ↔ group ≠ [] := by
  cases found with
  | none => exact iff_of_false Bool.false_ne_true (not_not_intro h)
  | some node => exact iff_of_true rfl h.1

theorem Found.bind_at? {group : Group Entry} {found : Option Node} (h : Found group found)
    {steps : List Segment}
    (hfurther : ∀ node, group ≠ [] → Gathers group node →
      Found (group.beyond steps) (node.at? steps)) :
    Found (group.beyond steps) (found.bind (Node.at? steps)) := by
  cases found with
  | none =>
      obtain rfl : group = [] := h
      exact Group.beyond_nil steps
  | some node => exact hfurther node h.1 h.2

/-- What is found under a name gathers what goes on to it. -/
theorem FieldsGather.get? {group : Group Entry} {fields : List (String × Node)}
    (h : FieldsGather group fields) (name : String) :
    Found (group.after (.key name)) (Bindings.get? fields name) := by
  have hbound := h.bound name
  cases hchild : Bindings.get? fields name with
  | none =>
      apply Group.after_eq_nil_iff.mpr
      intro hkey
      exact Bindings.get?_eq_none_iff.mp hchild (hbound.mpr hkey)
  | some child =>
      refine ⟨?_, h.children _ _ hchild⟩
      intro hnil
      apply Group.after_eq_nil_iff.mp hnil
      rw [← hbound, ← Bindings.isSome_get?_iff, hchild]
      rfl

/-- The child at a step gathers what goes on after it. -/
theorem Gathers.child? {group : Group Entry} {node : Node} (h : Gathers group node)
    (step : Segment) : Found (group.after step) (node.child? step) := by
  cases h with
  | plain ended =>
      have hnil : group.after step = [] := by simp [Group.after_eq_nil_iff, ended]
      cases step <;> exact hnil
  | object hsome keyed distinct bound children =>
      have hfields : FieldsGather group _ := ⟨distinct, bound, children⟩
      cases step with
      | key name => exact hfields.get? name
      | each =>
          apply Group.after_eq_nil_iff.mpr
          intro heach
          have := keyed _ heach
          contradiction
  | array hsome each child =>
      cases step with
      | key name =>
          apply Group.after_eq_nil_iff.mpr
          intro hkey
          have := each _ hkey
          contradiction
      | each =>
          refine ⟨?_, child⟩
          intro hnil
          exact Group.after_eq_nil_iff.mp hnil (Group.each_mem_firsts hsome each)

/-- The node some steps further gathers what goes on to it. -/
theorem Gathers.at? {group : Group Entry} {node : Node} (hne : group ≠ []) (h : Gathers group node)
    (steps : List Segment) : Found (group.beyond steps) (node.at? steps) := by
  induction steps generalizing group node with
  | nil => exact ⟨hne, h⟩
  | cons step rest ih =>
      apply (h.child? step).bind_at?
      intro child hchild hgathers
      exact ih hchild hgathers

/-! ## Origins of shapes -/

/-- The path that gave the node some steps further its shape, if it has one. -/
def originAt? (steps : List Segment) (node : Node) : Option String :=
  (node.at? steps).bind origin?

theorem originAt?_plain (steps : List Segment) (declared : Declared) :
    originAt? steps (plain declared) = none := by
  cases steps with
  | nil => rfl
  | cons step rest => cases step <;> rfl

/-- An entry that arrives is the origin of no shape. -/
theorem originAt?_addEntry (entry : Entry) (steps : List Segment) (node : Node) :
    (node.addEntry entry).originAt? steps = node.originAt? steps := by
  cases node <;> cases steps with
  | nil => rfl
  | cons step rest => cases step <;> rfl

theorem originAt?_cons (step : Segment) (rest : List Segment) (node : Node) :
    node.originAt? (step :: rest) = ((node.child? step).getD empty).originAt? rest := by
  rw [originAt?, at?]
  cases node.child? step with
  | none => exact (originAt?_plain rest .nothing).symm
  | some child => rfl

section

variable {entry : Entry} {depth : Nat} {step : Segment} {rest : List Segment} {node : Node}
  (h : (insert entry depth (step :: rest) node).2 = none)

include h

/-- A walk that arrives goes on in the node one step further, or in an empty one. -/
theorem insert_child?_eq_none :
    (insert entry (depth + 1) rest ((node.child? step).getD empty)).2 = none := by
  cases step <;> cases node <;> first | exact h | contradiction

/-- A walk that arrives changes no other child. -/
theorem child?_insert (other : Segment) :
    ((insert entry depth (step :: rest) node).1.child? other).getD empty =
      if other = step then (insert entry (depth + 1) rest ((node.child? step).getD empty)).1
      else (node.child? other).getD empty := by
  cases step with
  | key name =>
      cases node with
      | plain declared =>
          cases other with
          | key other =>
              by_cases heq : name = other <;> simp [insert, child?, Bindings.get?, heq, Ne.symm]
          | each => rfl
      | object declared origin fields =>
          cases other with
          | key other =>
              by_cases heq : other = name <;> simp [insert, child?, Bindings.get?_set, heq]
          | each => rfl
      | array => contradiction
  | each =>
      cases node with
      | plain declared => cases other <;> rfl
      | object => contradiction
      | array declared origin element => cases other <;> rfl

end

/-- An insertion that goes on makes its source the origin unless there is one. -/
theorem origin?_insert (entry : Entry) (depth : Nat) (step : Segment) (rest : List Segment)
    (node : Node) :
    (insert entry depth (step :: rest) node).1.origin? = node.origin?.or (some entry.source) := by
  cases step <;> cases node <;> rfl

/-- A walk that arrives gives a shape to the nodes on its way that had none. -/
theorem originAt?_insert {entry : Entry} {depth : Nat} {steps : List Segment} {node : Node}
    (h : (insert entry depth steps node).2 = none) (place : List Segment) :
    (insert entry depth steps node).1.originAt? place =
      (node.originAt? place).or (if GoesOnFrom place steps then some entry.source else none) := by
  induction steps generalizing depth node place with
  | nil =>
      rw [if_neg (not_goesOnFrom_nil place), Option.or_none]
      exact originAt?_addEntry entry place node
  | cons step rest ih =>
      cases place with
      | nil =>
          rw [if_pos (goesOnFrom_nil_iff.mpr (List.cons_ne_nil _ _))]
          exact origin?_insert entry depth step rest node
      | cons other further =>
          simp only [originAt?_cons, child?_insert h, goesOnFrom_cons_iff]
          by_cases heq : other = step
          · subst heq
            simp only [if_true, true_and, ih (insert_child?_eq_none h)]
          · simp only [heq, false_and, if_false, Option.or_none]

end Node

namespace Tree

/-! ## One entry -/

/-- The path that gave the node at a path its shape, if it has one. -/
def originAt? (place : Path) (tree : Tree) : Option String :=
  (tree.at? place).bind Node.origin?

theorem originAt?_eq (place : Path) (tree : Tree) :
    tree.originAt? place =
      ((tree.fields.get? place.root).getD .empty).originAt? place.below := by
  rw [originAt?, at?]
  cases tree.fields.get? place.root with
  | none => exact (Node.originAt?_plain place.below .nothing).symm
  | some node => rfl

/-- An inserted path becomes the origin at every place it goes on from that has none. -/
theorem originAt?_insert {tree : Tree} {path : Path} {entry : Entry}
    (h : (tree.insert path entry).2 = none) (place : Path) :
    (tree.insert path entry).1.originAt? place =
      (tree.originAt? place).or
        (if GoesOnFrom place.segments path.segments then some entry.source else none) := by
  simp only [originAt?_eq, insert, Bindings.get?_set, Path.segments, goesOnFrom_cons_iff,
    Segment.key.injEq]
  by_cases heq : place.root = path.root
  · simp only [heq, if_true, Option.getD_some, true_and]
    exact Node.originAt?_insert h place.below
  · simp only [heq, if_false, false_and, Option.or_none]

/-- An entry without a verdict is read and inserted. -/
theorem exists_insert_of_verdict {rules : Rulebook} {tree : Tree} {source : String × Declaration}
    (h : tree.verdict rules source = none) :
    ∃ path placed, Entry.read rules source.1 source.2 = .ok (path, placed) ∧
      (tree.insert path placed).2 = none ∧
        tree.step rules source = (tree.insert path placed).1 := by
  obtain ⟨path, placed, hread, -⟩ := leaves_step h
  rw [verdict_of_read hread, Option.map_eq_none_iff] at h
  exact ⟨path, placed, hread, h, step_of_read hread⟩

/-- Only an entry with a path can be accepted. -/
theorem exists_parse_of_rejections_eq_nil {rules : Rulebook} {tree : Tree}
    {entries : List (String × Declaration)} (h : tree.rejections rules entries = []) :
    ∀ entry ∈ entries, ∃ path, Path.parse entry.1 = .ok path := by
  intro entry hentry
  have hmembers := exists_members_of_rejections_eq_nil h
  obtain ⟨member, hmember⟩ := exists_mapM_eq_some_iff.mp hmembers entry hentry
  obtain ⟨path, hpath, -⟩ := Path.steps?_eq_some_iff.mp (Entry.steps?_of_place hmember)
  exact ⟨path, hpath⟩

/-! ## Accepted entries one after another -/

section

variable {rules : Rulebook} {tree : Tree} {entries : List (String × Declaration)}
  (h : tree.rejections rules entries = [])

include h

/-- The first entry that goes on from a place without a shape gives it one. -/
theorem originAt?_grow (place : Path) :
    (tree.grow rules entries).originAt? place =
      (tree.originAt? place).or
        ((Schema.goingOnFrom entries place.segments).head?.map Prod.fst) := by
  induction entries generalizing tree with
  | nil => simp [grow, Schema.goingOnFrom]
  | cons source rest ih =>
      rw [rejections_cons, List.append_eq_nil_iff, Option.toList_eq_nil_iff] at h
      obtain ⟨path, placed, hread, hwalk, hstep⟩ := exists_insert_of_verdict h.1
      obtain ⟨hparse, hsource, -, -⟩ := Entry.read_eq_ok_iff.mp hread
      have hsteps : Path.steps? source.1 = some path.segments :=
        Path.steps?_eq_some_iff.mpr ⟨path, hparse, rfl⟩
      calc
        (tree.grow rules (source :: rest)).originAt? place =
            ((tree.step rules source).originAt? place).or
              ((Schema.goingOnFrom rest place.segments).head?.map Prod.fst) := ih h.2
        _ = (tree.originAt? place).or
              ((if GoesOnFrom place.segments path.segments then some source.1 else none).or
                ((Schema.goingOnFrom rest place.segments).head?.map Prod.fst)) := by
            rw [hstep, originAt?_insert hwalk, hsource, Option.or_assoc]
        _ = (tree.originAt? place).or
              ((Schema.goingOnFrom (source :: rest) place.segments).head?.map Prod.fst) := by
            simp only [Schema.goingOnFrom, List.filter_cons, hsteps, Option.any_some,
              decide_eq_true_eq]
            split <;> rfl

/-- A top-level field is bound when the first entry in it is accepted. -/
theorem names_grow {names : List String} (hnames : tree.fields.names = names.eraseDups) :
    (tree.grow rules entries).fields.names = (names ++ Schema.roots entries).eraseDups := by
  induction entries generalizing tree names with
  | nil => simpa [grow, Schema.roots] using hnames
  | cons source rest ih =>
      rw [rejections_cons, List.append_eq_nil_iff, Option.toList_eq_nil_iff] at h
      obtain ⟨path, placed, hread, hwalk, hstep⟩ := exists_insert_of_verdict h.1
      have hparse := (Entry.read_eq_ok_iff.mp hread).1
      have hnext : (tree.step rules source).fields.names = (names ++ [path.root]).eraseDups := by
        rw [hstep]
        exact Bindings.names_set_of_eraseDups hnames path.root _
      have hroots : Schema.roots (source :: rest) = path.root :: Schema.roots rest := by
        simp [Schema.roots, hparse, Except.toOption]
      rw [hroots, List.append_cons]
      exact ih h.2 hnext

end

/-- The tree gathers the accepted entries, whatever entries were tried. -/
theorem gathers_accepted (rules : Rulebook) (entries : List (String × Declaration)) :
    ∃ members, (empty.accepted rules entries).mapM (Entry.place rules) = some members ∧
      Node.FieldsGather members (empty.grow rules entries).fields := by
  have hnone := rejections_accepted rules empty entries
  obtain ⟨members, hmembers⟩ := exists_members_of_rejections_eq_nil hnone
  have hempty : Node.FieldsGather [] empty.fields := .nil rfl
  rcases gathers_grow hempty hmembers with ⟨-, hgathers⟩ | ⟨hrejected, -⟩
  · rw [grow_accepted] at hgathers
    exact ⟨members, hmembers, hgathers⟩
  · exact absurd hnone hrejected

/-- What is found at a path gathers what goes on beyond it. -/
theorem at?_of_gathers {group : Group Entry} {tree : Tree}
    (h : Node.FieldsGather group tree.fields) (path : Path) :
    Node.Found (group.beyond path.segments) (tree.at? path) := by
  apply (h.get? path.root).bind_at?
  intro node hne hgathers
  exact hgathers.at? hne path.below

end Tree

/-! ## The accepted entries at each place -/

section

variable {rules : Rulebook} {schema : Schema} {members : Group Entry}
  (hmembers : schema.mapM (Entry.place rules) = some members)

include hmembers

/-- The entries at a place belong, one by one, to the things that have arrived there. -/
theorem Schema.forall₂_endingAt (steps : List Segment) :
    List.Forall₂ (fun entry held => Entry.place rules entry = some (steps, held))
      (schema.endingAt steps) (members.beyond steps).ended := by
  rw [mapM_eq_some_iff] at hmembers
  induction hmembers with
  | nil => simp [endingAt, Group.ended]
  | @cons entry member schema members hmember _ ih =>
      obtain ⟨path, held⟩ := member
      have hsteps := Entry.steps?_of_place hmember
      have hended : (Group.beyond steps ((path, held) :: members)).ended =
          (if path = steps then [held] else []) ++ (Group.beyond steps members).ended := by
        rw [← Group.ended_beyond_singleton, ← Group.ended_append, ← Group.beyond_append]
        rfl
      rw [hended, endingAt]
      by_cases heq : path = steps
      · subst heq
        rw [if_pos rfl, List.filter_cons_of_pos (by simp [hsteps])]
        exact .cons hmember ih
      · rw [if_neg heq, List.filter_cons_of_neg (by simp [hsteps, heq])]
        exact ih

theorem Schema.exists_place_iff {p : List Segment → Prop} :
    (∃ member ∈ members, p member.1) ↔
      ∃ entry ∈ schema, ∃ steps, Path.steps? entry.1 = some steps ∧ p steps := by
  constructor
  · rintro ⟨member, hmember, hp⟩
    obtain ⟨entry, hentry, hplace⟩ := (mem_of_mapM_eq_some hmembers).mp hmember
    exact ⟨entry, hentry, member.1, Entry.steps?_of_place hplace, hp⟩
  · rintro ⟨entry, hentry, steps, hsteps, hp⟩
    obtain ⟨member, hplace⟩ := exists_mapM_eq_some_iff.mp ⟨members, hmembers⟩ entry hentry
    obtain rfl := Option.some.inj ((Entry.steps?_of_place hplace).symm.trans hsteps)
    exact ⟨member, (mem_of_mapM_eq_some hmembers).mpr ⟨entry, hentry, hplace⟩, hp⟩

/-- A schema goes on with a step exactly if its members do. -/
theorem Schema.goesOn_iff_mem_firsts {steps : List Segment} {step : Segment} :
    schema.goesOn steps step = true ↔ step ∈ (members.beyond steps).firsts := by
  rw [Schema.goesOn_iff, Group.mem_firsts_beyond,
    Schema.exists_place_iff hmembers (p := fun path => steps ++ [step] <+: path)]

/-- A node that gathers entries holds what their schema declares. -/
theorem Node.Gathers.holds {path : Path} {node : Node}
    (h : Gathers (members.beyond path.segments) node)
    (horigin : node.origin? = (schema.goingOnFrom path.segments).head?.map Prod.fst) :
    node.Holds rules schema path where
  entries := by
    rw [h.entries]
    apply (Schema.forall₂_endingAt hmembers path.segments).imp
    intro entry held hplace
    obtain ⟨other, placed, hread, heq⟩ := Entry.place_eq_some_iff.mp hplace
    obtain ⟨hsegments, rfl⟩ := Prod.mk.inj heq
    rw [← Path.segments_inj hsegments]
    exact (Entry.read_eq_ok_iff.mp hread).2
  absent := by
    have hnormal : ∀ held ∈ (members.beyond path.segments).ended, held.type.Normal := by
      intro held hheld
      obtain ⟨entry, -, hplace⟩ :=
        (mem_of_mapM_eq_some hmembers).mp (Group.mem_beyond.mp (Group.mem_ended.mp hheld))
      exact Entry.normal_of_place hplace
    rw [absentType?, h.declared, Declared.absent_ofEntries hnormal, h.entries,
      List.filterMap_map]
    rfl
  object := by
    simp only [h.isObject_iff, Schema.goesOn_iff_mem_firsts hmembers]
  array := by
    rw [h.isArray_iff, Schema.goesOn_iff_mem_firsts hmembers]
  not_both := by
    cases node <;> simp [isObject, isArray]
  origin := horigin

end

/-- The first accepted entry that goes on from a place gives it its shape. -/
theorem Tree.originAt?_grow_empty (rules : Rulebook) (entries : List (String × Declaration))
    (place : Path) :
    (empty.grow rules entries).originAt? place =
      (Schema.goingOnFrom (empty.accepted rules entries) place.segments).head?.map Prod.fst := by
  have hnone := rejections_accepted rules empty entries
  calc
    (empty.grow rules entries).originAt? place =
        (empty.grow rules (empty.accepted rules entries)).originAt? place := by rw [grow_accepted]
    _ = (empty.originAt? place).or
        ((Schema.goingOnFrom (empty.accepted rules entries) place.segments).head?.map Prod.fst) :=
      originAt?_grow hnone place
    _ = (Schema.goingOnFrom (empty.accepted rules entries) place.segments).head?.map Prod.fst := rfl

/-- A node holds what the accepted entries declare at its place. -/
theorem Tree.holds_of_at? {rules : Rulebook} {entries : List (String × Declaration)} {path : Path}
    {node : Node} (h : (empty.grow rules entries).at? path = some node) :
    node.Holds rules (empty.accepted rules entries) path := by
  obtain ⟨members, hmembers, hgathers⟩ := gathers_accepted rules entries
  have hat := at?_of_gathers hgathers path
  rw [h] at hat
  apply hat.2.holds hmembers
  rw [← originAt?_grow_empty, originAt?, h, Option.bind_some]

/-- After any entries were tried, a node is at a place exactly if the path of some accepted entry
leads to the place or through it, and the node then holds what the accepted entries declare. The
top-level fields come once each, in the order in which their first entries were accepted. -/
theorem Tree.holds_ofEntries (rules : Rulebook) (entries : List (String × Declaration)) :
    let accepted : Schema := empty.accepted rules entries
    let tree := (Growth.ofEntries rules entries).tree
    (∀ path : Path,
      ((tree.at? path).isSome = true ↔ ∃ entry ∈ accepted, ∃ steps,
        Path.steps? entry.1 = some steps ∧ path.segments <+: steps) ∧
      ∀ node, tree.at? path = some node → node.Holds rules accepted path) ∧
    tree.fields.names.Nodup ∧ tree.fields.names = accepted.roots.eraseDups := by
  intro accepted tree
  have htree : tree = empty.grow rules entries :=
    congrArg Growth.tree (Growth.ofEntries_eq rules entries)
  obtain ⟨members, hmembers, hgathers⟩ := gathers_accepted rules entries
  rw [htree]
  refine ⟨fun path => ⟨?_, fun node => holds_of_at?⟩, hgathers.distinct, ?_⟩
  · rw [(at?_of_gathers hgathers path).isSome_iff, Group.beyond_ne_nil_iff,
      Schema.exists_place_iff hmembers (p := fun steps => path.segments <+: steps)]
  · have hnames : empty.fields.names = ([] : List String).eraseDups := rfl
    have hnone := rejections_accepted rules empty entries
    rw [← grow_accepted, names_grow hnone hnames, List.nil_append]

/-- The second entry is stopped and leaves nothing behind. The shape still has the first one's path,
and the third adds what is declared of the place itself. -/
theorem Tree.holds_ofEntries_of_stopped :
    ∃ entries node,
      entries = [("a.b", .ofList [("toInt", .bool true)]), ("a.*", .ofList [("trim", .bool true)]),
        ("a", .ofList [("isObject", .bool true), ("optional", .bool true)])] ∧
      (empty.accepted .builtin entries).map Prod.fst = ["a.b", "a"] ∧
      (Growth.ofEntries .builtin entries).tree.at? ⟨"a", []⟩ = some node ∧
      node.Holds .builtin (empty.accepted .builtin entries) ⟨"a", []⟩ := by
  obtain ⟨hplaces, -, -⟩ := holds_ofEntries .builtin
    [("a.b", .ofList [("toInt", .bool true)]), ("a.*", .ofList [("trim", .bool true)]),
      ("a", .ofList [("isObject", .bool true), ("optional", .bool true)])]
  obtain ⟨hiff, hholds⟩ := hplaces ⟨"a", []⟩
  have hsome : ((Growth.ofEntries .builtin
      [("a.b", .ofList [("toInt", .bool true)]), ("a.*", .ofList [("trim", .bool true)]),
        ("a", .ofList [("isObject", .bool true), ("optional", .bool true)])]).tree.at?
          ⟨"a", []⟩).isSome = true := by
    decide +kernel
  obtain ⟨node, hnode⟩ := Option.isSome_iff_exists.mp hsome
  refine ⟨_, node, rfl, ?_, hnode, hholds node hnode⟩
  decide +kernel

end ShapeInference
