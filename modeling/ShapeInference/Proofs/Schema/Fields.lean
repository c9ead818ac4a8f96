import ShapeInference.Proofs.Descriptor.Join
import ShapeInference.Proofs.Tree.Disagreement

/-!
# Top-level fields

All entries of a schema are tried one after another in one tree, and all defects are found on the
way. Yet an entry sees only the field that its path leads into, and leaves the others as they are,
and each defect is about one field. So the fields of a schema can be told from its parts, each with
the entries of one field.

Main statements: `Tree.get?_grow_within`, `Tree.filter_rejections` and `Schema.infer_by_fields`.
-/

namespace ShapeInference

/-- Whether a text spells a path into a top-level field. -/
def Path.leadsInto (name : String) (text : String) : Bool :=
  (steps? text).any fun steps => decide ([.key name] <+: steps)

/-- Whether a defect is at a location in a top-level field, or of an entry whose path leads into
that field. -/
def Defect.concerns (name : String) : Defect → Bool
  | badPath text _ => Path.leadsInto name text
  | badRule path _ => Path.leadsInto name path
  | disagreement location earlier later =>
    decide (location.head? = some name) || Path.leadsInto name earlier.source ||
      Path.leadsInto name later.source

namespace Schema

/-- The entries whose path leads into a top-level field. -/
def within (schema : Schema) (name : String) : Schema :=
  schema.filter fun entry => Path.leadsInto name entry.1

/-- All defects of a schema, in order. -/
def defects (schema : Schema) (rules : Rulebook) : List Defect :=
  match schema.infer rules with
  | .ok _ => []
  | .error defects => defects

/-- The type of the data by the accepted entries of a schema, as good as their disagreements
allow. -/
def bestEffort (schema : Schema) (rules : Rulebook) : Descriptor :=
  (Growth.ofEntries rules schema).tree.reconcile.1

end Schema

/-! ## Paths into fields -/

namespace Path

variable {text name : String}

theorem leadsInto_of_prefix {steps : List Segment} (h : steps? text = some steps) {place : Path}
    (hplace : place.segments <+: steps) (name : String) :
    leadsInto name text = decide (place.root = name) := by
  have hhead : [Segment.key name] <+: steps ↔ place.root = name := by
    obtain ⟨rest, rfl⟩ := hplace
    rw [segments, List.cons_append, List.cons_prefix_cons, Segment.key.injEq, eq_comm,
      and_iff_left (List.nil_prefix)]
  rw [leadsInto, h, Option.any_some, decide_eq_decide]
  exact hhead

theorem leadsInto_of_parse {path : Path} (h : parse text = .ok path) (name : String) :
    leadsInto name text = decide (path.root = name) :=
  leadsInto_of_prefix (steps?_eq_some_iff.mpr ⟨path, h, rfl⟩) (List.prefix_refl _) name

/-- A text leads into a field exactly if it is a path whose first step is the field. -/
theorem leadsInto_iff :
    leadsInto name text = true ↔ ∃ path, parse text = .ok path ∧ path.root = name := by
  constructor
  · intro h
    obtain ⟨steps, hsteps, -⟩ := (Option.any_eq_true _ _).mp h
    obtain ⟨path, hpath, -⟩ := steps?_eq_some_iff.mp hsteps
    rw [leadsInto_of_parse hpath, decide_eq_true_eq] at h
    exact ⟨path, hpath, h⟩
  · rintro ⟨path, hpath, hname⟩
    rw [leadsInto_of_parse hpath, decide_eq_true_eq]
    exact hname

end Path

theorem Schema.mem_within {schema : Schema} {name : String} {entry : String × Declaration} :
    entry ∈ schema.within name ↔ entry ∈ schema ∧ Path.leadsInto name entry.1 = true :=
  List.mem_filter

theorem Schema.within_append (schema more : Schema) (name : String) :
    within (schema ++ more) name = schema.within name ++ more.within name :=
  List.filter_append _ _

theorem Schema.within_cons_of_leadsInto {schema : Schema} {name : String}
    {entry : String × Declaration} (h : Path.leadsInto name entry.1 = true) :
    within (entry :: schema) name = entry :: schema.within name :=
  List.filter_cons_of_pos h

theorem Schema.within_cons_of_not_leadsInto {schema : Schema} {name : String}
    {entry : String × Declaration} (h : Path.leadsInto name entry.1 = false) :
    within (entry :: schema) name = schema.within name :=
  List.filter_cons_of_neg (Bool.eq_false_iff.mp h)

/-- A disagreement concerns the field at the top of its location, if the paths that disagree lead
into that field. -/
theorem Defect.concerns_disagreement {field : String} {location : List String}
    (hlocation : location.head? = some field) {earlier later : Sourced} {name : String}
    (hearlier : Path.leadsInto name earlier.source = decide (field = name))
    (hlater : Path.leadsInto name later.source = decide (field = name)) :
    (Defect.disagreement location earlier later).concerns name = decide (field = name) := by
  simp only [concerns, hlocation, hearlier, hlater, Option.some.injEq, Bool.or_self]

namespace Tree

variable {rules : Rulebook} {tree other : Tree} {entry : String × Declaration} {name : String}

/-! ## One entry -/

/-- An entry changes only the field that its path leads into. -/
theorem get?_step_of_not_leadsInto (h : Path.leadsInto name entry.1 = false) :
    (tree.step rules entry).fields.get? name = tree.fields.get? name := by
  cases hread : Entry.read rules entry.1 entry.2 with
  | error defect => rw [step, add, hread]
  | ok read =>
      obtain ⟨path, placed⟩ := read
      have hparse := (Entry.read_eq_ok_iff.mp hread).1
      rw [Path.leadsInto_of_parse hparse, decide_eq_false_iff_not] at h
      rw [step_of_read hread, insert, Bindings.get?_set, if_neg (Ne.symm h)]

/-- An entry sees only the field that its path leads into. -/
theorem verdict_congr (h : tree.fields.get? name = other.fields.get? name)
    (hleads : Path.leadsInto name entry.1 = true) :
    tree.verdict rules entry = other.verdict rules entry ∧
      (tree.step rules entry).fields.get? name = (other.step rules entry).fields.get? name := by
  cases hread : Entry.read rules entry.1 entry.2 with
  | error defect => simp only [verdict, step, add, hread, h, and_self]
  | ok read =>
      obtain ⟨path, placed⟩ := read
      have hparse := (Entry.read_eq_ok_iff.mp hread).1
      rw [Path.leadsInto_of_parse hparse, decide_eq_true_eq] at hleads
      subst hleads
      rw [verdict_of_read hread, verdict_of_read hread, step_of_read hread, step_of_read hread]
      simp only [insert, h, Bindings.get?_set, if_true, and_self]

/-- Why an entry cannot be read concerns the field that its path leads into. -/
theorem concerns_of_read {source : String} {declaration : Declaration} {defect : Defect}
    (h : Entry.read rules source declaration = .error defect) (name : String) :
    defect.concerns name = Path.leadsInto name source := by
  cases hparse : (Path.parse source).mapError (Defect.badPath source) with
  | error fault =>
      obtain ⟨reason, -, rfl⟩ := mapError_eq_error_iff.mp hparse
      simp only [Entry.read, hparse, bind, Except.bind, Except.error.injEq] at h
      rw [← h, Defect.concerns]
  | ok path =>
      cases htype : (rules.fieldType declaration path.position).mapError
          (Defect.badRule source) with
      | error fault =>
          obtain ⟨reason, -, rfl⟩ := mapError_eq_error_iff.mp htype
          simp only [Entry.read, hparse, htype, bind, Except.bind, Except.error.injEq] at h
          rw [← h, Defect.concerns]
      | ok type => simp [Entry.read, hparse, htype, bind, Except.bind, pure, Except.pure] at h

/-- The defect of a rejected entry concerns the field that the path of the entry leads into, and no
other. -/
theorem concerns_of_verdict {entries : List (String × Declaration)} {defect : Defect}
    (h : (empty.grow rules entries).verdict rules entry = some defect) (name : String) :
    defect.concerns name = Path.leadsInto name entry.1 := by
  cases hread : Entry.read rules entry.1 entry.2 with
  | error fault =>
      have hfault : (empty.grow rules entries).verdict rules entry = some fault := by
        rw [verdict, add, hread]
      obtain rfl := Option.some.inj (hfault.symm.trans h)
      exact concerns_of_read hread name
  | ok read =>
      -- The walk was stopped by a shape whose origin is an entry in the same field.
      have hstopped := h
      rw [verdict_of_read hread] at hstopped
      obtain ⟨obstacle, -, rfl⟩ := Option.map_eq_some_iff.mp hstopped
      obtain ⟨-, path, place, hparse, hplace, hlocation, horigin⟩ :=
        exists_originAt?_of_verdict h
      rw [originAt?_grow_empty] at horigin
      obtain ⟨-, steps, hsteps, hleads⟩ := Schema.exists_of_head?_goingOnFrom horigin
      have hthis : Path.steps? entry.1 = some path.segments :=
        Path.steps?_eq_some_iff.mpr ⟨path, hparse, rfl⟩
      rw [Path.leadsInto_of_prefix hthis hplace]
      apply Defect.concerns_disagreement
      · rw [← hlocation]
        rfl
      · exact Path.leadsInto_of_prefix hsteps hleads name
      · exact Path.leadsInto_of_prefix hthis hplace name

/-! ## Entries one after another -/

/-- The later entries are rejected by the tree that the earlier ones have grown. -/
theorem rejections_append (rules : Rulebook) (tree : Tree)
    (entries more : List (String × Declaration)) :
    tree.rejections rules (entries ++ more) =
      tree.rejections rules entries ++ (tree.grow rules entries).rejections rules more := by
  induction entries generalizing tree with
  | nil => rfl
  | cons entry rest ih =>
      rw [List.cons_append, rejections_cons, rejections_cons, ih, List.append_assoc]
      rfl

theorem rejections_singleton (rules : Rulebook) (tree : Tree) (entry : String × Declaration) :
    tree.rejections rules [entry] = (tree.verdict rules entry).toList := by
  rw [rejections_cons]
  exact List.append_nil _

/-- A field is what the entries in it make of it. -/
theorem get?_grow_within (h : tree.fields.get? name = other.fields.get? name) (schema : Schema) :
    (tree.grow rules schema).fields.get? name =
      (other.grow rules (schema.within name)).fields.get? name := by
  induction schema generalizing tree other with
  | nil => exact h
  | cons entry rest ih =>
      cases hleads : Path.leadsInto name entry.1 with
      | true =>
          rw [Schema.within_cons_of_leadsInto hleads]
          exact ih (verdict_congr h hleads).2
      | false =>
          rw [Schema.within_cons_of_not_leadsInto hleads]
          exact ih ((get?_step_of_not_leadsInto hleads).trans h)

/-- The rejections that concern a field are those of the entries in it. -/
theorem filter_rejections (rules : Rulebook) (schema : Schema) (name : String) :
    (empty.rejections rules schema).filter (Defect.concerns name) =
      empty.rejections rules (schema.within name) := by
  induction schema using List.reverseRecOn with
  | nil => rfl
  | append_singleton before entry ih =>
      have hverdict : ∀ defect ∈ ((empty.grow rules before).verdict rules entry).toList,
          defect.concerns name = Path.leadsInto name entry.1 := by
        intro defect hdefect
        exact concerns_of_verdict (Option.mem_toList.mp hdefect) name
      rw [rejections_append, List.filter_append, ih, rejections_singleton, Schema.within_append,
        rejections_append]
      congr 1
      cases hleads : Path.leadsInto name entry.1 with
      | true =>
          have hfield : (empty.grow rules before).fields.get? name =
              (empty.grow rules (Schema.within before name)).fields.get? name :=
            get?_grow_within rfl before
          have hentry : Schema.within [entry] name = [entry] :=
            Schema.within_cons_of_leadsInto hleads
          rw [(verdict_congr hfield hleads).1] at hverdict ⊢
          rw [hentry, rejections_singleton, List.filter_eq_self]
          intro defect hdefect
          rw [hverdict defect hdefect, hleads]
      | false =>
          have hnone : Schema.within [entry] name = [] :=
            Schema.within_cons_of_not_leadsInto hleads
          rw [hnone]
          apply List.filter_eq_nil_iff.mpr
          intro defect hdefect
          rw [hverdict defect hdefect, hleads]
          exact Bool.false_ne_true

/-! ## All fields -/

/-- A field is in the tree if the path of some accepted entry leads into it. -/
theorem mem_names_grow {rules : Rulebook} {schema : Schema} {name : String} :
    name ∈ (empty.grow rules schema).fields.names ↔
      ∃ entry ∈ empty.accepted rules schema, Path.leadsInto name entry.1 = true := by
  have hnames : empty.fields.names = ([] : List String).eraseDups := rfl
  have hnone := rejections_accepted rules empty schema
  rw [← grow_accepted, names_grow hnone hnames, List.nil_append, List.mem_eraseDups]
  simp [Schema.roots, Path.leadsInto_iff, toOption_eq_some_iff]

section

variable {rules : Rulebook} {schema : Schema}

theorem nodup_names_grow : (empty.grow rules schema).fields.names.Nodup := by
  obtain ⟨members, -, hgathers⟩ := gathers_accepted rules schema
  exact hgathers.distinct

/-- A disagreement found in a field concerns that field and no other. -/
theorem concerns_of_mem_reconcile {field : String × Node}
    (hfield : field ∈ (empty.grow rules schema).fields) {defect : Defect}
    (hdefect : defect ∈ (field.2.reconcile [field.1]).2) (name : String) :
    defect.concerns name = decide (field.1 = name) := by
  obtain ⟨members, -, hgathers⟩ := gathers_accepted rules schema
  have hget := Bindings.get?_eq_some_of_mem hgathers.distinct hfield
  obtain ⟨steps, below, hat, source, hsource, later, hlater, trail, left, right, rfl⟩ :=
    (hgathers.children field.1 field.2 hget).exists_at?_of_mem_reconcile hdefect
  have hholds : below.Holds rules (empty.accepted rules schema) ⟨field.1, steps⟩ := by
    apply holds_of_at?
    rw [at?, hget]
    exact hat
  obtain ⟨-, hsteps⟩ := Schema.steps?_of_mem_entries hholds hsource
  apply Defect.concerns_disagreement rfl
  · exact Path.leadsInto_of_prefix hsteps (List.prefix_refl _) name
  · rcases hlater with hentry | horigin
    · obtain ⟨-, hsteps'⟩ := Schema.steps?_of_mem_entries hholds hentry
      exact Path.leadsInto_of_prefix hsteps' (List.prefix_refl _) name
    · rw [hholds.origin] at horigin
      obtain ⟨-, steps', hsteps', hleads⟩ := Schema.exists_of_head?_goingOnFrom horigin
      exact Path.leadsInto_of_prefix hsteps' hleads name

/-- The disagreements that concern a field are those of its node. -/
theorem filter_reconcile (name : String) :
    ((empty.grow rules schema).reconcile.2).filter (Defect.concerns name) =
      (((empty.grow rules schema).fields.get? name).map fun node =>
        (node.reconcile [name]).2).getD [] := by
  rw [reconcile, Node.reconcileFields_eq]
  apply Bindings.filter_flatMap_eq nodup_names_grow
  intro field hfield defect hdefect
  exact concerns_of_mem_reconcile hfield hdefect name

/-- The whole type has the fields of the tree, each with the type of its own node. -/
theorem field?_reconcile (name : String) :
    (empty.grow rules schema).reconcile.1.field? name =
      ((empty.grow rules schema).fields.get? name).map fun node => (node.reconcile [name]).1 := by
  have hnodup : (Bindings.names ((empty.grow rules schema).fields.map fun field =>
      (field.1, (field.2.reconcile [field.1]).1))).Nodup := by
    rw [Bindings.names, List.map_map]
    exact nodup_names_grow
  rw [reconcile, Node.reconcileFields_eq]
  calc
    Bindings.get? (Bindings.sortedOfPairs ((empty.grow rules schema).fields.map fun field =>
        (field.1, (field.2.reconcile [field.1]).1))) name =
        Bindings.get? ((empty.grow rules schema).fields.map fun field =>
          (field.1, (field.2.reconcile [field.1]).1)) name := by
      rw [Bindings.get?_sortedOfPairs, Bindings.get?_reverse hnodup]
    _ = ((empty.grow rules schema).fields.get? name).map fun node => (node.reconcile [name]).1 :=
      Bindings.get?_map (fun name node => (Node.reconcile [name] node).1) _ name

end

end Tree

namespace Schema

variable {schema : Schema} {rules : Rulebook} {defect : Defect} {name : String}

theorem bestEffort_eq (schema : Schema) (rules : Rulebook) :
    schema.bestEffort rules = (Tree.empty.grow rules schema).reconcile.1 := by
  rw [bestEffort, Growth.ofEntries_eq]

theorem defects_eq (schema : Schema) (rules : Rulebook) :
    schema.defects rules =
      Tree.empty.rejections rules schema ++ (Tree.empty.grow rules schema).reconcile.2 := by
  rw [Schema.defects, infer_eq]
  cases Tree.empty.rejections rules schema ++ (Tree.empty.grow rules schema).reconcile.2 with
  | nil => rfl
  | cons defect rest => rfl

/-- A schema is inferred exactly if it has no defects. -/
theorem exists_infer_eq_ok_iff :
    (∃ d, schema.infer rules = .ok d) ↔ schema.defects rules = [] := by
  rw [defects_eq, infer_eq]
  cases Tree.empty.rejections rules schema ++ (Tree.empty.grow rules schema).reconcile.2 with
  | nil => exact iff_of_true ⟨_, rfl⟩ rfl
  | cons defect rest => simp

/-- A defect concerns the field that the path of some entry leads into, if the path is one. -/
theorem concerns_of_mem_defects (h : defect ∈ schema.defects rules) :
    ∃ entry ∈ schema, ∀ name, Path.leadsInto name entry.1 = true → defect.concerns name = true := by
  rw [defects_eq] at h
  rcases List.mem_append.mp h with hrejected | hreconciled
  · obtain ⟨before, entry, after, rfl, hverdict⟩ := Tree.exists_of_mem_rejections hrejected
    refine ⟨entry, by simp, ?_⟩
    intro name hleads
    rw [Tree.concerns_of_verdict hverdict, hleads]
  · rw [Tree.reconcile, Node.reconcileFields_eq] at hreconciled
    obtain ⟨field, hfield, hdefect⟩ := List.mem_flatMap.mp hreconciled
    obtain ⟨entry, hentry, hleads⟩ :=
      Tree.mem_names_grow.mp (List.mem_map.mpr ⟨field, hfield, rfl⟩)
    refine ⟨entry, Tree.accepted_subset _ _ _ hentry, ?_⟩
    intro name hname
    obtain ⟨path, hpath, hroot⟩ := Path.leadsInto_iff.mp hleads
    rw [Path.leadsInto_of_parse hpath, decide_eq_true_eq] at hname
    rw [Tree.concerns_of_mem_reconcile hfield hdefect, decide_eq_true_eq, ← hroot, hname]

/-- A field has the type that the entries in it give it. -/
theorem field?_bestEffort (schema : Schema) (rules : Rulebook) (name : String) :
    (schema.bestEffort rules).field? name = ((schema.within name).bestEffort rules).field? name := by
  rw [bestEffort_eq, bestEffort_eq, Tree.field?_reconcile, Tree.field?_reconcile,
    Tree.get?_grow_within rfl schema]

/-- The type of the data has a field for each name that the path of an accepted entry leads into. -/
theorem bestEffort_eq_object (schema : Schema) (rules : Rulebook) :
    ∃ fields, schema.bestEffort rules = .object fields ∧ (Bindings.names fields).Nodup ∧
      ∀ name, name ∈ Bindings.names fields ↔
        ∃ entry ∈ Tree.empty.accepted rules schema, Path.leadsInto name entry.1 = true := by
  rw [bestEffort_eq]
  refine ⟨_, rfl, (Bindings.sorted_sortedOfPairs _).nodup, ?_⟩
  intro name
  rw [← Tree.mem_names_grow, ← Bindings.isSome_get?_iff, ← Bindings.isSome_get?_iff]
  have hget := congrArg Option.isSome (@Tree.field?_reconcile rules schema name)
  rw [Option.isSome_map] at hget
  exact Bool.eq_iff_iff.mp hget

/-- The defects that concern a field are those of the entries in that field. -/
theorem filter_defects (schema : Schema) (rules : Rulebook) (name : String) :
    (schema.defects rules).filter (Defect.concerns name) = (schema.within name).defects rules := by
  have hall : ((schema.within name).defects rules).filter (Defect.concerns name) =
      (schema.within name).defects rules := by
    rw [List.filter_eq_self]
    intro defect hdefect
    obtain ⟨entry, hentry, hconcerns⟩ := concerns_of_mem_defects hdefect
    exact hconcerns name (mem_within.mp hentry).2
  have hwithin : (schema.within name).within name = schema.within name := by
    rw [within, within, List.filter_filter]
    simp only [Bool.and_self]
  rw [← hall, defects_eq, defects_eq, List.filter_append, List.filter_append,
    Tree.filter_rejections, Tree.filter_rejections, hwithin, Tree.filter_reconcile,
    Tree.filter_reconcile, Tree.get?_grow_within rfl schema]

/-- The fields of the data are inferred independently. The type that is inferred, as good as defects
allow, has one field for each name that the path of an accepted entry leads into. Under each name it
has the type, and there are just the defects, that the entries in that field have without the
others. -/
theorem infer_by_fields (schema : Schema) (rules : Rulebook) :
    (∃ fields, schema.bestEffort rules = .object fields ∧ (Bindings.names fields).Nodup ∧
      ∀ name, name ∈ Bindings.names fields ↔
        ∃ entry ∈ Tree.empty.accepted rules schema, Path.leadsInto name entry.1 = true) ∧
    (∀ name,
      (schema.bestEffort rules).field? name =
        ((schema.within name).bestEffort rules).field? name ∧
      (schema.defects rules).filter (Defect.concerns name) =
        (schema.within name).defects rules) ∧
    ((∃ d, schema.infer rules = .ok d) ↔
      (∀ entry ∈ schema, ∃ path, Path.parse entry.1 = .ok path) ∧
        ∀ name, ∃ d, (schema.within name).infer rules = .ok d) := by
  refine ⟨bestEffort_eq_object schema rules, ?_, ?_, ?_⟩
  · intro name
    exact ⟨field?_bestEffort schema rules name, filter_defects schema rules name⟩
  · intro hok
    rw [exists_infer_eq_ok_iff] at hok
    constructor
    · rw [defects_eq, List.append_eq_nil_iff] at hok
      exact Tree.exists_parse_of_rejections_eq_nil hok.1
    · intro name
      rw [exists_infer_eq_ok_iff, ← filter_defects, hok, List.filter_nil]
  · rintro ⟨hpaths, hok⟩
    rw [exists_infer_eq_ok_iff, List.eq_nil_iff_forall_not_mem]
    intro defect hdefect
    obtain ⟨entry, hentry, hconcerns⟩ := concerns_of_mem_defects hdefect
    obtain ⟨path, hpath⟩ := hpaths entry hentry
    have hleads := Path.leadsInto_iff.mpr ⟨path, hpath, rfl⟩
    have hmem : defect ∈ (schema.defects rules).filter (Defect.concerns path.root) :=
      List.mem_filter.mpr ⟨hdefect, hconcerns path.root hleads⟩
    rw [filter_defects, exists_infer_eq_ok_iff.mp (hok path.root)] at hmem
    contradiction

end Schema

end ShapeInference
