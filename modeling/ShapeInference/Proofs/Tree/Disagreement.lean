import ShapeInference.Proofs.Tree.Obstacle

/-!
# Who disagrees

A disagreement names a location and two paths of entries. Where a walk is stopped, both paths lead
through the location. Where entries are reconciled, the location may lie below the place at which
they meet: the earlier path ends at that place, and so does the later one, unless it stands for the
shape of the place. It is then the first path that goes on from there, wherever that path leads.

Main statements: `Tree.exists_originAt?_of_verdict`, `Node.Gathers.exists_at?_of_mem_reconcile`,
`Schema.onLine_of_mem_rejections` and `Schema.onLine_of_disagrees`.
-/

namespace ShapeInference

/-- The path that a text spells and a location lie on one line: one of them leads to the other or
through it. -/
def OnLine (source : String) (location : List String) : Prop :=
  ∃ steps, Path.steps? source = some steps ∧
    (steps.map Segment.text <+: location ∨ location <+: steps.map Segment.text)

instance (source : String) (location : List String) : Decidable (OnLine source location) :=
  decidable_of_iff
    ((Path.steps? source).any fun steps =>
      decide (steps.map Segment.text <+: location ∨ location <+: steps.map Segment.text))
    (by simp [OnLine, Option.any_eq_true])

/-- A defect is a disagreement of two paths at a location or below it. -/
def Defect.Between (location : List String) (earlier later : String) (defect : Defect) : Prop :=
  ∃ trail left right, defect = .disagreement (location ++ trail) ⟨earlier, left⟩ ⟨later, right⟩

/-! ## Walks that are stopped -/

namespace Tree

/-- A walk is stopped at a place on its way that has a shape already. -/
theorem exists_originAt?_of_obstacle {tree : Tree} {path : Path} {entry : Entry}
    {obstacle : Obstacle} (h : (tree.insert path entry).2 = some obstacle) :
    ∃ place : Path, path.segments.take obstacle.depth = place.segments ∧
      tree.originAt? place = some obstacle.origin := by
  obtain ⟨place, step, node, hstart, hat, hobstacle⟩ := insert_eq_some_iff.mp h
  obtain ⟨-, hobstacle⟩ := Option.ite_none_left_eq_some.mp hobstacle
  obtain ⟨origin, horigin, rfl⟩ := Option.map_eq_some_iff.mp hobstacle
  refine ⟨place, ?_, ?_⟩
  · exact (List.prefix_iff_eq_take.mp ((List.prefix_append _ _).trans hstart)).symm
  · rw [originAt?, hat]
    exact horigin

/-- Reading an entry never ends in a disagreement. -/
theorem ne_disagreement_of_read {rules : Rulebook} {source : String} {declaration : Declaration}
    {location : List String} {earlier later : Sourced} :
    Entry.read rules source declaration ≠ .error (.disagreement location earlier later) := by
  intro h
  simp only [Entry.read] at h
  cases hparse : Path.parse source with
  | error fault => simp [hparse, Except.mapError, bind, Except.bind] at h
  | ok path =>
      cases htype : rules.fieldType declaration path.position <;>
        simp [hparse, htype, Except.mapError, bind, Except.bind, pure, Except.pure] at h

/-- An entry that is rejected disagrees with the path that gave its shape to a place on the way. -/
theorem exists_originAt?_of_verdict {rules : Rulebook} {tree : Tree}
    {entry : String × Declaration} {location : List String} {earlier later : Sourced}
    (h : tree.verdict rules entry = some (.disagreement location earlier later)) :
    later.source = entry.1 ∧ ∃ path place : Path, Path.parse entry.1 = .ok path ∧
      place.segments <+: path.segments ∧ place.segments.map Segment.text = location ∧
      tree.originAt? place = some earlier.source := by
  cases hread : Entry.read rules entry.1 entry.2 with
  | error defect =>
      have hdefect : tree.verdict rules entry = some defect := by rw [verdict, add, hread]
      obtain rfl := Option.some.inj (hdefect.symm.trans h)
      exact absurd hread ne_disagreement_of_read
  | ok read =>
      obtain ⟨path, placed⟩ := read
      rw [verdict_of_read hread] at h
      obtain ⟨obstacle, hobstacle, hdefect⟩ := Option.map_eq_some_iff.mp h
      obtain ⟨place, htake, horigin⟩ := exists_originAt?_of_obstacle hobstacle
      obtain ⟨rfl, rfl, rfl⟩ := Defect.disagreement.inj hdefect
      refine ⟨rfl, path, place, (Entry.read_eq_ok_iff.mp hread).1, ?_, ?_, horigin⟩
      · rw [← htake]
        exact List.take_prefix _ _
      · rw [htake]

/-- A rejection is the verdict on an entry by the tree of those before it. -/
theorem exists_of_mem_rejections {rules : Rulebook} {tree : Tree}
    {entries : List (String × Declaration)} {defect : Defect}
    (h : defect ∈ tree.rejections rules entries) :
    ∃ before entry after, before ++ entry :: after = entries ∧
      (tree.grow rules before).verdict rules entry = some defect := by
  induction entries generalizing tree with
  | nil => contradiction
  | cons entry rest ih =>
      rw [rejections_cons, List.mem_append, Option.mem_toList] at h
      rcases h with hhere | hlater
      · exact ⟨[], entry, rest, rfl, hhere⟩
      · obtain ⟨before, other, after, rfl, hverdict⟩ := ih hlater
        exact ⟨entry :: before, other, after, rfl, hverdict⟩

theorem map_fst_verdicts (rules : Rulebook) (tree : Tree) (entries : List (String × Declaration)) :
    (tree.verdicts rules entries).map Prod.fst = entries := by
  induction entries generalizing tree with
  | nil => rfl
  | cons entry rest ih => rw [verdicts, List.map_cons, ih]

theorem accepted_subset (rules : Rulebook) (tree : Tree) (entries : List (String × Declaration)) :
    tree.accepted rules entries ⊆ entries := by
  calc
    tree.accepted rules entries ⊆ (tree.verdicts rules entries).map Prod.fst :=
      List.map_subset _ List.filter_sublist.subset
    _ = entries := map_fst_verdicts rules tree entries

end Tree

/-! ## Accounts -/

namespace Account

/-- Only these paths spoke in an account, and one did if anything is known. -/
structure From (account : Account) (sources : List String) : Prop where
  known : account.source = none → account.type = .unknown
  source : ∀ source, account.source = some source → source ∈ sources

variable {account : Account} {sources location : List String} {said : Sourced}

theorem from_empty (sources : List String) : empty.From sources where
  known _ := rfl
  source _ h := by contradiction

theorem From.addDefects (h : account.From sources) (defects : List Defect) :
    (account.addDefects defects).From sources :=
  ⟨h.known, h.source⟩

theorem From.add (h : account.From sources) (hsaid : said.source ∈ sources) :
    (account.add location said).From sources := by
  rw [Account.add]
  cases account.type.merge said.type with
  | error c => exact ⟨h.known, h.source⟩
  | ok type =>
      constructor
      · intro hnone
        contradiction
      · intro source hsource
        obtain rfl := Option.some.inj hsource
        cases hspoke : account.source with
        | none => exact hsaid
        | some earlier => exact h.source earlier hspoke

/-- What conflicts with an account disagrees with a path that spoke. -/
theorem From.exists_between (h : account.From sources) {defect : Defect}
    (hdefect : defect ∈ (account.add location said).defects) :
    defect ∈ account.defects ∨
      ∃ earlier ∈ sources, defect.Between location earlier said.source := by
  rw [Account.add] at hdefect
  cases hmerge : account.type.merge said.type with
  | ok type =>
      rw [hmerge] at hdefect
      exact .inl hdefect
  | error c =>
      rw [hmerge] at hdefect
      apply (List.mem_append.mp hdefect).imp_right
      intro hnew
      rw [List.mem_singleton.mp hnew]
      cases hspoke : account.source with
      | none =>
          -- Nothing conflicts with an account in which nobody spoke.
          rw [h.known hspoke, Descriptor.merge_unknown_left] at hmerge
          contradiction
      | some earlier => exact ⟨earlier, h.source earlier hspoke, c.trail, c.left, c.right, rfl⟩

/-- Each disagreement that speaking adds to an account is between two of its paths. -/
theorem From.foldl_add (location : List String) {spoken : List Sourced} (h : account.From sources)
    (hspoken : ∀ said ∈ spoken, said.source ∈ sources) :
    (spoken.foldl (Account.add location) account).From sources ∧
      ∀ defect ∈ (spoken.foldl (Account.add location) account).defects,
        defect ∈ account.defects ∨
          ∃ earlier ∈ sources, ∃ later ∈ sources, defect.Between location earlier later := by
  induction spoken generalizing account with
  | nil => exact ⟨h, fun defect hdefect => .inl hdefect⟩
  | cons said rest ih =>
      obtain ⟨hsaid, hrest⟩ := List.forall_mem_cons.mp hspoken
      obtain ⟨hfrom, hdefects⟩ := ih (h.add hsaid) hrest
      refine ⟨hfrom, ?_⟩
      intro defect hdefect
      rcases hdefects defect hdefect with hadded | hlater
      · apply (h.exists_between hadded).imp_right
        rintro ⟨earlier, hearlier, hbetween⟩
        exact ⟨earlier, hearlier, said.source, hsaid, hbetween⟩
      · exact .inr hlater

end Account

namespace Node

/-! ## One node -/

/-- A defect is a disagreement at a node: of one of its entries with another or with its shape. -/
def Disagrees (location : List String) (node : Node) (defect : Defect) : Prop :=
  ∃ earlier ∈ node.entries.map Entry.source, ∃ later,
    (later ∈ node.entries.map Entry.source ∨ node.origin? = some later) ∧
      defect.Between location earlier later

/-- The account of a node is of its entries, and its disagreements are disagreements of the node. -/
theorem account_from (location : List String) (node : Node) :
    (node.account location).From (node.entries.map Entry.source) ∧
      ∀ defect ∈ (node.account location).defects, node.Disagrees location defect := by
  have hspoken : ∀ spoken ∈ node.entries.map (said node.isArray),
      spoken.source ∈ node.entries.map Entry.source := by
    rw [List.forall_mem_map]
    intro entry hentry
    exact List.mem_map.mpr ⟨entry, hentry, rfl⟩
  obtain ⟨hfrom, hdefects⟩ := (Account.from_empty _).foldl_add location hspoken
  rw [List.foldl_map] at hfrom hdefects
  refine ⟨hfrom, ?_⟩
  intro defect hdefect
  rcases hdefects defect hdefect with hempty | hbetween
  · contradiction
  · obtain ⟨earlier, hearlier, later, hlater, hbetween⟩ := hbetween
    exact ⟨earlier, hearlier, later, .inl hlater, hbetween⟩

theorem defects_conclude (node : Node) (account : Account) :
    (node.conclude account).2 = account.defects := by
  rw [conclude]
  split <;> rfl

/-- A defect of a node with a shape is one at the node itself or one further down. -/
theorem disagrees_or_mem {location : List String} {node : Node} {defects : List Defect}
    {shape : Sourced} (horigin : node.origin? = some shape.source) {defect : Defect}
    (h : defect ∈ (node.conclude
      (((node.account location).addDefects defects).add location shape)).2) :
    node.Disagrees location defect ∨ defect ∈ defects := by
  obtain ⟨hfrom, hdefects⟩ := node.account_from location
  rw [defects_conclude] at h
  rcases (hfrom.addDefects defects).exists_between h with hearlier | hshape
  · exact (List.mem_append.mp hearlier).imp_left (hdefects defect)
  · left
    obtain ⟨earlier, hearlier, hbetween⟩ := hshape
    exact ⟨earlier, hearlier, shape.source, .inr horigin, hbetween⟩

/-! ## Nodes further down -/

/-- A defect of a node is a disagreement at the node or at one further down. -/
theorem Gathers.exists_at?_of_mem_reconcile {group : Group Entry} {node : Node}
    (h : Gathers group node) {location : List String} {defect : Defect}
    (hdefect : defect ∈ (node.reconcile location).2) :
    ∃ steps below, node.at? steps = some below ∧
      below.Disagrees (location ++ steps.map Segment.text) defect := by
  induction h generalizing location with
  | plain ended =>
      rw [reconcile, defects_conclude] at hdefect
      refine ⟨[], _, rfl, ?_⟩
      rw [List.map_nil, List.append_nil]
      exact (account_from location _).2 defect hdefect
  | @object group origin fields hsome keyed distinct bound children ih =>
      rw [reconcile, reconcileFields_eq] at hdefect
      rcases disagrees_or_mem rfl hdefect with hhere | hfurther
      · refine ⟨[], _, rfl, ?_⟩
        rwa [List.map_nil, List.append_nil]
      · obtain ⟨⟨name, child⟩, hfield, hchild⟩ := List.mem_flatMap.mp hfurther
        -- No name repeats among the fields, so that this one is found again by its name.
        have hget := Bindings.get?_eq_some_of_mem distinct hfield
        obtain ⟨steps, below, hat, hdisagrees⟩ := ih name child hget hchild
        refine ⟨.key name :: steps, below, ?_, ?_⟩
        · rw [Node.at?, Node.child?, hget]
          exact hat
        · rwa [List.append_assoc] at hdisagrees
  | @array group origin element hsome each child ih =>
      rw [reconcile] at hdefect
      rcases disagrees_or_mem rfl hdefect with hhere | hfurther
      · refine ⟨[], _, rfl, ?_⟩
        rwa [List.map_nil, List.append_nil]
      · obtain ⟨steps, below, hat, hdisagrees⟩ := ih hfurther
        refine ⟨.each :: steps, below, hat, ?_⟩
        rwa [List.append_assoc] at hdisagrees

end Node

/-- A defect of a tree is a disagreement at one of its nodes. -/
theorem Tree.exists_at?_of_mem_reconcile {tree : Tree} {group : Group Entry}
    (h : Node.FieldsGather group tree.fields) {defect : Defect}
    (hdefect : defect ∈ tree.reconcile.2) :
    ∃ path node, tree.at? path = some node ∧
      node.Disagrees (path.segments.map Segment.text) defect := by
  rw [reconcile, Node.reconcileFields_eq] at hdefect
  obtain ⟨⟨name, child⟩, hfield, hchild⟩ := List.mem_flatMap.mp hdefect
  have hget := Bindings.get?_eq_some_of_mem h.distinct hfield
  obtain ⟨steps, below, hat, hdisagrees⟩ :=
    (h.children name child hget).exists_at?_of_mem_reconcile hchild
  refine ⟨⟨name, steps⟩, below, ?_, hdisagrees⟩
  rw [at?, hget]
  exact hat

/-! ## Whole schemas -/

namespace Schema

variable {schema : Schema} {rules : Rulebook}

theorem defects_of_infer {defects : List Defect} (h : schema.infer rules = .error defects) :
    defects = Tree.empty.rejections rules schema ++ (Tree.empty.grow rules schema).reconcile.2 := by
  rw [infer_eq] at h
  split at h
  · contradiction
  · exact (Except.error.inj h).symm

theorem exists_of_head?_goingOnFrom {steps : List Segment} {source : String}
    (h : (schema.goingOnFrom steps).head?.map Prod.fst = some source) :
    source ∈ schema.map Prod.fst ∧
      ∃ path, Path.steps? source = some path ∧ steps <+: path := by
  obtain ⟨entry, hentry, rfl⟩ := Option.map_eq_some_iff.mp h
  obtain ⟨hmem, path, hpath, hgoes⟩ := mem_goingOnFrom.mp (List.mem_of_head? hentry)
  exact ⟨List.mem_map.mpr ⟨entry, hmem, rfl⟩, path, hpath, hgoes.1⟩

/-- The paths that a rejected entry and an earlier one take both lead to the location. -/
theorem onLine_of_mem_rejections {location : List String} {earlier later : Sourced}
    (h : .disagreement location earlier later ∈ Tree.empty.rejections rules schema) :
    earlier.source ∈ schema.map Prod.fst ∧ later.source ∈ schema.map Prod.fst ∧
      OnLine earlier.source location ∧ OnLine later.source location := by
  obtain ⟨before, entry, after, rfl, hverdict⟩ := Tree.exists_of_mem_rejections h
  obtain ⟨hlater, path, place, hparse, hplace, rfl, horigin⟩ :=
    Tree.exists_originAt?_of_verdict hverdict
  rw [Tree.originAt?_grow_empty] at horigin
  obtain ⟨hmem, other, hother, hleads⟩ := exists_of_head?_goingOnFrom horigin
  have hsteps : Path.steps? later.source = some path.segments :=
    Path.steps?_eq_some_iff.mpr ⟨path, hlater ▸ hparse, rfl⟩
  refine ⟨?_, ?_, ⟨other, hother, .inr (hleads.map _)⟩, ⟨_, hsteps, .inr (hplace.map _)⟩⟩
  · rw [List.map_append]
    apply List.mem_append_left
    exact List.map_subset Prod.fst (Tree.accepted_subset rules .empty before) hmem
  · rw [hlater, List.map_append, List.map_cons]
    exact List.mem_append_right _ List.mem_cons_self

/-- The path of an entry at a node leads just to the node. -/
theorem steps?_of_mem_entries {path : Path} {node : Node} (h : node.Holds rules schema path)
    {source : String} (hsource : source ∈ node.entries.map Entry.source) :
    source ∈ schema.map Prod.fst ∧ Path.steps? source = some path.segments := by
  obtain ⟨held, hheld, rfl⟩ := List.mem_map.mp hsource
  obtain ⟨entry, hentry, heq⟩ := exists_mem_of_forall₂ h.entries hheld
  obtain ⟨hmem, hsteps⟩ := mem_endingAt.mp hentry
  rw [heq.1]
  exact ⟨List.mem_map.mpr ⟨entry, hmem, rfl⟩, hsteps⟩

/-- Where entries are reconciled, the earlier path ends on the way to the location, and so does the
later one, or it is the first that goes on from the end of the earlier. -/
theorem onLine_of_disagrees {path : Path} {node : Node} (h : node.Holds rules schema path)
    {location : List String} {earlier later : Sourced}
    (hdisagrees : node.Disagrees (path.segments.map Segment.text)
      (.disagreement location earlier later)) :
    earlier.source ∈ schema.map Prod.fst ∧ later.source ∈ schema.map Prod.fst ∧
      OnLine earlier.source location ∧
      (OnLine later.source location ∨ ∃ steps, Path.steps? earlier.source = some steps ∧
        steps.map Segment.text <+: location ∧
        (schema.goingOnFrom steps).head?.map Prod.fst = some later.source) := by
  obtain ⟨source, hsource, other, hother, trail, left, right, heq⟩ := hdisagrees
  obtain ⟨rfl, rfl, rfl⟩ := Defect.disagreement.inj heq
  obtain ⟨hmem, hsteps⟩ := steps?_of_mem_entries h hsource
  have hleads : path.segments.map Segment.text <+: path.segments.map Segment.text ++ trail :=
    List.prefix_append _ _
  rcases hother with hentry | horigin
  · obtain ⟨hmem', hsteps'⟩ := steps?_of_mem_entries h hentry
    exact ⟨hmem, hmem', ⟨_, hsteps, .inl hleads⟩, .inl ⟨_, hsteps', .inl hleads⟩⟩
  · rw [h.origin] at horigin
    obtain ⟨hmem', -⟩ := exists_of_head?_goingOnFrom horigin
    exact ⟨hmem, hmem', ⟨_, hsteps, .inl hleads⟩, .inr ⟨_, hsteps, hleads, horigin⟩⟩

/-- Both paths of a disagreement are those of entries. The earlier one lies on the line of the
location, and so does the later one, or it is the first accepted one that goes on from the place of
the earlier. -/
theorem sources_of_disagreement {defects : List Defect} (h : schema.infer rules = .error defects)
    {location : List String} {earlier later : Sourced}
    (hmem : .disagreement location earlier later ∈ defects) :
    earlier.source ∈ schema.map Prod.fst ∧ later.source ∈ schema.map Prod.fst ∧
      OnLine earlier.source location ∧
      (OnLine later.source location ∨ ∃ steps, Path.steps? earlier.source = some steps ∧
        steps.map Segment.text <+: location ∧
        (goingOnFrom (Tree.empty.accepted rules schema) steps).head?.map Prod.fst =
          some later.source) := by
  rw [defects_of_infer h] at hmem
  rcases List.mem_append.mp hmem with hrejected | hreconciled
  · obtain ⟨hearlier, hlater, honline, honline'⟩ := onLine_of_mem_rejections hrejected
    exact ⟨hearlier, hlater, honline, .inl honline'⟩
  · obtain ⟨members, -, hgathers⟩ := Tree.gathers_accepted rules schema
    obtain ⟨path, node, hat, hdisagrees⟩ := Tree.exists_at?_of_mem_reconcile hgathers hreconciled
    obtain ⟨hearlier, hlater, honline⟩ := onLine_of_disagrees (Tree.holds_of_at? hat) hdisagrees
    have hsubset : (Tree.empty.accepted rules schema).map Prod.fst ⊆ schema.map Prod.fst :=
      List.map_subset _ (Tree.accepted_subset rules .empty schema)
    exact ⟨hsubset hearlier, hsubset hlater, honline⟩

/-- The first path below the default stands for the shape, though another one declares the field
that the default contradicts. -/
theorem infer_eq_error_of_default_beside_fields :
    infer [("x.y", .ofList [("toInt", .bool true)]), ("x.z", .ofList [("trim", .bool true)]),
        ("x", .ofList [("default", .object [("options", .object [("z", .bool true)])])])] .builtin =
      .error [.disagreement ["x", "z"] ⟨"x", .literal (.bool true)⟩
        ⟨"x.y", .primitive .string⟩] := by
  with_unfolding_all rfl

/-- The path of the default is on the line of the location. The other path is not: it is the first
that goes on from the place of the default. -/
theorem sources_of_disagreement_below_default :
    ∃ defects,
      infer [("x.y", .ofList [("toInt", .bool true)]), ("x.z", .ofList [("trim", .bool true)]),
        ("x", .ofList [("default", .object [("options", .object [("z", .bool true)])])])] .builtin =
          .error defects ∧
      .disagreement ["x", "z"] ⟨"x", .literal (.bool true)⟩ ⟨"x.y", .primitive .string⟩ ∈ defects ∧
      OnLine "x" ["x", "z"] ∧ ¬ OnLine "x.y" ["x", "z"] ∧
      ∃ steps, Path.steps? "x" = some steps ∧ steps.map Segment.text <+: ["x", "z"] ∧
        (goingOnFrom (Tree.empty.accepted .builtin
          [("x.y", .ofList [("toInt", .bool true)]), ("x.z", .ofList [("trim", .bool true)]),
            ("x", .ofList [("default", .object [("options", .object [("z", .bool true)])])])])
          steps).head?.map Prod.fst = some "x.y" := by
  have herror := infer_eq_error_of_default_beside_fields
  have hmem := List.mem_singleton_self
    (Defect.disagreement ["x", "z"] ⟨"x", .literal (.bool true)⟩ ⟨"x.y", .primitive .string⟩)
  have hoff : ¬ OnLine "x.y" ["x", "z"] := by decide +kernel
  obtain ⟨-, -, honline, hlater⟩ := sources_of_disagreement herror hmem
  exact ⟨_, herror, hmem, honline, hoff, hlater.resolve_left hoff⟩

/-- The later path of a disagreement may part from the line of the location. -/
theorem not_forall_onLine_of_disagreement :
    ¬ ∀ (schema : Schema) (rules : Rulebook) (defects : List Defect) (location : List String)
        (earlier later : Sourced), schema.infer rules = .error defects →
      .disagreement location earlier later ∈ defects →
        OnLine earlier.source location ∧ OnLine later.source location := by
  intro hall
  obtain ⟨-, honline⟩ :=
    hall _ _ _ _ _ _ infer_eq_error_of_default_beside_fields (List.mem_singleton_self _)
  have hoff : ¬ OnLine "x.y" ["x", "z"] := by decide +kernel
  exact hoff honline

end Schema

end ShapeInference
