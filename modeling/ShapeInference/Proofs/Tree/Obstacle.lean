import ShapeInference.Proofs.Tree.Places

/-!
# What stops an entry

A walk is stopped at a place on its way where the node has the other shape. The accepted entries
gave it that shape, so a new entry is stopped exactly if it forks from one of them: after common
steps one goes on to a field and the other to each element.

Main statements: `Tree.insert_eq_some_iff`, `Tree.exists_obstacle_of_forksAt` and
`Tree.exists_fork_of_obstacle`.
-/

namespace ShapeInference

namespace Segment

/-- What a place is taken for once paths go on from it with a step. -/
def found : Segment → Descriptor
  | key _ => .object []
  | each => .array .unknown

/-- What a path that goes on from a place with a step needs of it. -/
def wanted : Segment → Descriptor
  | key name => .object [(name, .unknown)]
  | each => .array .unknown

end Segment

/-- Two paths fork after common steps: one goes on to a field there, the other to each element. -/
def Fork (shared path other : List Segment) : Prop :=
  ∃ step otherStep, shared ++ [step] <+: path ∧ shared ++ [otherStep] <+: other ∧
    step.isEach ≠ otherStep.isEach

/-- Some entry has a path that forks from a given one. -/
def Schema.ForksAt (schema : Schema) (shared path : List Segment) : Prop :=
  ∃ entry ∈ schema, ∃ other, Path.steps? entry.1 = some other ∧ Fork shared path other

/-! ## Walks -/

namespace Node

/-- What a node that lies `depth` steps down has against paths that go on from it with a step. -/
def obstacle? (depth : Nat) (step : Segment) (node : Node) : Option Obstacle :=
  if node.isArray = step.isEach then none
  else node.origin?.map fun origin =>
    ⟨depth, origin, if node.isArray then .array .unknown else .object [], step.wanted⟩

/-- A walk is stopped by the node itself or further on. -/
theorem insert_cons_snd (entry : Entry) (depth : Nat) (step : Segment) (rest : List Segment)
    (node : Node) :
    (insert entry depth (step :: rest) node).2 =
      (node.obstacle? depth step).or
        (insert entry (depth + 1) rest ((node.child? step).getD empty)).2 := by
  cases step <;> cases node <;> rfl

/-- Where a step is stopped there is no child to go to. -/
theorem child?_eq_none_of_obstacle {depth : Nat} {step : Segment} {node : Node}
    {obstacle : Obstacle} (h : node.obstacle? depth step = some obstacle) :
    node.child? step = none := by
  cases step <;> cases node <;> first | rfl | contradiction

theorem insert_child?_eq_some_iff {entry : Entry} {depth : Nat} {rest : List Segment}
    {found : Option Node} {obstacle : Obstacle} :
    (insert entry depth rest (found.getD empty)).2 = some obstacle ↔
      ∃ node, found = some node ∧ (insert entry depth rest node).2 = some obstacle := by
  cases found with
  | none => simp [empty, insert_plain_eq_none]
  | some node => simp

/-- A walk is stopped exactly at a node on its way that has something against its next step. -/
theorem insert_eq_some_iff {entry : Entry} {depth : Nat} {steps : List Segment} {node : Node}
    {obstacle : Obstacle} :
    (insert entry depth steps node).2 = some obstacle ↔
      ∃ done step below, done ++ [step] <+: steps ∧ node.at? done = some below ∧
        below.obstacle? (depth + done.length) step = some obstacle := by
  induction steps generalizing depth node with
  | nil =>
      refine iff_of_false (by simp [insert]) ?_
      rintro ⟨done, step, -, hstart, -⟩
      simp at hstart
  | cons next rest ih =>
      rw [insert_cons_snd, Option.or_eq_some_iff, insert_child?_eq_some_iff]
      simp only [ih]
      constructor
      · rintro (hhere | ⟨-, child, hchild, done, step, below, hstart, hat, hbelow⟩)
        · exact ⟨[], next, node, by simp, rfl, hhere⟩
        · refine ⟨next :: done, step, below, ?_, ?_, ?_⟩
          · exact List.cons_prefix_cons.mpr ⟨rfl, hstart⟩
          · rw [at?, hchild]
            exact hat
          · rwa [List.length_cons, Nat.add_comm done.length, ← Nat.add_assoc]
      · rintro ⟨_ | ⟨first, done⟩, step, below, hstart, hat, hbelow⟩
        · obtain rfl := Option.some.inj hat
          obtain ⟨rfl, -⟩ := List.cons_prefix_cons.mp hstart
          exact .inl hbelow
        · obtain ⟨rfl, hrest⟩ := List.cons_prefix_cons.mp hstart
          obtain ⟨child, hchild, hat⟩ := Option.bind_eq_some_iff.mp hat
          right
          refine ⟨?_, child, hchild, done, step, below, hrest, hat, ?_⟩
          · -- A node with an obstacle has no child that way.
            cases hhere : node.obstacle? depth first with
            | none => rfl
            | some _ =>
                rw [child?_eq_none_of_obstacle hhere] at hchild
                contradiction
          · rwa [Nat.add_assoc, Nat.add_comm 1]

end Node

/-- An entry is stopped exactly at a place on its way whose node has something against its next
step. -/
theorem Tree.insert_eq_some_iff {tree : Tree} {path : Path} {entry : Entry}
    {obstacle : Obstacle} :
    (tree.insert path entry).2 = some obstacle ↔
      ∃ (place : Path) (step : Segment) (node : Node),
        place.segments ++ [step] <+: path.segments ∧ tree.at? place = some node ∧
          node.obstacle? place.segments.length step = some obstacle := by
  rw [insert, Node.insert_child?_eq_some_iff]
  simp only [Node.insert_eq_some_iff]
  constructor
  · rintro ⟨root, hroot, done, step, node, hstart, hat, hnode⟩
    refine ⟨⟨path.root, done⟩, step, node, ?_, ?_, ?_⟩
    · exact List.cons_prefix_cons.mpr ⟨rfl, hstart⟩
    · rw [at?, hroot]
      exact hat
    · rwa [Nat.add_comm] at hnode
  · rintro ⟨place, step, node, hstart, hat, hnode⟩
    obtain ⟨root, hroot, hat⟩ := Option.bind_eq_some_iff.mp hat
    obtain ⟨hname, hbelow⟩ := List.cons_prefix_cons.mp hstart
    rw [Segment.key.injEq] at hname
    refine ⟨root, hname ▸ hroot, place.below, step, node, hbelow, hat, ?_⟩
    rwa [Nat.add_comm]

/-! ## Nodes that hold entries -/

theorem GoesOnFrom.exists_step {steps path : List Segment} (h : GoesOnFrom steps path) :
    ∃ step, steps ++ [step] <+: path := by
  obtain ⟨⟨rest, rfl⟩, hne⟩ := h
  cases rest with
  | nil => exact absurd (List.append_nil steps).symm hne
  | cons step rest => exact ⟨step, by simp⟩

theorem goesOnFrom_of_prefix {steps path : List Segment} {step : Segment}
    (h : steps ++ [step] <+: path) : GoesOnFrom steps path := by
  refine ⟨(List.prefix_append steps [step]).trans h, ?_⟩
  rintro rfl
  simpa using h.length_le

namespace Node.Holds

variable {rules : Rulebook} {schema : Schema} {place : Path} {node : Node}
  (h : node.Holds rules schema place)

include h

/-- A node has the one shape that each entry going on from it needs. -/
theorem isArray_eq_isEach {step : Segment} (hstep : schema.goesOn place.segments step = true) :
    node.isArray = step.isEach := by
  cases step with
  | key name =>
      have hobject := h.object.mpr ⟨name, hstep⟩
      exact Bool.eq_false_iff.mpr fun harray => h.not_both ⟨hobject, harray⟩
  | each => exact h.array.mpr hstep

/-- What a node has against a step names the first entry that goes on from it, if that one goes on
the other way. -/
theorem obstacle?_eq_some_iff {depth : Nat} {step : Segment} {obstacle : Obstacle} :
    node.obstacle? depth step = some obstacle ↔
      ∃ earlier steps other, (schema.goingOnFrom place.segments).head? = some earlier ∧
        Path.steps? earlier.1 = some steps ∧ place.segments ++ [other] <+: steps ∧
          step.isEach ≠ other.isEach ∧
            obstacle = ⟨depth, earlier.1, other.found, step.wanted⟩ := by
  have hkind : ∀ earlier steps other, (schema.goingOnFrom place.segments).head? = some earlier →
      Path.steps? earlier.1 = some steps → place.segments ++ [other] <+: steps →
        node.isArray = other.isEach := by
    intro earlier steps other hearlier hsteps hother
    obtain ⟨hmem, -⟩ := Schema.mem_goingOnFrom.mp (List.mem_of_head? hearlier)
    exact h.isArray_eq_isEach (Schema.goesOn_iff.mpr ⟨earlier, hmem, steps, hsteps, hother⟩)
  rw [obstacle?, Option.ite_none_left_eq_some, h.origin]
  constructor
  · rintro ⟨hshape, hobstacle⟩
    obtain ⟨_, hsource, rfl⟩ := Option.map_eq_some_iff.mp hobstacle
    obtain ⟨earlier, hearlier, rfl⟩ := Option.map_eq_some_iff.mp hsource
    obtain ⟨-, steps, hsteps, hgoes⟩ := Schema.mem_goingOnFrom.mp (List.mem_of_head? hearlier)
    obtain ⟨other, hother⟩ := hgoes.exists_step
    rw [hkind earlier steps other hearlier hsteps hother] at hshape ⊢
    refine ⟨earlier, steps, other, hearlier, hsteps, hother, Ne.symm hshape, ?_⟩
    cases other <;> rfl
  · rintro ⟨earlier, steps, other, hearlier, hsteps, hother, hne, rfl⟩
    rw [hkind earlier steps other hearlier hsteps hother, hearlier]
    refine ⟨Ne.symm hne, ?_⟩
    cases other <;> rfl

/-- A node has something against a step as soon as any entry goes on from it the other way. -/
theorem exists_obstacle {step other : Segment}
    (hother : schema.goesOn place.segments other = true) (hne : step.isEach ≠ other.isEach)
    (depth : Nat) : ∃ obstacle, node.obstacle? depth step = some obstacle := by
  obtain ⟨entry, hentry, path, hpath, hstart⟩ := Schema.goesOn_iff.mp hother
  have hgoing : entry ∈ schema.goingOnFrom place.segments :=
    Schema.mem_goingOnFrom.mpr ⟨hentry, path, hpath, goesOnFrom_of_prefix hstart⟩
  obtain ⟨first, hfirst⟩ := Option.isSome_iff_exists.mp
    (List.isSome_head?.mpr (List.ne_nil_of_mem hgoing))
  rw [obstacle?, h.isArray_eq_isEach hother, if_neg (Ne.symm hne), h.origin, hfirst]
  exact ⟨_, rfl⟩

end Node.Holds

/-! ## Forks -/

/-- Paths fork below the top, since each begins with a field. -/
theorem Fork.exists_place {shared : List Segment} {path other : Path}
    (h : Fork shared path.segments other.segments) : ∃ place : Path, place.segments = shared := by
  obtain ⟨step, otherStep, hstep, hother, hne⟩ := h
  cases shared with
  | nil =>
      obtain ⟨rfl, -⟩ := List.cons_prefix_cons.mp hstep
      obtain ⟨rfl, -⟩ := List.cons_prefix_cons.mp hother
      contradiction
  | cons first rest =>
      obtain ⟨rfl, -⟩ := List.cons_prefix_cons.mp hstep
      exact ⟨⟨path.root, rest⟩, rfl⟩

namespace Tree

section

variable {rules : Rulebook} {entries : List (String × Declaration)} {path : Path} {entry : Entry}

/-- There is a node at each place that the path of an accepted entry leads to or through. -/
theorem exists_at?_of_accepted {place : Path} {earlier : String × Declaration}
    {steps : List Segment} (hearlier : earlier ∈ empty.accepted rules entries)
    (hsteps : Path.steps? earlier.1 = some steps) (hstart : place.segments <+: steps) :
    ∃ node, (empty.grow rules entries).at? place = some node := by
  obtain ⟨members, hmembers, hgathers⟩ := gathers_accepted rules entries
  apply Option.isSome_iff_exists.mp
  rw [(at?_of_gathers hgathers place).isSome_iff, Group.beyond_ne_nil_iff,
    Schema.exists_place_iff hmembers (p := fun steps => place.segments <+: steps)]
  exact ⟨earlier, hearlier, steps, hsteps, hstart⟩

/-- An entry that forks from an accepted one is stopped where it does. -/
theorem exists_obstacle_of_forksAt {shared : List Segment}
    (h : Schema.ForksAt (empty.accepted rules entries) shared path.segments) :
    ∃ obstacle, ((empty.grow rules entries).insert path entry).2 = some obstacle ∧
      obstacle.depth = shared.length := by
  obtain ⟨earlier, hearlier, steps, hsteps, hfork⟩ := h
  obtain ⟨other, -, rfl⟩ := Path.steps?_eq_some_iff.mp hsteps
  obtain ⟨place, rfl⟩ := hfork.exists_place
  obtain ⟨step, otherStep, hstep, hother, hne⟩ := hfork
  obtain ⟨node, hat⟩ :=
    exists_at?_of_accepted hearlier hsteps ((List.prefix_append _ _).trans hother)
  have hgoesOn : Schema.goesOn (empty.accepted rules entries) place.segments otherStep = true :=
    Schema.goesOn_iff.mpr ⟨earlier, hearlier, other.segments, hsteps, hother⟩
  obtain ⟨obstacle, hobstacle⟩ :=
    (holds_of_at? hat).exists_obstacle hgoesOn hne place.segments.length
  refine ⟨obstacle, insert_eq_some_iff.mpr ⟨place, step, node, hstep, hat, hobstacle⟩, ?_⟩
  obtain ⟨_, _, _, -, -, -, -, rfl⟩ := (holds_of_at? hat).obstacle?_eq_some_iff.mp hobstacle
  rfl

/-- Where accepted entries stop an entry, it forks from the first that goes on from there, and it
forks from none before. -/
theorem exists_fork_of_obstacle {obstacle : Obstacle}
    (h : ((empty.grow rules entries).insert path entry).2 = some obstacle) :
    ∃ shared step first steps other,
      Schema.ForksAt (empty.accepted rules entries) shared path.segments ∧
        (∀ longer, Schema.ForksAt (empty.accepted rules entries) longer path.segments →
          shared.length ≤ longer.length) ∧
        (Schema.goingOnFrom (empty.accepted rules entries) shared).head? = some first ∧
        Path.steps? first.1 = some steps ∧
        shared ++ [step] <+: path.segments ∧ shared ++ [other] <+: steps ∧
        step.isEach ≠ other.isEach ∧
        obstacle = ⟨shared.length, first.1, other.found, step.wanted⟩ := by
  obtain ⟨place, step, node, hstep, hat, hobstacle⟩ := insert_eq_some_iff.mp h
  obtain ⟨first, steps, other, hfirst, hsteps, hother, hne, rfl⟩ :=
    (holds_of_at? hat).obstacle?_eq_some_iff.mp hobstacle
  refine ⟨place.segments, step, first, steps, other, ?_, ?_, hfirst, hsteps, hstep, hother, hne,
    rfl⟩
  · obtain ⟨hmem, -⟩ := Schema.mem_goingOnFrom.mp (List.mem_of_head? hfirst)
    exact ⟨first, hmem, steps, hsteps, step, other, hstep, hother, hne⟩
  · -- A walk is stopped once, so that every fork lies where this one does.
    intro longer hlonger
    obtain ⟨obstacle, hstopped, hdepth⟩ := exists_obstacle_of_forksAt hlonger
    obtain rfl := Option.some.inj (h.symm.trans hstopped)
    exact hdepth.le

end

/-- Let some entries be tried, accepted or not, and then a further one whose path is well formed
and whose rules are in order. It disagrees with the tree exactly if it forks from an accepted entry:
after common steps one of the two goes on to a field and the other to each element. The location of
the disagreement is the shortest start at which it forks. The earlier path is that of the first
accepted entry that goes on from there, and the later one its own; the types are an object and an
array, as the two go on. -/
theorem verdict_disagreement_iff_forksAt (rules : Rulebook) (entries : List (String × Declaration))
    {entry : String × Declaration} {path : Path} {type : FieldType}
    (hparse : Path.parse entry.1 = .ok path)
    (htype : rules.fieldType entry.2 path.position = .ok type) :
    let accepted : Schema := empty.accepted rules entries
    let verdict := (Growth.ofEntries rules entries).tree.verdict rules entry
    ((∃ location earlier later, verdict = some (.disagreement location earlier later)) ↔
      ∃ shared, accepted.ForksAt shared path.segments) ∧
    ∀ location earlier later, verdict = some (.disagreement location earlier later) →
      ∃ shared step first steps other,
        location = shared.map Segment.text ∧ accepted.ForksAt shared path.segments ∧
        (∀ longer, accepted.ForksAt longer path.segments → shared.length ≤ longer.length) ∧
        (accepted.goingOnFrom shared).head? = some first ∧ Path.steps? first.1 = some steps ∧
        shared ++ [step] <+: path.segments ∧ shared ++ [other] <+: steps ∧
        step.isEach ≠ other.isEach ∧
        earlier = ⟨first.1, other.found⟩ ∧ later = ⟨entry.1, step.wanted⟩ := by
  intro accepted verdict
  have hread : Entry.read rules entry.1 entry.2 = .ok (path, ⟨entry.1, entry.2, type⟩) :=
    Entry.read_eq_ok_iff.mpr ⟨hparse, rfl, rfl, htype⟩
  have hverdict : verdict = (empty.grow rules entries).verdict rules entry :=
    congrArg (fun tree => tree.verdict rules entry) (Growth.tree_ofEntries rules entries)
  rw [hverdict, verdict_of_read hread]
  refine ⟨⟨?_, ?_⟩, ?_⟩
  · rintro ⟨location, earlier, later, h⟩
    obtain ⟨obstacle, hobstacle, -⟩ := Option.map_eq_some_iff.mp h
    obtain ⟨shared, _, _, _, _, hforks, -⟩ := exists_fork_of_obstacle hobstacle
    exact ⟨shared, hforks⟩
  · rintro ⟨shared, hforks⟩
    obtain ⟨obstacle, hobstacle, -⟩ := exists_obstacle_of_forksAt hforks
    rw [hobstacle]
    exact ⟨_, _, _, rfl⟩
  · intro location earlier later h
    obtain ⟨obstacle, hobstacle, hdefect⟩ := Option.map_eq_some_iff.mp h
    obtain ⟨shared, step, first, steps, other, hforks, hshortest, hfirst, hsteps, hstep, hother,
      hne, rfl⟩ := exists_fork_of_obstacle hobstacle
    obtain ⟨rfl, rfl, rfl⟩ := Defect.disagreement.inj hdefect
    refine ⟨shared, step, first, steps, other, ?_, hforks, hshortest, hfirst, hsteps, hstep,
      hother, hne, rfl, rfl⟩
    rw [← List.prefix_iff_eq_take.mp ((List.prefix_append _ _).trans hstep)]

/-- The second entry has no path and the third is stopped at `a`, so only the first and the last of
the four count. The one tried then forks from both at `a.b`, and the first of them is named. -/
theorem verdict_disagreement_of_two_rejected :
    ∃ entries entry path type,
      entries = [("a.b.c", .ofList [("toInt", .bool true)]), ("a..b", .ofList []),
        ("a.*", .ofList [("trim", .bool true)]), ("a.b.d", .ofList [("trim", .bool true)])] ∧
      entry = ("a.b.*", .ofList [("trim", .bool true)]) ∧
      (empty.accepted .builtin entries).map Prod.fst = ["a.b.c", "a.b.d"] ∧
      Path.parse entry.1 = .ok path ∧
      Rulebook.builtin.fieldType entry.2 path.position = .ok type ∧
      ∃ location earlier later shared first,
        (Growth.ofEntries .builtin entries).tree.verdict .builtin entry =
          some (.disagreement location earlier later) ∧
        location = shared.map Segment.text ∧ shared.length ≤ 2 ∧
        (Schema.goingOnFrom (empty.accepted .builtin entries) shared).head? = some first ∧
        earlier.source = first.1 ∧ later.source = "a.b.*" := by
  obtain ⟨entries, hentries⟩ : ∃ entries : List (String × Declaration),
      entries = [("a.b.c", .ofList [("toInt", .bool true)]), ("a..b", .ofList []),
        ("a.*", .ofList [("trim", .bool true)]), ("a.b.d", .ofList [("trim", .bool true)])] :=
    ⟨_, rfl⟩
  obtain ⟨entry, hentry⟩ : ∃ entry : String × Declaration,
      entry = ("a.b.*", .ofList [("trim", .bool true)]) := ⟨_, rfl⟩
  have haccepted : (empty.accepted .builtin entries).map Prod.fst = ["a.b.c", "a.b.d"] := by
    rw [hentries]
    decide +kernel
  have hparse : Path.parse entry.1 = .ok ⟨"a", [.key "b", .each]⟩ := by
    rw [hentry]
    decide +kernel
  have hsome : (Rulebook.builtin.fieldType entry.2
      (Path.position ⟨"a", [.key "b", .each]⟩)).toOption.isSome = true := by
    rw [hentry]
    decide +kernel
  obtain ⟨type, htype⟩ := Option.isSome_iff_exists.mp hsome
  rw [toOption_eq_some_iff] at htype
  have hforks : Schema.ForksAt (empty.accepted .builtin entries)
      [.key "a", .key "b"] [.key "a", .key "b", .each] := by
    have hmem : "a.b.c" ∈ (empty.accepted .builtin entries).map Prod.fst := by simp [haccepted]
    obtain ⟨earlier, hearlier, hsource⟩ := List.mem_map.mp hmem
    refine ⟨earlier, hearlier, [.key "a", .key "b", .key "c"], ?_, .each, .key "c", by decide⟩
    rw [hsource]
    decide +kernel
  obtain ⟨hiff, hdisagreement⟩ := verdict_disagreement_iff_forksAt .builtin entries hparse htype
  obtain ⟨location, earlier, later, hverdict⟩ := hiff.mpr ⟨_, hforks⟩
  obtain ⟨shared, _, first, _, _, hlocation, -, hshortest, hfirst, -, -, -, -, hearlier, hlater⟩ :=
    hdisagreement location earlier later hverdict
  refine ⟨entries, entry, _, type, hentries, hentry, haccepted, hparse, htype, location, earlier,
    later, shared, first, hverdict, hlocation, hshortest _ hforks, hfirst, ?_, ?_⟩
  · rw [hearlier]
  · rw [hlater, hentry]

end Tree

end ShapeInference
