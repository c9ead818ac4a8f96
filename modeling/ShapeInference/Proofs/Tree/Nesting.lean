import ShapeInference.Proofs.Descriptor.Join
import ShapeInference.Proofs.Path
import ShapeInference.Proofs.Tree.Reconcile

/-!
# Trees further down

Entries that are put behind a path make the same tree again, further down: the nodes on the way hold
nothing but their shape, and below them each source has its new name. The walks are stopped where
they were stopped before, and reconciling finds the same types and the same disagreements.

Main statements: `Tree.insert_nested`, `Tree.insert_empty` and `Tree.reconcile_nested`.
-/

namespace ShapeInference

variable (f : String → String)

/-! ## Sources under new names -/

/-- What a path says, under its new name. -/
def Sourced.mapSource (said : Sourced) : Sourced :=
  { said with source := f said.source }

/-- An entry under its new name. -/
def Entry.mapSource (entry : Entry) : Entry :=
  { entry with source := f entry.source }

/-- What is declared by entries under their new names. -/
def Declared.mapSources (declared : Declared) : Declared :=
  { declared with entries := declared.entries.map (Entry.mapSource f) }

namespace Node

mutual

/-- A node with all sources under their new names. -/
def mapSources : Node → Node
  | plain declared => plain (declared.mapSources f)
  | object declared origin fields =>
    object (declared.mapSources f) (f origin) (mapSourcesOfFields fields)
  | array declared origin element =>
    array (declared.mapSources f) (f origin) (mapSources element)

/-- The nodes of fields with all sources under their new names. -/
def mapSourcesOfFields : List (String × Node) → List (String × Node)
  | [] => []
  | (name, node) :: rest => (name, mapSources node) :: mapSourcesOfFields rest

end

end Node

/-- An obstacle as it is met some steps further down, among sources with new names. -/
def Obstacle.moved (count : Nat) (obstacle : Obstacle) : Obstacle :=
  { obstacle with depth := count + obstacle.depth, origin := f obstacle.origin }

/-- A defect as it is found at and below another location, among sources with new names. -/
def Defect.moved (location : List String) : Defect → Defect
  | badPath text fault => badPath (f text) fault
  | badRule path fault => badRule (f path) fault
  | disagreement trail earlier later =>
    disagreement (location ++ trail) (earlier.mapSource f) (later.mapSource f)

/-- An account as it is given at another location, among sources with new names. -/
def Account.moved (location : List String) (account : Account) : Account :=
  ⟨account.source.map f, account.type, account.defects.map (Defect.moved f location)⟩

theorem Declared.mapSources_add (declared : Declared) (entry : Entry) :
    (declared.add entry).mapSources f = (declared.mapSources f).add (entry.mapSource f) := by
  simp only [mapSources, add, List.map_append, List.map_singleton]
  rfl

namespace Node

theorem mapSourcesOfFields_eq (fields : List (String × Node)) :
    mapSourcesOfFields f fields = fields.map fun field => (field.1, field.2.mapSources f) := by
  induction fields with
  | nil => rfl
  | cons field rest ih => rw [mapSourcesOfFields, ih, List.map_cons]

theorem mapSources_getD_get? (fields : List (String × Node)) (name : String) :
    (Bindings.get? (mapSourcesOfFields f fields) name).getD empty =
      ((Bindings.get? fields name).getD empty).mapSources f := by
  rw [mapSourcesOfFields_eq, Bindings.get?_map (fun _ node => mapSources f node)]
  cases Bindings.get? fields name <;> rfl

theorem mapSources_addEntry (entry : Entry) (node : Node) :
    (node.addEntry entry).mapSources f = (node.mapSources f).addEntry (entry.mapSource f) := by
  cases node <;> simp only [addEntry, mapSources, Declared.mapSources_add]

theorem mapSourcesOfFields_set (fields : List (String × Node)) (name : String) (child : Node) :
    mapSourcesOfFields f (Bindings.set fields name child) =
      Bindings.set (mapSourcesOfFields f fields) name (child.mapSources f) := by
  induction fields with
  | nil => rfl
  | cons field rest ih =>
      obtain ⟨key, old⟩ := field
      by_cases hkey : key = name
      · simp only [Bindings.set, hkey, if_true, mapSourcesOfFields]
      · simp only [Bindings.set, hkey, if_false, mapSourcesOfFields, ih]

/-- A walk among sources with new names leaves what it leaves among the old ones, and is stopped
where it was stopped. -/
theorem insert_mapSources (entry : Entry) (count depth : Nat) (steps : List Segment) (node : Node) :
    insert (entry.mapSource f) (count + depth) steps (node.mapSources f) =
      ((insert entry depth steps node).1.mapSources f,
        (insert entry depth steps node).2.map (Obstacle.moved f count)) := by
  induction steps generalizing depth node with
  | nil => rw [insert, insert, mapSources_addEntry]; rfl
  | cons step rest ih =>
      have hempty : insert (entry.mapSource f) (count + depth + 1) rest empty =
          ((insert entry (depth + 1) rest empty).1.mapSources f,
            (insert entry (depth + 1) rest empty).2.map (Obstacle.moved f count)) :=
        ih (depth + 1) empty
      cases step with
      | key name =>
          cases node with
          | plain declared => simp only [mapSources, insert, hempty, mapSourcesOfFields]; rfl
          | object declared origin fields =>
              have hchild := ih (depth + 1) ((Bindings.get? fields name).getD empty)
              rw [← mapSources_getD_get?, ← Nat.add_assoc] at hchild
              simp only [mapSources, insert, hchild, mapSourcesOfFields_set]
          | array declared origin element => rfl
      | each =>
          cases node with
          | plain declared => simp only [mapSources, insert, hempty]; rfl
          | object declared origin fields => rfl
          | array declared origin element =>
              have hchild := ih (depth + 1) element
              rw [← Nat.add_assoc] at hchild
              simp only [mapSources, insert, hchild]

/-! ## Nodes on the way -/

/-- A node of which only one step further is known. -/
def wrap (origin : String) : Segment → Node → Node
  | .key name, node => object .nothing origin [(name, node)]
  | .each, node => array .nothing origin node

/-- A node of which only what lies some steps further is known. -/
def around (origin : String) (steps : List Segment) (node : Node) : Node :=
  steps.foldr (wrap origin) node

theorem around_cons (origin : String) (step : Segment) (rest : List Segment) (node : Node) :
    around origin (step :: rest) node = wrap origin step (around origin rest node) := rfl

/-- A walk to a node that is further down goes on there. -/
theorem insert_around (entry : Entry) (depth : Nat) (origin : String)
    (steps rest : List Segment) (node : Node) :
    insert entry depth (steps ++ rest) (around origin steps node) =
      (around origin steps (insert entry (depth + steps.length) rest node).1,
        (insert entry (depth + steps.length) rest node).2) := by
  induction steps generalizing depth with
  | nil => rfl
  | cons step more ih =>
      have hdepth : depth + 1 + more.length = depth + (step :: more).length := by
        rw [List.length_cons]
        omega
      have hnext := ih (depth + 1)
      rw [hdepth] at hnext
      cases step with
      | key name =>
          simp only [List.cons_append, around_cons, wrap, insert, Bindings.get?_cons, if_true,
            Option.getD_some, hnext, Bindings.set]
      | each => simp only [List.cons_append, around_cons, wrap, insert, hnext]

/-- A walk from a place that nothing is said of makes the nodes on its way. -/
theorem insert_empty (entry : Entry) (depth : Nat) (steps rest : List Segment) :
    insert entry depth (steps ++ rest) empty =
      (around entry.source steps (insert entry (depth + steps.length) rest empty).1,
        (insert entry (depth + steps.length) rest empty).2) := by
  induction steps generalizing depth with
  | nil => rfl
  | cons step more ih =>
      have hdepth : depth + 1 + more.length = depth + (step :: more).length := by
        rw [List.length_cons]
        omega
      have hnext := ih (depth + 1)
      rw [hdepth, empty] at hnext
      rw [empty]
      cases step with
      | key name => simp only [List.cons_append, around_cons, wrap, insert, empty, hnext]
      | each => simp only [List.cons_append, around_cons, wrap, insert, empty, hnext]

end Node

/-! ## Accounts further down -/

namespace Account

/-- Moving an account commutes with what is added to it. -/
theorem moved_add (location here : List String) (account : Account) (said : Sourced) :
    (account.moved f location).add (location ++ here) (said.mapSource f) =
      (account.add here said).moved f location := by
  have hsource : (account.source.map f).getD (f said.source) =
      f (account.source.getD said.source) := by
    cases account.source <;> rfl
  simp only [add, moved, Sourced.mapSource, hsource]
  cases account.type.merge said.type with
  | ok type => rfl
  | error c =>
      simp only [List.map_append, List.map_singleton, Defect.moved, Sourced.mapSource,
        List.append_assoc]

theorem moved_addDefects (location : List String) (account : Account) (defects : List Defect) :
    (account.moved f location).addDefects (defects.map (Defect.moved f location)) =
      (account.addDefects defects).moved f location := by
  simp only [addDefects, moved, List.map_append]

end Account

namespace Node

theorem isArray_mapSources (node : Node) : (node.mapSources f).isArray = node.isArray := by
  cases node <;> rfl

theorem entries_mapSources (node : Node) :
    (node.mapSources f).entries = node.entries.map (Entry.mapSource f) := by
  cases node <;> rfl

/-- The account of a node with renamed sources is the account, moved. -/
theorem account_mapSources (location here : List String) (node : Node) :
    (node.mapSources f).account (location ++ here) = (node.account here).moved f location := by
  have hfold : ∀ (entries : List Entry) (account : Account),
      (entries.map (Entry.mapSource f)).foldl
          (fun account entry => account.add (location ++ here) (said node.isArray entry))
          (account.moved f location) =
        (entries.foldl (fun account entry => account.add here (said node.isArray entry))
          account).moved f location := by
    intro entries
    induction entries with
    | nil => exact fun _ => rfl
    | cons entry rest ih =>
        intro account
        rw [List.map_cons, List.foldl_cons, List.foldl_cons, ← ih, ← Account.moved_add]
        rfl
  rw [account, account, isArray_mapSources, entries_mapSources]
  exact hfold node.entries .empty

/-- A node with renamed sources concludes to the same type, its defects moved. -/
theorem conclude_mapSources (location : List String) (node : Node) (account : Account) :
    (node.mapSources f).conclude (account.moved f location) =
      ((node.conclude account).1, (node.conclude account).2.map (Defect.moved f location)) := by
  have habsent : (node.mapSources f).absentType? = node.absentType? := by
    cases node <;> rfl
  rw [conclude, conclude, habsent]
  cases node.absentType? <;> rfl

/-- What a node with a shape comes to, it comes to elsewhere. -/
theorem conclude_shape_mapSources (location here : List String) (node : Node)
    (defects : List Defect) (shape : Sourced) :
    (node.mapSources f).conclude
        ((((node.mapSources f).account (location ++ here)).addDefects
          (defects.map (Defect.moved f location))).add (location ++ here) (shape.mapSource f)) =
      ((node.conclude (((node.account here).addDefects defects).add here shape)).1,
        (node.conclude (((node.account here).addDefects defects).add here shape)).2.map
          (Defect.moved f location)) := by
  rw [account_mapSources, Account.moved_addDefects, Account.moved_add, conclude_mapSources]

mutual

/-- Reconciling elsewhere, among sources with new names, finds the same type and the same
disagreements there. -/
theorem reconcile_mapSources (location here : List String) : ∀ node : Node,
    reconcile (location ++ here) (node.mapSources f) =
      ((reconcile here node).1, (reconcile here node).2.map (Defect.moved f location))
  | plain declared => by
      rw [mapSources, reconcile, reconcile, ← mapSources, account_mapSources,
        conclude_mapSources]
  | object declared origin fields => by
      have hfields := reconcileFields_mapSources location here fields
      rw [mapSources, reconcile, hfields, reconcile]
      exact conclude_shape_mapSources f location here (object declared origin fields) _
        ⟨origin, _⟩
  | array declared origin element => by
      have helement := reconcile_mapSources location (here ++ [Segment.wildcard]) element
      rw [← List.append_assoc] at helement
      rw [mapSources, reconcile, helement, reconcile]
      exact conclude_shape_mapSources f location here (array declared origin element) _
        ⟨origin, _⟩

theorem reconcileFields_mapSources (location here : List String) :
    ∀ fields : List (String × Node),
      reconcileFields (location ++ here) (mapSourcesOfFields f fields) =
        ((reconcileFields here fields).1,
          (reconcileFields here fields).2.map (Defect.moved f location))
  | [] => rfl
  | (name, node) :: rest => by
      have hnode := reconcile_mapSources location (here ++ [name]) node
      have hrest := reconcileFields_mapSources location here rest
      rw [← List.append_assoc] at hnode
      simp only [mapSourcesOfFields, reconcileFields, hnode, hrest, List.map_append]

end

/-- A place of which nothing else is declared has the type of its shape. -/
theorem conclude_nothing {location : List String} {node : Node} (h : node.declared = .nothing)
    (defects : List Defect) (shape : Sourced) :
    node.conclude (((node.account location).addDefects defects).add location shape) =
      (shape.type, defects) := by
  have haccount : node.account location = .empty := by
    rw [account, entries, h, Declared.nothing, List.foldl_nil]
  have habsent : node.absentType? = none := by
    rw [absentType?, h, Declared.nothing]
  rw [conclude, habsent, haccount, Account.empty, Account.addDefects, Account.add,
    Descriptor.merge_unknown_left]
  rfl

/-- A node inside one step reconciles to its type inside that step, one location further down. -/
theorem reconcile_wrap (location : List String) (origin : String) (step : Segment) (node : Node) :
    reconcile location (wrap origin step node) =
      ((reconcile (location ++ [step.text]) node).1.inside step,
        (reconcile (location ++ [step.text]) node).2) := by
  cases step with
  | key name =>
      have hfields : reconcileFields location [(name, node)] =
          ([(name, (reconcile (location ++ [name]) node).1)],
            (reconcile (location ++ [name]) node).2) := by
        rw [reconcileFields_eq, List.map_singleton, List.flatMap_singleton]
      rw [wrap, reconcile, hfields]
      exact conclude_nothing rfl _ _
  | each =>
      rw [wrap, reconcile]
      exact conclude_nothing rfl _ _

/-- A node that is further down has its type and its defects there. -/
theorem reconcile_around (location : List String) (origin : String) (steps : List Segment)
    (node : Node) :
    reconcile location (around origin steps node) =
      ((reconcile (location ++ steps.map Segment.text) node).1.nest steps,
        (reconcile (location ++ steps.map Segment.text) node).2) := by
  induction steps generalizing location with
  | nil => rw [List.map_nil, List.append_nil]; rfl
  | cons step rest ih =>
      rw [around_cons, reconcile_wrap, ih, List.append_assoc, Descriptor.nest_cons]
      rfl

end Node

namespace Tree

/-- The fields of a tree as those of one node. -/
def top (origin : String) (tree : Tree) : Node :=
  .object .nothing origin tree.fields

/-- A tree at the end of a path, its sources under their new names. -/
def nested (place : Path) (origin : String) (tree : Tree) : Tree :=
  ⟨[(place.root, .around (f origin) place.below ((tree.top origin).mapSources f))]⟩

theorem insert_eq (tree : Tree) (path : Path) (entry : Entry) :
    tree.insert path entry =
      (⟨tree.fields.set path.root
          (((tree.fields.get? path.root).getD .empty).insert entry 1 path.below).1⟩,
        (((tree.fields.get? path.root).getD .empty).insert entry 1 path.below).2) := rfl

/-- The tree in which only what lies at a place is known. -/
def holding (place : Path) (origin : String) (node : Node) : Tree :=
  ⟨[(place.root, .around origin place.below node)]⟩

/-- An entry that goes on from the place is inserted as at the node. -/
theorem insert_holding (place : Path) (steps : List Segment) (entry : Entry) (origin : String)
    (node : Node) :
    (holding place origin node).insert ⟨place.root, place.below ++ steps⟩ entry =
      (holding place origin (node.insert entry (1 + place.below.length) steps).1,
        (node.insert entry (1 + place.below.length) steps).2) := by
  have hget : (holding place origin node).fields.get? place.root =
      some (.around origin place.below node) := if_pos rfl
  rw [insert_eq, hget, Option.getD_some, Node.insert_around]
  simp only [holding, Bindings.set, if_true]

/-- The first entry makes the nodes on the way to the place. -/
theorem insert_empty_holding (place : Path) (steps : List Segment) (entry : Entry) :
    empty.insert ⟨place.root, place.below ++ steps⟩ entry =
      (holding place entry.source
          (Node.empty.insert entry (1 + place.below.length) steps).1,
        (Node.empty.insert entry (1 + place.below.length) steps).2) := by
  have hget : empty.fields.get? place.root = none := rfl
  rw [insert_eq, hget, Option.getD_none, Node.insert_empty]
  rfl

/-- What lies at a place has its type and its defects there. -/
theorem reconcile_holding (place : Path) (origin : String) (node : Node) :
    (holding place origin node).reconcile =
      ((node.reconcile (place.segments.map Segment.text)).1.nest place.segments,
        (node.reconcile (place.segments.map Segment.text)).2) := by
  have hlocation : [] ++ [place.root] ++ place.below.map Segment.text =
      place.segments.map Segment.text := rfl
  rw [reconcile, holding, Node.reconcileFields_eq, List.map_singleton, List.flatMap_singleton,
    Node.reconcile_around, hlocation]
  rfl

/-- Inserting at the top node of a tree is inserting into the tree, sources renamed. -/
theorem insert_top (place path : Path) (entry : Entry) (origin : String) (tree : Tree) :
    ((tree.top origin).mapSources f).insert (entry.mapSource f) (1 + place.below.length)
        path.segments =
      (((tree.insert path entry).1.top origin).mapSources f,
        (tree.insert path entry).2.map (Obstacle.moved f place.segments.length)) := by
  have hdepth : 1 + place.below.length = place.segments.length + 0 := by
    rw [Path.segments, List.length_cons]
    omega
  rw [hdepth]
  exact Node.insert_mapSources f entry place.segments.length 0 path.segments (tree.top origin)

/-- An entry that is put behind a path finds the same tree at the end of the path. -/
theorem insert_nested (place path : Path) (entry : Entry) (origin : String) (tree : Tree) :
    (tree.nested f place origin).insert (place.append path) (entry.mapSource f) =
      ((tree.insert path entry).1.nested f place origin,
        (tree.insert path entry).2.map (Obstacle.moved f place.segments.length)) := by
  have hinsert := insert_holding place path.segments (entry.mapSource f) (f origin)
    ((tree.top origin).mapSources f)
  rw [insert_top] at hinsert
  exact hinsert

/-- The first entry that is put behind a path makes the nodes on the way. -/
theorem insert_empty (place path : Path) (entry : Entry) :
    empty.insert (place.append path) (entry.mapSource f) =
      ((empty.insert path entry).1.nested f place entry.source,
        (empty.insert path entry).2.map (Obstacle.moved f place.segments.length)) := by
  -- An object without fields is made where the walk goes on to its first field.
  have hfirst : Node.insert (entry.mapSource f) (1 + place.below.length) path.segments .empty =
      ((empty.top entry.source).mapSources f).insert (entry.mapSource f) (1 + place.below.length)
        path.segments := rfl
  have hinsert := insert_empty_holding place path.segments (entry.mapSource f)
  rw [hfirst, insert_top] at hinsert
  exact hinsert

/-- A tree at the end of a path has its type and its defects there. -/
theorem reconcile_nested (place : Path) (origin : String) (tree : Tree) :
    (tree.nested f place origin).reconcile =
      (tree.reconcile.1.nest place.segments,
        tree.reconcile.2.map (Defect.moved f (place.segments.map Segment.text))) := by
  have htop : Node.reconcile [] (tree.top origin) = tree.reconcile := by
    rw [top, Node.reconcile]
    exact Node.conclude_nothing rfl _ _
  have hnode := Node.reconcile_mapSources f (place.segments.map Segment.text) [] (tree.top origin)
  have hreconcile := reconcile_holding place (f origin) ((tree.top origin).mapSources f)
  rw [htop, List.append_nil] at hnode
  rw [hnode] at hreconcile
  exact hreconcile

end Tree

end ShapeInference
