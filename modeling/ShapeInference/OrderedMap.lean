/-!
# Maps by name

`Bindings` are names bound to values in a list. `Bindings.set` keeps them in the order in which
the names came first, `Bindings.setSorted` in the order of the names. An `OrderedMap` holds
bindings in which no name repeats.

Main statements: `Bindings.names_set` says which names are bound after an insertion and in which
order, and `Bindings.get?_set` what is found under them.
-/

namespace ShapeInference

/-- Names bound to values, in order. -/
abbrev Bindings (α : Type) := List (String × α)

namespace Bindings

variable {α : Type}

/-- The bound names in order. -/
def names (bindings : Bindings α) : List String :=
  bindings.map Prod.fst

/-- The first value bound to a name. -/
def get? : Bindings α → String → Option α
  | [], _ => none
  | (key, value) :: rest, name => if key = name then some value else get? rest name

/-- Binds a name. A name already bound keeps its place and takes the new value. -/
def set : Bindings α → String → α → Bindings α
  | [], name, value => [(name, value)]
  | (key, old) :: rest, name, value =>
    if key = name then (key, value) :: rest else (key, old) :: set rest name value

/-- Binds pairs one after another. -/
def ofPairs (pairs : List (String × α)) : Bindings α :=
  pairs.foldl (fun bindings pair => bindings.set pair.1 pair.2) []

/-- Binds a name in bindings sorted by name. -/
def setSorted : Bindings α → String → α → Bindings α
  | [], name, value => [(name, value)]
  | (key, old) :: rest, name, value =>
    if name < key then (name, value) :: (key, old) :: rest
    else if key = name then (key, value) :: rest
    else (key, old) :: setSorted rest name value

/-- Binds pairs one after another, sorted by name. -/
def sortedOfPairs (pairs : List (String × α)) : Bindings α :=
  pairs.foldl (fun bindings pair => bindings.setSorted pair.1 pair.2) []

theorem names_set (bindings : Bindings α) (name : String) (value : α) :
    (bindings.set name value).names =
      if name ∈ bindings.names then bindings.names else bindings.names ++ [name] := by
  induction bindings with
  | nil => rfl
  | cons b rest ih =>
    obtain ⟨key, old⟩ := b
    simp only [names] at ih
    by_cases h : key = name
    · simp [set, names, h]
    · have hne : ¬ name = key := fun e => h e.symm
      by_cases hm : name ∈ rest.map Prod.fst
      · simp only [hm, if_true] at ih
        simp [set, names, h, ih, hm]
      · simp only [hm, if_false] at ih
        simp only [set, names, h, if_false, List.map_cons, ih, List.mem_cons, hne, hm, or_self,
          List.cons_append]

theorem nodup_names_set {bindings : Bindings α} (distinct : bindings.names.Nodup)
    (name : String) (value : α) : (bindings.set name value).names.Nodup := by
  rw [names_set]
  split
  · exact distinct
  · rename_i h
    refine List.nodup_append.2 ⟨distinct, by simp, ?_⟩
    intro a ha b hb e
    simp only [List.mem_singleton] at hb
    exact h (hb ▸ e ▸ ha)

theorem get?_set (bindings : Bindings α) (name other : String) (value : α) :
    (bindings.set name value).get? other =
      if other = name then some value else bindings.get? other := by
  induction bindings with
  | nil => simp [set, get?, eq_comm]
  | cons b rest ih =>
    obtain ⟨key, old⟩ := b
    by_cases h : key = name
    · subst h
      by_cases ho : other = key
      · simp [set, get?, ho]
      · have : ¬ key = other := fun e => ho e.symm
        simp [set, get?, ho, this]
    · by_cases ho : key = other
      · have : ¬ other = name := fun e => h (ho.trans e)
        simp [set, get?, ho, this]
      · simp [set, get?, h, ho, ih]

theorem exists_of_get?_isSome {bindings : Bindings α} {name : String}
    (bound : (bindings.get? name).isSome = true) : ∃ binding ∈ bindings, binding.1 = name := by
  induction bindings with
  | nil => simp [get?] at bound
  | cons b rest ih =>
    obtain ⟨key, value⟩ := b
    by_cases h : key = name
    · exact ⟨(key, value), by simp, h⟩
    · obtain ⟨binding, member, hname⟩ := ih (by simpa [get?, h] using bound)
      exact ⟨binding, by simp [member], hname⟩

end Bindings

/-- A map that keeps the order in which its names came first. -/
structure OrderedMap (α : Type) where
  entries : Bindings α
  distinct : entries.names.Nodup

namespace OrderedMap

variable {α : Type}

/-- The map without entries. -/
def empty : OrderedMap α := ⟨[], List.nodup_nil⟩

instance : EmptyCollection (OrderedMap α) := ⟨empty⟩

/-- The value under a name. -/
def get? (map : OrderedMap α) (name : String) : Option α :=
  map.entries.get? name

/-- Whether a name is bound. -/
def has (map : OrderedMap α) (name : String) : Bool :=
  (map.get? name).isSome

/-- Whether one of the names is bound. -/
def hasSome (map : OrderedMap α) (names : List String) : Bool :=
  names.any map.has

/-- The names in order. -/
def names (map : OrderedMap α) : List String :=
  map.entries.names

/-- The number of names. -/
def size (map : OrderedMap α) : Nat :=
  map.entries.length

/-- Binds a name, in its old place if it has one. -/
def insert (map : OrderedMap α) (name : String) (value : α) : OrderedMap α :=
  ⟨map.entries.set name value, Bindings.nodup_names_set map.distinct name value⟩

/-- Binds pairs one after another. -/
def insertAll (map : OrderedMap α) (pairs : List (String × α)) : OrderedMap α :=
  pairs.foldl (fun m pair => m.insert pair.1 pair.2) map

/-- The map of pairs bound one after another. -/
def ofList (pairs : List (String × α)) : OrderedMap α :=
  insertAll ∅ pairs

/-- The map with some names removed. -/
def eraseAll (map : OrderedMap α) (names : List String) : OrderedMap α :=
  ⟨map.entries.filter fun entry => !names.contains entry.1,
    map.distinct.sublist (List.filter_sublist.map Prod.fst)⟩

end OrderedMap

end ShapeInference
