import Mathlib.Algebra.GroupWithZero.Nat
import Mathlib.Data.List.Dedup
import ShapeInference.Path

/-!
# Groups

A group holds things that have steps to go from a common place. Some have arrived; the others fall
apart by their first step into groups one step further.

Main statements: `Group.mem_after`, and `Group.totalSteps_after_lt`, which bounds a recursion over
groups.
-/

namespace ShapeInference

/-- Things with the steps to go to the places that they are about. -/
abbrev Group (α : Type) := List (List Segment × α)

namespace Group

variable {α β : Type}

/-- The things that have arrived, in order. -/
def ended (group : Group α) : List α :=
  group.filterMap fun member =>
    match member.1 with
    | [] => some member.2
    | _ :: _ => none

/-- The first steps of the things that go on, in order. -/
def firsts (group : Group α) : List Segment :=
  group.filterMap fun member => member.1.head?

/-- The things that go on with a given step, that step being done. -/
def after (step : Segment) (group : Group α) : Group α :=
  group.filterMap fun member =>
    match member.1 with
    | [] => none
    | first :: rest => if first = step then some (rest, member.2) else none

/-- The things that go on with given steps, these being done. -/
def beyond : List Segment → Group α → Group α
  | [], group => group
  | step :: rest, group => beyond rest (group.after step)

/-- The distinct names of fields that things go on to. -/
def keys (group : Group α) : List String :=
  (group.firsts.filterMap fun step =>
    match step with
    | .key name => some name
    | .each => none).dedup

/-- All steps to go. -/
def totalSteps (group : Group α) : Nat :=
  (group.map fun member => member.1.length).sum

/-- The group with its things replaced. -/
def mapThings (f : α → β) (group : Group α) : Group β :=
  group.map fun member => (member.1, f member.2)

/-- All things of the group have a property. -/
def All (p : α → Prop) (group : Group α) : Prop :=
  ∀ member ∈ group, p member.2

/-- Two things part: after the same steps one goes on to a field and the other to elements. -/
def Clash (group : Group α) : Prop :=
  ∃ shared name rest others a b,
    (shared ++ .key name :: rest, a) ∈ group ∧ (shared ++ .each :: others, b) ∈ group

/-! ## Members -/

@[simp] theorem mem_ended {group : Group α} {a : α} : a ∈ group.ended ↔ ([], a) ∈ group := by
  simp only [ended, List.mem_filterMap]
  constructor
  · rintro ⟨⟨steps, b⟩, hmem, h⟩
    cases steps with
    | nil =>
        obtain rfl := Option.some.inj h
        exact hmem
    | cons => contradiction
  · exact fun h => ⟨([], a), h, rfl⟩

theorem mem_firsts {group : Group α} {step : Segment} :
    step ∈ group.firsts ↔ ∃ rest a, (step :: rest, a) ∈ group := by
  simp only [firsts, List.mem_filterMap]
  constructor
  · rintro ⟨⟨steps, a⟩, hmem, h⟩
    cases steps with
    | nil => contradiction
    | cons first rest =>
        obtain rfl := Option.some.inj h
        exact ⟨rest, a, hmem⟩
  · rintro ⟨rest, a, hmem⟩
    exact ⟨(step :: rest, a), hmem, rfl⟩

/-- What goes on after a step is what has that step in front. -/
@[simp] theorem mem_after {group : Group α} {step : Segment} {steps : List Segment} {a : α} :
    (steps, a) ∈ group.after step ↔ (step :: steps, a) ∈ group := by
  simp only [after, List.mem_filterMap]
  constructor
  · rintro ⟨⟨all, b⟩, hmem, h⟩
    cases all with
    | nil => contradiction
    | cons first rest =>
        by_cases hf : first = step
        · simp only [hf, if_true, Option.some.injEq, Prod.mk.injEq] at h
          obtain ⟨rfl, rfl⟩ := h
          exact hf ▸ hmem
        · simp [hf] at h
  · exact fun h => ⟨(step :: steps, a), h, by simp⟩

@[simp] theorem mem_keys {group : Group α} {name : String} :
    name ∈ group.keys ↔ .key name ∈ group.firsts := by
  simp only [keys, List.mem_dedup, List.mem_filterMap]
  constructor
  · rintro ⟨step, hmem, h⟩
    cases step with
    | key other =>
        obtain rfl := Option.some.inj h
        exact hmem
    | each => contradiction
  · exact fun h => ⟨.key name, h, rfl⟩

theorem nodup_keys (group : Group α) : group.keys.Nodup := List.nodup_dedup _

/-- If all that goes on goes to elements and something does, elements are gone to. -/
theorem each_mem_firsts {group : Group α} (hsome : group.firsts ≠ [])
    (heach : ∀ step ∈ group.firsts, step.isEach = true) : .each ∈ group.firsts := by
  obtain ⟨step, hstep⟩ := List.exists_mem_of_ne_nil _ hsome
  cases step with
  | key name =>
      have := heach _ hstep
      contradiction
  | each => exact hstep

/-- If all that goes on goes to fields and something does, some field is gone to. -/
theorem exists_key_mem_firsts {group : Group α} (hsome : group.firsts ≠ [])
    (hkeyed : ∀ step ∈ group.firsts, step.isEach = false) :
    ∃ name, .key name ∈ group.firsts := by
  obtain ⟨step, hstep⟩ := List.exists_mem_of_ne_nil _ hsome
  cases step with
  | key name => exact ⟨name, hstep⟩
  | each =>
      have := hkeyed _ hstep
      contradiction

theorem after_eq_nil_iff {group : Group α} {step : Segment} :
    group.after step = [] ↔ step ∉ group.firsts := by
  rw [mem_firsts, List.eq_nil_iff_forall_not_mem]
  constructor
  · rintro h ⟨rest, a, hmem⟩
    exact h (rest, a) (mem_after.mpr hmem)
  · rintro h ⟨rest, a⟩ hmem
    exact h ⟨rest, a, mem_after.mp hmem⟩

/-- What goes on beyond steps is what has these steps in front. -/
@[simp] theorem mem_beyond {group : Group α} {steps more : List Segment} {a : α} :
    (more, a) ∈ group.beyond steps ↔ (steps ++ more, a) ∈ group := by
  induction steps generalizing group with
  | nil => rfl
  | cons step rest ih => rw [beyond, ih, mem_after, List.cons_append]

@[simp] theorem beyond_nil (steps : List Segment) : beyond steps ([] : Group α) = [] := by
  induction steps with
  | nil => rfl
  | cons step rest ih => exact ih

/-- Something goes on beyond steps exactly if they are the beginning of a path. -/
theorem beyond_ne_nil_iff {group : Group α} {steps : List Segment} :
    group.beyond steps ≠ [] ↔ ∃ member ∈ group, steps <+: member.1 := by
  constructor
  · intro h
    obtain ⟨⟨more, a⟩, hmem⟩ := List.exists_mem_of_ne_nil _ h
    exact ⟨(steps ++ more, a), mem_beyond.mp hmem, List.prefix_append _ _⟩
  · rintro ⟨⟨_, a⟩, hmem, more, rfl⟩
    exact List.ne_nil_of_mem (mem_beyond.mpr hmem)

theorem mem_firsts_of_beyond_ne_nil {group : Group α} {step : Segment} {rest : List Segment}
    (h : group.beyond (step :: rest) ≠ []) : step ∈ group.firsts := by
  by_contra hnot
  rw [beyond, after_eq_nil_iff.mpr hnot, beyond_nil] at h
  contradiction

/-- A step is a first one beyond others exactly if a path begins with these and it. -/
theorem mem_firsts_beyond {group : Group α} {steps : List Segment} {step : Segment} :
    step ∈ (group.beyond steps).firsts ↔ ∃ member ∈ group, steps ++ [step] <+: member.1 := by
  rw [mem_firsts]
  constructor
  · rintro ⟨rest, a, hmem⟩
    exact ⟨(steps ++ step :: rest, a), mem_beyond.mp hmem, rest, by simp⟩
  · rintro ⟨⟨_, a⟩, hmem, rest, rfl⟩
    exact ⟨rest, a, mem_beyond.mpr (by simpa using hmem)⟩

theorem All.of_mem_ended {p : α → Prop} {group : Group α} (h : group.All p) {a : α}
    (ha : a ∈ group.ended) : p a :=
  h ([], a) (mem_ended.mp ha)

theorem All.after {p : α → Prop} {group : Group α} (h : group.All p) (step : Segment) :
    (group.after step).All p :=
  fun member hmember => h (step :: member.1, member.2) (mem_after.mp hmember)

theorem All.beyond {p : α → Prop} {group : Group α} (h : group.All p) (steps : List Segment) :
    (group.beyond steps).All p :=
  fun member hmember => h (steps ++ member.1, member.2) (mem_beyond.mp hmember)

/-! ## One more member -/

theorem ended_append (group more : Group α) :
    ended (group ++ more) = group.ended ++ ended more :=
  List.filterMap_append

theorem firsts_append (group more : Group α) :
    firsts (group ++ more) = group.firsts ++ firsts more :=
  List.filterMap_append

theorem after_append (step : Segment) (group more : Group α) :
    after step (group ++ more) = group.after step ++ after step more :=
  List.filterMap_append

theorem beyond_append (steps : List Segment) (group more : Group α) :
    beyond steps (group ++ more) = group.beyond steps ++ beyond steps more := by
  induction steps generalizing group more with
  | nil => rfl
  | cons step rest ih => rw [beyond, after_append, ih, beyond, beyond]

@[simp] theorem ended_arrived (a : α) : ended [([], a)] = [a] := rfl

@[simp] theorem firsts_arrived (a : α) : firsts [([], a)] = [] := rfl

@[simp] theorem after_arrived (step : Segment) (a : α) : after step [([], a)] = [] := rfl

@[simp] theorem ended_going (step : Segment) (rest : List Segment) (a : α) :
    ended [(step :: rest, a)] = [] := rfl

@[simp] theorem firsts_going (step : Segment) (rest : List Segment) (a : α) :
    firsts [(step :: rest, a)] = [step] := rfl

theorem after_going_self (step : Segment) (rest : List Segment) (a : α) :
    after step [(step :: rest, a)] = [(rest, a)] := by
  simp [after]

theorem after_going_of_ne {step other : Segment} (h : other ≠ step) (rest : List Segment)
    (a : α) : after step [(other :: rest, a)] = [] := by
  simp [after, h]

/-- A single thing has arrived beyond steps exactly if they are its path. -/
theorem ended_beyond_singleton (steps path : List Segment) (a : α) :
    ended (beyond steps [(path, a)]) = if path = steps then [a] else [] := by
  induction steps generalizing path with
  | nil => cases path <;> simp [beyond]
  | cons step rest ih =>
      cases path with
      | nil => simp [beyond, ended]
      | cons first path =>
          by_cases h : first = step
          · subst h
            simp [beyond, after_going_self, ih]
          · simp [beyond, after_going_of_ne h, h, ended]

section

variable {group : Group α} {step : Segment} {rest : List Segment} {a : α}

theorem ended_append_going : ended (group ++ [(step :: rest, a)]) = group.ended := by
  rw [ended_append, ended_going, List.append_nil]

theorem firsts_append_going :
    firsts (group ++ [(step :: rest, a)]) = group.firsts ++ [step] := by
  rw [firsts_append, firsts_going]

theorem after_append_going :
    after step (group ++ [(step :: rest, a)]) = group.after step ++ [(rest, a)] := by
  rw [after_append, after_going_self]

theorem firsts_append_going_ne_nil : firsts (group ++ [(step :: rest, a)]) ≠ [] := by
  rw [firsts_append_going]
  exact List.append_ne_nil_of_right_ne_nil _ (List.cons_ne_nil _ _)

/-- A group whose first steps are of one kind keeps this with another thing of the kind. -/
theorem isEach_of_mem_firsts_append_going {each : Bool}
    (h : ∀ step ∈ group.firsts, step.isEach = each) (hstep : step.isEach = each) :
    ∀ other ∈ firsts (group ++ [(step :: rest, a)]), other.isEach = each := by
  intro other hother
  rw [firsts_append_going, List.mem_append, List.mem_singleton] at hother
  rcases hother with hmem | rfl
  · exact h other hmem
  · exact hstep

end

/-! ## Replaced things -/

section

variable (f : α → β) (group : Group α)

@[simp] theorem ended_mapThings : (group.mapThings f).ended = group.ended.map f := by
  rw [ended, mapThings, List.filterMap_map, ended, List.map_filterMap]
  congr 1
  funext member
  obtain ⟨steps, a⟩ := member
  cases steps <;> rfl

@[simp] theorem firsts_mapThings : (group.mapThings f).firsts = group.firsts := by
  rw [firsts, mapThings, List.filterMap_map, firsts]
  rfl

@[simp] theorem after_mapThings (step : Segment) :
    (group.mapThings f).after step = (group.after step).mapThings f := by
  rw [after, mapThings, List.filterMap_map, mapThings, after, List.map_filterMap]
  congr 1
  funext member
  obtain ⟨steps, a⟩ := member
  cases steps with
  | nil => rfl
  | cons first rest => by_cases h : first = step <;> simp [h]

/-- Mapping the things of a group changes none of their paths. -/
theorem beyond_mapThings (steps : List Segment) (group : Group α) :
    (group.mapThings f).beyond steps = (group.beyond steps).mapThings f := by
  induction steps generalizing group with
  | nil => rfl
  | cons step rest ih => rw [beyond, after_mapThings, ih, beyond]

end

/-! ## Steps to go -/

theorem totalSteps_cons (steps : List Segment) (a : α) (group : Group α) :
    totalSteps ((steps, a) :: group) = steps.length + group.totalSteps := rfl

/-- Each thing that goes on has a step less to go. -/
theorem totalSteps_after_add_length_le (step : Segment) (group : Group α) :
    (group.after step).totalSteps + (group.after step).length ≤ group.totalSteps := by
  induction group with
  | nil => exact Nat.le_refl _
  | cons member rest ih =>
      obtain ⟨steps, a⟩ := member
      rw [totalSteps_cons, ← List.singleton_append, after_append]
      cases steps with
      | nil => simpa using ih
      | cons first steps =>
          by_cases h : first = step
          · subst h
            rw [after_going_self, List.singleton_append, totalSteps_cons, List.length_cons,
              List.length_cons]
            omega
          · rw [after_going_of_ne h, List.nil_append]
            omega

/-- After a first step fewer steps are left, which is why descending through a group ends. -/
theorem totalSteps_after_lt {step : Segment} {group : Group α} (h : step ∈ group.firsts) :
    (group.after step).totalSteps < group.totalSteps := by
  have hpos : 0 < (group.after step).length :=
    List.length_pos_iff.mpr fun hnil => after_eq_nil_iff.mp hnil h
  have hle := totalSteps_after_add_length_le step group
  omega

/-! ## Clashes -/

/-- Things that part in a group part in every greater one. -/
theorem Clash.mono {group more : Group α} (h : Clash group) (hsub : group ⊆ more) :
    Clash more := by
  obtain ⟨shared, name, rest, others, a, b, hkey, heach⟩ := h
  exact ⟨shared, name, rest, others, a, b, hsub hkey, hsub heach⟩

/-- Things that part further on part. -/
theorem Clash.of_after {group : Group α} {step : Segment} (h : Clash (group.after step)) :
    Clash group := by
  obtain ⟨shared, name, rest, others, a, b, hkey, heach⟩ := h
  exact ⟨step :: shared, name, rest, others, a, b, mem_after.mp hkey, mem_after.mp heach⟩

theorem Clash.mapThings {group : Group α} (h : Clash group) (f : α → β) :
    Clash (group.mapThings f) := by
  obtain ⟨shared, name, rest, others, a, b, hkey, heach⟩ := h
  refine ⟨shared, name, rest, others, f a, f b, ?_, ?_⟩
  · exact List.mem_map.mpr ⟨_, hkey, rfl⟩
  · exact List.mem_map.mpr ⟨_, heach, rfl⟩

/-- Going on to a field and to elements at once is parting. -/
theorem clash_of_firsts {group : Group α} {name : String} (hkey : .key name ∈ group.firsts)
    (heach : .each ∈ group.firsts) : Clash group := by
  obtain ⟨rest, a, ha⟩ := mem_firsts.mp hkey
  obtain ⟨others, b, hb⟩ := mem_firsts.mp heach
  exact ⟨[], name, rest, others, a, b, ha, hb⟩

end Group

end ShapeInference
