import ShapeInference.Proofs.Path

/-!
# The grammar of paths

The segments of a text are what stands between its dots. A text is a path exactly if none of them is
empty and the first is not the wildcard. Any other text is rejected for its first segment from the
left that cannot stand where it is.

Main statements: `Path.exists_parse_iff`, `Path.firstFault_of_parse` and `Path.parse_grammar`.
-/

namespace ShapeInference.Path

/-- What stands between the dots of a text. -/
def between (text : String) : List String :=
  (text.toList.splitOn '.').map String.ofList

/-- The segment at a position of a text cannot stand there, for a reason. Only a text without any
characters has no segment to speak of. -/
inductive FaultAt (text : String) : Nat → PathFault → Prop where
  | empty (nothing : text = "") : FaultAt text 0 .empty
  | emptySegment {position : Nat} (something : text ≠ "")
      (segment : (between text)[position]? = some "") :
      FaultAt text position (.emptySegment (position + 1))
  | leadingWildcard (segment : (between text)[0]? = some Segment.wildcard) :
      FaultAt text 0 .leadingWildcard

/-- A fault of a text with none to its left. -/
def FirstFault (text : String) (fault : PathFault) : Prop :=
  ∃ position, FaultAt text position fault ∧
    ∀ earlier < position, ∀ other, ¬ FaultAt text earlier other

/-! ## Segments between dots -/

theorem splitOn_eq_pieces (cs : List Char) :
    cs.splitOn '.' = (pieces cs).1 :: (pieces cs).2 := by
  have hsplit := List.splitOn_intercalate '.' (dot_not_mem_pieces cs) (List.cons_ne_nil _ _)
  rwa [intercalate_pieces] at hsplit

theorem between_eq (text : String) :
    between text = String.ofList (pieces text.toList).1 ::
      (pieces text.toList).2.map String.ofList := by
  rw [between, splitOn_eq_pieces, List.map_cons]

theorem getElem?_zero_between (text : String) :
    (between text)[0]? = some (String.ofList (pieces text.toList).1) := by
  rw [between_eq, List.getElem?_cons_zero]

theorem getElem?_succ_between (text : String) (position : Nat) :
    (between text)[position + 1]? =
      ((pieces text.toList).2[position]?).map String.ofList := by
  rw [between_eq, List.getElem?_cons_succ, List.getElem?_map]

theorem ofList_eq_empty_iff {piece : List Char} : String.ofList piece = "" ↔ piece = [] := by
  rw [← String.toList_inj, String.toList_ofList, String.toList_empty]

/-- A segment is empty exactly if a piece is. -/
theorem empty_mem_between_iff {text : String} :
    "" ∈ between text ↔ (pieces text.toList).1 = [] ∨ [] ∈ (pieces text.toList).2 := by
  simp only [between_eq, List.mem_cons, List.mem_map, ofList_eq_empty_iff, exists_eq_right,
    eq_comm (a := "")]

/-- The steps of a path are those that the segments of its text spell. -/
theorem segments_of_parse {text : String} {path : Path} (h : parse text = .ok path) :
    path.segments = (between text).map Segment.ofText := by
  obtain ⟨-, hwildcard, hname, hbelow⟩ := parse_eq_ok_iff_pieces.mp h
  obtain ⟨-, hsteps⟩ := steps_eq_ok_iff.mp hbelow
  rw [between_eq, List.map_cons, List.map_map, Segment.ofText, if_neg hwildcard, hname, segments,
    ← hsteps]
  rfl

/-- A text is a path exactly if no segment is empty and the first is not the wildcard. -/
theorem exists_parse_iff {text : String} :
    (∃ path, parse text = .ok path) ↔
      "" ∉ between text ∧ (between text).head? ≠ some Segment.wildcard := by
  rw [empty_mem_between_iff, not_or, between_eq, List.head?_cons, ne_eq, Option.some_inj]
  simp only [parse_eq_ok_iff_pieces, steps_eq_ok_iff]
  constructor
  · rintro ⟨path, hroot, hwildcard, -, hnil, -⟩
    exact ⟨⟨hroot, hnil⟩, hwildcard⟩
  · rintro ⟨⟨hroot, hnil⟩, hwildcard⟩
    exact ⟨⟨_, _⟩, hroot, hwildcard, rfl, hnil, rfl⟩

/-! ## Faults -/

section

variable {text : String} {position : Nat} {fault other : PathFault}

theorem FaultAt.unique (h : FaultAt text position fault) (h' : FaultAt text position other) :
    fault = other := by
  have hdistinct : some "" ≠ some Segment.wildcard := by decide
  cases h with
  | empty nothing =>
      cases h' with
      | empty => rfl
      | emptySegment something => exact absurd nothing something
      | leadingWildcard segment =>
          subst nothing
          contradiction
  | emptySegment something segment =>
      cases h' with
      | empty nothing => exact absurd nothing something
      | emptySegment => rfl
      | leadingWildcard wildcard => exact absurd (segment.symm.trans wildcard) hdistinct
  | leadingWildcard wildcard =>
      cases h' with
      | empty nothing =>
          subst nothing
          contradiction
      | emptySegment something segment => exact absurd (segment.symm.trans wildcard) hdistinct
      | leadingWildcard => rfl

/-- A text has at most one first fault. -/
theorem FirstFault.unique (h : FirstFault text fault) (h' : FirstFault text other) :
    fault = other := by
  obtain ⟨position, hfault, hfirst⟩ := h
  obtain ⟨position', hother, hfirst'⟩ := h'
  rcases Nat.lt_trichotomy position position' with hlt | rfl | hgt
  · exact absurd hfault (hfirst' position hlt fault)
  · exact hfault.unique hother
  · exact absurd hother (hfirst position' hgt other)

theorem firstFault_zero (h : FaultAt text 0 fault) : FirstFault text fault :=
  ⟨0, h, fun earlier hlt => absurd hlt (Nat.not_lt_zero earlier)⟩

/-- No segment of a path is at fault. -/
theorem not_faultAt_of_parse {path : Path} (h : parse text = .ok path) :
    ¬ FaultAt text position fault := by
  obtain ⟨hempty, hwildcard⟩ := exists_parse_iff.mp ⟨path, h⟩
  intro hfault
  cases hfault with
  | empty nothing =>
      subst nothing
      contradiction
  | emptySegment something segment => exact hempty (List.mem_of_getElem? segment)
  | leadingWildcard segment =>
      rw [List.head?_eq_getElem?] at hwildcard
      exact hwildcard segment

/-- The steps below the first are rejected for the first of them that is empty. -/
theorem steps_eq_error {number : Nat} {more : List (List Char)}
    (h : steps number more = .error fault) :
    ∃ i, fault = .emptySegment (number + i) ∧ more[i]? = some [] ∧
      ∀ j < i, more[j]? ≠ some [] := by
  induction more generalizing number with
  | nil => contradiction
  | cons piece rest ih =>
      rw [steps] at h
      by_cases hnil : piece = []
      · rw [if_pos hnil] at h
        obtain rfl := Except.error.inj h
        exact ⟨0, rfl, by rw [hnil, List.getElem?_cons_zero], fun j hj => absurd hj (by omega)⟩
      · rw [if_neg hnil, map_eq_error_iff] at h
        obtain ⟨i, rfl, hempty, hbefore⟩ := ih h
        refine ⟨i + 1, congrArg PathFault.emptySegment (by omega), hempty, ?_⟩
        intro j hj
        cases j with
        | zero => simpa using hnil
        | succ j => exact hbefore j (by omega)

theorem parse_eq (text : String) :
    parse text =
      if text = "" then .error .empty
      else if (pieces text.toList).1 = [] then .error (.emptySegment 1)
      else if String.ofList (pieces text.toList).1 = Segment.wildcard then .error .leadingWildcard
      else (steps 2 (pieces text.toList).2).map (⟨String.ofList (pieces text.toList).1, ·⟩) := rfl

/-- A text is rejected for its first fault from the left. -/
theorem firstFault_of_parse (h : parse text = .error fault) : FirstFault text fault := by
  have hzero := getElem?_zero_between text
  rw [parse_eq] at h
  by_cases hempty : text = ""
  · rw [if_pos hempty] at h
    obtain rfl := Except.error.inj h
    exact firstFault_zero (.empty hempty)
  by_cases hroot : (pieces text.toList).1 = []
  · rw [if_neg hempty, if_pos hroot] at h
    obtain rfl := Except.error.inj h
    apply firstFault_zero
    apply FaultAt.emptySegment hempty
    rw [hzero, hroot, String.ofList_nil]
  by_cases hwildcard : String.ofList (pieces text.toList).1 = Segment.wildcard
  · rw [if_neg hempty, if_neg hroot, if_pos hwildcard] at h
    obtain rfl := Except.error.inj h
    apply firstFault_zero
    apply FaultAt.leadingWildcard
    rw [hzero, hwildcard]
  rw [if_neg hempty, if_neg hroot, if_neg hwildcard, map_eq_error_iff] at h
  obtain ⟨i, rfl, hpiece, hbefore⟩ := steps_eq_error h
  rw [Nat.add_comm 2 i]
  refine ⟨i + 1, .emptySegment hempty ?_, ?_⟩
  · rw [getElem?_succ_between, hpiece, Option.map_some, String.ofList_nil]
  · intro earlier hlt other hfault
    cases hfault with
    | empty nothing => exact hempty nothing
    | leadingWildcard segment => exact hwildcard (Option.some.inj (hzero.symm.trans segment))
    | emptySegment something segment =>
        cases earlier with
        | zero =>
            rw [hzero, Option.some_inj, ofList_eq_empty_iff] at segment
            exact hroot segment
        | succ j =>
            apply hbefore j (by omega)
            rw [getElem?_succ_between, Option.map_eq_some_iff] at segment
            obtain ⟨piece, hpiece, hnone⟩ := segment
            rwa [ofList_eq_empty_iff.mp hnone] at hpiece

/-- A text is refused exactly with its first fault. -/
theorem parse_eq_error_iff : parse text = .error fault ↔ FirstFault text fault := by
  constructor
  · exact firstFault_of_parse
  · intro h
    cases hparse : parse text with
    | ok path =>
        obtain ⟨position, hfault, -⟩ := h
        exact absurd hfault (not_faultAt_of_parse hparse)
    | error other => rw [h.unique (firstFault_of_parse hparse)]

end

example : parse "*..a" = .error .leadingWildcard := by decide +kernel

example : parse "a.**..*" = .error (.emptySegment 3) := by decide +kernel

/-! ## Beginnings of paths -/

/-- The first steps of a path, at least one of them, are a path of their own. -/
theorem parse_initialText {text : String} {path : Path} (h : parse text = .ok path) {count : Nat}
    (hcount : 1 ≤ count) :
    ∃ first, parse (path.initialText count) = .ok first ∧
      first.segments = path.segments.take count := by
  obtain ⟨hspelled, -⟩ := parse_eq_ok_iff.mp h
  obtain ⟨more, rfl⟩ := Nat.exists_eq_add_of_le' hcount
  have hfirst : (⟨path.root, path.below.take more⟩ : Path).segments =
      path.segments.take (more + 1) := by
    rw [segments, segments, List.take_succ_cons]
  refine ⟨⟨path.root, path.below.take more⟩, ?_, hfirst⟩
  rw [parse_eq_ok_iff, Path.text, hfirst]
  refine ⟨?_, rfl⟩
  intro step hstep
  exact hspelled step (List.mem_of_mem_take hstep)

/-- The grammar of paths. A text is a path exactly if its segments, of which there is at least one,
are not empty and the first is not the wildcard. The path then has the steps that the segments spell
and the text as its own, and any first steps of it are the path that their text spells. A text that
is no path is rejected for its first segment that cannot stand where it is. And steps that start at
a field, with names that can stand between dots, are the path that their text spells. -/
theorem parse_grammar (text : String) :
    between text ≠ [] ∧
    ((∃ path, parse text = .ok path) ↔
      "" ∉ between text ∧ (between text).head? ≠ some Segment.wildcard) ∧
    (∀ path, parse text = .ok path →
      path.segments = (between text).map Segment.ofText ∧ path.text = text ∧
      ∀ count, 1 ≤ count → ∃ first, parse (path.initialText count) = .ok first ∧
        first.segments = path.segments.take count) ∧
    (∀ fault, parse text = .error fault ↔ FirstFault text fault) ∧
    ∀ name below, (∀ step ∈ Segment.key name :: below, step.IsSpelled) →
      parse (join (.key name :: below)) = .ok ⟨name, below⟩ := by
  refine ⟨?_, exists_parse_iff, ?_, fun fault => parse_eq_error_iff, ?_⟩
  · rw [between_eq]
    exact List.cons_ne_nil _ _
  · intro path hpath
    obtain ⟨-, htext⟩ := parse_eq_ok_iff.mp hpath
    exact ⟨segments_of_parse hpath, htext, fun count hcount => parse_initialText hpath hcount⟩
  · intro name below hspelled
    exact parse_eq_ok_iff.mpr ⟨hspelled, rfl⟩

end ShapeInference.Path
