import Mathlib.Data.List.Basic
import Mathlib.Data.String.Basic
import ShapeInference.Proofs.Outcome
import ShapeInference.Tree.Insert

/-!
# Paths and their texts

A text spells a path exactly if it is the text of the path and every name in the path can stand
between dots. A path may therefore be put behind another one, and its first name is a path, too.

Main statements: `Path.parse_eq_ok_iff`, `Path.parse_append` and `Path.parse_root`.
-/

namespace ShapeInference

namespace Segment

/-- The text of a step spells the step: a name stands between dots, is not empty and is not the
spelling of the step to each element. -/
def IsSpelled : Segment → Prop
  | key name => name ≠ "" ∧ name ≠ wildcard ∧ '.' ∉ name.toList
  | each => True

theorem text_ofText (s : String) : (ofText s).text = s := by
  rw [ofText]
  split
  · rename_i h
    exact h.symm
  · rfl

/-- A step that can be spelled is read back from its spelling. -/
theorem ofText_text {step : Segment} (h : step.IsSpelled) : ofText step.text = step := by
  cases step with
  | key name => rw [text, ofText, if_neg h.2.1]
  | each => rfl

theorem isSpelled_ofText {s : String} (hne : s ≠ "") (hdot : '.' ∉ s.toList) :
    (ofText s).IsSpelled := by
  rw [ofText]
  split
  · trivial
  · rename_i hwildcard
    exact ⟨hne, hwildcard, hdot⟩

theorem IsSpelled.dot_not_mem {step : Segment} (h : step.IsSpelled) : '.' ∉ step.text.toList := by
  cases step with
  | key name => exact h.2.2
  | each => decide

theorem IsSpelled.text_ne_empty {step : Segment} (h : step.IsSpelled) : step.text ≠ "" := by
  cases step with
  | key name => exact h.1
  | each => decide

end Segment

namespace Path

/-! ## Pieces between dots -/

theorem pieces_dot (rest : List Char) :
    pieces ('.' :: rest) = ([], (pieces rest).1 :: (pieces rest).2) := by
  simp [pieces]

theorem pieces_cons {c : Char} (h : c ≠ '.') (rest : List Char) :
    pieces (c :: rest) = (c :: (pieces rest).1, (pieces rest).2) := by
  simp [pieces, h]

theorem intercalate_cons_head (c : Char) (piece : List Char) (more : List (List Char)) :
    ['.'].intercalate ((c :: piece) :: more) = c :: ['.'].intercalate (piece :: more) := by
  cases more with
  | nil => rw [List.intercalate_singleton, List.intercalate_singleton]
  | cons next rest => rw [List.intercalate_cons_cons, List.intercalate_cons_cons]; rfl

/-- The pieces of a text, joined by dots, are the text. -/
theorem intercalate_pieces (cs : List Char) :
    ['.'].intercalate ((pieces cs).1 :: (pieces cs).2) = cs := by
  induction cs with
  | nil => rfl
  | cons c rest ih =>
      by_cases hdot : c = '.'
      · subst hdot
        rw [pieces_dot, List.intercalate_cons_cons, ih]
        rfl
      · rw [pieces_cons hdot, intercalate_cons_head, ih]

/-- The pieces of a text hold no dot. -/
theorem dot_not_mem_pieces (cs : List Char) :
    ∀ piece ∈ (pieces cs).1 :: (pieces cs).2, '.' ∉ piece := by
  induction cs with
  | nil => simp [pieces]
  | cons c rest ih =>
      by_cases hdot : c = '.'
      · subst hdot
        rw [pieces_dot]
        exact List.forall_mem_cons.mpr ⟨List.not_mem_nil, ih⟩
      · rw [pieces_cons hdot]
        rw [List.forall_mem_cons] at ih ⊢
        exact ⟨List.not_mem_cons_of_ne_of_not_mem (Ne.symm hdot) ih.1, ih.2⟩

theorem pieces_append_dot {piece : List Char} (h : '.' ∉ piece) (rest : List Char) :
    pieces (piece ++ '.' :: rest) = (piece, (pieces rest).1 :: (pieces rest).2) := by
  induction piece with
  | nil => exact pieces_dot rest
  | cons c more ih =>
      obtain ⟨hne, hmore⟩ := List.ne_and_not_mem_of_not_mem_cons h
      rw [List.cons_append, pieces_cons (Ne.symm hne), ih hmore]

theorem pieces_of_dot_not_mem {piece : List Char} (h : '.' ∉ piece) :
    pieces piece = (piece, []) := by
  induction piece with
  | nil => rfl
  | cons c more ih =>
      obtain ⟨hne, hmore⟩ := List.ne_and_not_mem_of_not_mem_cons h
      rw [pieces_cons (Ne.symm hne), ih hmore]

/-- Pieces without dots are found again between dots. -/
theorem pieces_intercalate {piece : List Char} {more : List (List Char)}
    (h : ∀ p ∈ piece :: more, '.' ∉ p) :
    pieces (['.'].intercalate (piece :: more)) = (piece, more) := by
  induction more generalizing piece with
  | nil =>
      rw [List.intercalate_singleton]
      exact pieces_of_dot_not_mem (h piece List.mem_cons_self)
  | cons next rest ih =>
      obtain ⟨hpiece, hrest⟩ := List.forall_mem_cons.mp h
      rw [List.intercalate_cons_cons, List.append_assoc, List.singleton_append,
        pieces_append_dot hpiece, ih hrest]

/-! ## Steps that pieces spell -/

/-- Pieces are read as steps exactly if none is empty, and each by itself. -/
theorem steps_eq_ok_iff {number : Nat} {more : List (List Char)} {below : List Segment} :
    steps number more = .ok below ↔
      [] ∉ more ∧ more.map (fun piece => Segment.ofText (String.ofList piece)) = below := by
  induction more generalizing number below with
  | nil => simp [steps]
  | cons piece rest ih =>
      rw [steps]
      by_cases hnil : piece = []
      · simp [hnil]
      · rw [if_neg hnil, map_eq_ok_iff]
        simp only [ih, List.mem_cons, not_or, List.map_cons]
        constructor
        · rintro ⟨below, ⟨hrest, rfl⟩, rfl⟩
          exact ⟨⟨Ne.symm hnil, hrest⟩, rfl⟩
        · rintro ⟨⟨-, hrest⟩, rfl⟩
          exact ⟨_, ⟨hrest, rfl⟩, rfl⟩

theorem toList_join (segments : List Segment) :
    (join segments).toList = ['.'].intercalate (segments.map fun step => step.text.toList) := by
  rw [join, String.toList_intercalate, List.map_map]
  rfl

/-- A text is a path exactly if its first piece is neither empty nor the wildcard and the others
are steps. -/
theorem parse_eq_ok_iff_pieces {text : String} {path : Path} :
    parse text = .ok path ↔ (pieces text.toList).1 ≠ [] ∧
      String.ofList (pieces text.toList).1 ≠ Segment.wildcard ∧
      String.ofList (pieces text.toList).1 = path.root ∧
      steps 2 (pieces text.toList).2 = .ok path.below := by
  rw [parse]
  by_cases hempty : text = ""
  · subst hempty
    simp [pieces]
  by_cases hroot : (pieces text.toList).1 = []
  · simp [hempty, hroot]
  by_cases hwildcard : String.ofList (pieces text.toList).1 = Segment.wildcard
  · simp [hempty, hroot, hwildcard]
  simp only [hempty, hroot, hwildcard, if_false, map_eq_ok_iff, ne_eq, not_false_eq_true, true_and]
  constructor
  · rintro ⟨below, hbelow, rfl⟩
    exact ⟨rfl, hbelow⟩
  · rintro ⟨hname, hbelow⟩
    exact ⟨path.below, hbelow, by rw [hname]⟩

/-- A text spells a path exactly if it is the path's own text and the path's steps are spelled. -/
theorem parse_eq_ok_iff {text : String} {path : Path} :
    parse text = .ok path ↔ (∀ step ∈ path.segments, step.IsSpelled) ∧ path.text = text := by
  rw [parse_eq_ok_iff_pieces, steps_eq_ok_iff]
  constructor
  · rintro ⟨hroot, hwildcard, hname, hnil, hbelow⟩
    have hdots := dot_not_mem_pieces text.toList
    have hsegments : path.segments =
        ((pieces text.toList).1 :: (pieces text.toList).2).map fun piece =>
          Segment.ofText (String.ofList piece) := by
      rw [List.map_cons, hbelow, Segment.ofText, if_neg hwildcard, hname, segments]
    constructor
    · rw [hsegments, List.forall_mem_map]
      intro piece hpiece
      have hne : piece ≠ [] := by
        rintro rfl
        rcases List.mem_cons.mp hpiece with heq | hmem
        · exact hroot heq.symm
        · exact hnil hmem
      apply Segment.isSpelled_ofText
      · simpa using hne
      · rw [String.toList_ofList]
        exact hdots piece hpiece
    · apply String.toList_injective
      rw [Path.text, toList_join, hsegments, List.map_map]
      simp only [Function.comp_def, Segment.text_ofText, String.toList_ofList, List.map_id']
      exact intercalate_pieces text.toList
  · rintro ⟨hspelled, rfl⟩
    obtain ⟨hroot, hbelow⟩ := List.forall_mem_cons.mp hspelled
    have hdots : ∀ piece ∈ path.segments.map fun step => step.text.toList, '.' ∉ piece := by
      rw [List.forall_mem_map]
      intro step hstep
      exact (hspelled step hstep).dot_not_mem
    have hpieces : pieces path.text.toList =
        (path.root.toList, path.below.map fun step => step.text.toList) := by
      rw [Path.text, toList_join]
      exact pieces_intercalate hdots
    rw [hpieces, String.ofList_toList]
    refine ⟨by simpa using hroot.1, hroot.2.1, rfl, ?_, ?_⟩
    · rw [List.mem_map]
      rintro ⟨step, hstep, hnil⟩
      exact (hbelow step hstep).text_ne_empty (String.toList_eq_nil_iff.mp hnil)
    · rw [List.map_map, ← List.map_id path.below, List.map_map]
      apply List.map_congr_left
      intro step hstep
      simp only [Function.comp_apply, id_eq, String.ofList_toList]
      exact Segment.ofText_text (hbelow step hstep)

/-! ## Paths put together -/

/-- The path behind another one. -/
def append (outer inner : Path) : Path :=
  ⟨outer.root, outer.below ++ inner.segments⟩

theorem segments_append (outer inner : Path) :
    (outer.append inner).segments = outer.segments ++ inner.segments := rfl

theorem text_append (outer inner : Path) :
    (outer.append inner).text = outer.text ++ "." ++ inner.text := by
  rw [text, segments_append, join, List.map_append]
  exact String.intercalate_append_of_ne_nil (List.cons_ne_nil _ _) (List.cons_ne_nil _ _)

/-- A path may be put behind another one, with a dot between their texts. -/
theorem parse_append {outer inner : String} {place path : Path} (houter : parse outer = .ok place)
    (hinner : parse inner = .ok path) :
    parse (outer ++ "." ++ inner) = .ok (place.append path) := by
  rw [parse_eq_ok_iff] at houter hinner ⊢
  obtain ⟨hplace, rfl⟩ := houter
  obtain ⟨hpath, rfl⟩ := hinner
  refine ⟨?_, text_append place path⟩
  rw [segments_append, List.forall_mem_append]
  exact ⟨hplace, hpath⟩

/-- The top-level field of a path is a path of its own. -/
theorem parse_root {text : String} {path : Path} (h : parse text = .ok path) :
    parse path.root = .ok ⟨path.root, []⟩ := by
  rw [parse_eq_ok_iff] at h ⊢
  obtain ⟨hspelled, -⟩ := h
  constructor
  · intro step hstep
    rw [List.mem_singleton.mp hstep]
    exact hspelled _ List.mem_cons_self
  · rw [Path.text, segments, join, List.map_singleton, String.intercalate_singleton, Segment.text]

end Path

end ShapeInference
