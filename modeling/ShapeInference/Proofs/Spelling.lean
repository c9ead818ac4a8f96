import Mathlib.Data.List.Basic

/-!
# Texts that tell items apart

The text of an item may go on with anything that cannot belong to it. When items are told apart that
way, so are rows of items with a separator between them.

Main statement: `Determines.joined`.
-/

namespace ShapeInference

variable {α : Type} {spell : α → List Char} {separator : List Char} {P : α → Prop}
  {Q : List Char → Prop}

/-- The spelling of `x` is that of no other item in `P`, whatever of `Q` comes after the two. -/
def Determines (spell : α → List Char) (P : α → Prop) (Q : List Char → Prop) (x : α) : Prop :=
  ∀ y, P y → ∀ s t, Q s → Q t → spell x ++ s = spell y ++ t → x = y ∧ s = t

/-- Spells items with a separator between them. -/
def joined (spell : α → List Char) (separator : List Char) : List α → List Char
  | [] => []
  | x :: rest => spell x ++ rest.flatMap fun y => separator ++ spell y

/-- Texts with a separator between them are their items, joined. -/
theorem toList_intercalate_map (separator : String) (text : α → String) (xs : List α) :
    (separator.intercalate (xs.map text)).toList =
      joined (fun x => (text x).toList) separator.toList xs := by
  induction xs with
  | nil => rfl
  | cons x rest ih =>
      cases rest with
      | nil => simp [joined]
      | cons y more =>
          rw [List.map_cons] at ih
          rw [List.map_cons, List.map_cons, String.intercalate_cons_cons, String.toList_append, ih]
          simp [joined]

theorem follows_separated (hseparator : ∀ rest, Q (separator ++ rest)) (xs : List α)
    {s : List Char} (hs : Q s) : Q ((xs.flatMap fun x => separator ++ spell x) ++ s) := by
  cases xs with
  | nil => exact hs
  | cons x rest =>
      rw [List.flatMap_cons, List.append_assoc, List.append_assoc]
      exact hseparator _

/-- If each item is told apart, so is the row of them behind separators. -/
theorem Determines.separated (hseparator : ∀ rest, Q (separator ++ rest)) {xs : List α}
    (hxs : ∀ x ∈ xs, Determines spell P Q x) {ys : List α} (hys : ∀ y ∈ ys, P y) {s t : List Char}
    (hs : Q s) (ht : Q t) (hsclose : ¬ separator <+: s) (htclose : ¬ separator <+: t)
    (h : (xs.flatMap fun x => separator ++ spell x) ++ s =
      (ys.flatMap fun y => separator ++ spell y) ++ t) : xs = ys ∧ s = t := by
  induction xs generalizing ys with
  | nil =>
      cases ys with
      | nil => exact ⟨rfl, h⟩
      | cons y more =>
          rw [List.flatMap_cons, List.append_assoc, List.append_assoc] at h
          exact absurd ⟨_, h.symm⟩ hsclose
  | cons x rest ih =>
      obtain ⟨hx, hrest⟩ := List.forall_mem_cons.mp hxs
      cases ys with
      | nil =>
          rw [List.flatMap_cons, List.append_assoc, List.append_assoc] at h
          exact absurd ⟨_, h⟩ htclose
      | cons y more =>
          obtain ⟨hy, hmore⟩ := List.forall_mem_cons.mp hys
          simp only [List.flatMap_cons, List.append_assoc] at h
          have hitems := List.append_cancel_left h
          obtain ⟨rfl, htails⟩ := hx y hy _ _ (follows_separated hseparator rest hs)
            (follows_separated hseparator more ht) hitems
          obtain ⟨rfl, hends⟩ := ih hrest hmore htails
          exact ⟨rfl, hends⟩

/-- Items that are told apart before a separator are told apart in a row, as long as no other
separator comes after the row. -/
theorem Determines.joined (hseparator : ∀ rest, Q (separator ++ rest)) {xs : List α}
    (hne : xs ≠ []) (hxs : ∀ x ∈ xs, Determines spell P Q x) :
    Determines (joined spell separator) (fun ys => ys ≠ [] ∧ ∀ y ∈ ys, P y)
      (fun s => Q s ∧ ¬ separator <+: s) xs := by
  rintro ys ⟨hysne, hys⟩ s t ⟨hs, hsclose⟩ ⟨ht, htclose⟩ h
  obtain ⟨x, rest, rfl⟩ := List.exists_cons_of_ne_nil hne
  obtain ⟨y, more, rfl⟩ := List.exists_cons_of_ne_nil hysne
  obtain ⟨hx, hrest⟩ := List.forall_mem_cons.mp hxs
  obtain ⟨hy, hmore⟩ := List.forall_mem_cons.mp hys
  simp only [ShapeInference.joined, List.append_assoc] at h
  obtain ⟨rfl, htails⟩ := hx y hy _ _ (follows_separated hseparator rest hs)
    (follows_separated hseparator more ht) h
  obtain ⟨rfl, hends⟩ := separated hseparator hrest hmore hs ht hsclose htclose htails
  exact ⟨rfl, hends⟩

end ShapeInference
