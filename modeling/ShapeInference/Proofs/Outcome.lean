import Mathlib.Data.List.Forall2

/-!
# Outcomes

When a step that may fail succeeds after all or fails, what is left when errors are forgotten, and
when all steps along a list succeed.

Main statements: `mapM_eq_some_iff` and `mem_of_mapM_eq_some`.
-/

namespace ShapeInference

variable {ε δ α β γ : Type}

theorem map_eq_ok_iff {f : α → β} {x : Except ε α} {b : β} :
    x.map f = .ok b ↔ ∃ a, x = .ok a ∧ f a = b := by
  cases x <;> simp [Except.map]

theorem map_eq_error_iff {f : α → β} {x : Except ε α} {e : ε} :
    x.map f = .error e ↔ x = .error e := by
  cases x <;> simp [Except.map]

theorem mapError_eq_ok_iff {f : ε → δ} {x : Except ε α} {a : α} :
    x.mapError f = .ok a ↔ x = .ok a := by
  cases x <;> simp [Except.mapError]

theorem mapError_eq_error_iff {f : ε → δ} {x : Except ε α} {d : δ} :
    x.mapError f = .error d ↔ ∃ e, x = .error e ∧ f e = d := by
  cases x <;> simp [Except.mapError]

/-- Two steps succeed exactly if the first does and the second does on its value. -/
theorem bind_eq_ok_iff {f : α → Except ε β} {x : Except ε α} {b : β} :
    (x >>= f) = .ok b ↔ ∃ a, x = .ok a ∧ f a = .ok b := by
  cases x <;> simp [bind, Except.bind]

/-- Two steps fail exactly if the first does, or the second on the value of the first. -/
theorem bind_eq_error_iff {f : α → Except ε β} {x : Except ε α} {e : ε} :
    (x >>= f) = .error e ↔ x = .error e ∨ ∃ a, x = .ok a ∧ f a = .error e := by
  cases x <;> simp [bind, Except.bind]

theorem toOption_eq_some_iff {x : Except ε α} {a : α} : x.toOption = some a ↔ x = .ok a := by
  cases x <;> simp [Except.toOption]

/-! ## Errors forgotten or replaced -/

theorem toOption_map (x : Except ε α) (f : α → β) : (x.map f).toOption = x.toOption.map f := by
  cases x <;> rfl

theorem toOption_bind (x : Except ε α) (f : α → Except ε β) :
    (x >>= f).toOption = x.toOption.bind fun a => (f a).toOption := by
  cases x <;> rfl

theorem toOption_mapError (x : Except ε α) (f : ε → δ) : (x.mapError f).toOption = x.toOption := by
  cases x <;> rfl

theorem mapError_map (x : Except ε α) (f : α → β) (g : ε → δ) :
    (x.map f).mapError g = (x.mapError g).map f := by
  cases x <;> rfl

theorem mapError_bind (x : Except ε α) (f : α → Except ε β) (g : ε → δ) :
    (x >>= f).mapError g = x.mapError g >>= fun a => (f a).mapError g := by
  cases x <;> rfl

/-- Outcomes whose errors all look alike are told apart by their results. -/
theorem mapError_eq_of_toOption_eq {f : ε → δ} {d : δ} {x y : Except ε α}
    (hx : ∀ e, x = .error e → f e = d) (hy : ∀ e, y = .error e → f e = d)
    (h : x.toOption = y.toOption) : x.mapError f = y.mapError f := by
  cases x with
  | ok a =>
      cases y with
      | ok b => exact congrArg Except.ok (Option.some.inj h)
      | error e => contradiction
  | error e =>
      cases y with
      | ok b => contradiction
      | error e' => exact congrArg Except.error ((hx e rfl).trans (hy e' rfl).symm)

/-! ## Steps along a list -/

theorem toOption_forM_cons (f : α → Except ε Unit) (a : α) (rest : List α) :
    ((a :: rest).forM f).toOption = (f a).toOption.bind fun _ => (rest.forM f).toOption :=
  toOption_bind _ _

/-- Steps along a list fail as one of them does. -/
theorem exists_mem_of_forM_eq_error {f : α → Except ε Unit} {as : List α} {e : ε}
    (h : as.forM f = .error e) : ∃ a ∈ as, f a = .error e := by
  induction as with
  | nil => contradiction
  | cons a rest ih =>
      rcases bind_eq_error_iff.mp h with hfirst | ⟨_, -, hrest⟩
      · exact ⟨a, List.mem_cons_self, hfirst⟩
      · obtain ⟨b, hb, hf⟩ := ih hrest
        exact ⟨b, List.mem_cons_of_mem _ hb, hf⟩

/-- Steps along a list succeed when all of them do. -/
theorem forM_eq_ok_iff {f : α → Except ε Unit} {as : List α} :
    as.forM f = .ok () ↔ ∀ a ∈ as, f a = .ok () := by
  induction as with
  | nil => exact iff_of_true rfl (List.forall_mem_nil _)
  | cons a rest ih =>
      rw [List.forall_mem_cons, ← ih]
      constructor
      · intro h
        obtain ⟨_, hfirst, hrest⟩ := bind_eq_ok_iff.mp h
        exact ⟨hfirst, hrest⟩
      · rintro ⟨hfirst, hrest⟩
        exact bind_eq_ok_iff.mpr ⟨(), hfirst, hrest⟩

theorem forM_congr {f g : α → Except ε Unit} {as : List α} (h : ∀ a ∈ as, f a = g a) :
    as.forM f = as.forM g := by
  induction as with
  | nil => rfl
  | cons a rest ih =>
      obtain ⟨hfirst, hrest⟩ := List.forall_mem_cons.mp h
      calc
        (a :: rest).forM f = f a >>= fun _ => rest.forM f := rfl
        _ = g a >>= fun _ => rest.forM g := by rw [hfirst, ih hrest]

/-- Traversals whose steps agree up to the names of faults agree up to these. -/
theorem mapError_forM_congr {f g : α → Except ε Unit} {p : ε → δ} {as : List α}
    (h : ∀ a ∈ as, (f a).mapError p = (g a).mapError p) :
    (as.forM f).mapError p = (as.forM g).mapError p := by
  induction as with
  | nil => rfl
  | cons a rest ih =>
      obtain ⟨hfirst, hrest⟩ := List.forall_mem_cons.mp h
      calc
        ((a :: rest).forM f).mapError p = (f a).mapError p >>= fun _ => (rest.forM f).mapError p :=
          mapError_bind _ _ _
        _ = (g a).mapError p >>= fun _ => (rest.forM g).mapError p := by rw [hfirst, ih hrest]
        _ = ((a :: rest).forM g).mapError p := (mapError_bind _ _ _).symm

theorem exists_of_mem_mapM_ok {f : α → Except ε β} {as : List α} {bs : List β}
    (h : as.mapM f = .ok bs) {b : β} (hb : b ∈ bs) : ∃ a ∈ as, f a = .ok b := by
  induction as generalizing bs with
  | nil =>
      obtain rfl := Except.ok.inj h
      contradiction
  | cons a as ih =>
      rw [List.mapM_cons] at h
      obtain ⟨first, hfirst, h⟩ := bind_eq_ok_iff.mp h
      obtain ⟨rest, hrest, h⟩ := bind_eq_ok_iff.mp h
      obtain rfl := Except.ok.inj h
      rcases List.mem_cons.mp hb with rfl | hmem
      · exact ⟨a, List.mem_cons_self, hfirst⟩
      · obtain ⟨other, hother, hf⟩ := ih hrest hmem
        exact ⟨other, List.mem_cons_of_mem _ hother, hf⟩

/-- Where steps along a list succeed, each gives the result at its place. -/
theorem forall₂_of_mapM_eq_ok {f : α → Except ε β} {as : List α} {bs : List β}
    (h : as.mapM f = .ok bs) : List.Forall₂ (fun a b => f a = .ok b) as bs := by
  induction as generalizing bs with
  | nil =>
      obtain rfl := Except.ok.inj h
      exact .nil
  | cons a rest ih =>
      rw [List.mapM_cons] at h
      obtain ⟨b, hb, h⟩ := bind_eq_ok_iff.mp h
      obtain ⟨more, hmore, h⟩ := bind_eq_ok_iff.mp h
      obtain rfl := Except.ok.inj h
      exact .cons hb (ih hmore)

section

variable {f : α → Option β} {as : List α} {bs : List β}

theorem mapM_cons_eq_some_iff {a : α} :
    (a :: as).mapM f = some bs ↔
      ∃ b, f a = some b ∧ ∃ rest, as.mapM f = some rest ∧ b :: rest = bs := by
  rw [List.mapM_cons]
  simp [Option.bind_eq_some_iff]

/-- A traversal gives exactly the results that belong, one by one, to its inputs. -/
theorem mapM_eq_some_iff :
    as.mapM f = some bs ↔ List.Forall₂ (fun a b => f a = some b) as bs := by
  induction as generalizing bs with
  | nil => simp [eq_comm]
  | cons a as ih =>
      rw [mapM_cons_eq_some_iff, List.forall₂_cons_left_iff]
      simp only [ih, eq_comm (b := bs)]
      exact exists_congr fun b => exists_and_left.symm

theorem exists_mem_of_forall₂ {R : α → β → Prop} (h : List.Forall₂ R as bs) {b : β} (hb : b ∈ bs) :
    ∃ a ∈ as, R a b := by
  induction h with
  | nil => contradiction
  | @cons a c as bs hac _ ih =>
      rcases List.mem_cons.mp hb with rfl | hrest
      · exact ⟨a, List.mem_cons_self, hac⟩
      · obtain ⟨other, hother, hR⟩ := ih hrest
        exact ⟨other, List.mem_cons_of_mem _ hother, hR⟩

theorem mapM_map (f : α → Option β) (g : β → γ) (as : List α) :
    as.mapM (fun a => (f a).map g) = (as.mapM f).map (List.map g) := by
  induction as with
  | nil => rfl
  | cons a as ih =>
      rw [List.mapM_cons, List.mapM_cons, ih]
      cases f a with
      | none => rfl
      | some b => cases as.mapM f <;> rfl

/-- The results of a traversal are those of its inputs. -/
theorem mem_of_mapM_eq_some (h : as.mapM f = some bs) {b : β} :
    b ∈ bs ↔ ∃ a ∈ as, f a = some b := by
  induction as generalizing bs with
  | nil =>
      obtain rfl := Option.some.inj h
      simp
  | cons a as ih =>
      obtain ⟨c, hc, rest, hrest, rfl⟩ := mapM_cons_eq_some_iff.mp h
      rw [List.mem_cons, ih hrest, List.exists_mem_cons_iff, hc, Option.some.injEq, eq_comm]

theorem exists_mapM_eq_some_iff :
    (∃ bs, as.mapM f = some bs) ↔ ∀ a ∈ as, ∃ b, f a = some b := by
  induction as with
  | nil => simp
  | cons a as ih =>
      rw [List.forall_mem_cons, ← ih]
      simp only [mapM_cons_eq_some_iff]
      constructor
      · rintro ⟨_, b, hb, rest, hrest, -⟩
        exact ⟨⟨b, hb⟩, rest, hrest⟩
      · rintro ⟨⟨b, hb⟩, rest, hrest⟩
        exact ⟨b :: rest, b, hb, rest, hrest, rfl⟩

end

end ShapeInference
