import ShapeInference.Proofs.Descriptor.Conflict

/-!
# Where descriptors conflict

Descriptors conflict exactly when one trail leads through both of them to parts that nothing
reconciles. The conflict that a merge reports is the one at the first such trail, by the names of
fields, with the two parts it leads to.

Main statements: `Descriptor.Irreconcilable.merge_eq`, `Descriptor.clashes_of_merge` and
`Descriptor.LeadsTo.exists_merge_eq_error`.
-/

namespace ShapeInference.Descriptor

/-! ## Trails -/

/-- Whether this is an object, with known fields or without. -/
def isObject : Descriptor → Bool
  | object _ => true
  | primitive .emptyObject => true
  | _ => false

/-- Nothing reconciles two descriptors themselves: none of them is unknown, and they are not both
objects, both arrays, both unions or the same primitive. -/
structure Irreconcilable (left right : Descriptor) : Prop where
  left_known : left ≠ unknown
  right_known : right ≠ unknown
  objects : ¬ (left.isObject = true ∧ right.isObject = true)
  arrays : ¬ (left.isArray = true ∧ right.isArray = true)
  unions : ¬ (left.isUnion = true ∧ right.isUnion = true)
  primitives : ∀ kind, ¬ (left = primitive kind ∧ right = primitive kind)

/-- A trail leads through two descriptors at once: the name of a field through objects that both
have it, and `*` through the elements of arrays. -/
inductive LeadsTo : List String → Descriptor → Descriptor → Descriptor → Descriptor → Prop where
  | here (a b : Descriptor) : LeadsTo [] a b a b
  | field {left right : List (String × Descriptor)} {name : String} {a b l r : Descriptor}
      {trail : List String} (inLeft : Bindings.get? left name = some a)
      (inRight : Bindings.get? right name = some b) (further : LeadsTo trail a b l r) :
      LeadsTo (name :: trail) (object left) (object right) l r
  | element {a b l r : Descriptor} {trail : List String} (further : LeadsTo trail a b l r) :
      LeadsTo ("*" :: trail) (array a) (array b) l r

/-- A conflict stands between two descriptors: its trail leads to its sides, which nothing
reconciles. -/
structure Clashes (a b : Descriptor) (c : Conflict) : Prop where
  leads : LeadsTo c.trail a b c.left c.right
  irreconcilable : Irreconcilable c.left c.right

/-- A trail leads to one pair of types. -/
theorem LeadsTo.unique {trail : List String} {a b l r l' r' : Descriptor}
    (h : LeadsTo trail a b l r) (h' : LeadsTo trail a b l' r') : l = l' ∧ r = r' := by
  induction h with
  | here =>
      cases h'
      exact ⟨rfl, rfl⟩
  | field inLeft inRight further ih =>
      cases h' with
      | field inLeft' inRight' further' =>
          obtain rfl := Option.some.inj (inLeft.symm.trans inLeft')
          obtain rfl := Option.some.inj (inRight.symm.trans inRight')
          exact ih further'
  | element further ih =>
      cases h' with
      | element further' => exact ih further'

/-! ## Conflicts at the place itself -/

theorem isObject_iff {d : Descriptor} :
    d.isObject = true ↔ d = emptyObject ∨ ∃ fields, d = object fields := by
  cases d with
  | primitive kind => cases kind <;> simp [isObject, emptyObject]
  | _ => simp [isObject, emptyObject]

theorem isArray_iff {d : Descriptor} : d.isArray = true ↔ ∃ e, d = array e := by
  cases d <;> simp [isArray]

theorem isUnion_iff {d : Descriptor} : d.isUnion = true ↔ ∃ ds, d = union ds := by
  cases d <;> simp [isUnion]

/-- Merging stops at descriptors that nothing reconciles. -/
theorem Irreconcilable.merge_eq {a b : Descriptor} (h : Irreconcilable a b) :
    merge a b = .error ⟨[], a, b⟩ := by
  obtain ⟨hleft, hright, hobjects, harrays, hunions, hprimitives⟩ := h
  simp only [isObject_iff, isArray_iff, isUnion_iff] at hobjects harrays hunions
  fun_cases merge a b with
  | case1 => exact absurd rfl hleft
  | case2 => exact absurd rfl hright
  | case3 fields => exact absurd ⟨.inl rfl, .inr ⟨fields, rfl⟩⟩ hobjects
  | case4 fields => exact absurd ⟨.inr ⟨fields, rfl⟩, .inl rfl⟩ hobjects
  | case5 left right => exact absurd ⟨.inr ⟨left, rfl⟩, .inr ⟨right, rfl⟩⟩ hobjects
  | case6 d e => exact absurd ⟨⟨d, rfl⟩, e, rfl⟩ harrays
  | case7 kind => exact absurd ⟨rfl, rfl⟩ (hprimitives kind)
  | case8 => rfl
  | case9 ds es => exact absurd ⟨⟨ds, rfl⟩, es, rfl⟩ hunions
  | case10 => rfl

/-- The pairs of descriptors that do not merge, and the conflict that stops them. -/
inductive Stops : Descriptor → Descriptor → Conflict → Prop where
  | here {a b : Descriptor} (irreconcilable : Irreconcilable a b) : Stops a b ⟨[], a, b⟩
  | object {left right : List (String × Descriptor)} {c : Conflict}
      (stopped : mergeInto left right = .error c) : Stops (object left) (object right) c
  | array {a b : Descriptor} {c : Conflict} (stopped : merge a b = .error c) :
      Stops (array a) (array b) (c.under "*")

theorem irreconcilable_primitive {kind other : Primitive} (hne : kind ≠ other) :
    Irreconcilable (primitive kind) (primitive other) where
  left_known := nofun
  right_known := nofun
  objects := by
    simp only [isObject_iff, emptyObject, primitive.injEq, reduceCtorEq, exists_false, or_false]
    rintro ⟨rfl, rfl⟩
    exact hne rfl
  arrays := nofun
  unions := nofun
  primitives := by
    rintro _ ⟨⟨⟩, ⟨⟩⟩
    exact hne rfl

/-- A merge that fails stops in one of these ways. -/
theorem Stops.of_merge_eq {a b : Descriptor} {c : Conflict} (h : merge a b = .error c) :
    Stops a b c := by
  revert h
  fun_cases merge a b with
  | case5 left right => exact fun h => .object (map_eq_error_iff.mp h)
  | case6 d e =>
      intro h
      obtain ⟨f, hf, rfl⟩ := mapError_eq_error_iff.mp h
      exact .array (map_eq_error_iff.mp hf)
  | case8 kind other hne =>
      rintro ⟨⟩
      exact .here (irreconcilable_primitive hne)
  | case10 _ _ hleft hright hempty hempty' hobjects harrays hprimitives hunions =>
      rintro ⟨⟩
      refine .here ⟨hleft, hright, ?_, ?_, ?_, ?_⟩
      · simp only [isObject_iff]
        rintro ⟨rfl | ⟨left, rfl⟩, rfl | ⟨right, rfl⟩⟩
        · exact hprimitives _ _ rfl rfl
        · exact hempty right rfl rfl
        · exact hempty' left rfl rfl
        · exact hobjects left right rfl rfl
      · simp only [isArray_iff]
        rintro ⟨⟨d, rfl⟩, e, rfl⟩
        exact harrays d e rfl rfl
      · simp only [isUnion_iff]
        rintro ⟨⟨ds, rfl⟩, es, rfl⟩
        exact hunions ds es rfl rfl
      · rintro kind ⟨rfl, rfl⟩
        exact hprimitives kind kind rfl rfl
  | _ =>
      intro h
      contradiction

/-! ## The first trail -/

/-- The conflict that stops a merge stands between the two descriptors. -/
theorem clashes_of_merge {a b : Descriptor} (ha : Ordered a) (hb : Ordered b) {c : Conflict}
    (h : merge a b = .error c) : Clashes a b c := by
  induction ha generalizing b c with
  | array part ih =>
      cases Stops.of_merge_eq h with
      | here irreconcilable => exact ⟨.here _ _, irreconcilable⟩
      | array stopped =>
          obtain ⟨leads, irreconcilable⟩ := ih hb.element stopped
          exact ⟨.element leads, irreconcilable⟩
  | object sorted parts ih =>
      cases Stops.of_merge_eq h with
      | here irreconcilable => exact ⟨.here _ _, irreconcilable⟩
      | object stopped =>
          obtain @⟨name, d, ⟨a, b, ha, hb', hab⟩, -⟩ :=
            (mergeInto_eq_error_iff sorted hb.sorted).mp stopped
          obtain ⟨leads, irreconcilable⟩ :=
            ih (name, a) (Bindings.mem_of_get?_eq_some ha) (hb.field hb') hab
          exact ⟨.field ha hb' leads, irreconcilable⟩
  | _ =>
      cases Stops.of_merge_eq h with
      | here irreconcilable => exact ⟨.here _ _, irreconcilable⟩

/-- Where one field of two objects conflicts, merging them stops there or at a name before it. -/
theorem ConflictsUnder.exists_mergeInto_eq_error {left right : List (String × Descriptor)}
    (hl : Bindings.Sorted left) (hr : Bindings.Sorted right) {name : String} {d : Conflict}
    (h : ConflictsUnder left right name d) :
    ∃ other c, mergeInto left right = .error (c.under other) ∧
      (other < name ∨ other = name ∧ c = d) := by
  cases hmerge : mergeInto left right with
  | ok fields => exact absurd hmerge (h.mergeInto_ne_ok hl hr fields)
  | error e =>
      obtain @⟨other, c, here, before⟩ := (mergeInto_eq_error_iff hl hr).mp hmerge
      refine ⟨other, c, rfl, ?_⟩
      rcases lt_trichotomy other name with hlt | rfl | hgt
      · exact .inl hlt
      · exact .inr ⟨rfl, here.unique h⟩
      · exact absurd h (before name hgt d)

/-- Where a trail leads to parts that nothing reconciles, merging stops at the end of the trail or
at one before it. -/
theorem LeadsTo.exists_merge_eq_error {trail : List String} {a b l r : Descriptor}
    (h : LeadsTo trail a b l r) (ha : Ordered a) (hb : Ordered b) (hlr : Irreconcilable l r) :
    ∃ c, merge a b = .error c ∧ (c.trail = trail ∨ List.Lex (· < ·) c.trail trail) := by
  induction h with
  | here => exact ⟨_, hlr.merge_eq, .inl rfl⟩
  | @field left right name _ _ _ _ trail inLeft inRight further ih =>
      obtain ⟨d, hd, htrail⟩ := ih (ha.field inLeft) (hb.field inRight) hlr
      obtain ⟨other, c, hc, hfirst⟩ := ConflictsUnder.exists_mergeInto_eq_error ha.sorted hb.sorted
        ⟨_, _, inLeft, inRight, hd⟩
      refine ⟨c.under other, merge_object_eq_error_iff.mpr hc, ?_⟩
      rcases hfirst with hlt | ⟨rfl, rfl⟩
      · exact .inr (.rel hlt)
      · exact htrail.imp (congrArg (other :: ·)) .cons
  | @element _ _ _ _ trail further ih =>
      obtain ⟨d, hd, htrail⟩ := ih ha.element hb.element hlr
      refine ⟨d.under "*", merge_array_eq_error_iff.mpr ⟨d, hd, rfl⟩, ?_⟩
      exact htrail.imp (congrArg ("*" :: ·)) .cons

/-- Descriptors conflict exactly when a trail leads through both of them to parts that nothing
reconciles. The conflict has the first such trail, in the order of the names, and the two parts to
which it leads. -/
theorem merge_conflict_at_first_trail {a b : Descriptor} (ha : Ordered a) (hb : Ordered b) :
    ((∃ c, merge a b = .error c) ↔ ∃ trail l r, LeadsTo trail a b l r ∧ Irreconcilable l r) ∧
      ∀ c, merge a b = .error c →
        (∀ l r, LeadsTo c.trail a b l r ↔ l = c.left ∧ r = c.right) ∧
        Irreconcilable c.left c.right ∧
        ∀ trail l r, LeadsTo trail a b l r → Irreconcilable l r →
          c.trail = trail ∨ List.Lex (· < ·) c.trail trail := by
  constructor
  · constructor
    · rintro ⟨c, hc⟩
      obtain ⟨hleads, hirreconcilable⟩ := clashes_of_merge ha hb hc
      exact ⟨c.trail, c.left, c.right, hleads, hirreconcilable⟩
    · rintro ⟨trail, l, r, hleads, hlr⟩
      obtain ⟨c, hc, -⟩ := hleads.exists_merge_eq_error ha hb hlr
      exact ⟨c, hc⟩
  · intro c hc
    obtain ⟨hleads, hirreconcilable⟩ := clashes_of_merge ha hb hc
    refine ⟨fun l r => ⟨fun h => h.unique hleads, ?_⟩, hirreconcilable, ?_⟩
    · rintro ⟨rfl, rfl⟩
      exact hleads
    · intro trail l r hother hlr
      obtain ⟨d, hd, hfirst⟩ := hother.exists_merge_eq_error ha hb hlr
      obtain rfl := Except.error.inj (hc.symm.trans hd)
      exact hfirst

/-- The elements of the second field conflict, and so does a field inside the elements of the first,
whose trail comes before. -/
theorem merge_conflict_at_first_trail_of_two :
    ∃ a b c,
      a = object [("items", array (object [("id", union [primitive .date, primitive .string]),
        ("size", primitive .float)])), ("tags", array (primitive .string))] ∧
      b = object [("items", array (object [("id", primitive .string), ("size", unknown)])),
        ("tags", array (primitive .boolean))] ∧
      merge a b = .error c ∧ c.trail = ["items", "*", "id"] ∧
      (LeadsTo ["tags", "*"] a b (primitive .string) (primitive .boolean) ∧
        Irreconcilable (primitive .string) (primitive .boolean)) ∧
      (LeadsTo c.trail a b c.left c.right ∧ Irreconcilable c.left c.right) ∧
      List.Lex (· < ·) c.trail ["tags", "*"] := by
  have ha : Normal (object [("items", array (object [("id", union [primitive .date,
    primitive .string]), ("size", primitive .float)])), ("tags", array (primitive .string))]) := by
    decide
  have hb : Normal (object [("items", array (object [("id", primitive .string),
    ("size", unknown)])), ("tags", array (primitive .boolean))]) := by
    decide
  obtain ⟨-, hconflict⟩ := merge_conflict_at_first_trail ha.ordered hb.ordered
  obtain ⟨hends, hirreconcilable, hfirst⟩ := hconflict _ rfl
  have hlater := @irreconcilable_primitive .string .boolean nofun
  refine ⟨_, _, _, rfl, rfl, rfl, rfl, ⟨.field rfl rfl (.element (.here _ _)), hlater⟩,
    ⟨(hends _ _).mpr ⟨rfl, rfl⟩, hirreconcilable⟩, ?_⟩
  apply (hfirst ["tags", "*"] _ _ (.field rfl rfl (.element (.here _ _))) hlater).resolve_left
  decide

end ShapeInference.Descriptor
