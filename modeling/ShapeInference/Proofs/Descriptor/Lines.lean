import ShapeInference.Proofs.Descriptor.Text

/-!
# One line and several

A type expression that is spread over lines is the one on a single line with other white space: each
line end stands for a blank, and the semicolon before a closing brace is dropped. No name and no
literal holds a line end, so that nothing inside them is mistaken for the layout.

Main statements: `Descriptor.inline_oneLine`, `Descriptor.flatten_multiLineAt` and
`Descriptor.flatten_multiLine`.
-/

namespace ShapeInference

/-! ## Undoing the layout -/

namespace Lines

/-- Whether a text goes on with a line end and, behind blanks, a closing brace. -/
def closesNext : List Char → Bool
  | '\n' :: rest => (rest.dropWhile (· == ' ')).head? == some '\x7d'
  | _ => false

/-- Drops each semicolon directly before a line end behind which a brace closes. -/
def dropClosing : List Char → List Char
  | [] => []
  | c :: rest =>
    if c = ';' ∧ closesNext rest = true then dropClosing rest else c :: dropClosing rest

/-- Puts a single blank for each line end with the blanks behind it. Blanks are skipped from the
start of a line on. -/
def joinLines (atStart : Bool) : List Char → List Char
  | [] => []
  | c :: rest =>
    if c = '\n' then ' ' :: joinLines true rest
    else if atStart = true ∧ c = ' ' then joinLines true rest
    else c :: joinLines false rest

/-- Puts a text on one line. -/
def flatten (cs : List Char) : List Char :=
  joinLines false (dropClosing cs)

/-- A text without line ends that does not end with a semicolon. -/
structure Inline (text : String) : Prop where
  newline : '\n' ∉ text.toList
  semicolon : text.toList.getLast? ≠ some ';'

/-! ## Texts without line ends -/

theorem inline_empty : Inline "" :=
  ⟨List.not_mem_nil, nofun⟩

theorem Inline.append {s t : String} (hs : Inline s) (ht : Inline t) : Inline (s ++ t) := by
  constructor
  · rw [String.toList_append, List.mem_append, not_or]
    exact ⟨hs.newline, ht.newline⟩
  · rw [String.toList_append, List.getLast?_append]
    cases hlast : t.toList.getLast? with
    | none => exact hs.semicolon
    | some c =>
        rw [← hlast]
        simpa [hlast] using ht.semicolon

/-- Texts without line ends, joined by such a text, have none. -/
theorem Inline.intercalate {separator : String} (hseparator : Inline separator)
    {texts : List String} (h : ∀ text ∈ texts, Inline text) :
    Inline (separator.intercalate texts) := by
  induction texts with
  | nil => exact inline_empty
  | cons text rest ih =>
      obtain ⟨htext, hrest⟩ := List.forall_mem_cons.mp h
      cases rest with
      | nil => rwa [String.intercalate_singleton]
      | cons next more =>
          rw [String.intercalate_cons_cons]
          exact (htext.append hseparator).append (ih hrest)

theorem inline_of_not_mem {text : String} (hnewline : '\n' ∉ text.toList)
    (hsemicolon : ';' ∉ text.toList) : Inline text :=
  ⟨hnewline, fun hlast => hsemicolon (List.mem_of_getLast? hlast)⟩

/-- A quoted string has no line end, whatever it holds. -/
theorem inline_quote (s : String) : Inline (Json.quote s) := by
  obtain ⟨inside, hquote, hnewline⟩ := Json.exists_quote_toList s
  constructor
  · rw [hquote, List.mem_cons, List.mem_append, List.mem_singleton]
    simpa using hnewline
  · rw [hquote, ← List.cons_append, List.getLast?_append]
    simp

theorem inline_number (number : Number) : Inline number.text := by
  apply inline_of_not_mem
  all_goals
    intro hc
    have hnumeric := number.isNumeric_of_mem_text _ hc
    contradiction

theorem inline_literal (literal : Literal) : Inline literal.text := by
  cases literal with
  | undefined => exact inline_of_not_mem (by decide) (by decide)
  | null => exact inline_of_not_mem (by decide) (by decide)
  | bool value => cases value <;> exact inline_of_not_mem (by decide) (by decide)
  | number p =>
      rw [Literal.text, Literal.toJson?]
      split_ifs
      · exact inline_number _
      · exact inline_of_not_mem (by decide) (by decide)
  | string s => exact inline_quote s

theorem inline_primitiveText (kind : Primitive) : Inline (Descriptor.primitiveText kind) := by
  cases kind with
  | literal value => exact inline_literal value
  | _ => exact inline_of_not_mem (by decide) (by decide)

theorem inline_fieldName (name : String) : Inline (Descriptor.fieldName name) := by
  rw [Descriptor.fieldName]
  split
  · rename_i hidentifier
    exact inline_of_not_mem (Descriptor.not_mem_identifier hidentifier rfl rfl)
      (Descriptor.not_mem_identifier hidentifier rfl rfl)
  · exact inline_quote name

/-- A field name starts with nothing that matters to the layout. -/
theorem exists_head_fieldName (name : String) :
    ∃ c rest, (Descriptor.fieldName name).toList = c :: rest ∧
      c ≠ ' ' ∧ c ≠ ';' ∧ c ≠ '\x7d' := by
  rw [Descriptor.fieldName]
  split
  · rename_i hidentifier
    obtain ⟨c, rest, hname⟩ := Descriptor.exists_cons_of_isIdentifier hidentifier
    have hmem : c ∈ name.toList := hname ▸ List.mem_cons_self
    refine ⟨c, rest, hname, ?_, ?_, ?_⟩
    all_goals
      rintro rfl
      exact Descriptor.not_mem_identifier hidentifier rfl rfl hmem
  · obtain ⟨inside, hquote, -⟩ := Json.exists_quote_toList name
    exact ⟨'"', inside ++ ['"'], hquote, by decide, by decide, by decide⟩

end Lines

namespace Descriptor

open Lines

mutual

/-- A type expression on one line is free of line ends. -/
theorem inline_oneLine : ∀ d : Descriptor, Inline d.oneLine
  | unknown => inline_of_not_mem (by decide) (by decide)
  | primitive kind => inline_primitiveText kind
  | union ds => by
      rw [oneLine]
      exact Inline.intercalate (inline_of_not_mem (by decide) (by decide))
        (inline_alternativeTexts ds)
  | array d => by
      have hd := inline_oneLine d
      have hopen : Inline "(" := inline_of_not_mem (by decide) (by decide)
      have hclose : Inline ")" := inline_of_not_mem (by decide) (by decide)
      have hbrackets : Inline "[]" := inline_of_not_mem (by decide) (by decide)
      rw [oneLine_array]
      apply Inline.append _ hbrackets
      split
      · exact (hopen.append hd).append hclose
      · exact hd
  | object [] => inline_of_not_mem (by decide) (by decide)
  | object (field :: rest) => by
      have hfields := inline_fieldTexts (field :: rest)
      have hseparator : Inline "; " := ⟨by decide, by decide⟩
      have hopen : Inline "\x7b " := inline_of_not_mem (by decide) (by decide)
      have hclose : Inline " \x7d" := inline_of_not_mem (by decide) (by decide)
      rw [oneLine_object_cons]
      exact (hopen.append (hseparator.intercalate hfields)).append hclose

theorem inline_alternativeTexts : ∀ ds : List Descriptor, ∀ text ∈ alternativeTexts ds, Inline text
  | [] => fun _ h => absurd h List.not_mem_nil
  | d :: rest => by
      rw [alternativeTexts, List.forall_mem_cons]
      exact ⟨inline_oneLine d, inline_alternativeTexts rest⟩

theorem inline_fieldTexts :
    ∀ fields : List (String × Descriptor), ∀ text ∈ fieldTexts fields, Inline text
  | [] => fun _ h => absurd h List.not_mem_nil
  | (name, d) :: rest => by
      have hcolon : Inline ": " := inline_of_not_mem (by decide) (by decide)
      rw [fieldTexts, List.forall_mem_cons]
      exact ⟨((inline_fieldName name).append hcolon).append (inline_oneLine d),
        inline_fieldTexts rest⟩

end

end Descriptor

/-! ## Putting texts on one line -/

namespace Lines

theorem dropClosing_cons {c : Char} {rest : List Char} (h : ¬ (c = ';' ∧ closesNext rest = true)) :
    dropClosing (c :: rest) = c :: dropClosing rest := by
  rw [dropClosing, if_neg h]

theorem closesNext_cons {c : Char} (h : c ≠ '\n') (rest : List Char) :
    closesNext (c :: rest) = false := by
  rw [closesNext]
  rintro more hmore
  exact h (List.cons.inj hmore).1

/-- A text without line ends and with no semicolon at its end loses nothing. -/
theorem dropClosing_append {cs : List Char} (hnewline : '\n' ∉ cs)
    (hsemicolon : cs.getLast? ≠ some ';') (rest : List Char) :
    dropClosing (cs ++ rest) = cs ++ dropClosing rest := by
  induction cs with
  | nil => rfl
  | cons c more ih =>
      obtain ⟨-, hmore⟩ := List.ne_and_not_mem_of_not_mem_cons hnewline
      cases more with
      | nil =>
          apply dropClosing_cons
          rintro ⟨rfl, -⟩
          exact hsemicolon rfl
      | cons next further =>
          obtain ⟨hnext, -⟩ := List.ne_and_not_mem_of_not_mem_cons hmore
          have hopen : closesNext (next :: (further ++ rest)) = false :=
            closesNext_cons hnext.symm _
          rw [List.getLast?_cons_cons] at hsemicolon
          rw [List.cons_append, List.cons_append, dropClosing_cons (by simp [hopen]),
            ← List.cons_append, ih hmore hsemicolon]
          rfl

/-- A text without line ends is passed over unchanged. -/
theorem joinLines_append {cs : List Char} (h : '\n' ∉ cs) (rest : List Char) :
    joinLines false (cs ++ rest) = cs ++ joinLines false rest := by
  induction cs with
  | nil => rfl
  | cons c more ih =>
      obtain ⟨hne, hmore⟩ := List.ne_and_not_mem_of_not_mem_cons h
      rw [List.cons_append, joinLines, if_neg hne.symm, if_neg (by simp), ih hmore]
      rfl

/-- A text without line ends stays as it is. -/
theorem Inline.flatten_append {text : String} (h : Inline text) (rest : List Char) :
    flatten (text.toList ++ rest) = text.toList ++ flatten rest := by
  rw [flatten, dropClosing_append h.newline h.semicolon, joinLines_append h.newline, flatten]

theorem dropClosing_blanks (count : Nat) (rest : List Char) :
    dropClosing (List.replicate count ' ' ++ rest) =
      List.replicate count ' ' ++ dropClosing rest := by
  induction count with
  | zero => rfl
  | succ count ih =>
      rw [List.replicate_succ, List.cons_append, dropClosing_cons (by simp), ih]
      rfl

theorem joinLines_blanks (count : Nat) (rest : List Char) :
    joinLines true (List.replicate count ' ' ++ rest) = joinLines true rest := by
  induction count with
  | zero => rfl
  | succ count ih =>
      rw [List.replicate_succ, List.cons_append, joinLines, if_neg (by decide),
        if_pos ⟨rfl, rfl⟩, ih]

/-- A line end and the blanks behind it become one blank. -/
theorem flatten_newline (count : Nat) {c : Char} (hblank : c ≠ ' ') (hsemicolon : c ≠ ';')
    (rest : List Char) :
    flatten ('\n' :: (List.replicate count ' ' ++ c :: rest)) = ' ' :: flatten (c :: rest) := by
  have hdrop : dropClosing (c :: rest) = c :: dropClosing rest :=
    dropClosing_cons fun h => hsemicolon h.1
  rw [flatten, dropClosing_cons (by simp), dropClosing_blanks, joinLines, if_pos rfl,
    joinLines_blanks, flatten, hdrop]
  congr 1
  simp only [joinLines, hblank, and_false, if_false]

theorem closesNext_blanks (count : Nat) {c : Char} (hblank : c ≠ ' ') (rest : List Char) :
    closesNext ('\n' :: (List.replicate count ' ' ++ c :: rest)) = (c == '\x7d') := by
  have hall : ∀ b ∈ List.replicate count ' ', (b == ' ') = true := by
    intro b hb
    rw [List.eq_of_mem_replicate hb]
    rfl
  rw [closesNext, List.dropWhile_append_of_pos hall,
    List.dropWhile_cons_of_neg (by simpa using hblank)]
  rfl

/-- A semicolon at the end of a line is dropped before a closing brace. -/
theorem flatten_semicolon_brace (count : Nat) (rest : List Char) :
    flatten (';' :: '\n' :: (List.replicate count ' ' ++ '\x7d' :: rest)) =
      ' ' :: '\x7d' :: flatten rest := by
  have hcloses := closesNext_blanks count (c := '\x7d') (by decide) rest
  have hbrace : flatten ('\x7d' :: rest) = '\x7d' :: flatten rest :=
    Inline.flatten_append (inline_of_not_mem (by decide) (by decide) : Inline "\x7d") rest
  rw [← hbrace, ← flatten_newline count (by decide) (by decide), flatten, dropClosing,
    if_pos ⟨rfl, hcloses⟩, flatten]

/-- Before anything else the semicolon stays. -/
theorem flatten_semicolon (count : Nat) {c : Char} (hblank : c ≠ ' ') (hbrace : c ≠ '\x7d')
    (rest : List Char) :
    flatten (';' :: '\n' :: (List.replicate count ' ' ++ c :: rest)) =
      ';' :: flatten ('\n' :: (List.replicate count ' ' ++ c :: rest)) := by
  have hcloses := closesNext_blanks count hblank rest
  rw [flatten, dropClosing_cons (by simp [hcloses, hbrace]), joinLines, if_neg (by decide),
    if_neg (by decide), flatten]

end Lines

namespace Descriptor

open Lines

/-- The front of a field's line, up to the type. -/
theorem flatten_name_line (name : String) (count : Nat) (rest : List Char) :
    flatten ('\n' :: (List.replicate count ' ' ++
        ((fieldName name).toList ++ (": ".toList ++ rest)))) =
      ' ' :: ((fieldName name).toList ++ (": ".toList ++ flatten rest)) := by
  have hcolon : Inline ": " := inline_of_not_mem (by decide) (by decide)
  obtain ⟨c, behind, hname, hblank, hsemicolon, -⟩ := exists_head_fieldName name
  rw [← hcolon.flatten_append, ← (inline_fieldName name).flatten_append, hname]
  exact flatten_newline count hblank hsemicolon _

/-- The fields of an object keep their order between its braces. -/
theorem flatten_object {field : String × Descriptor} {fields : List (String × Descriptor)}
    {depth : Nat} {rest : List Char}
    (hlines : flatten ('\n' :: ((String.join (fieldLines (depth + 1) (field :: fields))).toList ++
        (List.replicate (2 * depth) ' ' ++ '\x7d' :: rest))) =
      ' ' :: (("; ".intercalate (fieldTexts (field :: fields))).toList ++
        ' ' :: '\x7d' :: flatten rest)) :
    flatten ((multiLineAt depth (object (field :: fields))).toList ++ rest) =
      (object (field :: fields)).oneLine.toList ++ flatten rest := by
  have hopen : Inline "\x7b" := inline_of_not_mem (by decide) (by decide)
  have htext : (multiLineAt depth (object (field :: fields))).toList ++ rest =
      "\x7b".toList ++
        '\n' :: ((String.join (fieldLines (depth + 1) (field :: fields))).toList ++
          (List.replicate (2 * depth) ' ' ++ '\x7d' :: rest)) := by
    rw [multiLineAt_object_cons]
    simp [toList_indent]
  rw [htext, hopen.flatten_append, hlines, oneLine_object_cons]
  simp

mutual

/-- Put on one line, the text of a descriptor at any depth is the one without line ends. -/
theorem flatten_multiLineAt : ∀ (d : Descriptor) (depth : Nat) (rest : List Char),
    flatten ((multiLineAt depth d).toList ++ rest) = d.oneLine.toList ++ flatten rest
  | union ds, depth, rest => by
      rw [multiLineAt_union, oneLine_union]
      exact flatten_alternativesAt ds depth rest
  | object (field :: fields), depth, rest =>
      flatten_object (flatten_fieldLines (field :: fields) (depth + 1) depth rest
        (List.cons_ne_nil field fields))
  | array (object (field :: fields)), depth, rest => by
      have hbrackets : Inline "[]" := inline_of_not_mem (by decide) (by decide)
      have hlines := flatten_fieldLines (field :: fields) (depth + 1) depth ("[]".toList ++ rest)
        (List.cons_ne_nil field fields)
      rw [multiLineAt_array_object_cons, String.toList_append, List.append_assoc,
        flatten_object hlines, hbrackets.flatten_append, oneLine_array, String.toList_append,
        List.append_assoc]
      rfl
  | unknown, _, rest => (inline_oneLine unknown).flatten_append rest
  | primitive kind, _, rest => (inline_oneLine (primitive kind)).flatten_append rest
  | object [], _, rest => (inline_oneLine (object [])).flatten_append rest
  | array unknown, _, rest => (inline_oneLine (array unknown)).flatten_append rest
  | array (primitive kind), _, rest => (inline_oneLine (array (primitive kind))).flatten_append rest
  | array (union ds), _, rest => (inline_oneLine (array (union ds))).flatten_append rest
  | array (array d), _, rest => (inline_oneLine (array (array d))).flatten_append rest
  | array (object []), _, rest => (inline_oneLine (array (object []))).flatten_append rest

/-- Lines of fields, from the line end before them to the closing brace behind them. -/
theorem flatten_fieldLines : ∀ (fields : List (String × Descriptor)) (depth outer : Nat)
    (rest : List Char), fields ≠ [] →
    flatten ('\n' :: ((String.join (fieldLines depth fields)).toList ++
        (List.replicate (2 * outer) ' ' ++ '\x7d' :: rest))) =
      ' ' :: (("; ".intercalate (fieldTexts fields)).toList ++
        ' ' :: '\x7d' :: flatten rest)
  | [], _, _, _, hne => absurd rfl hne
  | [(name, d)], depth, outer, rest, _ => by
      rw [toList_fieldLines]
      simp only [List.append_assoc, List.cons_append]
      rw [flatten_name_line, flatten_multiLineAt d, fieldLines, String.join_nil,
        String.toList_empty, List.nil_append, flatten_semicolon_brace]
      simp [fieldTexts, String.intercalate_singleton]
  | (name, d) :: (next, type) :: more, depth, outer, rest, _ => by
      have hmore := flatten_fieldLines ((next, type) :: more) depth outer rest
        (List.cons_ne_nil _ more)
      obtain ⟨c, behind, hnext, hblank, -, hbrace⟩ := exists_head_fieldName next
      rw [toList_fieldLines]
      simp only [List.append_assoc, List.cons_append]
      rw [flatten_name_line, flatten_multiLineAt d]
      rw [toList_fieldLines, hnext] at hmore ⊢
      simp only [List.append_assoc, List.cons_append] at hmore ⊢
      rw [flatten_semicolon _ hblank hbrace, hmore]
      simp only [fieldTexts]
      rw [String.intercalate_cons_cons]
      simp

/-- Alternatives over several lines flatten to the alternatives on one line. -/
theorem flatten_alternativesAt : ∀ (ds : List Descriptor) (depth : Nat) (rest : List Char),
    flatten ((" | ".intercalate (alternativesAt depth ds)).toList ++ rest) =
      (" | ".intercalate (alternativeTexts ds)).toList ++ flatten rest
  | [], _, _ => rfl
  | [d], depth, rest => by
      simp only [alternativesAt, alternativeTexts, String.intercalate_singleton]
      exact flatten_multiLineAt d depth rest
  | d :: next :: more, depth, rest => by
      have hseparator : Inline " | " := inline_of_not_mem (by decide) (by decide)
      have hmore := flatten_alternativesAt (next :: more) depth rest
      rw [alternativesAt, alternativeTexts, alternativesAt, alternativeTexts,
        String.intercalate_cons_cons, String.intercalate_cons_cons, ← alternativesAt,
        ← alternativeTexts]
      simp only [String.toList_append, List.append_assoc]
      rw [flatten_multiLineAt d, hseparator.flatten_append, hmore]

end

/-- The two renderings agree: the one on several lines, put on one line, is the other. -/
theorem flatten_multiLine (d : Descriptor) :
    String.ofList (flatten d.multiLine.toList) = d.oneLine := by
  have htext := flatten_multiLineAt d 0 []
  rw [List.append_nil, show flatten [] = [] from rfl, List.append_nil] at htext
  rw [multiLine, htext, String.ofList_toList]

example :
    String.ofList (flatten "\x7b\n  a: string;\n\x7d[]".toList) = "\x7b a: string \x7d[]" := by
  decide

end Descriptor

end ShapeInference
