import ShapeInference.Proofs.Descriptor.Form
import ShapeInference.Proofs.Descriptor.Text
import ShapeInference.Proofs.Spelling

/-!
# Type expressions read part by part

Each part of a type expression ends where it cannot go on: a word before a character that is in no
word, a quoted string at its closing quote, alternatives before what is no bar, the fields of an
object before its closing brace. What an expression can say is therefore told from its text,
whatever comes after it.

Main statements: `Core.determines_word`, `determines_union`, `determines_object` and
`Readable.told`.
-/

namespace ShapeInference

namespace Descriptor

/-! ## What may come after a part -/

/-- Whether a character may stand in a word. -/
def isWordChar (c : Char) : Bool :=
  c.isAlpha || Number.isNumeric c

/-- What may come after a word. -/
def EndsWord (s : List Char) : Prop :=
  ∀ c ∈ s.head?, isWordChar c = false

/-- What may come after an array. -/
def EndsArray (s : List Char) : Prop :=
  ∀ c ∈ s.head?, isWordChar c = false ∧ c ≠ '['

/-- What may come after alternatives. -/
def EndsUnion (s : List Char) : Prop :=
  EndsArray s ∧ ¬ " | ".toList <+: s

theorem EndsArray.endsWord {s : List Char} (h : EndsArray s) : EndsWord s :=
  fun c hc => (h c hc).1

theorem endsArray_cons {c : Char} (hword : isWordChar c = false) (hbracket : c ≠ '[')
    (rest : List Char) : EndsArray (c :: rest) := by
  intro first hfirst
  obtain rfl := Option.some.inj hfirst
  exact ⟨hword, hbracket⟩

theorem endsUnion_cons {c : Char} (hword : isWordChar c = false) (hbracket : c ≠ '[')
    (hblank : c ≠ ' ') (rest : List Char) : EndsUnion (c :: rest) := by
  refine ⟨endsArray_cons hword hbracket rest, ?_⟩
  rintro ⟨more, hmore⟩
  exact hblank (List.cons.inj hmore).1.symm

theorem endsUnion_brace (rest : List Char) : EndsUnion (" \x7d".toList ++ rest) := by
  refine ⟨endsArray_cons rfl (by decide) _, ?_⟩
  rintro ⟨more, hmore⟩
  have hbar := (List.cons.inj (List.cons.inj hmore).2).1
  contradiction

/-! ## Arrays -/

/-- What the elements of the innermost array are. -/
def innermost : Descriptor → Descriptor
  | array d => innermost d
  | d => d

/-- The number of arrays around what is innermost. -/
def dimensions : Descriptor → Nat
  | array d => dimensions d + 1
  | _ => 0

/-- The array of the given number of dimensions. -/
def arrayOf : Nat → Descriptor → Descriptor
  | 0, d => d
  | n + 1, d => array (arrayOf n d)

/-- A pair of brackets for each dimension. -/
def brackets : Nat → List Char
  | 0 => []
  | n + 1 => brackets n ++ "[]".toList

/-- A descriptor is its innermost element type, in as many arrays as it has dimensions. -/
theorem arrayOf_dimensions : ∀ d : Descriptor, arrayOf d.dimensions d.innermost = d
  | array d => congrArg array (arrayOf_dimensions d)
  | unknown => rfl
  | primitive _ => rfl
  | union _ => rfl
  | object _ => rfl

theorem isArray_innermost : ∀ d : Descriptor, d.innermost.isArray = false
  | array d => isArray_innermost d
  | unknown => rfl
  | primitive _ => rfl
  | union _ => rfl
  | object _ => rfl

/-- The text of a descriptor before brackets. -/
def operand (d : Descriptor) : List Char :=
  (if d.isUnion then "(" ++ d.oneLine ++ ")" else d.oneLine).toList

theorem operand_of_not_isUnion {d : Descriptor} (h : d.isUnion = false) :
    d.operand = d.oneLine.toList := by
  rw [operand, h]
  rfl

/-- The operand of an array is the operand of its innermost element type and the brackets. -/
theorem operand_eq : ∀ d : Descriptor, d.operand = d.innermost.operand ++ brackets d.dimensions
  | array d => by
      have hd := operand_eq d
      rw [operand_of_not_isUnion rfl, oneLine_array, String.toList_append, ← operand, hd,
        List.append_assoc]
      rfl
  | unknown => (List.append_nil _).symm
  | primitive _ => (List.append_nil _).symm
  | union _ => (List.append_nil _).symm
  | object _ => (List.append_nil _).symm

theorem brackets_append (n : Nat) (s : List Char) :
    brackets (n + 1) ++ s = '[' :: ']' :: (brackets n ++ s) := by
  induction n generalizing s with
  | zero => rfl
  | succ n ih =>
      rw [brackets, List.append_assoc, ih, brackets, List.append_assoc]

/-- Where no bracket follows, the number of brackets can be told. -/
theorem brackets_append_inj {m n : Nat} {s t : List Char} (hs : EndsArray s) (ht : EndsArray t)
    (h : brackets m ++ s = brackets n ++ t) : m = n ∧ s = t := by
  induction m generalizing n with
  | zero =>
      cases n with
      | zero => exact ⟨rfl, h⟩
      | succ n =>
          rw [brackets_append, brackets, List.nil_append] at h
          exact absurd rfl (hs '[' (h ▸ rfl)).2
  | succ m ih =>
      cases n with
      | zero =>
          rw [brackets_append, brackets, List.nil_append] at h
          exact absurd rfl (ht '[' (h ▸ rfl)).2
      | succ n =>
          rw [brackets_append, brackets_append] at h
          obtain ⟨rfl, hends⟩ := ih (List.cons.inj (List.cons.inj h).2).2
          exact ⟨rfl, hends⟩

theorem endsWord_brackets (n : Nat) {s : List Char} (hs : EndsArray s) :
    EndsWord (brackets n ++ s) := by
  cases n with
  | zero => exact hs.endsWord
  | succ n =>
      rw [brackets_append]
      intro c hc
      obtain rfl := Option.some.inj hc
      rfl

/-! ## Words -/

/-- The types that a keyword stands for. -/
def keywords : List Descriptor :=
  [unknown, primitive .boolean, primitive .date, primitive .integer, primitive .float,
    primitive .string, literal .undefined, literal .null, literal (.bool true),
    literal (.bool false)]

/-- The character that opens the text of a descriptor that is neither a word nor an array. -/
def opening? : Descriptor → Option Char
  | unknown => none
  | primitive .emptyObject => some '\x7b'
  | primitive (.literal (.string _)) => some '"'
  | primitive _ => none
  | union _ => some '('
  | array _ => none
  | object _ => some '\x7b'

theorem oneLine_ne_empty_of_mem_keywords : ∀ d ∈ keywords, d.oneLine ≠ "" := by
  decide

theorem isAlpha_of_mem_keyword {d : Descriptor} (h : d ∈ keywords) :
    ∀ c ∈ d.oneLine.toList, c.isAlpha = true := by
  have hall : ∀ e ∈ keywords, e.oneLine.toList.all Char.isAlpha = true := by decide
  exact List.all_eq_true.mp (hall d h)

/-- Keywords are told apart by their texts. -/
theorem keywords_injective :
    ∀ a ∈ keywords, ∀ b ∈ keywords, a.oneLine = b.oneLine → a = b := by
  decide

theorem oneLine_number {p : LinePoint} (h : p.isFinite = true) :
    (literal (.number p)).oneLine = (Literal.numberAt p).text := by
  rw [literal, oneLine, primitiveText, Literal.text, Literal.toJson?, if_pos h]
  exact Json.compact.eq_4 _

/-- A descriptor that is neither opened nor an array is a keyword or a number. -/
theorem word_cases {d : Descriptor} (h : d.opening? = none) (harray : d.isArray = false) :
    d ∈ keywords ∨ ∃ p, d = literal (.number p) := by
  cases d with
  | unknown => exact .inl (by decide)
  | primitive kind =>
      cases kind with
      | literal l =>
          cases l with
          | number p => exact .inr ⟨p, rfl⟩
          | bool b => exact .inl (by cases b <;> decide)
          | string s => contradiction
          | _ => exact .inl (by decide)
      | emptyObject => contradiction
      | _ => exact .inl (by decide)
  | array d => contradiction
  | _ => contradiction

theorem exists_string_of_opening? {d : Descriptor} (h : d.opening? = some '"') :
    ∃ text, d = literal (.string text) := by
  revert h
  fun_cases opening? d with
  | case3 text => exact fun _ => ⟨text, rfl⟩
  | _ => simp

theorem exists_union_of_opening? {d : Descriptor} (h : d.opening? = some '(') :
    ∃ ds, d = union ds := by
  revert h
  fun_cases opening? d with
  | case5 ds => exact fun _ => ⟨ds, rfl⟩
  | _ => simp

theorem exists_object_of_opening? {d : Descriptor} (h : d.opening? = some '\x7b') :
    d = emptyObject ∨ ∃ fields, d = object fields := by
  revert h
  fun_cases opening? d with
  | case2 => exact fun _ => .inl rfl
  | case7 fields => exact fun _ => .inr ⟨fields, rfl⟩
  | _ => simp

theorem isWordChar_of_isAlpha {c : Char} (h : c.isAlpha = true) : isWordChar c = true := by
  rw [isWordChar, h]
  rfl

theorem isWordChar_of_isNumeric {c : Char} (h : Number.isNumeric c = true) :
    isWordChar c = true := by
  rw [isWordChar, h, Bool.or_true]

section

variable {d : Descriptor} (hopening : d.opening? = none) (harray : d.isArray = false)
  (hfinite : d.FiniteNumbers)

include hopening harray hfinite

/-- The text of a word has only characters of words. -/
theorem isWordChar_of_mem_word : ∀ c ∈ d.oneLine.toList, isWordChar c = true := by
  intro c hc
  rcases word_cases hopening harray with hkeyword | ⟨p, rfl⟩
  · exact isWordChar_of_isAlpha (isAlpha_of_mem_keyword hkeyword c hc)
  · rw [oneLine_number (hfinite p (List.mem_singleton_self p))] at hc
    exact isWordChar_of_isNumeric ((Literal.numberAt p).isNumeric_of_mem_text c hc)

theorem exists_head_word : ∃ c rest, d.oneLine.toList = c :: rest := by
  rcases word_cases hopening harray with hkeyword | ⟨p, rfl⟩
  · apply List.exists_cons_of_ne_nil
    intro hnil
    exact oneLine_ne_empty_of_mem_keywords d hkeyword (String.toList_eq_nil_iff.mp hnil)
  · rw [oneLine_number (hfinite p (List.mem_singleton_self p))]
    obtain ⟨c, rest, htext, -⟩ := (Literal.numberAt p).exists_head_text
    exact ⟨c, rest, htext⟩

end

/-- No keyword is a number. -/
theorem keyword_ne_number {d : Descriptor} (hkeyword : d ∈ keywords) (number : Number) :
    d.oneLine ≠ number.text := by
  intro h
  obtain ⟨c, rest, htext, hc⟩ := number.exists_head_text
  have hmem : c ∈ d.oneLine.toList := by
    rw [h, htext]
    exact List.mem_cons_self
  rw [isAlpha_of_mem_keyword hkeyword c hmem] at hc
  contradiction

theorem number_injective {p q : LinePoint} (hp : p.isFinite = true) (hq : q.isFinite = true)
    (h : (literal (.number p)).oneLine = (literal (.number q)).oneLine) : p = q := by
  rw [oneLine_number hp, oneLine_number hq] at h
  rw [← Literal.ofBinary64_numberAt p, Number.text_injective h, Literal.ofBinary64_numberAt q]

/-- Words are told apart by their texts. -/
theorem word_injective {a b : Descriptor} (ha : a.opening? = none) (hb : b.opening? = none)
    (haarray : a.isArray = false) (hbarray : b.isArray = false) (hafinite : a.FiniteNumbers)
    (hbfinite : b.FiniteNumbers) (h : a.oneLine = b.oneLine) : a = b := by
  rcases word_cases ha haarray with hakeyword | ⟨p, rfl⟩
  · rcases word_cases hb hbarray with hbkeyword | ⟨q, rfl⟩
    · exact keywords_injective a hakeyword b hbkeyword h
    · rw [oneLine_number (hbfinite q (List.mem_singleton_self q))] at h
      exact absurd h (keyword_ne_number hakeyword _)
  · have hp : p.isFinite = true := hafinite p (List.mem_singleton_self p)
    rcases word_cases hb hbarray with hbkeyword | ⟨q, rfl⟩
    · rw [oneLine_number hp] at h
      exact absurd h.symm (keyword_ne_number hbkeyword _)
    · rw [number_injective hp (hbfinite q (List.mem_singleton_self q)) h]

/-! ## Descriptors told from their texts -/

/-- What an expression can say: several alternatives, none of them a union, objects with fields and
finite numbers. -/
inductive Readable : Descriptor → Prop where
  | unknown : Readable unknown
  | primitive {kind : Primitive} (finite : (Descriptor.primitive kind).FiniteNumbers) :
      Readable (primitive kind)
  | union {ds : List Descriptor} (several : 2 ≤ ds.length) (flat : ∀ d ∈ ds, d.isUnion = false)
      (parts : ∀ d ∈ ds, Readable d) : Readable (union ds)
  | array {d : Descriptor} (part : Readable d) : Readable (array d)
  | object {fields : List (String × Descriptor)} (fields_ne : fields ≠ [])
      (parts : ∀ field ∈ fields, Readable field.2) : Readable (object fields)

/-- A readable descriptor that is no array. -/
structure Core (d : Descriptor) : Prop where
  readable : d.Readable
  isArray : d.isArray = false

theorem Readable.core_innermost {d : Descriptor} (h : Readable d) : Core d.innermost := by
  refine ⟨?_, d.isArray_innermost⟩
  induction h with
  | array _ ih => exact ih
  | unknown => exact .unknown
  | primitive finite => exact .primitive finite
  | union several flat parts _ => exact .union several flat parts
  | object fields_ne parts _ => exact .object fields_ne parts

/-- The members of a readable descriptor are readable and no unions. -/
theorem Readable.of_mem_members {d e : Descriptor} (h : Readable d) (he : e ∈ d.members) :
    Readable e ∧ e.isUnion = false := by
  cases h with
  | union _ flat parts => exact ⟨parts e he, flat e he⟩
  | unknown => rw [List.mem_singleton.mp he]; exact ⟨.unknown, rfl⟩
  | primitive finite => rw [List.mem_singleton.mp he]; exact ⟨.primitive finite, rfl⟩
  | array part => rw [List.mem_singleton.mp he]; exact ⟨.array part, rfl⟩
  | object fields_ne parts => rw [List.mem_singleton.mp he]; exact ⟨.object fields_ne parts, rfl⟩

theorem Readable.members_ne_nil {d : Descriptor} (h : Readable d) : d.members ≠ [] := by
  cases h with
  | union several _ _ =>
      rintro rfl
      contradiction
  | _ => exact List.cons_ne_nil _ _

theorem Readable.fields_ne_nil {fields : List (String × Descriptor)}
    (h : Readable (.object fields)) : fields ≠ [] := by
  cases h with
  | object fields_ne _ => exact fields_ne

theorem Readable.field {fields : List (String × Descriptor)} (h : Readable (.object fields)) :
    ∀ field ∈ fields, Readable field.2 := by
  cases h with
  | object _ parts => exact parts

/-- A readable descriptor is what its members make. -/
theorem Readable.ofMembers_members {d : Descriptor} (h : Readable d) : ofMembers d.members = d := by
  cases h with
  | union several _ _ => exact ofMembers_of_two_le several
  | _ => rfl

/-- The text of a descriptor is that of its members, bars between them. -/
theorem Readable.toList_oneLine {d : Descriptor} (h : Readable d) :
    d.oneLine.toList = joined operand " | ".toList d.members := by
  have hmembers : joined operand " | ".toList d.members =
      joined (fun e => e.oneLine.toList) " | ".toList d.members := by
    have htext : ∀ e ∈ d.members, e.operand = e.oneLine.toList :=
      fun e he => operand_of_not_isUnion (h.of_mem_members he).2
    cases hd : d.members with
    | nil => rfl
    | cons e rest =>
        rw [hd] at htext
        obtain ⟨he, hrest⟩ := List.forall_mem_cons.mp htext
        rw [joined, joined, he]
        congr 1
        apply List.flatMap_congr
        intro f hf
        rw [hrest f hf]
  rw [hmembers, ← toList_intercalate_map]
  cases h with
  | union _ _ _ => rw [oneLine_union, alternativeTexts_eq_map]; rfl
  | _ => exact congrArg String.toList (String.intercalate_singleton).symm

theorem Core.finiteNumbers {d : Descriptor} (h : Core d) (hopening : d.opening? = none) :
    d.FiniteNumbers := by
  obtain ⟨hreadable, harray⟩ := h
  cases hreadable with
  | unknown => exact nofun
  | primitive finite => exact finite
  | _ => contradiction

theorem Core.operand_word {d : Descriptor} (h : Core d) (hopening : d.opening? = none) :
    d.operand = d.oneLine.toList := by
  obtain ⟨-, harray⟩ := h
  apply operand_of_not_isUnion
  cases d <;> first | rfl | contradiction

theorem operand_union_append (ds : List Descriptor) (s : List Char) :
    (union ds).operand ++ s = '(' :: ((union ds).oneLine.toList ++ ')' :: s) := by
  rw [operand, isUnion, if_pos rfl]
  simp

/-- The text of a field. -/
def fieldText (field : String × Descriptor) : List Char :=
  (fieldName field.1 ++ ": " ++ field.2.oneLine).toList

theorem operand_object_append {fields : List (String × Descriptor)} (h : fields ≠ [])
    (s : List Char) :
    (object fields).operand ++ s =
      '\x7b' :: ' ' :: (joined fieldText "; ".toList fields ++ (" \x7d".toList ++ s)) := by
  obtain ⟨field, rest, rfl⟩ := List.exists_cons_of_ne_nil h
  rw [operand_of_not_isUnion rfl, oneLine_object_cons, fieldTexts_eq_map, String.toList_append,
    String.toList_append, toList_intercalate_map, List.append_assoc, List.append_assoc]
  rfl

/-- What the first character of a text says of the descriptor. -/
theorem Core.exists_head_operand {d : Descriptor} (h : Core d) :
    ∃ c rest, d.operand = c :: rest ∧ d.opening? = if isWordChar c then none else some c := by
  cases hopening : d.opening? with
  | none =>
      have hfinite := h.finiteNumbers hopening
      obtain ⟨c, rest, htext⟩ := exists_head_word hopening h.isArray hfinite
      have hc : isWordChar c = true :=
        isWordChar_of_mem_word hopening h.isArray hfinite c (htext ▸ List.mem_cons_self)
      refine ⟨c, rest, ?_, ?_⟩
      · rw [h.operand_word hopening, htext]
      · rw [hc]
        rfl
  | some first =>
      obtain ⟨hreadable, -⟩ := h
      revert hopening
      fun_cases opening? d with
      | case2 =>
          rintro ⟨⟩
          exact ⟨'\x7b', ['\x7d'], rfl, rfl⟩
      | case3 text =>
          rintro ⟨⟩
          obtain ⟨inside, hquote, -⟩ := Json.exists_quote_toList text
          exact ⟨'"', inside ++ ['"'], hquote, rfl⟩
      | case5 ds =>
          rintro ⟨⟩
          exact ⟨'(', _, (List.append_nil _).symm.trans (operand_union_append ds []), rfl⟩
      | case7 fields =>
          rintro ⟨⟩
          have htext := operand_object_append hreadable.fields_ne_nil []
          exact ⟨'\x7b', _, (List.append_nil _).symm.trans htext, rfl⟩
      | _ => exact nofun

/-- Texts with the same start open alike. -/
theorem Core.opening?_eq {a b : Descriptor} (ha : Core a) (hb : Core b) {s t : List Char}
    (h : a.operand ++ s = b.operand ++ t) : a.opening? = b.opening? := by
  obtain ⟨c, rest, hc, hopening⟩ := ha.exists_head_operand
  obtain ⟨c', rest', hc', hopening'⟩ := hb.exists_head_operand
  rw [hc, hc'] at h
  rw [hopening, hopening', (List.cons.inj h).1]

/-- A descriptor is told from its text: what is innermost before brackets, the whole before what
ends alternatives. -/
structure Told (d : Descriptor) : Prop where
  core : Determines operand Core EndsWord d.innermost
  whole : Determines (fun e => e.oneLine.toList) Readable EndsUnion d

/-- If the innermost element type is told apart, so is the array around it. -/
theorem Determines.of_innermost {d : Descriptor}
    (h : Determines operand Core EndsWord d.innermost) :
    Determines operand Readable EndsArray d := by
  intro e he s t hs ht htexts
  rw [operand_eq d, operand_eq e, List.append_assoc, List.append_assoc] at htexts
  obtain ⟨hinnermost, hbrackets⟩ := h e.innermost he.core_innermost _ _
    (endsWord_brackets _ hs) (endsWord_brackets _ ht) htexts
  obtain ⟨hdimensions, hends⟩ := brackets_append_inj hs ht hbrackets
  refine ⟨?_, hends⟩
  rw [← arrayOf_dimensions d, hinnermost, hdimensions, arrayOf_dimensions]

/-- A descriptor is told from its text as soon as its members are. -/
theorem Readable.determines_whole {d : Descriptor} (h : Readable d)
    (hmembers : ∀ e ∈ d.members, Determines operand Core EndsWord e.innermost) :
    Determines (fun e => e.oneLine.toList) Readable EndsUnion d := by
  have hbar : ∀ rest, EndsArray (" | ".toList ++ rest) :=
    fun rest => endsArray_cons rfl (by decide) _
  have hjoined := Determines.joined hbar h.members_ne_nil
    fun e he => Determines.of_innermost (hmembers e he)
  intro e he s t hs ht htexts
  simp only [h.toList_oneLine, he.toList_oneLine] at htexts
  obtain ⟨hparts, hends⟩ := hjoined e.members
    ⟨he.members_ne_nil, fun f hf => (he.of_mem_members hf).1⟩ s t hs ht htexts
  refine ⟨?_, hends⟩
  rw [← h.ofMembers_members, hparts, he.ofMembers_members]

/-- A word goes on as long as its characters do. -/
theorem Core.takeWhile_operand_append {d : Descriptor} (h : Core d) (hopening : d.opening? = none)
    {s : List Char} (hs : EndsWord s) :
    (d.operand ++ s).takeWhile isWordChar = d.oneLine.toList := by
  have hword := isWordChar_of_mem_word hopening h.isArray (h.finiteNumbers hopening)
  have hrest : s.takeWhile isWordChar = [] := by
    cases s with
    | nil => rfl
    | cons c rest => rw [List.takeWhile_cons_of_neg (by simp [hs c rfl])]
  rw [h.operand_word hopening, List.takeWhile_append_of_pos hword, hrest, List.append_nil]

/-- A word is told apart, whatever may come after it. -/
theorem Core.determines_word {d : Descriptor} (h : Core d) (hopening : d.opening? = none) :
    Determines operand Core EndsWord d := by
  intro e he s t hs ht htexts
  have hopening' : e.opening? = none := by rw [← h.opening?_eq he htexts, hopening]
  have hwords : d.oneLine = e.oneLine := by
    rw [← String.toList_inj, ← h.takeWhile_operand_append hopening hs, htexts,
      he.takeWhile_operand_append hopening' ht]
  obtain rfl := word_injective hopening hopening' h.isArray he.isArray
    (h.finiteNumbers hopening) (he.finiteNumbers hopening') hwords
  exact ⟨rfl, List.append_cancel_left htexts⟩

/-- A string is told apart, whatever follows its closing quotation mark. -/
theorem determines_string (text : String) :
    Determines operand Core EndsWord (literal (.string text)) := by
  have hd : Core (literal (.string text)) := ⟨.primitive nofun, rfl⟩
  intro e he s t _ _ htexts
  obtain ⟨other, rfl⟩ := exists_string_of_opening? (hd.opening?_eq he htexts).symm
  obtain ⟨rfl, hends⟩ := Json.quote_append_inj htexts
  exact ⟨rfl, hends⟩

/-- A union in parentheses is told apart if its text without them is. -/
theorem determines_union {ds : List Descriptor} (h : Readable (union ds))
    (hwhole : Determines (fun e => e.oneLine.toList) Readable EndsUnion (union ds)) :
    Determines operand Core EndsWord (union ds) := by
  have hd : Core (.union ds) := ⟨h, rfl⟩
  have hparenthesis : ∀ u : List Char, EndsUnion (')' :: u) :=
    endsUnion_cons rfl (by decide) (by decide)
  intro e he s t _ _ htexts
  obtain ⟨es, rfl⟩ := exists_union_of_opening? (hd.opening?_eq he htexts).symm
  rw [operand_union_append, operand_union_append] at htexts
  obtain ⟨hsame, hends⟩ := hwhole (union es) he.readable _ _ (hparenthesis s) (hparenthesis t)
    (List.cons.inj htexts).2
  exact ⟨hsame, (List.cons.inj hends).2⟩

/-! ## Fields -/

/-- The name of a field is told apart by the colon behind it. -/
theorem fieldName_append_inj {k l : String} {s t : List Char}
    (h : (fieldName k).toList ++ ':' :: s = (fieldName l).toList ++ ':' :: t) : k = l ∧ s = t := by
  have hquote : ∀ {m n : String} {u v : List Char}, isIdentifier m = true →
      m.toList ++ ':' :: u ≠ (Json.quote n).toList ++ v := by
    intro m n u v hm hmixed
    obtain ⟨inside, htext, -⟩ := Json.exists_quote_toList n
    obtain ⟨c, rest, hname⟩ := exists_cons_of_isIdentifier hm
    rw [htext, hname] at hmixed
    obtain rfl := (List.cons.inj hmixed).1
    exact not_mem_identifier hm rfl rfl (hname ▸ List.mem_cons_self)
  rw [fieldName, fieldName] at h
  split at h <;> split at h
  · rename_i hk hl
    have hcut := congrArg (Decimal.cut ':') h
    rw [Decimal.cut_append (not_mem_identifier hk rfl rfl),
      Decimal.cut_append (not_mem_identifier hl rfl rfl)] at hcut
    exact ⟨String.toList_inj.mp (Prod.mk.inj hcut).1, (Prod.mk.inj hcut).2⟩
  · rename_i hk _
    exact absurd h (hquote hk)
  · rename_i _ hl
    exact absurd h.symm (hquote hl)
  · obtain ⟨rfl, hends⟩ := Json.quote_append_inj h
    exact ⟨rfl, (List.cons.inj hends).2⟩

/-- A field is told apart if its type is. -/
theorem determines_field {field : String × Descriptor}
    (h : Determines (fun e => e.oneLine.toList) Readable EndsUnion field.2) :
    Determines fieldText (fun other => Readable other.2) EndsUnion field := by
  have htext : ∀ (other : String × Descriptor) (u : List Char), fieldText other ++ u =
      (fieldName other.1).toList ++ ':' :: ' ' :: (other.2.oneLine.toList ++ u) := by
    intro other u
    rw [fieldText]
    simp
  intro other hother s t hs ht htexts
  rw [htext, htext] at htexts
  obtain ⟨hname, hrest⟩ := fieldName_append_inj htexts
  obtain ⟨htype, hends⟩ := h other.2 hother s t hs ht (List.cons.inj hrest).2
  exact ⟨Prod.ext hname htype, hends⟩

theorem emptyObject_operand_ne {fields : List (String × Descriptor)} (h : fields ≠ [])
    (s t : List Char) : emptyObject.operand ++ s ≠ (object fields).operand ++ t := by
  intro htexts
  rw [operand_object_append h] at htexts
  have hblank : '\x7d' = ' ' := (List.cons.inj (List.cons.inj htexts).2).1
  contradiction

/-- The object without fields is told apart. -/
theorem determines_emptyObject : Determines operand Core EndsWord emptyObject := by
  have hd : Core emptyObject := ⟨.primitive nofun, rfl⟩
  intro e he s t _ _ htexts
  rcases exists_object_of_opening? (hd.opening?_eq he htexts).symm with rfl | ⟨fields, rfl⟩
  · exact ⟨rfl, List.append_cancel_left htexts⟩
  · exact absurd htexts (emptyObject_operand_ne he.readable.fields_ne_nil s t)

/-- An object is told apart if its fields are. -/
theorem determines_object {fields : List (String × Descriptor)} (h : Readable (object fields))
    (hparts : ∀ field ∈ fields,
      Determines (fun e => e.oneLine.toList) Readable EndsUnion field.2) :
    Determines operand Core EndsWord (object fields) := by
  have hd : Core (.object fields) := ⟨h, rfl⟩
  have hsemicolon : ∀ rest, EndsUnion ("; ".toList ++ rest) :=
    fun rest => endsUnion_cons rfl (by decide) (by decide) _
  have hbrace : ∀ rest, EndsUnion (" \x7d".toList ++ rest) ∧
      ¬ "; ".toList <+: " \x7d".toList ++ rest := by
    intro rest
    refine ⟨endsUnion_brace rest, ?_⟩
    rintro ⟨more, hmore⟩
    have hfirst : ';' = ' ' := (List.cons.inj hmore).1
    contradiction
  have hjoined := Determines.joined hsemicolon h.fields_ne_nil fun field hfield =>
    determines_field (hparts field hfield)
  intro e he s t _ _ htexts
  rcases exists_object_of_opening? (hd.opening?_eq he htexts).symm with rfl | ⟨others, rfl⟩
  · exact absurd htexts.symm (emptyObject_operand_ne h.fields_ne_nil t s)
  · have hothers := he.readable.fields_ne_nil
    rw [operand_object_append h.fields_ne_nil, operand_object_append hothers] at htexts
    have hinside := (List.cons.inj (List.cons.inj htexts).2).2
    obtain ⟨rfl, hends⟩ := hjoined others ⟨hothers, he.readable.field⟩ _ _ (hbrace s) (hbrace t)
      hinside
    exact ⟨rfl, List.append_cancel_left hends⟩

/-! ## All descriptors -/

/-- Whatever an expression can say, its text says it. -/
theorem Readable.told {d : Descriptor} (h : Readable d) : Told d := by
  have hwhole : ∀ {e : Descriptor}, Readable e → e.isUnion = false →
      Determines operand Core EndsWord e.innermost → Told e := by
    intro e he hunion hcore
    refine ⟨hcore, he.determines_whole ?_⟩
    have hmembers : e.members = [e] := by
      cases e <;> first | rfl | contradiction
    rw [hmembers, List.forall_mem_singleton]
    exact hcore
  induction h with
  | unknown => exact hwhole .unknown rfl (Core.determines_word ⟨.unknown, rfl⟩ rfl)
  | @primitive kind finite =>
      refine hwhole (.primitive finite) rfl ?_
      have hword : Core (.primitive kind) := ⟨.primitive finite, rfl⟩
      cases kind with
      | emptyObject => exact determines_emptyObject
      | literal l =>
          cases l with
          | string text => exact determines_string text
          | _ => exact hword.determines_word rfl
      | _ => exact hword.determines_word rfl
  | @union ds several flat parts ih =>
      have hreadable := Readable.union several flat parts
      have hall := hreadable.determines_whole fun e he => (ih e he).core
      exact ⟨determines_union hreadable hall, hall⟩
  | @array d part ih => exact hwhole (.array part) rfl ih.core
  | @object fields fields_ne parts ih =>
      have hreadable := Readable.object fields_ne parts
      exact hwhole hreadable rfl
        (determines_object hreadable fun field hfield => (ih field hfield).whole)

end Descriptor

end ShapeInference
