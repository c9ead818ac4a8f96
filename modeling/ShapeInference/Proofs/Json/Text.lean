import Mathlib.Data.List.TakeWhile
import ShapeInference.Json.Scan
import ShapeInference.Json.Text
import ShapeInference.Proofs.Binary64.Shortest
import ShapeInference.Proofs.Outcome

/-!
# The texts of numbers and strings

The text of a decimal stands for its value, so doubles that differ have texts that differ, and an
integer is never written like a double. A quoted string is read back up to its closing quote,
whatever comes after it.

Main statements: `Decimal.ofText_text`, `Number.text_injective` and `Json.Scan.run_string_quote`.
-/

namespace ShapeInference

/-! ## Decimals -/

namespace Decimal

/-- The parts of a text before and behind the first of a separating character, the whole text and
nothing where there is none. -/
def cut (separator : Char) (cs : List Char) : List Char × List Char :=
  (cs.takeWhile (· != separator), (cs.dropWhile (· != separator)).drop 1)

/-- The integer that a sign and digits stand for. -/
def signed : List Char → Int
  | [] => 0
  | sign :: digits =>
    if sign = '-' then -(Nat.ofDigitChars 10 digits 0) else Nat.ofDigitChars 10 digits 0

/-- The number that digits stand for, the second part of them behind the point. -/
def ofParts (whole fraction : List Char) (exponent : Int) : ℚ :=
  Nat.ofDigitChars 10 (whole ++ fraction) 0 * 10 ^ (exponent - fraction.length)

/-- The number that a decimal text stands for. -/
def ofText (cs : List Char) : ℚ :=
  let (size, exponent) := cut 'e' cs
  let (whole, fraction) := cut '.' size
  ofParts whole fraction (signed exponent)

section

variable {separator : Char} {before : List Char}

theorem cut_append (h : separator ∉ before) (behind : List Char) :
    cut separator (before ++ separator :: behind) = (before, behind) := by
  have hall : ∀ c ∈ before, (c != separator) = true := by
    intro c hc
    rw [bne_iff_ne]
    rintro rfl
    exact h hc
  simp [cut, List.takeWhile_append_of_pos hall, List.dropWhile_append_of_pos hall]

theorem cut_of_not_mem (h : separator ∉ before) : cut separator before = (before, []) := by
  have hall : ∀ c ∈ before, (c != separator) = true := by
    intro c hc
    rw [bne_iff_ne]
    rintro rfl
    exact h hc
  rw [cut, List.takeWhile_eq_self_iff.mpr hall, List.dropWhile_eq_nil_iff.mpr hall, List.drop_nil]

end

/-- A character that is no digit is not among digits. -/
theorem not_mem_of_isDigit {digits : List Char} (h : ∀ c ∈ digits, c.isDigit = true) {c : Char}
    (hc : c.isDigit = false) : c ∉ digits := by
  intro hmem
  rw [h c hmem] at hc
  contradiction

theorem ofDigitChars_zeros (zeros : Nat) (digits : List Char) :
    Nat.ofDigitChars 10 (List.replicate zeros '0' ++ digits) 0 =
      Nat.ofDigitChars 10 digits 0 := by
  rw [Nat.ofDigitChars_append, Nat.ofDigitChars_replicate_zero, Nat.mul_zero]

section

variable {digits : List Char} (h : ∀ c ∈ digits, c.isDigit = true)

include h

theorem e_not_mem_pointed {fraction : List Char} (hfraction : ∀ c ∈ fraction, c.isDigit = true) :
    'e' ∉ digits ++ '.' :: fraction := by
  rw [List.mem_append, List.mem_cons, not_or, not_or]
  exact ⟨not_mem_of_isDigit h rfl, by decide, not_mem_of_isDigit hfraction rfl⟩

/-- The value of a text with a point is made of the digits on its two sides. -/
theorem ofText_pointed {fraction : List Char} (hfraction : ∀ c ∈ fraction, c.isDigit = true) :
    ofText (digits ++ '.' :: fraction) = ofParts digits fraction 0 := by
  have hpoint : '.' ∉ digits := not_mem_of_isDigit h rfl
  rw [ofText, cut_of_not_mem (e_not_mem_pointed h hfraction)]
  simp only [cut_append hpoint, signed]

/-- A positional text stands for its digits, scaled by where the point is. -/
theorem ofText_positional (point : Int) :
    ofText (positional digits point) =
      Nat.ofDigitChars 10 digits 0 * 10 ^ (point - digits.length) := by
  have hzeros : ∀ count, ∀ c ∈ List.replicate count '0', c.isDigit = true := by
    intro count c hc
    rw [List.eq_of_mem_replicate hc]
    rfl
  rw [positional]
  split
  · have hbehind : ∀ c ∈ List.replicate (-point).toNat '0' ++ digits, c.isDigit = true :=
      List.forall_mem_append.mpr ⟨hzeros _, h⟩
    have hlength : (0 : Int) - (List.replicate (-point).toNat '0' ++ digits).length =
        point - digits.length := by
      rw [List.length_append, List.length_replicate]
      omega
    have htext := ofText_pointed (hzeros 1) hbehind
    rw [ofParts, hlength, ofDigitChars_zeros, ofDigitChars_zeros] at htext
    exact htext
  split
  · have hpadded : ∀ c ∈ digits ++ List.replicate (point.toNat - digits.length) '0',
        c.isDigit = true := List.forall_mem_append.mpr ⟨h, hzeros _⟩
    have hlength : ((point.toNat - digits.length : Nat) : Int) = point - digits.length := by
      omega
    rw [show ['.', '0'] = '.' :: List.replicate 1 '0' from rfl, ofText_pointed hpadded (hzeros 1),
      ofParts, Nat.ofDigitChars_append, Nat.ofDigitChars_append, Nat.ofDigitChars_replicate_zero,
      Nat.ofDigitChars_replicate_zero, ← hlength, zpow_natCast]
    simp only [List.length_replicate, pow_one, Nat.cast_mul, Nat.cast_pow, Nat.cast_ofNat]
    norm_num
    ring
  · have htake : ∀ c ∈ digits.take point.toNat, c.isDigit = true :=
      fun c hc => h c (List.mem_of_mem_take hc)
    have hdrop : ∀ c ∈ digits.drop point.toNat, c.isDigit = true :=
      fun c hc => h c (List.mem_of_mem_drop hc)
    have hlength : (0 : Int) - (digits.drop point.toNat).length = point - digits.length := by
      rw [List.length_drop]
      omega
    rw [ofText_pointed htake hdrop, ofParts, hlength, List.take_append_drop]

/-- A text with an exponent stands for its digits, scaled by the exponent. -/
theorem ofText_scientific (hne : digits ≠ []) (exponent : Int) :
    ofText (scientific digits exponent) =
      Nat.ofDigitChars 10 digits 0 * 10 ^ (exponent + 1 - digits.length) := by
  obtain ⟨first, rest, rfl⟩ := List.exists_cons_of_ne_nil hne
  obtain ⟨hfirst, hrest⟩ := List.forall_mem_cons.mp h
  have hone : ∀ c ∈ [first], c.isDigit = true := List.forall_mem_singleton.mpr hfirst
  have hsigned : signed ((if exponent < 0 then '-' else '+') ::
      Nat.toDigits 10 exponent.natAbs) = exponent := by
    rw [signed, Nat.ofDigitChars_ten_toDigits]
    split_ifs with hneg
    all_goals first | contradiction | omega
  have hlength : exponent - (rest.length : Int) = exponent + 1 - (first :: rest).length := by
    rw [List.length_cons]
    omega
  have hparts : ofParts [first] rest exponent =
      Nat.ofDigitChars 10 (first :: rest) 0 * 10 ^ (exponent + 1 - (first :: rest).length) := by
    rw [ofParts, hlength]
    rfl
  have hpoint : '.' ∉ [first] := not_mem_of_isDigit hone rfl
  rw [← hparts, scientific]
  generalize (if exponent < 0 then '-' else '+') :: Nat.toDigits 10 exponent.natAbs = power
    at hsigned
  cases rest with
  | nil =>
      have hcut := cut_append (not_mem_of_isDigit hone (rfl : 'e'.isDigit = false)) power
      simp only [List.drop_one, List.tail_cons, List.take_one, List.head?_cons, Option.toList_some,
        List.append_nil, ofText, hcut, cut_of_not_mem hpoint, hsigned]
  | cons second more =>
      have hcut := cut_append (e_not_mem_pointed hone hrest) power
      simp only [List.drop_one, List.tail_cons, List.take_one, List.head?_cons, Option.toList_some,
        ofText, hcut, cut_append hpoint, hsigned]

end

/-- The text of a decimal stands for its value. -/
theorem ofText_text (d : Decimal) : ofText d.text = d.value := by
  have hdigits : ∀ c ∈ Nat.toDigits 10 d.digits, c.isDigit = true :=
    fun c hc => Nat.isDigit_of_mem_toDigits (by decide) le_rfl hc
  rw [text, value]
  split
  · rw [ofText_positional hdigits, Nat.ofDigitChars_ten_toDigits, add_sub_cancel_left]
  · rw [ofText_scientific hdigits Nat.toDigits_ne_nil, Nat.ofDigitChars_ten_toDigits,
      sub_add_cancel, add_sub_cancel_left]

end Decimal

/-! ## Characters of numbers -/

/-- Whether a character may stand in the text of a number. -/
def Number.isNumeric (c : Char) : Bool :=
  c.isDigit || c == '.' || c == 'e' || c == '+' || c == '-'

theorem Number.isNumeric_of_isDigit {c : Char} (h : c.isDigit = true) : isNumeric c = true := by
  rw [isNumeric, h]
  rfl

namespace Decimal

section

variable {digits : List Char} (h : ∀ c ∈ digits, c.isDigit = true)

include h

theorem isNumeric_of_mem_positional (point : Int) :
    ∀ c ∈ positional digits point, Number.isNumeric c = true := by
  have hnumeric : ∀ c ∈ digits, Number.isNumeric c = true :=
    fun c hc => Number.isNumeric_of_isDigit (h c hc)
  have hzeros : ∀ count, ∀ c ∈ List.replicate count '0', Number.isNumeric c = true := by
    intro count c hc
    rw [List.eq_of_mem_replicate hc]
    rfl
  rw [positional]
  split
  · rw [List.forall_mem_cons, List.forall_mem_cons, List.forall_mem_append]
    exact ⟨rfl, rfl, hzeros _, hnumeric⟩
  split
  · rw [List.forall_mem_append, List.forall_mem_append, List.forall_mem_cons]
    exact ⟨⟨hnumeric, hzeros _⟩, rfl, List.forall_mem_singleton.mpr rfl⟩
  · rw [List.forall_mem_append, List.forall_mem_cons]
    exact ⟨fun c hc => hnumeric c (List.mem_of_mem_take hc), rfl,
      fun c hc => hnumeric c (List.mem_of_mem_drop hc)⟩

theorem isNumeric_of_mem_scientific (exponent : Int) :
    ∀ c ∈ scientific digits exponent, Number.isNumeric c = true := by
  have hnumeric : ∀ c ∈ digits, Number.isNumeric c = true :=
    fun c hc => Number.isNumeric_of_isDigit (h c hc)
  have hfirst : ∀ c ∈ digits.take 1, Number.isNumeric c = true :=
    fun c hc => hnumeric c (List.mem_of_mem_take hc)
  have hbehind : ∀ c ∈ digits.drop 1, Number.isNumeric c = true :=
    fun c hc => hnumeric c (List.mem_of_mem_drop hc)
  have hsign : Number.isNumeric (if exponent < 0 then '-' else '+') = true := by
    split <;> rfl
  have hexponent : ∀ c ∈ Nat.toDigits 10 exponent.natAbs, Number.isNumeric c = true :=
    fun c hc => Number.isNumeric_of_isDigit (Nat.isDigit_of_mem_toDigits (by decide) le_rfl hc)
  have hpower : ∀ c ∈ 'e' :: (if exponent < 0 then '-' else '+') ::
      Nat.toDigits 10 exponent.natAbs, Number.isNumeric c = true := by
    rw [List.forall_mem_cons, List.forall_mem_cons]
    exact ⟨rfl, hsign, hexponent⟩
  rw [scientific, List.forall_mem_append, List.forall_mem_append]
  refine ⟨⟨hfirst, ?_⟩, hpower⟩
  cases hdigits : digits.drop 1 with
  | nil => exact fun c hc => absurd hc List.not_mem_nil
  | cons second more =>
      rw [hdigits] at hbehind
      exact List.forall_mem_cons.mpr ⟨rfl, hbehind⟩

/-- The text of digits, however it is laid out, starts with a digit. -/
theorem exists_head_positional (hne : digits ≠ []) (point : Int) :
    ∃ first rest, positional digits point = first :: rest ∧ first.isDigit = true := by
  obtain ⟨first, rest, rfl⟩ := List.exists_cons_of_ne_nil hne
  have hfirst : first.isDigit = true := h first List.mem_cons_self
  rw [positional]
  split
  · exact ⟨_, _, rfl, rfl⟩
  split
  · exact ⟨_, _, rfl, hfirst⟩
  · have hpoint : point.toNat = point.toNat - 1 + 1 := by omega
    rw [hpoint, List.take_succ_cons]
    exact ⟨_, _, rfl, hfirst⟩

end

theorem isDigit_of_mem_digits (d : Decimal) : ∀ c ∈ Nat.toDigits 10 d.digits, c.isDigit = true :=
  fun _ hc => Nat.isDigit_of_mem_toDigits (by decide) le_rfl hc

theorem isNumeric_of_mem_text (d : Decimal) : ∀ c ∈ d.text, Number.isNumeric c = true := by
  rw [text]
  split
  · exact isNumeric_of_mem_positional d.isDigit_of_mem_digits _
  · exact isNumeric_of_mem_scientific d.isDigit_of_mem_digits _

theorem exists_head_text (d : Decimal) :
    ∃ first rest, d.text = first :: rest ∧ first.isDigit = true := by
  rw [text]
  split
  · exact exists_head_positional d.isDigit_of_mem_digits Nat.toDigits_ne_nil _
  · obtain ⟨first, rest, hdigits⟩ := List.exists_cons_of_ne_nil
      (Nat.toDigits_ne_nil (n := d.digits) (b := 10))
    have hfirst := d.isDigit_of_mem_digits first (hdigits ▸ List.mem_cons_self)
    rw [hdigits]
    exact ⟨first, _, rfl, hfirst⟩

/-- A decimal has a point or an exponent. -/
theorem point_or_e_mem_text (d : Decimal) : '.' ∈ d.text ∨ 'e' ∈ d.text := by
  rw [text]
  split
  · refine .inl ?_
    rw [positional]
    split
    · simp
    split <;> simp
  · refine .inr ?_
    simp [scientific]

end Decimal

/-! ## Numbers -/

namespace Binary64

/-- The text of a magnitude. -/
def size (magnitude : Nat) : List Char :=
  if magnitude = 0 then ['0', '.', '0'] else (shortest magnitude).text

theorem text_eq (x : Binary64) :
    x.text.toList = if x.negative then '-' :: size x.magnitude else size x.magnitude := by
  rw [text, String.toList_ofList]
  rfl

/-- The text of a positive double stands for a number that rounds to it. -/
theorem roundsTo_size {magnitude : Nat} (hpos : 0 < magnitude) :
    RoundsTo (Decimal.ofText (size magnitude)) magnitude := by
  rw [size, if_neg hpos.ne', Decimal.ofText_text]
  exact roundsTo_shortest hpos

theorem size_zero : size 0 = ['0'] ++ '.' :: ['0'] :=
  if_pos rfl

theorem ofText_size_zero : Decimal.ofText (size 0) = 0 := by
  have hzero : ∀ c ∈ ['0'], c.isDigit = true := List.forall_mem_singleton.mpr rfl
  have hdigits : Nat.ofDigitChars 10 (['0'] ++ ['0']) 0 = 0 := rfl
  rw [size_zero, Decimal.ofText_pointed hzero hzero, Decimal.ofParts, hdigits, Nat.cast_zero,
    zero_mul]

/-- The texts of magnitudes tell them apart. -/
theorem size_injective : Function.Injective size := by
  intro a b h
  have hvalue : Decimal.ofText (size a) = Decimal.ofText (size b) := congrArg _ h
  rcases Nat.eq_zero_or_pos a with rfl | ha
  · rcases Nat.eq_zero_or_pos b with rfl | hb
    · rfl
    · rw [ofText_size_zero] at hvalue
      exact absurd hvalue ((roundsTo_size hb).pos hb).ne
  · rcases Nat.eq_zero_or_pos b with rfl | hb
    · rw [ofText_size_zero] at hvalue
      exact absurd hvalue ((roundsTo_size ha).pos ha).ne'
    · have hround := roundsTo_size ha
      rw [hvalue] at hround
      exact hround.unique (roundsTo_size hb)

theorem isNumeric_of_mem_size (magnitude : Nat) :
    ∀ c ∈ size magnitude, Number.isNumeric c = true := by
  rw [size]
  split
  · rw [List.forall_mem_cons, List.forall_mem_cons, List.forall_mem_singleton]
    exact ⟨rfl, rfl, rfl⟩
  · exact (shortest magnitude).isNumeric_of_mem_text

theorem exists_head_size (magnitude : Nat) :
    ∃ first rest, size magnitude = first :: rest ∧ first.isDigit = true := by
  rw [size]
  split
  · exact ⟨_, _, rfl, rfl⟩
  · exact (shortest magnitude).exists_head_text

/-- The text of a double has a point or an exponent, which the text of an integer has not. -/
theorem point_or_e_mem_size (magnitude : Nat) :
    '.' ∈ size magnitude ∨ 'e' ∈ size magnitude := by
  rw [size]
  split
  · decide
  · exact (shortest magnitude).point_or_e_mem_text

/-- The text of a magnitude has no sign. -/
theorem size_ne_minus_cons (magnitude : Nat) (cs : List Char) : size magnitude ≠ '-' :: cs := by
  intro h
  obtain ⟨first, rest, hsize, hfirst⟩ := exists_head_size magnitude
  rw [hsize] at h
  obtain ⟨rfl, -⟩ := List.cons.inj h
  contradiction

/-- Doubles are told apart by their texts. -/
theorem text_injective : Function.Injective text := by
  rintro ⟨negative, magnitude⟩ ⟨negative', magnitude'⟩ h
  have htext := congrArg String.toList h
  simp only [text_eq] at htext
  cases negative <;> cases negative'
  · rw [size_injective htext]
  · exact absurd htext (size_ne_minus_cons magnitude _)
  · exact absurd htext.symm (size_ne_minus_cons magnitude' _)
  · rw [size_injective (List.cons.inj htext).2]

end Binary64

namespace Number

theorem integer_text_eq (i : Int) :
    (integer i).text.toList =
      if i < 0 then '-' :: Nat.toDigits 10 i.natAbs else Nat.toDigits 10 i.natAbs := by
  cases i with
  | ofNat n =>
      have hrepr : (integer (.ofNat n)).text = n.repr := rfl
      rw [hrepr, Nat.repr_eq_ofList_toDigits, String.toList_ofList, if_neg (by simp)]
      rfl
  | negSucc n =>
      have hrepr : (integer (.negSucc n)).text = "-" ++ n.succ.repr := rfl
      rw [hrepr, Nat.repr_eq_ofList_toDigits, String.toList_append, String.toList_ofList,
        String.toList_ofList, if_pos (Int.negSucc_lt_zero n)]
      rfl

theorem isDigit_or_eq_minus_of_mem_integer {i : Int} {c : Char}
    (h : c ∈ (integer i).text.toList) : c.isDigit = true ∨ c = '-' := by
  have hdigits : c ∈ Nat.toDigits 10 i.natAbs → c.isDigit = true :=
    fun hc => Nat.isDigit_of_mem_toDigits (by decide) le_rfl hc
  rw [integer_text_eq] at h
  split at h
  · rcases List.mem_cons.mp h with rfl | hmem
    · exact .inr rfl
    · exact .inl (hdigits hmem)
  · exact .inl (hdigits h)

theorem toDigits_inj {m n : Nat} (h : Nat.toDigits 10 m = Nat.toDigits 10 n) : m = n := by
  rw [← Nat.ofDigitChars_ten_toDigits (n := m), h, Nat.ofDigitChars_ten_toDigits]

/-- Integers are told apart by their texts. -/
theorem integer_text_injective {i j : Int} (h : (integer i).text = (integer j).text) :
    i = j := by
  have hminus : ∀ n : Nat, '-' ∉ Nat.toDigits 10 n := fun n =>
    Decimal.not_mem_of_isDigit
      (fun _ hc => Nat.isDigit_of_mem_toDigits (by decide) le_rfl hc) rfl
  have htext := congrArg String.toList h
  rw [integer_text_eq, integer_text_eq] at htext
  split at htext <;> split at htext
  · have hnatAbs := toDigits_inj (List.cons.inj htext).2
    omega
  · exact absurd (htext ▸ List.mem_cons_self) (hminus j.natAbs)
  · exact absurd (htext ▸ List.mem_cons_self) (hminus i.natAbs)
  · have hnatAbs := toDigits_inj htext
    omega

theorem isNumeric_of_mem_text (number : Number) :
    ∀ c ∈ number.text.toList, isNumeric c = true := by
  intro c hc
  cases number with
  | integer i =>
      rcases isDigit_or_eq_minus_of_mem_integer hc with hdigit | rfl
      · exact isNumeric_of_isDigit hdigit
      · rfl
  | double x =>
      have hsize := Binary64.isNumeric_of_mem_size x.magnitude
      rw [text, Binary64.text_eq] at hc
      split at hc
      · rcases List.mem_cons.mp hc with rfl | hmem
        · rfl
        · exact hsize c hmem
      · exact hsize c hc

theorem isAlpha_of_isDigit {c : Char} (h : c.isDigit = true) : c.isAlpha = false := by
  have hdigit : (decide (48 ≤ c.val) && decide (c.val ≤ 57)) = true := h
  have hupper : c.isUpper = decide (65 ≤ c.val ∧ c.val ≤ 90) := rfl
  have hlower : c.isLower = (decide (97 ≤ c.val) && decide (c.val ≤ 122)) := rfl
  have halpha : c.isAlpha = (c.isUpper || c.isLower) := rfl
  rw [halpha, hupper, hlower]
  grind

/-- A number starts with its sign or with a digit, not like a word. -/
theorem exists_head_text (number : Number) :
    ∃ first rest, number.text.toList = first :: rest ∧ first.isAlpha = false := by
  cases number with
  | integer i =>
      rw [integer_text_eq]
      split
      · exact ⟨_, _, rfl, rfl⟩
      · obtain ⟨first, rest, hdigits⟩ := List.exists_cons_of_ne_nil
          (Nat.toDigits_ne_nil (n := i.natAbs) (b := 10))
        have hmem : first ∈ Nat.toDigits 10 i.natAbs := hdigits ▸ List.mem_cons_self
        exact ⟨first, rest, hdigits,
          isAlpha_of_isDigit (Nat.isDigit_of_mem_toDigits (by decide) le_rfl hmem)⟩
  | double x =>
      rw [text, Binary64.text_eq]
      split
      · exact ⟨_, _, rfl, rfl⟩
      · obtain ⟨first, rest, hsize, hfirst⟩ := Binary64.exists_head_size x.magnitude
        exact ⟨first, rest, hsize, isAlpha_of_isDigit hfirst⟩

/-- A double is never written like an integer. -/
theorem integer_text_ne (i : Int) (x : Binary64) : (integer i).text ≠ (double x).text := by
  intro h
  have hmem : '.' ∈ (integer i).text.toList ∨ 'e' ∈ (integer i).text.toList := by
    rw [h, text, Binary64.text_eq]
    apply (Binary64.point_or_e_mem_size x.magnitude).imp
    all_goals
      intro hc
      split
      · exact List.mem_cons_of_mem _ hc
      · exact hc
  rcases hmem with hc | hc
  all_goals
    rcases isDigit_or_eq_minus_of_mem_integer hc with hdigit | hminus
    · contradiction
    · contradiction

/-- Numbers that differ have texts that differ. -/
theorem text_injective : Function.Injective text := by
  intro a b h
  cases a with
  | integer i =>
      cases b with
      | integer j => exact congrArg integer (integer_text_injective h)
      | double y => exact absurd h (integer_text_ne i y)
  | double x =>
      cases b with
      | integer j => exact absurd h.symm (integer_text_ne j x)
      | double y => exact congrArg double (Binary64.text_injective h)

end Number

/-! ## Strings -/

namespace Json

namespace Scan

variable {α β : Type}

/-- After a scanner has read the front of a text, the next one goes on with the rest. -/
theorem run_bind {scan : Scan α} {text rest : List Char} {value : α}
    (h : scan.run text = .ok (value, rest)) (next : α → Scan β) :
    (scan >>= next).run text = (next value).run rest := by
  rw [StateT.run_bind, h]
  rfl

theorem hexValue?_digitChar : ∀ n < 16, hexValue? (Nat.digitChar n) = some n := by
  decide

/-- The four digits of a control character are its number. -/
theorem run_hexUnit {code : Nat} (h : code < 0x20) (rest : List Char) :
    hexUnit.run (hexDigits code ++ rest) = .ok (code, rest) := by
  have hhigh := hexValue?_digitChar (code / 16) (by omega)
  have hlow := hexValue?_digitChar (code % 16) (by omega)
  have hzero : hexValue? '0' = some 0 := rfl
  have hdigits : ((hexDigits code ++ rest).take 4).mapM hexValue? =
      some [0, 0, code / 16, code % 16] := by
    simp [hexDigits, hhigh, hlow, hzero]
  have hcode : 4096 * 0 + 256 * 0 + 16 * (code / 16) + code % 16 = code := by omega
  have hget : (get : Scan (List Char)).run (hexDigits code ++ rest) =
    .ok (hexDigits code ++ rest, hexDigits code ++ rest) := rfl
  rw [hexUnit, run_bind hget, hdigits]
  simp only [hcode]
  rfl

/-- The escape of a control character is read back. -/
theorem run_unicodeEscape {c : Char} (h : c.toNat < 0x20) (rest : List Char) :
    unicodeEscape.run (hexDigits c.toNat ++ rest) = .ok (c, rest) := by
  have hlow : ¬ (0xDC00 ≤ c.toNat ∧ c.toNat ≤ 0xDFFF) := by omega
  have hhigh : ¬ (0xD800 ≤ c.toNat ∧ c.toNat ≤ 0xDBFF) := by omega
  rw [unicodeEscape, run_bind (run_hexUnit h rest)]
  simp only [hlow, hhigh, if_false, Char.ofNat_toNat]
  rfl

/-- A character is read back from the way it is written inside quotes. -/
theorem run_characters_escape (c : Char) (fuel : Nat) (rest : List Char) :
    (characters (fuel + 1)).run (escape c ++ rest) =
      (do return c :: (← characters fuel) : Scan (List Char)).run rest := by
  have hnext : ∀ (first : Char) (more : List Char),
      next.run (first :: more) = .ok (first, more) := fun _ _ => rfl
  rw [characters]
  fun_cases escape c with
  | case8 c hquote hbackslash _ _ _ _ _ hcontrol =>
      have hescaped : escaped.run ('u' :: (hexDigits c.toNat ++ rest)) = .ok (c, rest) := by
        rw [escaped, run_bind (hnext _ _)]
        exact run_unicodeEscape hcontrol rest
      rw [List.cons_append, run_bind (hnext _ _), List.cons_append]
      exact run_bind hescaped _
  | case9 c hquote hbackslash _ _ _ _ _ hcontrol =>
      rw [List.singleton_append, run_bind (hnext _ _)]
      simp only [hcontrol, if_false]
  | _ => rfl

/-- The escaped characters of a string are read back up to the closing quotation mark. -/
theorem run_characters (cs : List Char) {fuel : Nat} (hfuel : cs.length < fuel)
    (rest : List Char) :
    (characters fuel).run (cs.flatMap escape ++ '"' :: rest) = .ok (cs, rest) := by
  induction cs generalizing fuel with
  | nil =>
      obtain ⟨fuel, rfl⟩ := Nat.exists_eq_add_of_le' hfuel
      rfl
  | cons c more ih =>
      obtain ⟨fuel, rfl⟩ := Nat.exists_eq_add_of_le' (Nat.zero_lt_of_lt hfuel)
      have hmore : (characters fuel).run (more.flatMap escape ++ '"' :: rest) = .ok (more, rest) :=
        ih (by simpa using hfuel)
      rw [List.flatMap_cons, List.append_assoc, run_characters_escape, run_bind hmore]
      rfl

theorem length_le_flatMap_escape (cs : List Char) : cs.length ≤ (cs.flatMap escape).length := by
  induction cs with
  | nil => rfl
  | cons c rest ih =>
      have hone : 1 ≤ (escape c).length := by
        fun_cases escape c <;> simp
      rw [List.flatMap_cons, List.length_append, List.length_cons]
      omega

/-- A quoted string is read back, whatever comes after it. -/
theorem run_string_quote (s : String) (rest : List Char) :
    string.run ((quote s).toList ++ rest) = .ok (s, rest) := by
  have hquote : (quote s).toList ++ rest = '"' :: (s.toList.flatMap escape ++ '"' :: rest) := by
    simp [quote]
  have hfuel : s.toList.length <
      (s.toList.flatMap escape ++ '"' :: rest).length + 1 := by
    have hle := length_le_flatMap_escape s.toList
    rw [List.length_append]
    omega
  have hskip : skip.run ((quote s).toList ++ rest) =
      .ok ((), s.toList.flatMap escape ++ '"' :: rest) := by
    rw [hquote]
    rfl
  have hget : (get : Scan (List Char)).run (s.toList.flatMap escape ++ '"' :: rest) =
    .ok (s.toList.flatMap escape ++ '"' :: rest, s.toList.flatMap escape ++ '"' :: rest) := rfl
  rw [string, run_bind hskip, run_bind hget, run_bind (run_characters s.toList hfuel rest)]
  exact congrArg (fun name => Except.ok (name, rest)) String.ofList_toList

end Scan

/-- Quoted strings are told apart, whatever comes after them. -/
theorem quote_append_inj {s t : String} {more rest : List Char}
    (h : (quote s).toList ++ more = (quote t).toList ++ rest) : s = t ∧ more = rest := by
  have hread : (.ok (s, more) : Except Fault (String × List Char)) = .ok (t, rest) := by
    rw [← Scan.run_string_quote, h, Scan.run_string_quote]
  exact Prod.mk.inj (Except.ok.inj hread)

/-- A quoted string has its marks at both ends and no line end between them. -/
theorem exists_quote_toList (s : String) :
    ∃ inside, (quote s).toList = '"' :: (inside ++ ['"']) ∧ '\n' ∉ inside := by
  refine ⟨s.toList.flatMap escape, by simp [quote], ?_⟩
  rw [List.mem_flatMap]
  rintro ⟨c, -, hc⟩
  revert hc
  fun_cases escape c with
  | case8 c _ _ _ _ _ _ _ hcontrol =>
      have hdigit : ∀ n < 16, Nat.digitChar n ≠ '\n' := by decide
      have hhigh := hdigit (c.toNat / 16) (by omega)
      have hlow := hdigit (c.toNat % 16) (by omega)
      simp [hexDigits, hhigh.symm, hlow.symm]
  | case9 c _ _ _ _ hnewline _ _ _ =>
      rw [List.mem_singleton]
      exact fun hc => hnewline hc.symm
  | _ => decide

end Json

end ShapeInference
