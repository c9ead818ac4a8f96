import ShapeInference.Json.Reader
import ShapeInference.Proofs.Descriptor.Closed

/-!
# Numbers of JSON texts

A JSON text spells finite numbers only. An integer of 64 bits is rounded to a finite double, and a
decimal that becomes infinite is refused where it is read.

Main statements: `Binary64.isFinite_ofInt` and `Json.finiteNumbers_of_read`.
-/

namespace ShapeInference

/-! ## Rounding integers -/

theorem roundQuotient_le (num den : Nat) : roundQuotient num den ≤ num / den + 1 := by
  simp only [roundQuotient]
  split_ifs <;> omega

theorem log2_mul_two_pow_le {n bits : Nat} (h : n < 2 ^ bits) (shift : Nat) :
    Nat.log2 (n * 2 ^ shift) ≤ bits + shift := by
  by_cases hzero : n * 2 ^ shift = 0
  · rw [hzero]
    exact Nat.zero_le _
  · apply ((Nat.log2_lt hzero).mpr _).le
    rw [Nat.pow_add]
    exact Nat.mul_lt_mul_of_pos_right h (Nat.two_pow_pos shift)

/-- A quotient by the spacing of a number's leading bit is rounded to at most 53 bits, or to the
next power of two. -/
theorem roundQuotient_spacing_le (scaled : Nat) :
    roundQuotient scaled (2 ^ (Nat.log2 scaled - 52)) ≤ 2 ^ 53 := by
  refine (roundQuotient_le _ _).trans (Nat.succ_le_of_lt ?_)
  rw [Nat.div_lt_iff_lt_mul (Nat.two_pow_pos _), ← Nat.pow_add]
  apply Nat.lt_log2_self.trans_le
  apply Nat.pow_le_pow_right Nat.two_pos
  omega

/-- The double nearest to a number of 64 bits is finite. -/
theorem Binary64.nearest_one_lt {n : Nat} (h : n < 2 ^ 64) : nearest n 1 < infinity := by
  have hshift : Nat.log2 (n * 2 ^ 1074) - 52 ≤ 1086 :=
    Nat.sub_le_sub_right (log2_mul_two_pow_le h 1074) 52
  simp only [nearest, Nat.shiftLeft_eq, Nat.div_one, Nat.one_mul]
  apply (Nat.min_le_right _ _).trans_lt
  calc
    _ ≤ 1086 * 2 ^ 52 + 2 ^ 53 :=
      Nat.add_le_add (Nat.mul_le_mul_right _ hshift) (roundQuotient_spacing_le _)
    _ < infinity := by decide

/-- Integers of 64 bits are finite as doubles. -/
theorem Binary64.isFinite_ofInt {i : Int} (h : i.natAbs < 2 ^ 64) : (ofInt i).isFinite = true :=
  decide_eq_true (nearest_one_lt h)

theorem LinePoint.isFinite_ofBinary64 (x : Binary64) : (ofBinary64 x).isFinite = x.isFinite := by
  have hmagnitude : (ofBinary64 x).place.natAbs = x.magnitude := by
    rw [ofBinary64]
    cases x.negative <;> simp
  rw [isFinite, toBinary64, Binary64.isFinite, hmagnitude, Binary64.isFinite]

namespace Json

/-! ## Finite numbers of values -/

theorem finiteNumbers_of_eq_nil {value : Json} (h : value.numbers = []) : value.FiniteNumbers := by
  intro p hp
  rw [h] at hp
  contradiction

theorem finiteNumbers_number_iff {n : Number} :
    (number n).FiniteNumbers ↔ n.toBinary64.isFinite = true := by
  rw [FiniteNumbers, numbers, List.forall_mem_singleton, LinePoint.isFinite_ofBinary64]

theorem finiteNumbers_array_iff {values : List Json} :
    (array values).FiniteNumbers ↔ ∀ v ∈ values, v.FiniteNumbers := by
  rw [FiniteNumbers, numbers, numbersOfAll_eq, List.forall_mem_flatMap]
  rfl

theorem finiteNumbers_object_iff {members : List (String × Json)} :
    (object members).FiniteNumbers ↔ ∀ member ∈ members, member.2.FiniteNumbers := by
  rw [FiniteNumbers, numbers, numbersOfMembers_eq, List.forall_mem_flatMap]
  rfl

/-! ## Values that scanners return -/

namespace Scan

variable {α β : Type}

/-- Whatever value the scanner returns has a property. -/
def Yields (scan : Scan α) (p : α → Prop) : Prop :=
  ∀ text value rest, scan.run text = .ok (value, rest) → p value

theorem yields_true (scan : Scan α) : scan.Yields fun _ => True :=
  fun _ _ _ _ => trivial

variable {p : α → Prop} {q : β → Prop}

theorem yields_pure {value : α} (h : p value) : Yields (pure value) p := by
  intro text value' rest hrun
  obtain ⟨rfl, -⟩ := Prod.mk.inj (Except.ok.inj hrun)
  exact h

theorem yields_throw (fault : Fault) : Yields (throw fault) p := by
  intro text value rest hrun
  contradiction

theorem yields_lift {result : Except Fault α} (h : ∀ value, result = .ok value → p value) :
    Yields (liftM result) p := by
  intro text value rest hrun
  cases result with
  | error fault => contradiction
  | ok value' =>
      obtain ⟨rfl, -⟩ := Prod.mk.inj (Except.ok.inj hrun)
      exact h _ rfl

/-- Where the first scanner yields what the next needs, both in a row yield what the next does. -/
theorem Yields.bind {scan : Scan α} {next : α → Scan β} (hscan : scan.Yields p)
    (hnext : ∀ value, p value → (next value).Yields q) : Yields (scan >>= next) q := by
  intro text value rest hrun
  obtain ⟨⟨first, remaining⟩, hfirst, hrest⟩ := bind_eq_ok_iff.mp hrun
  exact hnext first (hscan _ _ _ hfirst) _ _ _ hrest

/-- What is shown of the last value may ask nothing of the ones before. -/
theorem yields_bind {scan : Scan α} {next : α → Scan β} (hnext : ∀ value, (next value).Yields q) :
    Yields (scan >>= next) q :=
  (yields_true scan).bind fun value _ => hnext value

/-! ## Numbers -/

/-- A decimal is read as a finite double or refused. -/
theorem isFinite_of_double {negative : Bool} {n : Nat} {exponent : Int} {result : Number}
    (h : double negative n exponent = .ok result) : result.toBinary64.isFinite = true := by
  rw [double] at h
  split_ifs at h with hfinite
  obtain rfl := Except.ok.inj h
  exact decide_eq_true hfinite

/-- Digits are put behind a number only while it keeps to 64 bits. -/
theorem significand_lt {n : Nat} (h : n < 2 ^ 64) (digits : List Char) :
    (significand n digits).1 < 2 ^ 64 := by
  induction digits generalizing n with
  | nil => exact h
  | cons d rest ih =>
      rw [significand]
      split_ifs with hfits
      · exact ih hfits
      · exact h

/-- Integers beyond 64 bits are read as doubles, and refused like these where they are infinite. -/
theorem isFinite_of_integer {negative : Bool} {n left : Nat} {result : Number} (hn : n < 2 ^ 64)
    (h : integer negative n left = .ok result) : result.toBinary64.isFinite = true := by
  rw [integer] at h
  split_ifs at h with _ hnegative
  · obtain rfl := Except.ok.inj h
    apply Binary64.isFinite_ofInt
    rwa [Int.natAbs_neg]
  · obtain rfl := Except.ok.inj h
    exact Binary64.isFinite_ofInt hn
  · exact isFinite_of_double h

/-- A number that is read is finite. -/
theorem yields_number : Yields number fun n => n.toBinary64.isFinite = true := by
  unfold number
  refine yields_bind ?_
  intro text
  extract_lets afterSign
  have hafterSign : ∀ negative,
      (afterSign negative).Yields fun n => n.toBinary64.isFinite = true := by
    intro negative
    refine yields_bind ?_
    intro whole
    -- What follows the check for a leading zero.
    extract_lets afterZero
    have hafterZero : ∀ u, (afterZero u).Yields fun n => n.toBinary64.isFinite = true := by
      intro _
      refine yields_bind ?_
      intro decimals
      refine yields_bind ?_
      intro power
      split
      · exact yields_lift fun _ => isFinite_of_integer (significand_lt (Nat.two_pow_pos 64) whole)
      · exact yields_lift fun _ => isFinite_of_double
    split
    · exact yields_bind hafterZero
    · exact hafterZero ()
  split
  · refine yields_bind ?_
    intro _
    exact yields_bind hafterSign
  · exact yields_bind hafterSign

/-! ## Values -/

/-- After an opening bracket there is a closing one, or there is something inside. -/
theorem yields_enclosed {closing : Char} {nothing : Json} {inside : Scan Json}
    (hnothing : nothing.FiniteNumbers) (hinside : inside.Yields FiniteNumbers) :
    Yields (do
      skip
      if (← peekSome) = closing then
        skip
        return nothing
      else inside) FiniteNumbers := by
  refine yields_bind fun _ => yields_bind ?_
  intro next
  split
  · exact yields_bind fun _ => yields_pure hnothing
  · exact hinside

mutual

/-- All numbers of a value that is read are finite. -/
theorem yields_value (depth fuel : Nat) : Yields (value depth fuel) FiniteNumbers := by
  cases fuel with
  | zero => exact yields_throw _
  | succ fuel =>
      unfold value
      refine yields_bind ?_
      intro c
      split
      · exact yields_bind fun _ => yields_pure (finiteNumbers_of_eq_nil rfl)
      · exact yields_bind fun _ => yields_pure (finiteNumbers_of_eq_nil rfl)
      · exact yields_bind fun _ => yields_pure (finiteNumbers_of_eq_nil rfl)
      · exact yields_bind fun _ => yields_pure (finiteNumbers_of_eq_nil rfl)
      · extract_lets inside
        have hinside : ∀ u, (inside u).Yields FiniteNumbers := by
          intro _
          refine yields_enclosed (finiteNumbers_of_eq_nil rfl) ?_
          refine (yields_elements (depth - 1) fuel).bind ?_
          intro values hvalues
          exact yields_pure (finiteNumbers_array_iff.mpr hvalues)
        split
        · exact yields_bind hinside
        · exact hinside ()
      · extract_lets inside
        have hinside : ∀ u, (inside u).Yields FiniteNumbers := by
          intro _
          refine yields_enclosed (finiteNumbers_of_eq_nil rfl) ?_
          refine (yields_members (depth - 1) fuel).bind ?_
          intro pairs hpairs
          apply yields_pure
          rw [finiteNumbers_object_iff]
          exact fun member hmember => hpairs member (Bindings.ofPairs_subset pairs hmember)
        split
        · exact yields_bind hinside
        · exact hinside ()
      · split
        · refine yields_number.bind ?_
          intro n hn
          exact yields_pure (finiteNumbers_number_iff.mpr hn)
        · exact yields_throw _

theorem yields_elements (depth fuel : Nat) :
    Yields (elements depth fuel) fun values => ∀ v ∈ values, v.FiniteNumbers := by
  cases fuel with
  | zero => exact yields_throw _
  | succ fuel =>
      unfold elements
      refine (yields_value depth fuel).bind ?_
      intro first hfirst
      refine yields_bind ?_
      intro more
      split
      · refine (yields_elements depth fuel).bind ?_
        intro rest hrest
        exact yields_pure (List.forall_mem_cons.mpr ⟨hfirst, hrest⟩)
      · exact yields_pure (List.forall_mem_singleton.mpr hfirst)

theorem yields_members (depth fuel : Nat) :
    Yields (members depth fuel) fun pairs => ∀ pair ∈ pairs, pair.2.FiniteNumbers := by
  cases fuel with
  | zero => exact yields_throw _
  | succ fuel =>
      unfold members
      refine yields_bind ?_
      intro key
      refine (yields_value depth fuel).bind ?_
      intro first hfirst
      refine yields_bind ?_
      intro more
      split
      · refine (yields_members depth fuel).bind ?_
        intro rest hrest
        exact yields_pure (List.forall_mem_cons.mpr ⟨hfirst, hrest⟩)
      · exact yields_pure (List.forall_mem_singleton.mpr hfirst)

end

/-- A document that is read has finite numbers. -/
theorem yields_document : document.Yields FiniteNumbers := by
  unfold document
  refine yields_bind ?_
  intro text
  refine (yields_value _ _).bind ?_
  intro v hv
  refine yields_bind ?_
  intro after
  split
  · exact yields_pure hv
  · exact yields_throw _

end Scan

/-- A text that spells a value spells finite numbers only. -/
theorem finiteNumbers_of_read {text : String} {value : Json} (h : read text = .ok value) :
    value.FiniteNumbers := by
  obtain ⟨⟨v, rest⟩, hrun, rfl⟩ := map_eq_ok_iff.mp h
  exact Scan.yields_document _ _ _ hrun

end Json

end ShapeInference
