import Mathlib
import QueryClause.Json.Result
import QueryClause.Proofs.CollectedDigits
import QueryClause.Proofs.NumberTexts

/-!
# Decimals as JSON numbers

Every decimal becomes a JSON number, never the string of its text. The number is
exact for whole numbers of 64 bits and for decimals of at most fifteen digits with
at most 22 of them after the point: their digits and their power of ten are
doubles, so that the quotient is rounded only once, and the fifteen digits come
back when the double is written. Beyond these bounds the value can change, but by
no more than the five roundings from the digits of the decimal to the text.
-/

namespace QueryClause

open Json Binary64

namespace JsonNumber

/-! ## Written doubles -/

theorem exactValue?_shortest {number : Binary64} (nonzero : 0 < number.significand)
    (significant : Significant number.shortest.1) (negative : Bool) {exact : ℚ}
    (exact_eq : decimalValue (Nat.ofDigitChars 10 number.shortest.1 0)
      (number.shortest.2 + 1 - number.shortest.1.length) = exact) :
    Spelling.exactValue? (JsonNumber.double negative number).text =
      some (if negative then -exact else exact) := by
  have not_zero : number.isZero = false := beq_eq_false_iff_ne.mpr nonzero.ne'
  obtain ⟨spelling, wellFormed, chars_eq, spelling_eq⟩ : ∃ spelling : Spelling,
      spelling.WellFormed ∧ spelling.chars = doubleText number ∧ spelling.value = exact := by
    rw [← exact_eq]
    simp only [doubleText, not_zero, Bool.false_eq_true, if_false]
    split
    · exact exists_spelling_positional significant _
    · exact exists_spelling_scientific significant _
  have written := Spelling.exactValue?_signed wellFormed negative
  rw [Spelling.signed, chars_eq, spelling_eq] at written
  exact written

/-- The double of a decimal of fifteen digits is written as that decimal. -/
theorem exactValue?_double {number : Binary64} {digits : Nat} {exponent : Int}
    (stands : number.StandsFor digits exponent) (negative : Bool) :
    Spelling.exactValue? (JsonNumber.double negative number).text =
      some (if negative then -decimalValue digits exponent else decimalValue digits exponent) := by
  obtain ⟨significant, value_eq⟩ := stands.shortest_value_eq
  exact exactValue?_shortest (Binary64.significand_pos stands.normal) significant negative value_eq

theorem exactValue?_zero {number : Binary64} (zero : number.significand = 0) (negative : Bool) :
    Spelling.exactValue? (JsonNumber.double negative number).text = some 0 := by
  have wellFormed : Spelling.WellFormed ⟨['0'], ['0'], none⟩ := ⟨.inl rfl, by simp⟩
  have value_eq : Spelling.value ⟨['0'], ['0'], none⟩ = 0 := by
    simp [Spelling.value, decimalValue, Nat.ofDigitChars_cons]
  have text_eq : (JsonNumber.double negative number).text =
      String.ofList (Spelling.signed negative ⟨['0'], ['0'], none⟩) := by
    simp [text, doubleText, Binary64.isZero, zero, Spelling.signed, Spelling.chars,
      Spelling.pointed, Spelling.exponential]
  rw [text_eq, Spelling.exactValue?_signed wellFormed, value_eq, neg_zero, ite_self]

/-- Writing a double is one more rounding. -/
theorem exists_exactValue?_double {number : Binary64} (full : number.ZeroOrNormal)
    (negative : Bool) :
    ∃ exact, Spelling.exactValue? (JsonNumber.double negative number).text =
        some (if negative then -exact else exact) ∧ 0 ≤ exact ∧ Close 1 exact number.value := by
  rcases full with zero | normal
  · refine ⟨0, ?_, le_rfl, ?_⟩
    · rw [exactValue?_zero zero, neg_zero, ite_self]
    · rw [Binary64.value, zero, Nat.cast_zero, zero_mul]
      exact Close.refl 1 le_rfl
  · obtain ⟨significant, positive, near⟩ := Binary64.exists_shortest_value normal
    exact ⟨_, exactValue?_shortest (Binary64.significand_pos normal) significant negative rfl,
      positive.le, .of_abs_sub_le number.value_nonneg
        (Binary64.abs_sub_le_of_nearest? normal positive near)⟩

end JsonNumber

namespace Decimal

/-! ## Decimals -/

/-- The JSON value says the same number as the decimal: its text is a number of
exactly that value, or the string that holds the decimal's own text. -/
def KeptBy (decimal : Decimal) (json : Json) : Prop :=
  Spelling.exactValue? json.render = some decimal.value ∨ json.render = quoted decimal.text

/-- A whole number that fits 64 bits, with or without a sign. -/
def FitsWord (decimal : Decimal) : Prop :=
  decimal.scale = 0 ∧ -2 ^ 63 ≤ decimal.coefficient ∧ decimal.coefficient < 2 ^ 64

/-- At most fifteen digits, and at most 22 places after the point. -/
def FitsDouble (decimal : Decimal) : Prop :=
  decimal.coefficient.natAbs < 10 ^ 15 ∧ decimal.scale ≤ 22

instance (decimal : Decimal) (json : Json) : Decidable (decimal.KeptBy json) :=
  inferInstanceAs (Decidable (_ ∨ _))

instance (decimal : Decimal) : Decidable decimal.FitsWord :=
  inferInstanceAs (Decidable (_ ∧ _))

instance (decimal : Decimal) : Decidable decimal.FitsDouble :=
  inferInstanceAs (Decidable (_ ∧ _))

theorem parse?_text (decimal : Decimal) :
    JsonNumber.parse? decimal.text =
      JsonNumber.ofDigits? (decimal.coefficient < 0) decimal.spelling.whole
        decimal.spelling.fraction none := by
  rw [JsonNumber.parse?, text_eq_signed, String.toList_ofList, Spelling.readNumber_eq_bind,
    Spelling.read_signed decimal.spelling_wellFormed, Option.bind_some]
  have unscaled : decimal.spelling.exponent = none := rfl
  simp only [unscaled]
  cases JsonNumber.ofDigits? _ _ _ _ <;> rfl

theorem parse?_text_of_fitsWord {decimal : Decimal} (fits : decimal.FitsWord) :
    JsonNumber.parse? decimal.text = some (.integer decimal.coefficient) := by
  obtain ⟨whole, least, most⟩ := fits
  have unpointed : decimal.spelling.fraction = [] :=
    List.length_eq_zero_iff.mp ((length_fraction decimal).trans whole)
  have digits := decimal.ofDigitChars_spelling
  rw [unpointed, List.append_nil] at digits
  rw [parse?_text, unpointed]
  exact JsonNumber.ofDigits?_whole least most digits

theorem value_eq (decimal : Decimal) :
    decimal.value = if decimal.coefficient < 0
      then -decimalValue decimal.coefficient.natAbs (-decimal.scale)
      else decimalValue decimal.coefficient.natAbs (-decimal.scale) := by
  unfold value decimalValue
  rw [Nat.cast_natAbs]
  split
  · next negative => rw [abs_of_neg negative, Int.cast_neg, neg_mul, neg_neg]
  · next positive => rw [abs_of_nonneg (not_lt.mp positive)]

theorem value_of_whole {decimal : Decimal} (whole : decimal.scale = 0) :
    decimal.value = decimal.coefficient := by
  rw [value, whole, Nat.cast_zero, neg_zero, zpow_zero, mul_one]

theorem abs_value (decimal : Decimal) :
    |decimal.value| = decimalValue decimal.coefficient.natAbs (-decimal.scale) := by
  rw [value_eq]
  split
  · rw [abs_neg, abs_of_nonneg (decimalValue_nonneg _ _)]
  · rw [abs_of_nonneg (decimalValue_nonneg _ _)]

theorem length_spelling_le (decimal : Decimal) :
    (decimal.spelling.whole ++ decimal.spelling.fraction).length ≤ 100 := by
  have few : (Nat.toDigits 10 decimal.coefficient.natAbs).length ≤ 29 :=
    (Nat.length_toDigits_le_iff (by decide) (by decide)).mpr
      (decimal.magnitude_lt.trans (by decide))
  have scale_le : decimal.scale ≤ 28 := decimal.scale_le
  rw [spelling_append, paddedDigits, List.length_append, List.length_replicate]
  omega

/-- Every decimal is read as a number, whose text is the decimal up to five roundings. -/
theorem exists_parse?_near (decimal : Decimal) :
    ∃ number exact, JsonNumber.parse? decimal.text = some number ∧
      Spelling.exactValue? number.text = some exact ∧
      |exact - decimal.value| ≤ |decimal.value| / 2 ^ 49 := by
  have isDigit : ∀ char ∈ decimal.spelling.whole ++ decimal.spelling.fraction, char.isDigit := by
    rw [spelling_append]
    exact isDigit_padded
  rw [parse?_text]
  rcases JsonNumber.ofDigits?_cases (decimal.coefficient < 0)
    (List.forall_mem_append.mp isDigit).1 decimal.spelling.fraction with
    ⟨unpointed, whole⟩ | double
  · have whole_eq : decimal.scale = 0 := by rw [← length_fraction, unpointed, List.length_nil]
    have digits := decimal.ofDigitChars_spelling
    rw [unpointed, List.append_nil] at digits
    have coefficient_eq : (if decimal.coefficient < 0 then -(decimal.coefficient.natAbs : Int)
        else decimal.coefficient.natAbs) = decimal.coefficient := by
      omega
    simp only [digits, decide_eq_true_eq, coefficient_eq] at whole
    refine ⟨_, _, whole, JsonNumber.exactValue?_integer _, ?_⟩
    rw [value_of_whole whole_eq, sub_self, abs_zero]
    positivity
  · obtain ⟨rounded, found, full, close⟩ :=
      JsonNumber.exists_double?_gather isDigit decimal.length_spelling_le
    obtain ⟨exact, written, nonneg, onward⟩ :=
      JsonNumber.exists_exactValue?_double full (decimal.coefficient < 0)
    rw [ofDigitChars_spelling, length_fraction] at close
    refine ⟨_, _, by rw [double, found, Option.map_some], written, ?_⟩
    have off := (onward.trans close).abs_sub_le nonneg (decimalValue_nonneg _ _)
    rw [abs_value, value_eq]
    simp only [decide_eq_true_eq]
    split
    · rwa [neg_sub_neg, abs_sub_comm]
    · exact off

/-- Fifteen digits with a point are written again as they were. -/
theorem exists_parse?_pointed {decimal : Decimal} (fits : decimal.FitsDouble)
    (fraction : 0 < decimal.scale) :
    ∃ number, JsonNumber.parse? decimal.text = some number ∧
      Spelling.exactValue? number.text = some decimal.value := by
  obtain ⟨few, near⟩ := fits
  rcases Nat.eq_zero_or_pos decimal.coefficient.natAbs with zero | positive
  · -- A relative error leaves zero as it is.
    obtain ⟨number, exact, found, written, off⟩ := decimal.exists_parse?_near
    have value_zero : decimal.value = 0 := by
      rw [value, Int.natAbs_eq_zero.mp zero, Int.cast_zero, zero_mul]
    rw [value_zero, abs_zero, zero_div, sub_zero, abs_nonpos_iff] at off
    exact ⟨number, found, by rw [written, off, value_zero]⟩
  · obtain ⟨rounded, stands⟩ := Binary64.exists_standsFor positive few
      (by omega : -22 ≤ -(decimal.scale : Int)) (by omega)
    have pointed : decimal.spelling.fraction ≠ [] := by
      rw [← List.length_pos_iff, length_fraction]
      exact fraction
    have digits := decimal.ofDigitChars_spelling
    refine ⟨.double (decimal.coefficient < 0) rounded, ?_, ?_⟩
    · rw [parse?_text, JsonNumber.ofDigits?_fraction pointed
        (digits ▸ few.le.trans (by decide)), digits, length_fraction,
        JsonNumber.double?_eq_nearest? positive (few.trans (by decide)) fraction near,
        stands.near, Option.map_some]
    · rw [JsonNumber.exactValue?_double stands, value_eq]
      simp only [decide_eq_true_eq]

theorem FitsDouble.fitsWord {decimal : Decimal} (fits : decimal.FitsDouble)
    (whole : decimal.scale = 0) : decimal.FitsWord := by
  obtain ⟨few, -⟩ := fits
  exact ⟨whole, by omega, by omega⟩

theorem exists_parse?_exact {decimal : Decimal} (fits : decimal.FitsWord ∨ decimal.FitsDouble) :
    ∃ number, JsonNumber.parse? decimal.text = some number ∧
      Spelling.exactValue? number.text = some decimal.value := by
  have of_word (word : decimal.FitsWord) : ∃ number, JsonNumber.parse? decimal.text = some number ∧
      Spelling.exactValue? number.text = some decimal.value := by
    refine ⟨_, parse?_text_of_fitsWord word, ?_⟩
    rw [JsonNumber.exactValue?_integer, value_of_whole word.1]
  rcases fits with word | double
  · exact of_word word
  · rcases Nat.eq_zero_or_pos decimal.scale with whole | pointed
    · exact of_word (double.fitsWord whole)
    · exact exists_parse?_pointed double pointed

theorem toJson_of_parse? {decimal : Decimal} {number : JsonNumber}
    (found : JsonNumber.parse? decimal.text = some number) :
    (Value.number decimal).toJson = .number number := by
  rw [Value.toJson, toJson, found]

end Decimal

/-- Every decimal becomes a JSON number whose text changes its value by a part in
2⁴⁹ at most, and whole numbers of 64 bits and decimals with at most fifteen digits
and 22 places keep their value. -/
theorem json_numbers_exact (decimal : Decimal) :
    (∃ number exact, (Value.number decimal).toJson = .number number ∧
        Spelling.exactValue? number.text = some exact ∧
        |exact - decimal.value| ≤ |decimal.value| / 2 ^ 49) ∧
      (decimal.FitsWord ∨ decimal.FitsDouble → decimal.KeptBy (Value.number decimal).toJson) := by
  constructor
  · obtain ⟨number, exact, found, written, off⟩ := decimal.exists_parse?_near
    exact ⟨number, exact, Decimal.toJson_of_parse? found, written, off⟩
  · intro fits
    obtain ⟨number, found, kept⟩ := Decimal.exists_parse?_exact fits
    left
    rw [Decimal.toJson_of_parse? found, Json.render]
    exact kept

/-- Fifteen digits and 22 places are within the bounds. -/
theorem json_numbers_exact_fifteen :
    Decimal.FitsDouble ⟨-999999999999999, 22, by decide, by decide⟩ ∧
      Decimal.KeptBy ⟨-999999999999999, 22, by decide, by decide⟩
        (Value.number ⟨-999999999999999, 22, by decide, by decide⟩).toJson :=
  ⟨by decide, (json_numbers_exact _).2 (.inr (by decide))⟩

/-- Nineteen digits, and a single digit far behind the point, become other numbers. -/
theorem fine_decimals_changed :
    ((Value.number ⟨1234567890123456789, 19, by decide, by decide⟩).toJson.render =
        "0.12345678901234568" ∧
      ¬ Decimal.KeptBy ⟨1234567890123456789, 19, by decide, by decide⟩
        (Value.number ⟨1234567890123456789, 19, by decide, by decide⟩).toJson) ∧
      (Value.number ⟨1, 28, by decide, by decide⟩).toJson.render = "1.0000000000000001e-28" ∧
        ¬ Decimal.KeptBy ⟨1, 28, by decide, by decide⟩
          (Value.number ⟨1, 28, by decide, by decide⟩).toJson := by
  decide +kernel

-- One place more, one digit more, and whole numbers next to those of 64 bits.
example : ∀ decimal ∈ ([⟨1, 23, by decide, by decide⟩, ⟨9007199254740993, 1, by decide, by decide⟩,
      ⟨-2 ^ 63 - 1, 0, by decide, by decide⟩, ⟨2 ^ 64, 0, by decide, by decide⟩] : List Decimal),
    ¬ decimal.KeptBy (Value.number decimal).toJson := by
  decide +kernel

end QueryClause
