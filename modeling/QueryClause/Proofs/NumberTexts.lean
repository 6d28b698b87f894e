import Mathlib
import QueryClause.Json.Result
import QueryClause.Proofs.ShortestDigits

/-!
# Written numbers and their exact values

A number of a JSON text is a sign, digits before and after a point, and an exponent
of ten, and these parts determine a rational number before anything is rounded.
Reading the written form of such parts gives them back; the texts of decimals and of
JSON numbers are written forms of this kind, so that their exact values are known.
-/

namespace QueryClause

namespace Json

/-- The digits of a written number, without its sign. The fraction is empty where
there is no point. -/
structure Spelling where
  whole : List Char
  fraction : List Char
  exponent : Option Int
  deriving DecidableEq

namespace Spelling

/-- The rational number that is written. -/
def value (spelling : Spelling) : ℚ :=
  decimalValue (Nat.ofDigitChars 10 (spelling.whole ++ spelling.fraction) 0)
    (spelling.exponent.getD 0 - spelling.fraction.length)

/-- Reads a number with its sign and does not round it. -/
def read : Reader (Bool × Spelling) := fun chars => do
  let (negative, rest) := match chars with
    | '-' :: rest => (true, rest)
    | rest => (false, rest)
  let (whole, rest) ← readWhole rest
  let (fraction, rest) ← readFraction rest
  let (exponent, rest) ← readExponent rest
  return ((negative, ⟨whole, fraction, exponent⟩), rest)

/-- The rational number that a text denotes, if it is a JSON number. -/
def exactValue? (text : String) : Option ℚ :=
  match read text.toList with
  | some ((negative, spelling), []) => some (if negative then -spelling.value else spelling.value)
  | _ => none

theorem readNumber_eq_bind (chars : List Char) :
    readNumber chars = (read chars).bind fun ((negative, spelling), rest) =>
      (JsonNumber.ofDigits? negative spelling.whole spelling.fraction spelling.exponent).map
        fun number => (number, rest) := by
  simp only [readNumber, read, Option.bind_eq_bind, Option.bind_assoc, Option.pure_def,
    Option.bind_some, Option.map_eq_bind]
  rfl

/-! ## Writing and reading -/

/-- A point and the digits after it, if there are any. -/
def pointed (fraction : List Char) : List Char :=
  if fraction.isEmpty then [] else '.' :: fraction

/-- An exponent with its sign, if there is one. -/
def exponential : Option Int → List Char
  | none => []
  | some exponent => 'e' :: (if exponent < 0 then '-' else '+') :: Nat.toDigits 10 exponent.natAbs

/-- The written form of a number without its sign. -/
def chars (spelling : Spelling) : List Char :=
  spelling.whole ++ (pointed spelling.fraction ++ exponential spelling.exponent)

/-- The written form of a number with its sign. -/
def signed (negative : Bool) (spelling : Spelling) : List Char :=
  (if negative then ['-'] else []) ++ spelling.chars

/-- Before the point stand digits without a zero in front, or a single zero, and
after the point stand digits. -/
structure WellFormed (spelling : Spelling) : Prop where
  whole : spelling.whole = ['0'] ∨ Significant spelling.whole
  fraction : ∀ char ∈ spelling.fraction, char.isDigit

/-- The text does not go on with a digit. -/
def EndsDigits (rest : List Char) : Prop := ∀ char ∈ rest.head?, ¬ char.isDigit

theorem readDigits_append {digits rest : List Char} (isDigit : ∀ char ∈ digits, char.isDigit)
    (nonempty : digits ≠ []) (ends : EndsDigits rest) :
    readDigits (digits ++ rest) = some (digits, rest) := by
  have none_left : rest.takeWhile Char.isDigit = [] ∧ rest.dropWhile Char.isDigit = rest := by
    cases rest with
    | nil => exact ⟨rfl, rfl⟩
    | cons char after =>
      have stop := ends char rfl
      simp [stop]
  unfold readDigits
  rw [List.takeWhile_append_of_pos isDigit, List.dropWhile_append_of_pos isDigit, none_left.1,
    none_left.2, List.append_nil]
  cases digits with
  | nil => exact absurd rfl nonempty
  | cons first digits => rfl

theorem endsDigits_append (fraction : List Char) (exponent : Option Int) :
    EndsDigits (pointed fraction ++ exponential exponent) := by
  unfold EndsDigits pointed
  cases exponent <;> split <;> simp [exponential]

theorem readWhole_append {whole rest : List Char} (form : whole = ['0'] ∨ Significant whole)
    (ends : EndsDigits rest) : readWhole (whole ++ rest) = some (whole, rest) := by
  rcases form with rfl | significant
  · cases rest with
    | nil => rfl
    | cons next after => simp [readWhole, ends next rfl]
  · obtain ⟨first, others, rfl, nonzero⟩ := significant.exists_cons
    simp only [List.cons_append, readWhole, if_neg nonzero]
    exact readDigits_append significant.isDigit (List.cons_ne_nil _ _) ends

theorem readFraction_append {fraction : List Char} (isDigit : ∀ char ∈ fraction, char.isDigit)
    (exponent : Option Int) :
    readFraction (pointed fraction ++ exponential exponent) =
      some (fraction, exponential exponent) := by
  have ends : EndsDigits (exponential exponent) := by
    simpa [pointed] using endsDigits_append [] exponent
  cases fraction with
  | nil => cases exponent <;> rfl
  | cons first others => exact readDigits_append isDigit (List.cons_ne_nil _ _) ends

theorem foldl_toDigits (number : Nat) :
    (Nat.toDigits 10 number).foldl (fun value digit => value * 10 + (digit.toNat - 48)) 0 =
      number := by
  simpa only [Nat.ofDigitChars_eq_foldl, mul_comm, Char.reduceToNat] using
    Nat.ofDigitChars_ten_toDigits (n := number)

theorem readExponent_exponential (exponent : Option Int) :
    readExponent (exponential exponent) = some (exponent, []) := by
  cases exponent with
  | none => rfl
  | some exponent =>
    have digits : readDigits (Nat.toDigits 10 exponent.natAbs ++ []) = _ := readDigits_append
      (fun _ member => Nat.isDigit_of_mem_toDigits (by decide) (by decide) member)
      Nat.toDigits_ne_nil (by simp [EndsDigits])
    rw [List.append_nil] at digits
    by_cases negative : exponent < 0
    · simp [readExponent, exponential, negative, digits, foldl_toDigits, abs_of_neg negative]
    · simp [readExponent, exponential, negative, digits, foldl_toDigits, not_lt.mp negative]

theorem WellFormed.exists_chars_eq {spelling : Spelling} (wellFormed : spelling.WellFormed) :
    ∃ first rest, spelling.chars = first :: rest ∧ first ≠ '-' := by
  rcases wellFormed.whole with zero | significant
  · exact ⟨'0', _, by rw [chars, zero, List.cons_append], by decide⟩
  · obtain ⟨first, others, whole_eq, -⟩ := significant.exists_cons
    refine ⟨first, _, by rw [chars, whole_eq, List.cons_append], ?_⟩
    rintro rfl
    exact absurd (significant.isDigit '-' (by simp [whole_eq])) (by decide)

/-- Reading gives back the parts of a written number. -/
theorem read_signed {spelling : Spelling} (wellFormed : spelling.WellFormed) (negative : Bool) :
    read (spelling.signed negative) = some ((negative, spelling), []) := by
  have sign : (match spelling.signed negative with
      | '-' :: rest => (true, rest)
      | rest => (false, rest)) = (negative, spelling.chars) := by
    cases negative with
    | true => rfl
    | false =>
      obtain ⟨first, rest, chars_eq, digit⟩ := wellFormed.exists_chars_eq
      simp only [signed, Bool.false_eq_true, if_false, List.nil_append, chars_eq]
      split
      · next same => exact absurd (List.cons.inj same).1 digit
      · rfl
  have whole := readWhole_append wellFormed.whole
    (endsDigits_append spelling.fraction spelling.exponent)
  simp only [read, sign, chars, whole, readFraction_append wellFormed.fraction,
    readExponent_exponential, Option.bind_eq_bind, Option.bind_some, Option.pure_def]

theorem exactValue?_signed {spelling : Spelling} (wellFormed : spelling.WellFormed)
    (negative : Bool) :
    exactValue? (String.ofList (spelling.signed negative)) =
      some (if negative then -spelling.value else spelling.value) := by
  rw [exactValue?, String.toList_ofList, read_signed wellFormed]

end Spelling

end Json

open Json

/-! ## The texts of numbers -/

theorem toDigits_form (number : Nat) :
    Nat.toDigits 10 number = ['0'] ∨ Significant (Nat.toDigits 10 number) := by
  rcases Nat.eq_zero_or_pos number with rfl | positive
  · exact .inl (Nat.toDigits_zero 10)
  · exact .inr (toDigits_significant positive)

theorem Significant.append {digits others : List Char} (significant : Significant digits)
    (isDigit : ∀ char ∈ others, char.isDigit) : Significant (digits ++ others) where
  isDigit := List.forall_mem_append.mpr ⟨significant.isDigit, isDigit⟩
  exists_cons := by
    obtain ⟨first, rest, rfl, nonzero⟩ := significant.exists_cons
    exact ⟨first, rest ++ others, rfl, nonzero⟩

theorem Significant.take {digits : List Char} (significant : Significant digits) {count : Nat}
    (some_left : 0 < count) : Significant (digits.take count) where
  isDigit char member := significant.isDigit char (List.mem_of_mem_take member)
  exists_cons := by
    obtain ⟨first, rest, rfl, nonzero⟩ := significant.exists_cons
    obtain ⟨count, rfl⟩ := Nat.exists_eq_succ_of_ne_zero some_left.ne'
    exact ⟨first, rest.take count, rfl, nonzero⟩

theorem Significant.length_pos {digits : List Char} (significant : Significant digits) :
    0 < digits.length := by
  obtain ⟨first, rest, rfl, -⟩ := significant.exists_cons
  exact Nat.succ_pos _

theorem isDigit_zeros {count : Nat} : ∀ char ∈ List.replicate count '0', char.isDigit := by
  intro char member
  rw [List.eq_of_mem_replicate member]
  rfl

namespace JsonNumber

/-- A whole number is written as it is. -/
theorem exactValue?_integer (value : Int) :
    Spelling.exactValue? (JsonNumber.integer value).text = some (value : ℚ) := by
  have wellFormed : Spelling.WellFormed ⟨Nat.toDigits 10 value.natAbs, [], none⟩ :=
    ⟨toDigits_form _, by simp⟩
  have written := Spelling.exactValue?_signed wellFormed (value < 0)
  have text_eq : (JsonNumber.integer value).text =
      String.ofList (Spelling.signed (value < 0) ⟨Nat.toDigits 10 value.natAbs, [], none⟩) := by
    simp [text, Spelling.signed, Spelling.chars, Spelling.pointed, Spelling.exponential]
  rw [text_eq, written]
  simp only [Spelling.value, List.append_nil, Nat.ofDigitChars_ten_toDigits, decimalValue,
    Option.getD_none, List.length_nil, Nat.cast_zero, sub_zero, zpow_zero, mul_one,
    decide_eq_true_eq, Option.some.injEq]
  split
  · next negative =>
    rw [Nat.cast_natAbs, abs_of_neg negative, Int.cast_neg, neg_neg]
  · next positive =>
    rw [Nat.cast_natAbs, abs_of_nonneg (not_lt.mp positive)]

section Double

variable {digits : List Char}

/-- The places of the digits are kept when a number is written without an exponent. -/
theorem exists_spelling_positional (significant : Significant digits) (exponent : Int) :
    ∃ spelling : Spelling, spelling.WellFormed ∧ spelling.chars = positional digits exponent ∧
      spelling.value =
        decimalValue (Nat.ofDigitChars 10 digits 0) (exponent + 1 - digits.length) := by
  have nonempty : digits ≠ [] := List.length_pos_iff.mp significant.length_pos
  unfold positional
  split
  · next small =>
    refine ⟨⟨['0'], List.replicate ((-exponent).toNat - 1) '0' ++ digits, none⟩,
      ⟨.inl rfl, List.forall_mem_append.mpr ⟨isDigit_zeros, significant.isDigit⟩⟩, ?_, ?_⟩
    · simp [Spelling.chars, Spelling.pointed, Spelling.exponential, nonempty]
    · rw [Spelling.value, Nat.ofDigitChars_append, Nat.ofDigitChars_append]
      simp only [Nat.ofDigitChars_cons, Nat.ofDigitChars_nil, Nat.ofDigitChars_replicate_zero,
        List.length_append, List.length_replicate, Option.getD_none]
      congr 1
      push_cast
      omega
  · next large =>
    dsimp only
    by_cases short : digits.length ≤ exponent.toNat + 1
    · refine ⟨⟨digits ++ List.replicate (exponent.toNat + 1 - digits.length) '0', ['0'], none⟩,
        ⟨.inr (significant.append isDigit_zeros), by simp⟩, ?_, ?_⟩
      · simp [Spelling.chars, Spelling.pointed, Spelling.exponential, short]
      · rw [Spelling.value, List.append_assoc, ← List.replicate_succ', Nat.ofDigitChars_append,
          Nat.ofDigitChars_replicate_zero, decimalValue_pow_mul]
        congr 1
        simp only [Option.getD_none, List.length_singleton]
        omega
    · refine ⟨⟨digits.take (exponent.toNat + 1), digits.drop (exponent.toNat + 1), none⟩,
        ⟨.inr (significant.take (Nat.succ_pos _)),
          fun char member => significant.isDigit char (List.mem_of_mem_drop member)⟩, ?_, ?_⟩
      · have filled : exponent.toNat + 1 - digits.length = 0 := by omega
        simp [Spelling.chars, Spelling.pointed, Spelling.exponential, short, filled]
      · rw [Spelling.value, List.take_append_drop, List.length_drop]
        congr 1
        simp only [Option.getD_none]
        omega

/-- The places of the digits are kept when a number is written with an exponent. -/
theorem exists_spelling_scientific (significant : Significant digits) (exponent : Int) :
    ∃ spelling : Spelling, spelling.WellFormed ∧ spelling.chars = scientific digits exponent ∧
      spelling.value =
        decimalValue (Nat.ofDigitChars 10 digits 0) (exponent + 1 - digits.length) := by
  have length_pos := significant.length_pos
  refine ⟨⟨digits.take 1, digits.drop 1, some exponent⟩, ⟨.inr (significant.take Nat.one_pos),
    fun char member => significant.isDigit char (List.mem_of_mem_drop member)⟩, ?_, ?_⟩
  · simp [Spelling.chars, Spelling.pointed, Spelling.exponential, scientific]
  · rw [Spelling.value, List.take_append_drop, List.length_drop]
    congr 1
    simp only [Option.getD_some]
    omega

end Double

end JsonNumber

namespace Decimal

/-- The exact value of a decimal. -/
def value (decimal : Decimal) : ℚ := decimal.coefficient * 10 ^ (-(decimal.scale : Int))

/-- The digits of a decimal before and after the point. -/
def spelling (decimal : Decimal) : Spelling :=
  let digits := paddedDigits (decimal.scale + 1) decimal.coefficient.natAbs
  ⟨digits.take (digits.length - decimal.scale), digits.drop (digits.length - decimal.scale), none⟩

theorem spelling_append (decimal : Decimal) :
    decimal.spelling.whole ++ decimal.spelling.fraction =
      paddedDigits (decimal.scale + 1) decimal.coefficient.natAbs :=
  List.take_append_drop _ _

theorem ofDigitChars_spelling (decimal : Decimal) :
    Nat.ofDigitChars 10 (decimal.spelling.whole ++ decimal.spelling.fraction) 0 =
      decimal.coefficient.natAbs := by
  rw [spelling_append, paddedDigits]
  simp [Nat.ofDigitChars_append]

theorem length_fraction (decimal : Decimal) : decimal.spelling.fraction.length = decimal.scale := by
  simp only [spelling, List.length_drop, paddedDigits, List.length_append, List.length_replicate]
  omega

theorem isDigit_padded {width number : Nat} :
    ∀ char ∈ paddedDigits width number, char.isDigit :=
  List.forall_mem_append.mpr ⟨isDigit_zeros, fun _ member =>
    Nat.isDigit_of_mem_toDigits (by decide) (by decide) member⟩

theorem spelling_wellFormed (decimal : Decimal) : decimal.spelling.WellFormed where
  whole := by
    unfold spelling paddedDigits
    rcases Nat.lt_or_ge decimal.scale (Nat.toDigits 10 decimal.coefficient.natAbs).length with
      long | short
    · have unpadded : decimal.scale + 1 -
          (Nat.toDigits 10 decimal.coefficient.natAbs).length = 0 := by
        omega
      simp only [unpadded, List.replicate_zero, List.nil_append]
      rcases toDigits_form decimal.coefficient.natAbs with zero | significant
      · rw [zero, List.length_singleton, Nat.lt_one_iff] at long
        rw [zero, long]
        exact .inl rfl
      · exact .inr (significant.take (Nat.sub_pos_of_lt long))
    · -- All digits stand after the point, and a zero before it.
      obtain ⟨zeros, scale_eq⟩ := Nat.exists_eq_add_of_le short
      have padding : decimal.scale + 1 - (Nat.toDigits 10 decimal.coefficient.natAbs).length =
          zeros + 1 := by
        omega
      have single : zeros + 1 + (Nat.toDigits 10 decimal.coefficient.natAbs).length -
          decimal.scale = 1 := by
        omega
      simp only [padding, List.length_append, List.length_replicate, single]
      exact .inl rfl
  fraction char member := isDigit_padded char (List.mem_of_mem_drop member)

theorem text_eq_signed (decimal : Decimal) :
    decimal.text = String.ofList (decimal.spelling.signed (decimal.coefficient < 0)) := by
  have point : (if decimal.scale = 0 then [] else ['.']) ++ decimal.spelling.fraction =
      Spelling.pointed decimal.spelling.fraction := by
    by_cases whole : decimal.scale = 0
    · have none_left := List.length_eq_zero_iff.mp ((length_fraction decimal).trans whole)
      simp [Spelling.pointed, whole, none_left]
    · have some_left : decimal.spelling.fraction ≠ [] := by
        rintro none_left
        exact whole (by rw [← length_fraction, none_left, List.length_nil])
      simp [Spelling.pointed, whole, some_left]
  rw [text, Spelling.signed, Spelling.chars, ← point]
  simp [spelling, Spelling.exponential]

end Decimal

end QueryClause
