import Mathlib
import QueryClause.Binary64.Shortest
import QueryClause.Proofs.Rounding

/-!
# Decimals of fifteen digits

A decimal of at most fifteen digits is not lost when it is rounded to double
precision: no other such decimal has the same nearest number, as long as all 53
bits of the number are used. The search for the fewest digits that read back
therefore ends at the decimal that was rounded.
-/

namespace QueryClause

/-! ## Digits of whole numbers -/

/-- Digits of which the first is not zero. -/
structure Significant (digits : List Char) : Prop where
  isDigit : ∀ char ∈ digits, char.isDigit
  exists_cons : ∃ first rest, digits = first :: rest ∧ first ≠ '0'

theorem toDigits_significant {number : Nat} (positive : 0 < number) :
    Significant (Nat.toDigits 10 number) where
  isDigit _ member := Nat.isDigit_of_mem_toDigits (by decide) (by decide) member
  exists_cons := by
    induction number using Nat.base_induction 10 (by decide) with
    | single digit small =>
      refine ⟨digit.digitChar, [], Nat.toDigits_of_lt_base small, ?_⟩
      simpa using positive.ne'
    | digit higher digit small higher_pos ih =>
      obtain ⟨first, rest, digits_eq, nonzero⟩ := ih higher_pos
      refine ⟨first, rest ++ Nat.toDigits 10 digit, ?_, nonzero⟩
      rw [← Nat.toDigits_append_toDigits (by decide) higher_pos small, digits_eq, List.cons_append]

theorem toDigits_bracket {number : Nat} (positive : 0 < number) :
    ∃ length, (Nat.toDigits 10 number).length = length + 1 ∧
      10 ^ length ≤ number ∧ number < 10 ^ (length + 1) := by
  obtain ⟨length, length_eq⟩ :=
    Nat.exists_eq_succ_of_ne_zero (Nat.length_toDigits_pos (b := 10) (n := number)).ne'
  refine ⟨length, length_eq, ?_, ?_⟩
  · -- With a digit less the number would have been written shorter.
    rcases Nat.eq_zero_or_pos length with rfl | more
    · exact positive
    · by_contra shorter
      have few := (Nat.length_toDigits_le_iff (b := 10) (by decide) more).mpr (not_le.mp shorter)
      omega
  · exact (Nat.length_toDigits_le_iff (by decide) (by omega)).mp length_eq.le

/-- The digits of a number up to the last one that is not zero. -/
def trimmedDigits (number : Nat) : List Char :=
  (Nat.toDigits 10 number).rdropWhile fun digit => digit == '0'

/-- Zeros at the end of a number go into a power of ten. -/
theorem exists_trimmedDigits {number : Nat} (positive : 0 < number) :
    Significant (trimmedDigits number) ∧
      ∃ zeros, (Nat.toDigits 10 number).length = (trimmedDigits number).length + zeros ∧
        number = 10 ^ zeros * Nat.ofDigitChars 10 (trimmedDigits number) 0 := by
  obtain ⟨isDigit, first, rest, digits_eq, nonzero⟩ := toDigits_significant positive
  obtain ⟨zeros, whole⟩ : ∃ zeros,
      trimmedDigits number ++ List.replicate zeros '0' = Nat.toDigits 10 number := by
    refine ⟨((Nat.toDigits 10 number).rtakeWhile fun digit => digit == '0').length, ?_⟩
    rw [← List.eq_replicate_of_mem fun digit member => by
      simpa using List.mem_rtakeWhile_imp member]
    exact List.rdropWhile_append_rtakeWhile
  refine ⟨⟨fun char member => isDigit char (whole ▸ List.mem_append_left _ member), ?_⟩,
    zeros, ?_, ?_⟩
  · -- The first digit is kept, because it is not zero.
    cases kept : trimmedDigits number with
    | nil =>
      have zero : first = '0' := by
        simpa using List.rdropWhile_eq_nil_iff.mp kept first (by simp [digits_eq])
      exact absurd zero nonzero
    | cons head tail =>
      rw [kept, digits_eq, List.cons_append, List.cons.injEq] at whole
      exact ⟨head, tail, rfl, whole.1 ▸ nonzero⟩
  · rw [← whole, List.length_append, List.length_replicate]
  · conv_lhs => rw [← Nat.ofDigitChars_ten_toDigits (n := number), ← whole,
      Nat.ofDigitChars_append, Nat.ofDigitChars_replicate_zero]

/-! ## The search for the fewest digits -/

/-- The decimal with the given digits and the given exponent of ten of the last. -/
def decimalValue (digits : Nat) (exponent : Int) : ℚ := digits * 10 ^ exponent

theorem ten_zpow_pos (exponent : Int) : (0 : ℚ) < 10 ^ exponent := zpow_pos (by norm_num) exponent

theorem decimalValue_pos {digits : Nat} (positive : 0 < digits) (exponent : Int) :
    0 < decimalValue digits exponent :=
  mul_pos (by exact_mod_cast positive) (ten_zpow_pos exponent)

theorem decimalValue_pow_mul (zeros digits : Nat) (exponent : Int) :
    decimalValue (10 ^ zeros * digits) exponent = decimalValue digits (zeros + exponent) := by
  rw [decimalValue, decimalValue, zpow_add₀ (by norm_num), zpow_natCast]
  push_cast
  ring

/-- A decimal can be written with any smaller exponent. -/
theorem exists_decimalValue_eq (digits : Nat) {fine coarse : Int} (finer : fine ≤ coarse) :
    ∃ times, 0 < times ∧ decimalValue digits coarse = decimalValue (digits * times) fine := by
  obtain ⟨times, positive, times_eq⟩ := Binary64.exists_zpow_eq_mul 10 (by decide) finer
  rw [Nat.cast_ofNat] at times_eq
  exact ⟨times, positive, by rw [decimalValue, decimalValue, times_eq, Nat.cast_mul, mul_assoc]⟩

namespace Binary64

theorem zpow_neg_le_div_iff (numerator : Nat) {denominator : Nat} (below : 0 < denominator)
    (places : Nat) :
    (10 : ℚ) ^ (-(places : Int)) ≤ numerator / denominator ↔
      denominator ≤ numerator * 10 ^ places := by
  rw [zpow_neg, zpow_natCast, inv_eq_one_div,
    div_le_div_iff₀ (by positivity) (by exact_mod_cast below), one_mul]
  exact_mod_cast Iff.rfl

/-- The leading exponent is that of the greatest power of ten within the fraction. -/
theorem leadingExponent_bracket {numerator denominator : Nat} (above : 0 < numerator)
    (below : 0 < denominator) :
    (10 : ℚ) ^ leadingExponent numerator denominator ≤ numerator / denominator ∧
      (numerator / denominator : ℚ) < 10 ^ (leadingExponent numerator denominator + 1) := by
  have divisor : (0 : ℚ) < denominator := by exact_mod_cast below
  have successor (length : Nat) : ((length + 1 : Nat) : Int) - 1 = length := by omega
  unfold leadingExponent
  split
  · next large =>
    obtain ⟨length, length_eq, least, most⟩ := toDigits_bracket (Nat.div_pos large below)
    rw [Nat.le_div_iff_mul_le below] at least
    rw [Nat.div_lt_iff_lt_mul below, pow_succ] at most
    rw [length_eq, successor, le_div_iff₀ divisor, div_lt_iff₀ divisor,
      zpow_add_one₀ (by norm_num), zpow_natCast]
    exact ⟨by exact_mod_cast least, by exact_mod_cast most⟩
  · next small =>
    obtain ⟨length, length_eq, least, most⟩ :=
      toDigits_bracket (Nat.div_pos (not_le.mp small).le above)
    rw [Nat.le_div_iff_mul_le above] at least
    rw [Nat.div_lt_iff_lt_mul above, mul_comm] at most
    dsimp only
    rw [length_eq, Nat.add_sub_cancel, Nat.pow_eq, successor]
    split
    · next reaches =>
      refine ⟨(zpow_neg_le_div_iff numerator below length).mpr reaches, ?_⟩
      calc (numerator / denominator : ℚ) ≤ 10 ^ (-(length : Int)) := by
            rw [zpow_neg, zpow_natCast, inv_eq_one_div, div_le_div_iff₀ divisor (by positivity),
              one_mul, mul_comm]
            exact_mod_cast least
        _ < 10 ^ (-(length : Int) + 1) := zpow_lt_zpow_right₀ (by norm_num) (by omega)
    · next misses =>
      refine ⟨(zpow_neg_le_div_iff numerator below (length + 1)).mpr most.le, ?_⟩
      rw [← zpow_neg_le_div_iff numerator below length, not_le] at misses
      have exponent_eq : -((length + 1 : Nat) : Int) + 1 = -length := by omega
      rwa [exponent_eq]

theorem mem_neighbours_iff {numerator denominator whole : Nat} :
    whole ∈ neighbours numerator denominator ↔
      whole = numerator / denominator ∨ whole = numerator / denominator + 1 := by
  unfold neighbours
  dsimp only
  split
  · simp
  · simp [or_comm]

/-- A decimal reads back as a number other than zero if that is the nearest one. -/
theorem readsBack_iff {number : Binary64} (nonzero : 0 < number.significand) {digits : Nat}
    {exponent : Int} :
    number.readsBack digits exponent = true ↔
      0 < digits ∧ nearest? (decimalValue digits exponent) = some number := by
  rcases Nat.eq_zero_or_pos digits with rfl | positive
  · obtain ⟨zero, zero_eq, significand⟩ :=
      ofRatio?_zero (scaleRatio 10 (-exponent) (0, 1)).2
    simp only [readsBack, scaleRatio_zero, zero_eq, lt_irrefl, false_and, iff_false, beq_iff_eq,
      Option.some.injEq]
    rintro rfl
    exact nonzero.ne' significand
  · have denotes : fraction (scaleRatio 10 (-exponent) (digits, 1)) =
        decimalValue digits exponent := by
      rw [fraction_scaleRatio (by decide)]
      simp [fraction, decimalValue]
    have read := ofRatio?_of_fraction _ (scaleRatio_pos (by decide) (-exponent) Nat.one_pos)
      (decimalValue_pos positive exponent) denotes
    simp only [readsBack, read, beq_iff_eq, positive, true_and]

/-- The exponent of ten of the first digit of a number that is not zero. -/
def leading (number : Binary64) : Int := leadingExponent number.ratio.1 number.ratio.2

theorem decimalOf?_eq (number : Binary64) (count : Nat) :
    number.decimalOf? count =
      ((neighbours (scaleRatio 10 (number.leading - count + 1) number.ratio).1
          (scaleRatio 10 (number.leading - count + 1) number.ratio).2).find? fun digits =>
        number.readsBack digits (number.leading - count + 1)).map
          fun digits => (digits, number.leading - count + 1) := rfl

theorem quotient_eq_floor (number : Binary64) (exponent : Int) :
    (scaleRatio 10 exponent number.ratio).1 / (scaleRatio 10 exponent number.ratio).2 =
      ⌊number.value / 10 ^ exponent⌋₊ := by
  rw [← Nat.floor_div_eq_div (K := ℚ), ← fraction, fraction_scaleRatio (by decide), fraction_ratio,
    Nat.cast_ofNat]

theorem decimalOf?_eq_some {number : Binary64} {count digits : Nat} {exponent : Int}
    (found : number.decimalOf? count = some (digits, exponent)) :
    exponent = number.leading - count + 1 ∧
      digits ≤ ⌊number.value / 10 ^ exponent⌋₊ + 1 ∧ number.readsBack digits exponent = true := by
  rw [decimalOf?_eq, Option.map_eq_some_iff] at found
  obtain ⟨_, candidate, same⟩ := found
  cases same
  have near := mem_neighbours_iff.mp (List.mem_of_find?_eq_some candidate)
  rw [quotient_eq_floor] at near
  have reads := List.find?_some candidate
  exact ⟨rfl, by omega, reads⟩

theorem isSome_decimalOf? {number : Binary64} {count : Nat} {exponent : Int} (digits : Nat)
    (exponent_eq : exponent = number.leading - count + 1)
    (least : ⌊number.value / 10 ^ exponent⌋₊ ≤ digits)
    (most : digits ≤ ⌊number.value / 10 ^ exponent⌋₊ + 1)
    (reads : number.readsBack digits exponent = true) :
    (number.decimalOf? count).isSome := by
  subst exponent_eq
  rw [decimalOf?_eq, Option.isSome_map, List.find?_isSome]
  refine ⟨digits, mem_neighbours_iff.mpr ?_, reads⟩
  rw [quotient_eq_floor]
  omega

theorem shortest_eq {number : Binary64} {digits : Nat} {exponent : Int}
    (search : (List.range' 1 17).findSome? number.decimalOf? = some (digits, exponent)) :
    number.shortest =
      (trimmedDigits digits, (Nat.toDigits 10 digits).length - 1 + exponent) := by
  unfold shortest
  rw [search]
  rfl

/-- The digits are those of the decimal that was found, without the zeros at its end. -/
theorem shortest_value {number : Binary64} {digits : Nat} {exponent : Int}
    (positive : 0 < digits)
    (search : (List.range' 1 17).findSome? number.decimalOf? = some (digits, exponent)) :
    Significant number.shortest.1 ∧
      decimalValue (Nat.ofDigitChars 10 number.shortest.1 0)
        (number.shortest.2 + 1 - number.shortest.1.length) = decimalValue digits exponent := by
  obtain ⟨significant, zeros, length_eq, digits_eq⟩ := exists_trimmedDigits positive
  rw [shortest_eq search]
  refine ⟨significant, ?_⟩
  have exponent_eq : ((Nat.toDigits 10 digits).length : Int) - 1 + exponent + 1 -
      (trimmedDigits digits).length = zeros + exponent := by
    rw [length_eq]
    push_cast
    ring
  calc decimalValue (Nat.ofDigitChars 10 (trimmedDigits digits) 0)
        ((Nat.toDigits 10 digits).length - 1 + exponent + 1 - (trimmedDigits digits).length)
      = decimalValue (10 ^ zeros * Nat.ofDigitChars 10 (trimmedDigits digits) 0) exponent := by
        rw [exponent_eq, decimalValue_pow_mul]
    _ = decimalValue digits exponent := by rw [← digits_eq]

/-! ## Numbers of 53 bits -/

section Normal

variable {number : Binary64} (normal : 2 ^ 52 ≤ number.significand)

include normal

theorem significand_pos : 0 < number.significand :=
  lt_of_lt_of_le (by decide) normal

theorem unit_le_value : (2 ^ 52 : ℚ) * 2 ^ number.exponent ≤ number.value :=
  mul_le_mul_of_nonneg_right (by exact_mod_cast normal) (two_zpow_pos _).le

theorem value_pos : 0 < number.value :=
  mul_pos (by exact_mod_cast significand_pos normal) (two_zpow_pos _)

theorem value_bracket :
    (10 : ℚ) ^ number.leading ≤ number.value ∧ number.value < 10 ^ (number.leading + 1) := by
  have positive := value_pos normal
  rw [← fraction_ratio] at positive ⊢
  exact leadingExponent_bracket (fst_pos_of_fraction positive) number.ratio_snd_pos

theorem value_div_lt (count : Nat) :
    number.value / 10 ^ (number.leading - count + 1) < (10 ^ count : Nat) := by
  rw [div_lt_iff₀ (ten_zpow_pos _), Nat.cast_pow, Nat.cast_ofNat, ← zpow_natCast,
    ← zpow_add₀ (by norm_num)]
  have exponent_eq : count + (number.leading - count + 1) = number.leading + 1 := by ring
  rw [exponent_eq]
  exact (value_bracket normal).2

/-- What is rounded to the number differs from it by a small part of the number. -/
theorem abs_sub_le_of_nearest? {quantity : ℚ} (positive : 0 < quantity)
    (near : nearest? quantity = some number) :
    |quantity - number.value| ≤ number.value / 2 ^ 53 := by
  have off := abs_sub_nearest?_le positive near
  have large := unit_le_value normal
  linarith

/-- What differs from the number by less than a small part of it is rounded to it. -/
theorem nearest?_of_abs_sub_le {quantity : ℚ}
    (near : |quantity - number.value| ≤ number.value / (2 * 10 ^ 16)) :
    nearest? quantity = some number := by
  have unit := two_zpow_pos number.exponent
  have large := unit_le_value normal
  have small : number.value ≤ (2 ^ 53 - 1) * 2 ^ number.exponent := by
    refine mul_le_mul_of_nonneg_right ?_ unit.le
    rw [le_sub_iff_add_le]
    exact_mod_cast number.significand_lt
  obtain ⟨least, most⟩ := abs_le.mp near
  have positive : 0 < quantity := by linarith
  have exponent_ge : minExponent ≤ number.exponent := number.normal.elim And.right ge_of_eq
  by_cases full : 2 ^ 52 * 2 ^ number.exponent ≤ quantity
  · -- Both lie between the same powers of two, so they are counted in the same unit.
    have below : quantity < 2 ^ 53 * 2 ^ number.exponent := by linarith
    rw [← zpow_natCast, ← zpow_add₀ two_ne_zero, zpow_le_iff positive] at full
    rw [← zpow_natCast, ← zpow_add₀ two_ne_zero, lt_zpow_iff positive] at below
    push_cast at full below
    have exponent_eq : unitExponent quantity = number.exponent := by
      unfold unitExponent
      omega
    refine nearest?_eq_some exponent_eq (units_eq positive ?_)
    rw [exponent_eq, ← value, abs_lt]
    constructor <;> linarith
  · -- The number is a power of two, and units are half as large below it.
    have significand_eq : number.significand = 2 ^ 52 := by
      by_contra other
      have larger : (2 ^ 52 + 1 : ℚ) * 2 ^ number.exponent ≤ number.value := by
        refine mul_le_mul_of_nonneg_right ?_ unit.le
        exact_mod_cast lt_of_le_of_ne normal (Ne.symm other)
      linarith
    have value_eq : number.value = 2 ^ 52 * 2 ^ number.exponent := by
      rw [value, significand_eq, Nat.cast_pow, Nat.cast_ofNat]
    have above : 2 ^ 51 * 2 ^ number.exponent ≤ quantity := by linarith
    rw [not_le] at full
    rw [← zpow_natCast, ← zpow_add₀ two_ne_zero, lt_zpow_iff positive] at full
    rw [← zpow_natCast, ← zpow_add₀ two_ne_zero, zpow_le_iff positive] at above
    push_cast at full above
    rcases exponent_ge.eq_or_lt with bottom | higher
    · have exponent_eq : unitExponent quantity = number.exponent := by
        unfold unitExponent
        omega
      refine nearest?_eq_some exponent_eq (units_eq positive ?_)
      rw [exponent_eq, ← value, abs_lt]
      constructor <;> linarith
    · have exponent_eq : unitExponent quantity + 1 = number.exponent := by
        unfold unitExponent
        omega
      have carried : units quantity = 2 ^ 53 := by
        apply units_eq positive
        rw [← exponent_eq, zpow_add_one₀ two_ne_zero] at value_eq
        rw [abs_lt]
        push_cast
        constructor <;> linarith [two_zpow_pos (unitExponent quantity)]
      rw [nearest?, if_pos carried]
      exact ofParts?_eq_some_iff.mpr ⟨significand_eq, exponent_eq.symm⟩

/-- Seventeen digits always read back. -/
theorem isSome_decimalOf?_seventeen : (number.decimalOf? 17).isSome := by
  obtain ⟨place, place_eq⟩ : ∃ place, place = number.leading - (17 : Nat) + 1 := ⟨_, rfl⟩
  have grid := ten_zpow_pos place
  have positive := value_pos normal
  have fine : 10 ^ 16 * 10 ^ place ≤ number.value := by
    calc (10 ^ 16 * 10 ^ place : ℚ) = 10 ^ number.leading := by
          rw [← zpow_natCast, ← zpow_add₀ (by norm_num), place_eq]
          congr 1
          push_cast
          ring
      _ ≤ number.value := (value_bracket normal).1
  have off := abs_sub_nearestEven_le (div_pos positive grid).le
  have near : |decimalValue (nearestEven (number.value / 10 ^ place)) place - number.value| ≤
      number.value / (2 * 10 ^ 16) := by
    obtain ⟨least, most⟩ := abs_le.mp off
    have below := (le_div_iff₀ grid).mp (by linarith :
      nearestEven (number.value / 10 ^ place) - 1 / 2 ≤ number.value / 10 ^ place)
    have above := (div_le_iff₀ grid).mp (by linarith :
      number.value / 10 ^ place ≤ nearestEven (number.value / 10 ^ place) + 1 / 2)
    rw [decimalValue, abs_le]
    constructor <;> linarith
  obtain ⟨floor_le, le_next⟩ := floor_le_nearestEven (number.value / 10 ^ place)
  refine isSome_decimalOf? _ place_eq floor_le le_next ?_
  refine (readsBack_iff (significand_pos normal)).mpr ⟨?_, nearest?_of_abs_sub_le normal near⟩
  rw [Nat.pos_iff_ne_zero]
  intro zero
  rw [zero, decimalValue, Nat.cast_zero, zero_mul, zero_sub, abs_neg, abs_of_pos positive] at near
  linarith

/-- The shortest digits denote a decimal that reads back. -/
theorem exists_shortest_value :
    Significant number.shortest.1 ∧
      0 < decimalValue (Nat.ofDigitChars 10 number.shortest.1 0)
        (number.shortest.2 + 1 - number.shortest.1.length) ∧
      nearest? (decimalValue (Nat.ofDigitChars 10 number.shortest.1 0)
        (number.shortest.2 + 1 - number.shortest.1.length)) = some number := by
  obtain ⟨⟨found, place⟩, search⟩ := Option.isSome_iff_exists.mp
    (List.findSome?_isSome_iff.mpr ⟨17, by decide, isSome_decimalOf?_seventeen normal⟩ :
      ((List.range' 1 17).findSome? number.decimalOf?).isSome)
  obtain ⟨count, -, at_count⟩ := List.exists_of_findSome?_eq_some search
  obtain ⟨positive, near⟩ :=
    (readsBack_iff (significand_pos normal)).mp (decimalOf?_eq_some at_count).2.2
  obtain ⟨significant, value_eq⟩ := shortest_value positive search
  rw [value_eq]
  exact ⟨significant, decimalValue_pos positive place, near⟩

end Normal

/-! ## Decimals of fifteen digits -/

/-- Two decimals with one nearest number of 53 bits are equal if the finer one has
at most fifteen digits: otherwise they differ by a unit of its last digit, and that
is more than a unit of the number. -/
theorem eq_of_nearest?_eq {number : Binary64} (normal : 2 ^ 52 ≤ number.significand)
    {first second : Nat} {coarse fine : Int} (finer : fine ≤ coarse) (first_pos : 0 < first)
    (second_pos : 0 < second) (few : second ≤ 10 ^ 15)
    (first_near : nearest? (decimalValue first coarse) = some number)
    (second_near : nearest? (decimalValue second fine) = some number) :
    decimalValue first coarse = decimalValue second fine := by
  by_contra apart
  have grid := ten_zpow_pos fine
  have unit := two_zpow_pos number.exponent
  have gap : (10 : ℚ) ^ fine ≤ |decimalValue first coarse - decimalValue second fine| := by
    obtain ⟨times, -, times_eq⟩ := exists_decimalValue_eq first finer
    have whole : decimalValue first coarse - decimalValue second fine =
        ((first * times - second : Int) : ℚ) * 10 ^ fine := by
      rw [times_eq, decimalValue, decimalValue]
      push_cast
      ring
    have distinct : (first * times - second : Int) ≠ 0 := by
      intro same
      rw [same, Int.cast_zero, zero_mul] at whole
      exact apart (sub_eq_zero.mp whole)
    rw [whole, abs_mul, abs_of_pos grid, ← Int.cast_abs]
    refine le_mul_of_one_le_left grid.le ?_
    exact_mod_cast Int.one_le_abs distinct
  have first_off := abs_le.mp (abs_sub_nearest?_le (decimalValue_pos first_pos coarse) first_near)
  have second_off := abs_le.mp (abs_sub_nearest?_le (decimalValue_pos second_pos fine) second_near)
  have close : |decimalValue first coarse - decimalValue second fine| ≤ 2 ^ number.exponent :=
    abs_le.mpr ⟨by linarith, by linarith⟩
  have small : decimalValue second fine ≤ 10 ^ 15 * 2 ^ number.exponent :=
    mul_le_mul (by exact_mod_cast few) (gap.trans close) grid.le (by positivity)
  have large := unit_le_value normal
  linarith

/-- The number is the nearest to a decimal of at most fifteen digits, and it has
all its 53 bits. -/
structure StandsFor (number : Binary64) (digits : Nat) (exponent : Int) : Prop where
  normal : 2 ^ 52 ≤ number.significand
  positive : 0 < digits
  few : digits < 10 ^ 15
  near : nearest? (decimalValue digits exponent) = some number

/-- Every decimal of at most fifteen digits and at most 22 places has a number that
stands for it. -/
theorem exists_standsFor {digits : Nat} {exponent : Int} (positive : 0 < digits)
    (few : digits < 10 ^ 15) (least : -22 ≤ exponent) (most : exponent ≤ 0) :
    ∃ number : Binary64, number.StandsFor digits exponent := by
  have quantity_pos := decimalValue_pos positive exponent
  have above : (2 : ℚ) ^ (-1022 : Int) ≤ decimalValue digits exponent := by
    calc (2 : ℚ) ^ (-1022 : Int) ≤ 2 ^ (-88 : Int) := zpow_le_zpow_right₀ one_le_two (by decide)
      _ ≤ 10 ^ (-22 : Int) := by norm_num
      _ ≤ 10 ^ exponent := zpow_le_zpow_right₀ (by norm_num) least
      _ ≤ digits * 10 ^ exponent :=
        le_mul_of_one_le_left (ten_zpow_pos _).le (by exact_mod_cast positive)
  have below : decimalValue digits exponent < 2 ^ (1023 : Int) := by
    calc (digits * 10 ^ exponent : ℚ) ≤ digits :=
          mul_le_of_le_one_right (Nat.cast_nonneg _) (zpow_le_one_of_nonpos₀ (by norm_num) most)
      _ < 10 ^ 15 := by exact_mod_cast few
      _ ≤ 2 ^ (50 : Int) := by norm_num
      _ ≤ 2 ^ (1023 : Int) := zpow_le_zpow_right₀ one_le_two (by decide)
  obtain ⟨number, near⟩ := exists_nearest? quantity_pos below
  exact ⟨number, le_significand quantity_pos ((zpow_le_iff quantity_pos).mp above) near, positive,
    few, near⟩

namespace StandsFor

variable {number : Binary64} {digits : Nat} {exponent : Int}

theorem abs_sub_le (stands : number.StandsFor digits exponent) :
    |decimalValue digits exponent - number.value| ≤ number.value / 2 ^ 53 :=
  abs_sub_le_of_nearest? stands.normal (decimalValue_pos stands.positive exponent) stands.near

/-- The last of fifteen digits of the number is not beyond that of the decimal. -/
theorem leading_le (stands : number.StandsFor digits exponent) :
    number.leading - (15 : Nat) + 1 ≤ exponent := by
  by_contra beyond
  have grid := ten_zpow_pos exponent
  have large : (10 : ℚ) ^ 15 * 10 ^ exponent ≤ number.value := by
    calc (10 : ℚ) ^ 15 * 10 ^ exponent = 10 ^ (15 + exponent) := by
          rw [zpow_add₀ (by norm_num)]
          norm_num
      _ ≤ 10 ^ number.leading := zpow_le_zpow_right₀ (by norm_num) (by omega)
      _ ≤ number.value := (value_bracket stands.normal).1
  have small : decimalValue digits exponent ≤ (10 ^ 15 - 1) * 10 ^ exponent := by
    refine mul_le_mul_of_nonneg_right ?_ grid.le
    rw [le_sub_iff_add_le]
    exact_mod_cast stands.few
  have off := abs_le.mp stands.abs_sub_le
  linarith

/-- Fifteen digits are enough to find the decimal again. -/
theorem isSome_decimalOf?_fifteen (stands : number.StandsFor digits exponent) :
    (number.decimalOf? 15).isSome := by
  have coarser := stands.leading_le
  have below := value_div_lt stands.normal 15
  obtain ⟨place, place_eq⟩ : ∃ place, place = number.leading - (15 : Nat) + 1 := ⟨_, rfl⟩
  rw [← place_eq] at coarser below
  have grid := ten_zpow_pos place
  rw [div_lt_iff₀ grid] at below
  -- The decimal is a whole number of units of the fifteenth digit.
  obtain ⟨times, times_pos, times_eq⟩ := exists_decimalValue_eq digits coarser
  have near := stands.near
  have off := abs_le.mp stands.abs_sub_le
  rw [times_eq] at near off
  rw [decimalValue] at off
  push_cast at below off
  refine isSome_decimalOf? (digits * times) place_eq ?_ ?_ ?_
  · rw [← Nat.lt_add_one_iff, Nat.floor_lt (div_nonneg (value_pos stands.normal).le grid.le),
      div_lt_iff₀ grid]
    push_cast
    linarith
  · have next := Nat.lt_floor_add_one (number.value / 10 ^ place)
    have close : (digits * times : ℚ) < number.value / 10 ^ place + 1 := by
      rw [← sub_lt_iff_lt_add, lt_div_iff₀ grid]
      linarith
    rw [← Nat.lt_add_one_iff]
    exact_mod_cast close.trans (add_lt_add_left next 1)
  · exact (readsBack_iff (significand_pos stands.normal)).mpr
      ⟨Nat.mul_pos stands.positive times_pos, near⟩

/-- Every decimal of at most fifteen digits that the search finds is the decimal. -/
theorem decimalOf?_value (stands : number.StandsFor digits exponent) {count found : Nat}
    {place : Int} (short : count ≤ 15) (search : number.decimalOf? count = some (found, place)) :
    0 < found ∧ decimalValue found place = decimalValue digits exponent := by
  obtain ⟨rfl, most, reads⟩ := decimalOf?_eq_some search
  obtain ⟨found_pos, found_near⟩ := (readsBack_iff (significand_pos stands.normal)).mp reads
  have found_few : found ≤ 10 ^ 15 := by
    have floor_lt := (Nat.floor_lt (div_nonneg (value_pos stands.normal).le
      (ten_zpow_pos _).le)).mpr (value_div_lt stands.normal count)
    exact (most.trans floor_lt).trans (Nat.pow_le_pow_right (by decide) short)
  refine ⟨found_pos, ?_⟩
  rcases le_total (number.leading - count + 1) exponent with finer | coarser
  · exact (eq_of_nearest?_eq stands.normal finer stands.positive found_pos found_few stands.near
      found_near).symm
  · exact eq_of_nearest?_eq stands.normal coarser found_pos stands.positive stands.few.le
      found_near stands.near

/-- The shortest digits of the number are those of the decimal. -/
theorem shortest_value_eq (stands : number.StandsFor digits exponent) :
    Significant number.shortest.1 ∧
      decimalValue (Nat.ofDigitChars 10 number.shortest.1 0)
        (number.shortest.2 + 1 - number.shortest.1.length) = decimalValue digits exponent := by
  obtain ⟨⟨found, place⟩, search⟩ := Option.isSome_iff_exists.mp
    (List.findSome?_isSome_iff.mpr ⟨15, by decide, stands.isSome_decimalOf?_fifteen⟩ :
      ((List.range' 1 15).findSome? number.decimalOf?).isSome)
  obtain ⟨count, member, at_count⟩ := List.exists_of_findSome?_eq_some search
  obtain ⟨positive, value_eq⟩ := stands.decimalOf?_value
    (by rw [List.mem_range'_1] at member; omega) at_count
  have searched : (List.range' 1 17).findSome? number.decimalOf? = some (found, place) := by
    rw [show List.range' 1 17 = List.range' 1 15 ++ [16, 17] from rfl, List.findSome?_append,
      search, Option.some_or]
  rw [← value_eq]
  exact shortest_value positive searched

end StandsFor

end Binary64

end QueryClause
