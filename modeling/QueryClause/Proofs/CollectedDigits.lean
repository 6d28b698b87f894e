import Mathlib
import QueryClause.Json.Number
import QueryClause.Proofs.ShortestDigits

/-!
# Digits collected into a double

The digits of a JSON number are collected into a significand of 64 bits, and from
the first that does not fit on they no longer count. What is dropped is less than a
unit of the last digit collected, so it is no more than a rounding. Together with
the roundings of the significand, of the power of ten and of their product or
quotient the double is a few roundings away from the number. With few digits over
a small power of ten only the quotient is rounded.
-/

namespace QueryClause

open Binary64

/-! ## Digits that lead a number -/

/-- The digits begin the number: it is less than a unit of the last digit above them. -/
structure Leads (digits : Nat) (exponent : Int) (quantity : ℚ) : Prop where
  le : decimalValue digits exponent ≤ quantity
  lt : quantity < decimalValue (digits + 1) exponent

theorem decimalValue_nonneg (digits : Nat) (exponent : Int) : 0 ≤ decimalValue digits exponent :=
  mul_nonneg (Nat.cast_nonneg _) (ten_zpow_pos exponent).le

theorem decimalValue_lt {few many : Nat} (less : few < many) (exponent : Int) :
    decimalValue few exponent < decimalValue many exponent :=
  mul_lt_mul_of_pos_right (by exact_mod_cast less) (ten_zpow_pos exponent)

theorem decimalValue_le {few many : Nat} (le : few ≤ many) (exponent : Int) :
    decimalValue few exponent ≤ decimalValue many exponent :=
  mul_le_mul_of_nonneg_right (by exact_mod_cast le) (ten_zpow_pos exponent).le

namespace Leads

variable {digits : Nat} {exponent : Int} {quantity : ℚ}

theorem refl (digits : Nat) (exponent : Int) :
    Leads digits exponent (decimalValue digits exponent) :=
  ⟨le_rfl, decimalValue_lt (Nat.lt_succ_self _) _⟩

/-- Digits still lead without the last of them. -/
theorem drop {digit : Nat} (small : digit ≤ 9)
    (leads : Leads (10 * digits + digit) (exponent - 1) quantity) :
    Leads digits exponent quantity := by
  have shift (digits : Nat) : decimalValue (10 * digits) (exponent - 1) =
      decimalValue digits exponent := by
    have moved := decimalValue_pow_mul 1 digits (exponent - 1)
    rwa [pow_one, Nat.cast_one, add_sub_cancel] at moved
  constructor
  · rw [← shift]
    exact (decimalValue_le (by omega) _).trans leads.le
  · rw [← shift]
    exact leads.lt.trans_le (decimalValue_le (by omega) _)

/-- Two numbers that many digits lead are close. -/
theorem close {other : ℚ} (many : 2 ^ 52 ≤ digits) (leads : Leads digits exponent quantity)
    (leadsOther : Leads digits exponent other) : Close 1 quantity other := by
  have factor : decimalValue (digits + 1) exponent ≤ decimalValue digits exponent * slack ^ 1 := by
    have unit : (1 : ℚ) ≤ digits / 2 ^ 52 := by
      rw [le_div_iff₀ (by positivity), one_mul]
      exact_mod_cast many
    have grid := ten_zpow_pos exponent
    rw [pow_one, decimalValue, decimalValue, slack, mul_right_comm]
    push_cast
    refine mul_le_mul_of_nonneg_right ?_ grid.le
    linarith
  have slack_nonneg : 0 ≤ slack ^ 1 := (pow_pos Close.slack_pos 1).le
  exact ⟨(leads.lt.le.trans factor).trans (mul_le_mul_of_nonneg_right leadsOther.le slack_nonneg),
    (leadsOther.lt.le.trans factor).trans (mul_le_mul_of_nonneg_right leads.le slack_nonneg)⟩

end Leads

theorem digit_le {char : Char} (isDigit : char.isDigit) : char.toNat - '0'.toNat ≤ 9 := by
  simp only [Char.isDigit, Bool.and_eq_true, decide_eq_true_eq] at isDigit
  have most : char.toNat ≤ 57 := isDigit.2
  have zero : '0'.toNat = 48 := rfl
  omega

/-- A significand leads every number whose digits it begins. -/
theorem leads_ofDigitChars {digits : List Char} (isDigit : ∀ char ∈ digits, char.isDigit)
    (significand : Nat) (exponent : Int) :
    Leads significand exponent
      (decimalValue (Nat.ofDigitChars 10 digits significand) (exponent - digits.length)) := by
  induction digits generalizing significand exponent with
  | nil => simpa using Leads.refl significand exponent
  | cons digit rest ih =>
    obtain ⟨first, others⟩ := List.forall_mem_cons.mp isDigit
    have later := ih others (10 * significand + (digit.toNat - '0'.toNat)) (exponent - 1)
    have places : exponent - 1 - rest.length = exponent - (digit :: rest).length := by
      rw [List.length_cons]
      push_cast
      ring
    rw [← Nat.ofDigitChars_cons, places] at later
    exact later.drop (digit_le first)

namespace JsonNumber

/-! ## Collecting digits -/

theorem le_ofDigitChars (digits : List Char) (start : Nat) :
    start ≤ Nat.ofDigitChars 10 digits start := by
  rw [Nat.ofDigitChars_eq_ofDigitChars_zero]
  exact Nat.le_add_right_of_le (Nat.le_mul_of_pos_left start (Nat.pow_pos (by decide)))

theorem push?_eq_some_iff {significand grown : Nat} {digit : Char} :
    push? significand digit = some grown ↔
      10 * significand + (digit.toNat - '0'.toNat) = grown ∧ grown ≤ maxSignificand := by
  unfold push?
  rw [mul_comm]
  dsimp only
  constructor
  · intro fits
    split at fits
    · next within =>
      cases fits
      exact ⟨rfl, within⟩
    · cases fits
  · rintro ⟨rfl, within⟩
    rw [if_pos within]

theorem push?_of_fits {significand : Nat} {digit : Char} {rest : List Char}
    (fits : Nat.ofDigitChars 10 (digit :: rest) significand ≤ maxSignificand) :
    push? significand digit = some (10 * significand + (digit.toNat - '0'.toNat)) := by
  rw [Nat.ofDigitChars_cons] at fits
  exact push?_eq_some_iff.mpr ⟨rfl, (le_ofDigitChars rest _).trans fits⟩

/-- A significand that has no place for a digit is large. -/
theorem le_of_push?_eq_none {significand : Nat} {digit : Char} (isDigit : digit.isDigit)
    (full : push? significand digit = none) : 2 ^ 52 ≤ significand := by
  have small := digit_le isDigit
  have max_eq : maxSignificand = 2 ^ 64 - 1 := rfl
  by_contra few
  have within : 10 * significand + (digit.toNat - '0'.toNat) ≤ maxSignificand := by
    rw [max_eq]
    omega
  rw [push?_eq_some_iff.mpr ⟨rfl, within⟩] at full
  cases full

-- The bound of `push?` is too large a number to be computed while the collectors are
-- unfolded, so their steps are stated once.
attribute [local irreducible] push?

theorem collectWhole_cons (significand : Nat) (digit : Char) (rest : List Char) :
    collectWhole significand (digit :: rest) =
      match push? significand digit with
      | some grown => collectWhole grown rest
      | none => ⟨significand, rest.length + 1⟩ := rfl

theorem collectFraction_cons (collected : Collected) (digit : Char) (rest : List Char) :
    collectFraction collected (digit :: rest) =
      match push? collected.significand digit with
      | some grown => collectFraction ⟨grown, collected.exponent - 1⟩ rest
      | none => collected := rfl

/-- Digits that fit are collected whole. -/
theorem collectWhole_eq {digits : List Char} {significand : Nat}
    (fits : Nat.ofDigitChars 10 digits significand ≤ maxSignificand) :
    collectWhole significand digits = ⟨Nat.ofDigitChars 10 digits significand, 0⟩ := by
  induction digits generalizing significand with
  | nil => rfl
  | cons digit rest ih =>
    simp only [collectWhole_cons, push?_of_fits fits]
    rw [Nat.ofDigitChars_cons] at fits ⊢
    exact ih fits

theorem collectFraction_eq {digits : List Char} {significand : Nat} {exponent : Int}
    (fits : Nat.ofDigitChars 10 digits significand ≤ maxSignificand) :
    collectFraction ⟨significand, exponent⟩ digits =
      ⟨Nat.ofDigitChars 10 digits significand, exponent - digits.length⟩ := by
  induction digits generalizing significand exponent with
  | nil =>
    rw [List.length_nil, Nat.cast_zero, sub_zero]
    rfl
  | cons digit rest ih =>
    simp only [collectFraction_cons, push?_of_fits fits]
    rw [Nat.ofDigitChars_cons] at fits ⊢
    rw [ih fits, List.length_cons]
    congr 1
    push_cast
    ring

/-- A significand that fits, with a small power of ten. -/
structure Collected.Moderate (collected : Collected) (places : Nat) : Prop where
  significand_le : collected.significand ≤ maxSignificand
  exponent_abs_le : collected.exponent.natAbs ≤ places

theorem Collected.Moderate.mono {collected : Collected} {few many : Nat}
    (moderate : collected.Moderate few) (more : few ≤ many) : collected.Moderate many :=
  ⟨moderate.significand_le, moderate.exponent_abs_le.trans more⟩

theorem collectWhole_moderate (digits : List Char) {significand : Nat}
    (within : significand ≤ maxSignificand) :
    (collectWhole significand digits).Moderate digits.length := by
  induction digits generalizing significand with
  | nil => exact ⟨within, le_rfl⟩
  | cons digit rest ih =>
    rw [collectWhole_cons]
    split
    · next grown fits =>
      exact (ih (push?_eq_some_iff.mp fits).2).mono (Nat.le_succ _)
    · exact ⟨within, by simp only [List.length_cons]; omega⟩

theorem collectFraction_moderate (digits : List Char) {collected : Collected} {places : Nat}
    (moderate : collected.Moderate places) :
    (collectFraction collected digits).Moderate (places + digits.length) := by
  induction digits generalizing collected places with
  | nil => exact moderate
  | cons digit rest ih =>
    rw [collectFraction_cons]
    split
    · next grown fits =>
      have exponent_le := moderate.exponent_abs_le
      have step : Collected.Moderate ⟨grown, collected.exponent - 1⟩ (places + 1) :=
        ⟨(push?_eq_some_iff.mp fits).2, by dsimp only; omega⟩
      exact (ih step).mono (by simp only [List.length_cons]; omega)
    · exact moderate.mono (Nat.le_add_right _ _)

/-! ## Digits that are dropped -/

/-- Digits before the point are all collected, or else those collected lead the
number, whatever stands after the point. -/
theorem collectWhole_leads {digits : List Char} (more : List Char)
    (isDigit : ∀ char ∈ digits ++ more, char.isDigit) (significand : Nat) :
    collectWhole significand digits = ⟨Nat.ofDigitChars 10 digits significand, 0⟩ ∨
      (collectWhole significand digits).exponent ≠ 0 ∧
        2 ^ 52 ≤ (collectWhole significand digits).significand ∧
        Leads (collectWhole significand digits).significand
          (collectWhole significand digits).exponent
          (decimalValue (Nat.ofDigitChars 10 (digits ++ more) significand) (-more.length)) := by
  induction digits generalizing significand with
  | nil => exact .inl rfl
  | cons digit rest ih =>
    obtain ⟨first, others⟩ := List.forall_mem_cons.mp isDigit
    rw [collectWhole_cons]
    split
    · next grown fits =>
      rw [List.cons_append, Nat.ofDigitChars_cons, Nat.ofDigitChars_cons, (push?_eq_some_iff.mp fits).1]
      exact ih others grown
    · next full =>
      have leads := leads_ofDigitChars isDigit significand (rest.length + 1)
      have places : (rest.length + 1 : Int) - (digit :: rest ++ more).length = -more.length := by
        rw [List.length_append, List.length_cons]
        push_cast
        ring
      rw [places] at leads
      exact .inr ⟨by dsimp only; omega, le_of_push?_eq_none first full, leads⟩

/-- Digits after the point are all collected, or else those collected lead the number. -/
theorem collectFraction_leads {digits : List Char} (isDigit : ∀ char ∈ digits, char.isDigit)
    (collected : Collected) :
    collectFraction collected digits =
        ⟨Nat.ofDigitChars 10 digits collected.significand, collected.exponent - digits.length⟩ ∨
      2 ^ 52 ≤ (collectFraction collected digits).significand ∧
        Leads (collectFraction collected digits).significand
          (collectFraction collected digits).exponent
          (decimalValue (Nat.ofDigitChars 10 digits collected.significand)
            (collected.exponent - digits.length)) := by
  induction digits generalizing collected with
  | nil =>
    left
    rw [List.length_nil, Nat.cast_zero, sub_zero]
    rfl
  | cons digit rest ih =>
    obtain ⟨first, others⟩ := List.forall_mem_cons.mp isDigit
    rw [collectFraction_cons]
    split
    · next grown fits =>
      have places : collected.exponent - (digit :: rest).length =
          collected.exponent - 1 - rest.length := by
        rw [List.length_cons]
        push_cast
        ring
      rw [Nat.ofDigitChars_cons, (push?_eq_some_iff.mp fits).1, places]
      exact ih others ⟨grown, collected.exponent - 1⟩
    · next full =>
      exact .inr ⟨le_of_push?_eq_none first full, leads_ofDigitChars isDigit _ _⟩

/-- Whatever is collected after the point, the digits before it lead the result. -/
theorem leads_collectFraction {digits : List Char} (isDigit : ∀ char ∈ digits, char.isDigit)
    (collected : Collected) :
    Leads collected.significand collected.exponent
      (decimalValue (collectFraction collected digits).significand
        (collectFraction collected digits).exponent) := by
  induction digits generalizing collected with
  | nil => exact Leads.refl _ _
  | cons digit rest ih =>
    obtain ⟨first, others⟩ := List.forall_mem_cons.mp isDigit
    rw [collectFraction_cons]
    split
    · next grown fits =>
      have later := ih others ⟨grown, collected.exponent - 1⟩
      dsimp only at later
      rw [← (push?_eq_some_iff.mp fits).1] at later ⊢
      exact later.drop (digit_le first)
    · exact Leads.refl _ _

/-- The digits of a number without an exponent, as far as they are collected. -/
def gather (whole fraction : List Char) : Collected :=
  collectFraction (collectWhole 0 whole) fraction

/-- Digits that are dropped are no more than a rounding. -/
theorem close_gather {whole fraction : List Char}
    (isDigit : ∀ char ∈ whole ++ fraction, char.isDigit) :
    Close 1 (decimalValue (gather whole fraction).significand (gather whole fraction).exponent)
      (decimalValue (Nat.ofDigitChars 10 (whole ++ fraction) 0) (-fraction.length)) := by
  have fractionDigits := (List.forall_mem_append.mp isDigit).2
  rcases collectWhole_leads fraction isDigit 0 with all | ⟨-, many, leads⟩
  · rcases collectFraction_leads fractionDigits (collectWhole 0 whole) with rest | ⟨many, leads⟩
    · rw [gather, rest, all, Nat.ofDigitChars_append, zero_sub]
      exact Close.refl 1 (decimalValue_nonneg _ _)
    · rw [all] at many leads
      rw [← Nat.ofDigitChars_append, zero_sub] at leads
      rw [gather, all]
      exact Leads.close many (Leads.refl _ _) leads
  · exact Leads.close many (leads_collectFraction fractionDigits _) leads

/-! ## Powers of ten -/

theorem exists_power? (places : Nat) (near : places ≤ 100) :
    ∃ power, power? places = some power ∧ power.value ≤ 2 ^ (4 * places) ∧ 1 ≤ power.value ∧
      Close 1 power.value (10 ^ places) := by
  have within : 10 ^ places ≤ 2 ^ (4 * places) := by
    rw [pow_mul]
    exact Nat.pow_le_pow_left (by decide) places
  obtain ⟨power, found, most, least, close⟩ := Binary64.exists_ofNat? within (by omega)
  exact ⟨power, found, most, least (Nat.pow_pos (by decide)), by exact_mod_cast close⟩

/-- Up to the 22nd power of ten nothing is rounded. -/
theorem exists_power?_exact {places : Nat} (near : places ≤ 22) :
    ∃ power, power? places = some power ∧ power.value = 10 ^ places := by
  have few : 5 ^ places < 2 ^ 53 :=
    (Nat.pow_le_pow_right (by decide) near).trans_lt (by decide)
  have split_eq : 10 ^ places = 5 ^ places * 2 ^ places := by
    rw [← Nat.mul_pow]
  obtain ⟨power, found, value_eq⟩ := Binary64.exists_ofNat?_exact (Nat.pow_pos (by decide)) few
    split_eq (by omega)
  exact ⟨power, found, by exact_mod_cast value_eq⟩

/-- Digits after the point are divided by a power of ten. -/
theorem double?_below {digits places : Nat} {value power : Binary64} (below : 0 < places)
    (near : places ≤ maxPower) (value_found : Binary64.ofNat? digits = some value)
    (power_found : power? places = some power) :
    Collected.double? ⟨digits, -places⟩ = value.div? power := by
  have negative : ¬ (0 : Int) ≤ -(places : Int) := by omega
  have places_eq : (- -(places : Int)).toNat = places := by omega
  simp only [Collected.double?, value_found, power_found, negative, places_eq, near, if_true,
    if_false, Option.bind_eq_bind, Option.bind_some]

/-- Digits before the point are multiplied by a power of ten. -/
theorem double?_above {digits places : Nat} {value power : Binary64}
    (near : places ≤ maxPower) (value_found : Binary64.ofNat? digits = some value)
    (power_found : power? places = some power) :
    Collected.double? ⟨digits, places⟩ = value.mul? power := by
  simp only [Collected.double?, value_found, power_found, Int.natCast_nonneg, Int.toNat_natCast,
    near, if_true, Option.bind_eq_bind, Option.bind_some]

/-- A significand and a power of ten, rounded to doubles. -/
structure Operands (significand places : Nat) (value power : Binary64) : Prop where
  value_found : Binary64.ofNat? significand = some value
  value_le : value.value ≤ 2 ^ 64
  value_cases : value.value = 0 ∨ 1 ≤ value.value
  value_close : Close 1 value.value significand
  power_found : power? places = some power
  power_le : power.value ≤ 2 ^ (4 * places)
  power_least : 1 ≤ power.value
  power_close : Close 1 power.value (10 ^ places)

theorem exists_operands {significand places : Nat} (within : significand ≤ maxSignificand)
    (near : places ≤ 100) : ∃ value power, Operands significand places value power := by
  have significand_le : significand ≤ 2 ^ 64 := within.trans (Nat.sub_le _ _)
  obtain ⟨value, value_found, value_le, value_least, value_close⟩ :=
    exists_ofNat? significand_le (by decide)
  obtain ⟨power, power_found, power_le, power_least, power_close⟩ := exists_power? places near
  have value_cases : value.value = 0 ∨ 1 ≤ value.value := by
    rcases Nat.eq_zero_or_pos significand with rfl | positive
    · exact .inl (Close.eq_zero (by exact_mod_cast value_close) value.value_nonneg)
    · exact .inr (value_least positive)
  exact ⟨value, power, value_found, value_le, value_cases, value_close, power_found, power_le,
    power_least, power_close⟩

section Operands

variable {significand places : Nat} {value power : Binary64}

theorem Operands.exists_product (operands : Operands significand places value power)
    (near : places ≤ 100) :
    ∃ number, Collected.double? ⟨significand, places⟩ = some number ∧ number.ZeroOrNormal ∧
      Close 3 number.value (decimalValue significand places) := by
  have normal : value.value * power.value = 0 ∨
      2 ^ (-1022 : Int) ≤ value.value * power.value := by
    refine operands.value_cases.imp (fun zero => by rw [zero, zero_mul]) fun least => ?_
    calc (2 : ℚ) ^ (-1022 : Int) ≤ 2 ^ (0 : Int) := zpow_le_zpow_right₀ one_le_two (by decide)
      _ ≤ value.value * power.value := one_le_mul_of_one_le_of_one_le least operands.power_least
  have small : value.value * power.value < 2 ^ (1023 : Int) := by
    calc value.value * power.value ≤ 2 ^ 64 * 2 ^ (4 * places) :=
          mul_le_mul operands.value_le operands.power_le power.value_nonneg (by positivity)
      _ = 2 ^ ((64 + 4 * places : Nat) : Int) := by rw [zpow_natCast, pow_add]
      _ < 2 ^ (1023 : Int) := zpow_lt_zpow_right₀ one_lt_two (by omega)
  obtain ⟨number, found, full, close⟩ := exists_mul? normal small
  have factors := operands.value_close.mul operands.power_close value.value_nonneg
    (Nat.cast_nonneg _) power.value_nonneg (by positivity)
  rw [double?_above (near.trans (by decide)) operands.value_found operands.power_found,
    decimalValue, zpow_natCast]
  exact ⟨number, found, full, close.trans factors⟩

theorem Operands.exists_quotient (operands : Operands significand places value power)
    (below : 0 < places) (near : places ≤ 100) :
    ∃ number, Collected.double? ⟨significand, -places⟩ = some number ∧ number.ZeroOrNormal ∧
      Close 3 number.value (decimalValue significand (-places)) := by
  have power_pos := zero_lt_one.trans_le operands.power_least
  have normal : value.value / power.value = 0 ∨
      2 ^ (-1022 : Int) ≤ value.value / power.value := by
    refine operands.value_cases.imp (fun zero => by rw [zero, zero_div]) fun least => ?_
    calc (2 : ℚ) ^ (-1022 : Int) ≤ 2 ^ (-(4 * places : Nat) : Int) :=
          zpow_le_zpow_right₀ one_le_two (by omega)
      _ = 1 / 2 ^ (4 * places) := by rw [zpow_neg, zpow_natCast, one_div]
      _ ≤ value.value / power.value :=
          div_le_div₀ value.value_nonneg least power_pos operands.power_le
  have small : value.value / power.value < 2 ^ (1023 : Int) := by
    calc value.value / power.value ≤ value.value :=
          div_le_self value.value_nonneg operands.power_least
      _ ≤ 2 ^ ((64 : Nat) : Int) := by exact_mod_cast operands.value_le
      _ < 2 ^ (1023 : Int) := zpow_lt_zpow_right₀ one_lt_two (by decide)
  obtain ⟨number, found, full, close⟩ := exists_div? power_pos normal small
  have terms := operands.value_close.div operands.power_close value.value_nonneg
    (Nat.cast_nonneg _) power_pos (by positivity)
  rw [double?_below below (near.trans (by decide)) operands.value_found operands.power_found,
    decimalValue, zpow_neg, zpow_natCast, ← div_eq_mul_inv]
  exact ⟨number, found, full, close.trans terms⟩

end Operands

/-- Collected digits denote a double if their power of ten is no more than a
hundred places away, and it is three roundings away from them. -/
theorem Collected.Moderate.exists_double? {collected : Collected}
    (moderate : collected.Moderate 100) :
    ∃ number, collected.double? = some number ∧ number.ZeroOrNormal ∧
      Close 3 number.value (decimalValue collected.significand collected.exponent) := by
  obtain ⟨significand, exponent⟩ := collected
  obtain ⟨within, near⟩ := moderate
  dsimp only at within near ⊢
  obtain ⟨value, power, operands⟩ := exists_operands within near
  by_cases above : 0 ≤ exponent
  · have exponent_eq : (exponent.natAbs : Int) = exponent := by omega
    rw [← exponent_eq]
    exact operands.exists_product near
  · have exponent_eq : -(exponent.natAbs : Int) = exponent := by omega
    rw [← exponent_eq]
    exact operands.exists_quotient (by omega) near

/-- Few digits over a small power of ten are rounded once. -/
theorem double?_eq_nearest? {digits places : Nat} (positive : 0 < digits)
    (few : digits < 2 ^ 53) (below : 0 < places) (near : places ≤ 22) :
    Collected.double? ⟨digits, -places⟩ =
      Binary64.nearest? (decimalValue digits (-places)) := by
  obtain ⟨value, value_found, value_eq⟩ := Binary64.exists_ofNat?_exact positive few
    (by rw [pow_zero, mul_one] : digits = digits * 2 ^ 0) (by decide)
  obtain ⟨power, power_found, power_eq⟩ := exists_power?_exact near
  rw [double?_below below (near.trans (by decide)) value_found power_found,
    Binary64.div?_eq_nearest? (by rw [value_eq]; exact_mod_cast positive)
      (by rw [power_eq]; positivity), value_eq, power_eq, decimalValue, zpow_neg, zpow_natCast,
    div_eq_mul_inv]

/-! ## Numbers without an exponent -/

/-- A number is the whole number of its digits, or the double of those collected. -/
theorem ofDigits?_cases (negative : Bool) {whole : List Char}
    (isDigit : ∀ char ∈ whole, char.isDigit) (fraction : List Char) :
    (fraction = [] ∧ ofDigits? negative whole fraction none =
        some (.integer (if negative then -(Nat.ofDigitChars 10 whole 0 : Int)
          else Nat.ofDigitChars 10 whole 0))) ∨
      ofDigits? negative whole fraction none =
        (gather whole fraction).double?.map (.double negative) := by
  unfold ofDigits?
  dsimp only
  split
  · next unpointed =>
    simp only [Bool.and_eq_true, List.isEmpty_iff, beq_iff_eq] at unpointed
    obtain ⟨⟨rfl, -⟩, exponent_eq⟩ := unpointed
    rcases collectWhole_leads [] (by simpa using isDigit) 0 with all | ⟨nonzero, -⟩
    · cases negative with
      | false => exact .inl ⟨rfl, by rw [all]; rfl⟩
      | true =>
        split
        · next impossible => cases impossible
        · split
          · exact .inl ⟨rfl, by rw [all]; rfl⟩
          · exact .inr rfl
    · exact absurd exponent_eq nonzero
  · exact .inr (by rw [Option.getD_none, add_zero]; rfl)

/-- A number of a hundred digits or fewer is not too large, and four roundings lead
to its double. -/
theorem exists_double?_gather {whole fraction : List Char}
    (isDigit : ∀ char ∈ whole ++ fraction, char.isDigit)
    (short : (whole ++ fraction).length ≤ 100) :
    ∃ number, (gather whole fraction).double? = some number ∧ number.ZeroOrNormal ∧
      Close 4 number.value
        (decimalValue (Nat.ofDigitChars 10 (whole ++ fraction) 0) (-fraction.length)) := by
  rw [List.length_append] at short
  have moderate := collectFraction_moderate fraction
    (collectWhole_moderate whole (Nat.zero_le maxSignificand))
  obtain ⟨number, found, full, close⟩ := (moderate.mono short).exists_double?
  exact ⟨number, found, full, close.trans (close_gather isDigit)⟩

/-- A whole number that fits 64 bits is kept. -/
theorem ofDigits?_whole {value : Int} {whole : List Char} (least : -2 ^ 63 ≤ value)
    (most : value < 2 ^ 64) (digits : Nat.ofDigitChars 10 whole 0 = value.natAbs) :
    ofDigits? (value < 0) whole [] none = some (.integer value) := by
  have max_eq : maxSignificand = 2 ^ 64 - 1 := rfl
  have fits : Nat.ofDigitChars 10 whole 0 ≤ maxSignificand := by
    rw [digits, max_eq]
    omega
  have sign_bit : Nat.pow 2 63 = 2 ^ 63 := rfl
  unfold ofDigits?
  rw [collectWhole_eq fits, digits]
  dsimp only
  by_cases negative : value < 0
  · have signed : 0 < value.natAbs ∧ value.natAbs ≤ Nat.pow 2 63 := by
      rw [sign_bit]
      omega
    simp [negative, signed.2, abs_of_neg negative, negative.ne]
  · simp [negative, not_lt.mp negative]

/-- Digits with a point that fit are collected whole. -/
theorem ofDigits?_fraction {negative : Bool} {whole fraction : List Char}
    (pointed : fraction ≠ [])
    (fits : Nat.ofDigitChars 10 (whole ++ fraction) 0 ≤ maxSignificand) :
    ofDigits? negative whole fraction none =
      (Collected.double? ⟨Nat.ofDigitChars 10 (whole ++ fraction) 0, -fraction.length⟩).map
        (.double negative) := by
  rw [Nat.ofDigitChars_append] at fits ⊢
  have whole_fits : Nat.ofDigitChars 10 whole 0 ≤ maxSignificand :=
    (le_ofDigitChars fraction _).trans fits
  have not_empty : fraction.isEmpty = false := List.isEmpty_eq_false_iff.mpr pointed
  unfold ofDigits?
  simp only [collectWhole_eq whole_fits, collectFraction_eq fits, not_empty, Bool.false_and,
    Bool.false_eq_true, if_false, Option.getD_none, add_zero, zero_sub]

end JsonNumber

end QueryClause
