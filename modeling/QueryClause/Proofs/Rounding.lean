import Mathlib
import QueryClause.Binary64

/-!
# Rounding to double precision

The exact value of a double precision number is a rational number, and rounding a
fraction is a function of the rational number that it denotes: the exponent of two
is that of the unit that leaves 53 binary digits, and the significand is the
nearest whole number of units. The result is at most half a unit away, and a
rational number that has 53 binary digits is its own result.
-/

namespace QueryClause.Binary64

/-! ## Exact values -/

/-- The rational number that a fraction of whole numbers denotes. -/
def fraction (ratio : Nat × Nat) : ℚ := ratio.1 / ratio.2

/-- The exact value of a number. -/
def value (number : Binary64) : ℚ := number.significand * 2 ^ number.exponent

theorem value_nonneg (number : Binary64) : 0 ≤ number.value :=
  mul_nonneg (Nat.cast_nonneg _) (zpow_nonneg zero_le_two _)

theorem fraction_scaleRatio {base : Nat} (positive : 0 < base) (exponent : Int)
    (ratio : Nat × Nat) :
    fraction (scaleRatio base exponent ratio) = fraction ratio / base ^ exponent := by
  have nonzero : (base : ℚ) ≠ 0 := by exact_mod_cast positive.ne'
  unfold scaleRatio fraction
  split
  · next above =>
    obtain ⟨places, rfl⟩ := Int.eq_ofNat_of_zero_le above
    simp [div_div]
  · next below =>
    obtain ⟨places, rfl⟩ : ∃ places : Nat, exponent = -(places : Int) :=
      ⟨(-exponent).toNat, by omega⟩
    simp only [neg_neg, Int.toNat_natCast, Nat.pow_eq, Nat.cast_mul, Nat.cast_pow, zpow_neg,
      zpow_natCast, div_inv_eq_mul]
    ring

theorem scaleRatio_pos {base : Nat} (positive : 0 < base) (exponent : Int) {ratio : Nat × Nat}
    (denominator : 0 < ratio.2) : 0 < (scaleRatio base exponent ratio).2 := by
  unfold scaleRatio
  split
  · exact Nat.mul_pos denominator (Nat.pow_pos positive)
  · exact denominator

theorem scaleRatio_zero (base : Nat) (exponent : Int) (denominator : Nat) :
    (scaleRatio base exponent (0, denominator)).1 = 0 := by
  unfold scaleRatio
  split
  · rfl
  · exact Nat.zero_mul _

@[simp]
theorem fraction_ratio (number : Binary64) : fraction number.ratio = number.value := by
  rw [ratio, fraction_scaleRatio (by decide), value]
  simp [fraction]

theorem ratio_snd_pos (number : Binary64) : 0 < number.ratio.2 :=
  scaleRatio_pos (by decide) _ Nat.one_pos

theorem fst_pos_of_fraction {ratio : Nat × Nat} (positive : 0 < fraction ratio) :
    0 < ratio.1 := by
  rw [Nat.pos_iff_ne_zero]
  intro zero
  rw [fraction, zero, Nat.cast_zero, zero_div] at positive
  exact lt_irrefl _ positive

/-- A power of a base is a whole number of times each smaller power. -/
theorem exists_zpow_eq_mul (base : Nat) (positive : 0 < base) {fine coarse : Int}
    (finer : fine ≤ coarse) :
    ∃ times : Nat, 0 < times ∧ (base : ℚ) ^ coarse = times * (base : ℚ) ^ fine := by
  obtain ⟨places, places_eq⟩ := Int.eq_ofNat_of_zero_le (sub_nonneg.mpr finer)
  have nonzero : (base : ℚ) ≠ 0 := by exact_mod_cast positive.ne'
  refine ⟨base ^ places, Nat.pow_pos positive, ?_⟩
  rw [Nat.cast_pow, ← zpow_natCast, ← places_eq, ← zpow_add₀ nonzero, sub_add_cancel]

theorem ofParts?_eq_some_iff {significand : Nat} {exponent : Int} {number : Binary64} :
    ofParts? significand exponent = some number ↔
      number.significand = significand ∧ number.exponent = exponent := by
  unfold ofParts?
  constructor
  · intro found
    split at found
    · cases found
      exact ⟨rfl, rfl⟩
    · cases found
  · rintro ⟨rfl, rfl⟩
    rw [dif_pos ⟨number.significand_lt, number.exponent_le, number.normal⟩]

/-! ## The nearest whole number -/

/-- A rational number rounded to the nearest whole number, a tie to the even one. -/
def nearestEven (quantity : ℚ) : Nat :=
  let below := ⌊quantity⌋₊
  if 1 / 2 < quantity - below ∨ quantity - below = 1 / 2 ∧ below % 2 = 1 then below + 1 else below

theorem roundedQuotient_eq (numerator : Nat) {denominator : Nat} (positive : 0 < denominator) :
    roundedQuotient numerator denominator = nearestEven (numerator / denominator) := by
  have nonzero : (0 : ℚ) < denominator := by exact_mod_cast positive
  have rest : (numerator / denominator : ℚ) - (numerator / denominator : Nat) =
      (numerator % denominator : Nat) / denominator := by
    rw [eq_div_iff nonzero.ne', sub_mul, div_mul_cancel₀ _ nonzero.ne', sub_eq_iff_eq_add']
    exact_mod_cast (Nat.div_add_mod' numerator denominator).symm
  have more : (1 / 2 : ℚ) < (numerator % denominator : Nat) / denominator ↔
      denominator < 2 * (numerator % denominator) := by
    rw [div_lt_div_iff₀ two_pos nonzero, one_mul, mul_comm]
    exact_mod_cast Iff.rfl
  have half : ((numerator % denominator : Nat) / denominator : ℚ) = 1 / 2 ↔
      denominator = 2 * (numerator % denominator) := by
    rw [div_eq_div_iff nonzero.ne' two_ne_zero, one_mul, eq_comm, mul_comm]
    exact_mod_cast Iff.rfl
  simp only [roundedQuotient, nearestEven, Nat.floor_div_eq_div, rest, more, half, Bool.or_eq_true,
    Bool.and_eq_true, decide_eq_true_eq, beq_iff_eq]

theorem floor_le_nearestEven (quantity : ℚ) :
    ⌊quantity⌋₊ ≤ nearestEven quantity ∧ nearestEven quantity ≤ ⌊quantity⌋₊ + 1 := by
  unfold nearestEven
  dsimp only
  split <;> omega

theorem nearestEven_natCast (whole : Nat) : nearestEven whole = whole := by
  simp [nearestEven]

theorem nearestEven_le {quantity : ℚ} {bound : Nat} (within : quantity ≤ bound) :
    nearestEven quantity ≤ bound := by
  rcases (Nat.floor_le_of_le within).eq_or_lt with same | less
  · -- The floor is the bound, so nothing is left to round up.
    have reached : quantity ≤ (⌊quantity⌋₊ : ℚ) := by rw [same]; exact within
    rw [nearestEven, if_neg, same]
    rintro (more | ⟨half, -⟩) <;> linarith
  · exact (floor_le_nearestEven quantity).2.trans less

theorem le_nearestEven {quantity : ℚ} {bound : Nat} (within : bound ≤ quantity) :
    bound ≤ nearestEven quantity :=
  (Nat.le_floor within).trans (floor_le_nearestEven quantity).1

theorem abs_sub_nearestEven_le {quantity : ℚ} (positive : 0 ≤ quantity) :
    |quantity - nearestEven quantity| ≤ 1 / 2 := by
  have least := Nat.floor_le positive
  have most := Nat.lt_floor_add_one quantity
  unfold nearestEven
  dsimp only
  rw [abs_le]
  split
  · next up =>
    push_cast
    rcases up with more | ⟨half, -⟩ <;> constructor <;> linarith
  · next down =>
    have few : quantity - ⌊quantity⌋₊ ≤ 1 / 2 := not_lt.mp fun more => down (.inl more)
    constructor <;> linarith

theorem nearestEven_eq {quantity : ℚ} {whole : Nat} (positive : 0 ≤ quantity)
    (near : |quantity - whole| < 1 / 2) : nearestEven quantity = whole := by
  have off := abs_le.mp (abs_sub_nearestEven_le positive)
  have close := abs_lt.mp near
  have below : (nearestEven quantity : ℚ) < whole + 1 := by linarith
  have above : (whole : ℚ) < nearestEven quantity + 1 := by linarith
  exact le_antisymm (Nat.lt_add_one_iff.mp (by exact_mod_cast below))
    (Nat.lt_add_one_iff.mp (by exact_mod_cast above))

/-! ## The nearest number -/

/-- The exponent of the unit in which a positive rational number has 53 binary
digits before the point, or of the least unit. -/
def unitExponent (quantity : ℚ) : Int := max (Int.log 2 quantity - 52) minExponent

/-- A positive rational number in units, rounded. -/
def units (quantity : ℚ) : Nat := nearestEven (quantity / 2 ^ unitExponent quantity)

/-- The number nearest to a positive rational number, if there is one. -/
def nearest? (quantity : ℚ) : Option Binary64 :=
  if units quantity = 2 ^ 53 then ofParts? (2 ^ 52) (unitExponent quantity + 1)
  else ofParts? (units quantity) (unitExponent quantity)

theorem two_zpow_pos (exponent : Int) : (0 : ℚ) < 2 ^ exponent := zpow_pos two_pos exponent

theorem zpow_le_iff {quantity : ℚ} (positive : 0 < quantity) {exponent : Int} :
    2 ^ exponent ≤ quantity ↔ exponent ≤ Int.log 2 quantity := by
  exact_mod_cast Int.zpow_le_iff_le_log (b := 2) (by decide) positive

theorem lt_zpow_iff {quantity : ℚ} (positive : 0 < quantity) {exponent : Int} :
    quantity < 2 ^ exponent ↔ Int.log 2 quantity < exponent := by
  exact_mod_cast Int.lt_zpow_iff_log_lt (b := 2) (by decide) positive

theorem natCast_bracket {number : Nat} (positive : 0 < number) :
    (2 : ℚ) ^ (number.log2 : Int) ≤ number ∧ (number : ℚ) < 2 ^ (number.log2 + 1 : Int) := by
  constructor
  · exact_mod_cast Nat.log2_self_le positive.ne'
  · exact_mod_cast Nat.lt_log2_self

/-- Binary lengths give the binary logarithm of a fraction up to one. -/
theorem log_fraction {numerator denominator : Nat} (above : 0 < numerator)
    (below : 0 < denominator) :
    (numerator.log2 : Int) - denominator.log2 - 1 ≤ Int.log 2 (numerator / denominator : ℚ) ∧
      Int.log 2 (numerator / denominator : ℚ) ≤ (numerator.log2 : Int) - denominator.log2 := by
  obtain ⟨least, most⟩ := natCast_bracket above
  obtain ⟨low, high⟩ := natCast_bracket below
  have divisor : (0 : ℚ) < denominator := by exact_mod_cast below
  have positive : (0 : ℚ) < numerator / denominator := div_pos (by exact_mod_cast above) divisor
  rw [← zpow_le_iff positive, ← Int.lt_add_one_iff, ← lt_zpow_iff positive, le_div_iff₀ divisor,
    div_lt_iff₀ divisor]
  constructor
  · calc (2 : ℚ) ^ ((numerator.log2 : Int) - denominator.log2 - 1) * denominator
        ≤ 2 ^ ((numerator.log2 : Int) - denominator.log2 - 1) *
            2 ^ (denominator.log2 + 1 : Int) := by
          gcongr
      _ = 2 ^ (numerator.log2 : Int) := by
          rw [← zpow_add₀ two_ne_zero]
          congr 1
          ring
      _ ≤ numerator := least
  · calc (numerator : ℚ) < 2 ^ (numerator.log2 + 1 : Int) := most
      _ = 2 ^ ((numerator.log2 : Int) - denominator.log2 + 1) * 2 ^ (denominator.log2 : Int) := by
          rw [← zpow_add₀ two_ne_zero]
          congr 1
          ring
      _ ≤ 2 ^ ((numerator.log2 : Int) - denominator.log2 + 1) * denominator := by
          gcongr

/-- Rounding a fraction depends only on the rational number that it denotes. -/
theorem ofRatio?_eq_nearest? {numerator denominator : Nat} (above : 0 < numerator)
    (below : 0 < denominator) :
    ofRatio? numerator denominator = nearest? (numerator / denominator) := by
  have divisor : (0 : ℚ) < denominator := by exact_mod_cast below
  have positive : (0 : ℚ) < numerator / denominator := div_pos (by exact_mod_cast above) divisor
  obtain ⟨least, most⟩ := log_fraction above below
  set quantity : ℚ := numerator / denominator with quantity_eq
  set guess := max ((numerator.log2 : Int) - denominator.log2 - 53) minExponent with guess_eq
  -- The quotient at the first guess has 54 bits or fewer than that.
  have scaled (exponent : Int) : quantity / 2 ^ exponent =
      fraction (scaleRatio 2 exponent (numerator, denominator)) := by
    rw [fraction_scaleRatio (by decide)]
    rfl
  have large : Nat.pow 2 53 ≤ (scaleRatio 2 guess (numerator, denominator)).1 /
      (scaleRatio 2 guess (numerator, denominator)).2 ↔ guess + 53 ≤ Int.log 2 quantity := by
    rw [← Nat.floor_div_eq_div (K := ℚ), Nat.le_floor_iff (by positivity), ← fraction, ← scaled,
      le_div_iff₀ (two_zpow_pos guess), ← zpow_le_iff positive, add_comm guess,
      zpow_add₀ two_ne_zero]
    norm_num
  have exponent_eq : (if Nat.pow 2 53 ≤ (scaleRatio 2 guess (numerator, denominator)).1 /
      (scaleRatio 2 guess (numerator, denominator)).2 then guess + 1 else guess) =
        unitExponent quantity := by
    simp only [large, unitExponent]
    split <;> omega
  have units_eq : roundedQuotient (scaleRatio 2 (unitExponent quantity) (numerator, denominator)).1
      (scaleRatio 2 (unitExponent quantity) (numerator, denominator)).2 = units quantity := by
    rw [roundedQuotient_eq _ (scaleRatio_pos (by decide) _ below), units, scaled]
    rfl
  simp only [ofRatio?, above.ne', if_false, ← guess_eq, exponent_eq, units_eq]
  rfl

theorem ofRatio?_of_fraction (ratio : Nat × Nat) (below : 0 < ratio.2) {quantity : ℚ}
    (positive : 0 < quantity) (denotes : fraction ratio = quantity) :
    ofRatio? ratio.1 ratio.2 = nearest? quantity := by
  subst denotes
  exact ofRatio?_eq_nearest? (fst_pos_of_fraction positive) below

theorem ofRatio?_zero (denominator : Nat) :
    ∃ zero : Binary64, ofRatio? 0 denominator = some zero ∧ zero.significand = 0 :=
  ⟨⟨0, minExponent, by decide, by decide, .inr rfl⟩, rfl, rfl⟩

/-! ## How good the result is -/

section Nearest

variable {quantity : ℚ}

theorem quantity_lt_units (positive : 0 < quantity) :
    quantity / 2 ^ unitExponent quantity < 2 ^ 53 := by
  rw [div_lt_iff₀ (two_zpow_pos _), ← zpow_natCast, ← zpow_add₀ two_ne_zero, lt_zpow_iff positive]
  unfold unitExponent
  push_cast
  omega

theorem units_le (positive : 0 < quantity) : units quantity ≤ 2 ^ 53 :=
  nearestEven_le (by exact_mod_cast (quantity_lt_units positive).le)

theorem unit_mul_le (positive : 0 < quantity) (normal : -1022 ≤ Int.log 2 quantity) :
    2 ^ 52 * 2 ^ unitExponent quantity ≤ quantity := by
  rw [← zpow_natCast, ← zpow_add₀ two_ne_zero, zpow_le_iff positive]
  unfold unitExponent minExponent
  push_cast
  omega

/-- Above the least normal number all 53 bits are there. -/
theorem le_units (positive : 0 < quantity) (normal : -1022 ≤ Int.log 2 quantity) :
    2 ^ 52 ≤ units quantity := by
  apply le_nearestEven
  rw [le_div_iff₀ (two_zpow_pos _)]
  exact_mod_cast unit_mul_le positive normal

theorem units_eq {whole : Nat} (positive : 0 < quantity)
    (near : |quantity - whole * 2 ^ unitExponent quantity| < 2 ^ unitExponent quantity / 2) :
    units quantity = whole := by
  have unit := two_zpow_pos (unitExponent quantity)
  obtain ⟨least, most⟩ := abs_lt.mp near
  have above : whole - 1 / 2 < quantity / 2 ^ unitExponent quantity := by
    rw [lt_div_iff₀ unit]
    linarith
  have below : quantity / 2 ^ unitExponent quantity < whole + 1 / 2 := by
    rw [div_lt_iff₀ unit]
    linarith
  exact nearestEven_eq (div_pos positive unit).le (abs_lt.mpr ⟨by linarith, by linarith⟩)

/-- The value of the nearest number is a whole number of units. -/
theorem value_nearest? {number : Binary64} (found : nearest? quantity = some number) :
    number.value = units quantity * 2 ^ unitExponent quantity ∧
      unitExponent quantity ≤ number.exponent := by
  unfold nearest? at found
  split at found
  · next carried =>
    obtain ⟨significand, exponent⟩ := ofParts?_eq_some_iff.mp found
    rw [value, significand, exponent, carried, zpow_add₀ two_ne_zero]
    refine ⟨?_, by omega⟩
    push_cast
    ring
  · obtain ⟨significand, exponent⟩ := ofParts?_eq_some_iff.mp found
    rw [value, significand, exponent]
    exact ⟨rfl, le_rfl⟩

theorem nearest?_eq_some {number : Binary64} (exponent_eq : unitExponent quantity = number.exponent)
    (significand_eq : units quantity = number.significand) : nearest? quantity = some number := by
  have fits : number.significand ≠ 2 ^ 53 := number.significand_lt.ne
  rw [nearest?, significand_eq, if_neg fits]
  exact ofParts?_eq_some_iff.mpr ⟨rfl, exponent_eq.symm⟩

theorem exists_nearest? (positive : 0 < quantity) (small : quantity < 2 ^ (1023 : Int)) :
    ∃ number, nearest? quantity = some number := by
  rw [lt_zpow_iff positive] at small
  have most := units_le positive
  have exponent_le : unitExponent quantity + 1 ≤ maxExponent := by
    unfold unitExponent minExponent maxExponent
    omega
  have least : minExponent ≤ unitExponent quantity := le_max_right _ _
  unfold nearest?
  split
  · exact ⟨⟨2 ^ 52, unitExponent quantity + 1, by decide, exponent_le,
      .inl ⟨le_rfl, by omega⟩⟩, ofParts?_eq_some_iff.mpr ⟨rfl, rfl⟩⟩
  · next fits =>
    refine ⟨⟨units quantity, unitExponent quantity, lt_of_le_of_ne most fits, by omega, ?_⟩,
      ofParts?_eq_some_iff.mpr ⟨rfl, rfl⟩⟩
    by_cases normal : -1022 ≤ Int.log 2 quantity
    · exact .inl ⟨le_units positive normal, least⟩
    · refine .inr ?_
      unfold unitExponent minExponent
      omega

/-- The nearest number is at most half a unit away. -/
theorem abs_sub_nearest?_le_unit (positive : 0 < quantity) {number : Binary64}
    (found : nearest? quantity = some number) :
    |quantity - number.value| ≤ 2 ^ unitExponent quantity / 2 := by
  obtain ⟨value_eq, -⟩ := value_nearest? found
  have unit := two_zpow_pos (unitExponent quantity)
  have near : |quantity / 2 ^ unitExponent quantity - units quantity| ≤ 1 / 2 :=
    abs_sub_nearestEven_le (by positivity)
  calc |quantity - number.value|
      = |quantity / 2 ^ unitExponent quantity - units quantity| * 2 ^ unitExponent quantity := by
        rw [value_eq, ← abs_of_pos unit, ← abs_mul, abs_of_pos unit, sub_mul,
          div_mul_cancel₀ _ unit.ne']
    _ ≤ 1 / 2 * 2 ^ unitExponent quantity := by gcongr
    _ = 2 ^ unitExponent quantity / 2 := by ring

theorem abs_sub_nearest?_le (positive : 0 < quantity) {number : Binary64}
    (found : nearest? quantity = some number) :
    |quantity - number.value| ≤ 2 ^ number.exponent / 2 := by
  have larger : (2 : ℚ) ^ unitExponent quantity ≤ 2 ^ number.exponent :=
    zpow_le_zpow_right₀ one_le_two (value_nearest? found).2
  linarith [abs_sub_nearest?_le_unit positive found]

/-- Above the least normal number the significand of the result has all its bits. -/
theorem le_significand (positive : 0 < quantity) (normal : -1022 ≤ Int.log 2 quantity)
    {number : Binary64} (found : nearest? quantity = some number) :
    2 ^ 52 ≤ number.significand := by
  unfold nearest? at found
  split at found
  · exact (ofParts?_eq_some_iff.mp found).1.ge
  · rw [(ofParts?_eq_some_iff.mp found).1]
    exact le_units positive normal

/-- A rational number of 53 binary digits is rounded to itself. -/
theorem value_nearest?_of_exact (positive : 0 < quantity) {significand : Nat} {exponent : Int}
    (few : significand < 2 ^ 53) (least : minExponent ≤ exponent)
    (quantity_eq : quantity = significand * 2 ^ exponent) {number : Binary64}
    (found : nearest? quantity = some number) : number.value = quantity := by
  have small : Int.log 2 quantity < 53 + exponent := by
    rw [← lt_zpow_iff positive, quantity_eq, zpow_add₀ two_ne_zero]
    gcongr
    exact_mod_cast few
  have finer : unitExponent quantity ≤ exponent := by
    unfold unitExponent
    omega
  obtain ⟨times, -, times_eq⟩ := exists_zpow_eq_mul 2 two_pos finer
  rw [Nat.cast_ofNat] at times_eq
  have whole : quantity / 2 ^ unitExponent quantity = (significand * times : Nat) := by
    rw [div_eq_iff (two_zpow_pos _).ne', Nat.cast_mul, mul_assoc, ← times_eq]
    exact quantity_eq
  rw [(value_nearest? found).1, units, whole, nearestEven_natCast, ← whole,
    div_mul_cancel₀ _ (two_zpow_pos _).ne']

/-- Rounding does not cross a power of two from below. -/
theorem value_nearest?_le (positive : 0 < quantity) {exponent : Int}
    (least : minExponent ≤ exponent) (within : quantity ≤ 2 ^ exponent) {number : Binary64}
    (found : nearest? quantity = some number) : number.value ≤ 2 ^ exponent := by
  have small : Int.log 2 quantity ≤ exponent := by
    have log_le := Int.log_mono_right (b := 2) positive within
    have log_eq := Int.log_zpow (R := ℚ) (b := 2) (by decide) exponent
    push_cast at log_eq
    rwa [log_eq] at log_le
  have finer : unitExponent quantity ≤ exponent := by
    unfold unitExponent
    omega
  obtain ⟨times, -, times_eq⟩ := exists_zpow_eq_mul 2 two_pos finer
  rw [Nat.cast_ofNat] at times_eq
  rw [(value_nearest? found).1, times_eq]
  gcongr
  apply nearestEven_le
  rwa [div_le_iff₀ (two_zpow_pos _), ← times_eq]

/-- Rounding does not cross a power of two from above. -/
theorem le_value_nearest? (positive : 0 < quantity) {exponent : Int} (normal : -1022 ≤ exponent)
    (within : 2 ^ exponent ≤ quantity) {number : Binary64}
    (found : nearest? quantity = some number) : 2 ^ exponent ≤ number.value := by
  rw [zpow_le_iff positive] at within
  calc (2 : ℚ) ^ exponent ≤ 2 ^ (52 + unitExponent quantity) := by
        gcongr
        · exact one_le_two
        · unfold unitExponent
          omega
    _ = (2 ^ 52 : Nat) * 2 ^ unitExponent quantity := by
        rw [zpow_add₀ two_ne_zero]
        norm_num
    _ ≤ units quantity * 2 ^ unitExponent quantity := by
        gcongr
        exact le_units positive (normal.trans within)
    _ = number.value := (value_nearest? found).1.symm

end Nearest

/-! ## Relative errors -/

/-- The factor by which one rounding changes a number at most. -/
def slack : ℚ := 1 + 1 / 2 ^ 52

/-- Two numbers are apart by at most a given number of roundings. -/
structure Close (steps : Nat) (first second : ℚ) : Prop where
  first_le : first ≤ second * slack ^ steps
  second_le : second ≤ first * slack ^ steps

namespace Close

variable {many more : Nat} {first second third fourth : ℚ}

theorem slack_pos : 0 < slack := by
  unfold slack
  norm_num

theorem trans (close : Close many first second) (onward : Close more second third) :
    Close (many + more) first third := by
  have factor := pow_pos slack_pos
  constructor
  · calc first ≤ second * slack ^ many := close.first_le
      _ ≤ third * slack ^ more * slack ^ many :=
          mul_le_mul_of_nonneg_right onward.first_le (factor many).le
      _ = third * slack ^ (many + more) := by ring
  · calc third ≤ second * slack ^ more := onward.second_le
      _ ≤ first * slack ^ many * slack ^ more :=
          mul_le_mul_of_nonneg_right close.second_le (factor more).le
      _ = first * slack ^ (many + more) := by ring

theorem refl (steps : Nat) {quantity : ℚ} (nonneg : 0 ≤ quantity) :
    Close steps quantity quantity := by
  have larger : quantity ≤ quantity * slack ^ steps :=
    le_mul_of_one_le_right nonneg (one_le_pow₀ (by unfold slack; norm_num))
  exact ⟨larger, larger⟩

theorem eq_zero (close : Close many first 0) (nonneg : 0 ≤ first) : first = 0 :=
  le_antisymm (by simpa using close.first_le) nonneg

theorem mul (left : Close many first second) (right : Close more third fourth)
    (first_nonneg : 0 ≤ first) (second_nonneg : 0 ≤ second) (third_nonneg : 0 ≤ third)
    (fourth_nonneg : 0 ≤ fourth) : Close (many + more) (first * third) (second * fourth) := by
  have factor := pow_pos slack_pos
  constructor
  · calc first * third ≤ second * slack ^ many * (fourth * slack ^ more) :=
          mul_le_mul left.first_le right.first_le third_nonneg
            (mul_nonneg second_nonneg (factor many).le)
      _ = second * fourth * slack ^ (many + more) := by ring
  · calc second * fourth ≤ first * slack ^ many * (third * slack ^ more) :=
          mul_le_mul left.second_le right.second_le fourth_nonneg
            (mul_nonneg first_nonneg (factor many).le)
      _ = first * third * slack ^ (many + more) := by ring

theorem inv (close : Close many first second) (first_pos : 0 < first) (second_pos : 0 < second) :
    Close many first⁻¹ second⁻¹ := by
  constructor
  · rw [inv_mul_eq_div, le_div_iff₀ second_pos, inv_mul_le_iff₀ first_pos]
    exact close.second_le
  · rw [inv_mul_eq_div, le_div_iff₀ first_pos, inv_mul_le_iff₀ second_pos]
    exact close.first_le

theorem div (left : Close many first second) (right : Close more third fourth)
    (first_nonneg : 0 ≤ first) (second_nonneg : 0 ≤ second) (third_pos : 0 < third)
    (fourth_pos : 0 < fourth) : Close (many + more) (first / third) (second / fourth) := by
  rw [div_eq_mul_inv, div_eq_mul_inv]
  exact left.mul (right.inv third_pos fourth_pos) first_nonneg second_nonneg
    (inv_pos.mpr third_pos).le (inv_pos.mpr fourth_pos).le

theorem of_abs_sub_le (second_nonneg : 0 ≤ second) (near : |first - second| ≤ second / 2 ^ 53) :
    Close 1 first second := by
  obtain ⟨least, most⟩ := abs_le.mp near
  constructor <;> rw [pow_one, slack] <;> linarith

/-- A few roundings leave a small relative error. -/
theorem abs_sub_le (close : Close 5 first second) (first_nonneg : 0 ≤ first)
    (second_nonneg : 0 ≤ second) : |first - second| ≤ second / 2 ^ 49 := by
  have factor : slack ^ 5 ≤ 1 + 1 / 2 ^ 49 := by
    unfold slack
    norm_num
  have above := close.first_le.trans (mul_le_mul_of_nonneg_left factor second_nonneg)
  have below := close.second_le.trans (mul_le_mul_of_nonneg_left factor first_nonneg)
  rw [abs_le]
  constructor <;> linarith

end Close

/-- Above the least normal number rounding is one step. -/
theorem close_nearest? {quantity : ℚ} (positive : 0 < quantity)
    (normal : 2 ^ (-1022 : Int) ≤ quantity) {number : Binary64}
    (found : nearest? quantity = some number) : Close 1 number.value quantity := by
  have off := abs_sub_nearest?_le_unit positive found
  have large := unit_mul_le positive ((zpow_le_iff positive).mp normal)
  rw [abs_sub_comm] at off
  exact .of_abs_sub_le positive.le (by linarith)

/-! ## Arithmetic -/

section Arithmetic

variable {first second : Binary64}

/-- Zero, or a number whose significand has all its bits. -/
def ZeroOrNormal (number : Binary64) : Prop :=
  number.significand = 0 ∨ 2 ^ 52 ≤ number.significand

theorem exists_ofRatio? {ratio : Nat × Nat} (below : 0 < ratio.2) {quantity : ℚ}
    (denotes : fraction ratio = quantity) (normal : quantity = 0 ∨ 2 ^ (-1022 : Int) ≤ quantity)
    (small : quantity < 2 ^ (1023 : Int)) :
    ∃ number, ofRatio? ratio.1 ratio.2 = some number ∧ number.ZeroOrNormal ∧
      Close 1 number.value quantity := by
  rcases normal with zero | normal
  · have numerator : ratio.1 = 0 := by
      by_contra nonzero
      have positive : 0 < fraction ratio :=
        div_pos (by exact_mod_cast Nat.pos_of_ne_zero nonzero) (by exact_mod_cast below)
      exact positive.ne' (denotes.trans zero)
    obtain ⟨number, found, significand⟩ := ofRatio?_zero ratio.2
    refine ⟨number, numerator ▸ found, .inl significand, ?_⟩
    rw [zero, value, significand, Nat.cast_zero, zero_mul]
    exact Close.refl 1 le_rfl
  · have positive := (two_zpow_pos _).trans_le normal
    obtain ⟨number, found⟩ := exists_nearest? positive small
    exact ⟨number, (ofRatio?_of_fraction ratio below positive denotes).trans found,
      .inr (le_significand positive ((zpow_le_iff positive).mp normal) found),
      close_nearest? positive normal found⟩

theorem fraction_product :
    fraction (first.ratio.1 * second.ratio.1, first.ratio.2 * second.ratio.2) =
      first.value * second.value := by
  rw [← fraction_ratio, ← fraction_ratio, fraction, fraction, fraction]
  push_cast
  exact mul_div_mul_comm _ _ _ _

theorem fraction_quotient :
    fraction (first.ratio.1 * second.ratio.2, first.ratio.2 * second.ratio.1) =
      first.value / second.value := by
  rw [← fraction_ratio, ← fraction_ratio, fraction, fraction, fraction]
  push_cast
  exact (div_div_div_eq _ _ _ _).symm

theorem exists_mul?
    (normal : first.value * second.value = 0 ∨ 2 ^ (-1022 : Int) ≤ first.value * second.value)
    (small : first.value * second.value < 2 ^ (1023 : Int)) :
    ∃ number, first.mul? second = some number ∧ number.ZeroOrNormal ∧
      Close 1 number.value (first.value * second.value) :=
  exists_ofRatio? (Nat.mul_pos first.ratio_snd_pos second.ratio_snd_pos) fraction_product normal
    small

theorem quotient_snd_pos (divisor : 0 < second.value) :
    0 < first.ratio.2 * second.ratio.1 :=
  Nat.mul_pos first.ratio_snd_pos (fst_pos_of_fraction (by rwa [fraction_ratio]))

theorem exists_div? (divisor : 0 < second.value)
    (normal : first.value / second.value = 0 ∨ 2 ^ (-1022 : Int) ≤ first.value / second.value)
    (small : first.value / second.value < 2 ^ (1023 : Int)) :
    ∃ number, first.div? second = some number ∧ number.ZeroOrNormal ∧
      Close 1 number.value (first.value / second.value) :=
  exists_ofRatio? (quotient_snd_pos divisor) fraction_quotient normal small

theorem div?_eq_nearest? (dividend : 0 < first.value) (divisor : 0 < second.value) :
    first.div? second = nearest? (first.value / second.value) :=
  ofRatio?_of_fraction _ (quotient_snd_pos divisor) (div_pos dividend divisor) fraction_quotient

theorem ofNat?_eq_nearest? {number : Nat} (positive : 0 < number) :
    ofNat? number = nearest? number :=
  ofRatio?_of_fraction (number, 1) Nat.one_pos (by exact_mod_cast positive) (by simp [fraction])

/-- Whole numbers up to a power of two stay within it, and they change little. -/
theorem exists_ofNat? {number exponent : Nat} (within : number ≤ 2 ^ exponent)
    (moderate : exponent ≤ 1000) :
    ∃ rounded, ofNat? number = some rounded ∧ rounded.value ≤ 2 ^ exponent ∧
      (0 < number → 1 ≤ rounded.value) ∧ Close 1 rounded.value number := by
  rcases Nat.eq_zero_or_pos number with rfl | positive
  · obtain ⟨zero, found, significand⟩ := ofRatio?_zero 1
    have value_eq : zero.value = 0 := by rw [value, significand, Nat.cast_zero, zero_mul]
    refine ⟨zero, found, ?_, fun impossible => absurd impossible (lt_irrefl 0), ?_⟩
    · rw [value_eq]
      positivity
    · rw [value_eq, Nat.cast_zero]
      exact Close.refl 1 le_rfl
  · have quantity_pos : (0 : ℚ) < number := by exact_mod_cast positive
    have quantity_le : (number : ℚ) ≤ 2 ^ (exponent : Int) := by exact_mod_cast within
    have small : (number : ℚ) < 2 ^ (1023 : Int) :=
      quantity_le.trans_lt (zpow_lt_zpow_right₀ one_lt_two (by omega))
    obtain ⟨rounded, found⟩ := exists_nearest? quantity_pos small
    have least : (2 : ℚ) ^ (0 : Int) ≤ number := by exact_mod_cast positive
    refine ⟨rounded, (ofNat?_eq_nearest? positive).trans found, ?_, fun _ => ?_, ?_⟩
    · exact_mod_cast value_nearest?_le quantity_pos (by unfold minExponent; omega) quantity_le found
    · simpa using le_value_nearest? quantity_pos (by decide) least found
    · exact close_nearest? quantity_pos
        ((zpow_le_zpow_right₀ one_le_two (by decide)).trans least) found

/-- Whole numbers of 53 binary digits and zeros after them are doubles. -/
theorem exists_ofNat?_exact {number significand exponent : Nat} (positive : 0 < number)
    (few : significand < 2 ^ 53) (number_eq : number = significand * 2 ^ exponent)
    (moderate : exponent ≤ 900) :
    ∃ rounded, ofNat? number = some rounded ∧ rounded.value = number := by
  have within : number ≤ 2 ^ (53 + exponent) := by
    rw [number_eq, pow_add]
    exact Nat.mul_le_mul_right _ few.le
  obtain ⟨rounded, found, -, -⟩ := exists_ofNat? within (by omega)
  refine ⟨rounded, found, ?_⟩
  rw [ofNat?_eq_nearest? positive] at found
  have least : minExponent ≤ (exponent : Int) := by
    unfold minExponent
    omega
  exact value_nearest?_of_exact (by exact_mod_cast positive) few least
    (by exact_mod_cast number_eq) found

end Arithmetic

end QueryClause.Binary64
