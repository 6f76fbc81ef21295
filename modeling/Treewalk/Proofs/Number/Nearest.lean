import Treewalk.Proofs.Number.Packed

/-!
# Decimals read as binary numbers

A decimal is read as the binary number nearest to its value. Reading has a path for short decimals,
which multiplies or divides two exact numbers, and a path through large integers; both round the
exact value once. So decimals of the same value are read as the same number, and the value of a
number is read as the number itself.
-/

namespace Treewalk

set_option autoImplicit false

open Float.Model Float.Model.UnpackedFloat

theorem shift_storable {mantissa : ℕ} {exponent : ℤ} (storable : Storable mantissa exponent) :
    Format.binary64.targetExponent (totalExponent mantissa exponent) = exponent := by
  obtain ⟨positive, short, coarse, small, full⟩ := storable
  have log := Nat.log2_eq_iff (n := mantissa) (k := 52) positive.ne'
  have high := (Nat.log2_lt (k := 53) positive.ne').mpr short
  rw [target_exponent_eq, totalExponent]
  omega

theorem storable_value_pos {mantissa : ℕ} {exponent : ℤ} (storable : Storable mantissa exponent) :
    (0 : ℚ) < mantissa * 2 ^ exponent :=
  mul_pos (Nat.cast_pos.mpr storable.positive) (zpow_two_pos exponent)

theorem located_exact (mantissa : ℕ) (exponent : ℤ) :
    Located mantissa ((mantissa : ℚ) * 2 ^ exponent / 2 ^ exponent) .exact :=
  mul_div_cancel_right₀ _ (zpow_two_pos exponent).ne'

theorem grid_storable {mantissa : ℕ} {exponent : ℤ} (storable : Storable mantissa exponent) :
    grid (mantissa * 2 ^ exponent) = exponent := by
  have grids := target_of_located (located_exact mantissa exponent) (storable_value_pos storable)
    (fun none => absurd none storable.positive.ne')
  rw [← grids, shift_storable storable]

/-- The number nearest to the value of a number is the number itself. -/
theorem nearest_storable {mantissa : ℕ} {exponent : ℤ} (storable : Storable mantissa exponent) :
    nearest (mantissa * 2 ^ exponent) = .finite .positive mantissa exponent storable.positive := by
  rw [nearest, if_neg (storable_value_pos storable).ne', grid_storable storable,
    ← (located_exact mantissa exponent).rounds]
  apply settled_eq
  · rw [shiftToTargetExponent, Accuracy.roundToNearestEven, shift_storable storable,
      shiftToExponent, sub_self]
    rfl
  · rw [shiftToTargetExponent, Accuracy.roundToNearestEven, shift_storable storable,
      shiftToExponent, sub_self]
    exact add_zero exponent

theorem round_storable {mantissa : ℕ} {exponent : ℤ} (storable : Storable mantissa exponent) :
    roundWithAccuracy .binary64 .positive mantissa exponent .exact =
      .finite .positive mantissa exponent storable.positive := by
  rw [round_with_accuracy_eq (located_exact mantissa exponent) (storable_value_pos storable)
    (fun none => absurd none storable.positive.ne') (grid_storable storable).ge,
    nearest_storable storable]

theorem pack_nearest_large {value : ℚ} (large : 2 ^ (1024 : ℤ) ≤ value) :
    Float.Model.pack (nearest value) = Float.Model.pack (.infinity .positive) := by
  have positive : 0 < value := (zpow_two_pos 1024).trans_le large
  have log : 1024 ≤ Int.log 2 value :=
    (Int.zpow_le_iff_le_log one_lt_two positive).mp (by simpa using large)
  have grids : grid value = Int.log 2 value - 52 := by
    rw [grid]
    omega
  have power := zpow_two_pos (grid value)
  have digits : 2 ^ 52 ≤ nearestNat (value / 2 ^ grid value) := by
    apply le_nearest_nat
    rw [le_div_iff₀ power, Nat.cast_pow, ← zpow_natCast, Nat.cast_ofNat, ← zpow_add₀ two_ne_zero]
    have exponents : ((52 : ℕ) : ℤ) + grid value = Int.log 2 value := by
      rw [grids]
      push_cast
      ring
    rw [exponents]
    simpa using Int.zpow_log_le_self one_lt_two positive
  rw [nearest, if_neg positive.ne']
  generalize nearestNat (value / 2 ^ grid value) = mantissa at digits ⊢
  generalize grid value = exponent at grids power ⊢
  have mantissaPositive : 0 < mantissa := by omega
  have log2 : 52 ≤ mantissa.log2 := (Nat.le_log2 mantissaPositive.ne').mpr digits
  have target := target_exponent_eq (totalExponent mantissa exponent)
  unfold totalExponent at target
  have low : exponent ≤ Format.binary64.targetExponent (totalExponent mantissa exponent) := by
    unfold totalExponent
    omega
  obtain ⟨shifted, same⟩ := located_shift_to_exponent (located_exact mantissa exponent) low
  have kept : 0 < (shiftToTargetExponent .binary64 mantissa exponent .exact).1.mantissa := by
    obtain ⟨-, high⟩ := shifted.bounds
    obtain ⟨bound, -⟩ := scaled_bounds mantissaPositive exponent
    have reached : Format.binary64.targetExponent (totalExponent mantissa exponent) ≤
        mantissa.log2 + exponent := by
      unfold totalExponent
      omega
    have unit : (2 : ℚ) ^ Format.binary64.targetExponent (totalExponent mantissa exponent) ≤
        mantissa * 2 ^ exponent := (zpow_le_zpow_right₀ one_le_two reached).trans bound
    rw [← one_le_div (zpow_two_pos _)] at unit
    have above := unit.trans_lt high
    rw [lt_add_iff_pos_left, Nat.cast_pos] at above
    exact above
  rw [settled_eq kept rfl rfl]
  unfold Float.Model.pack
  congr 2
  apply pack_overflow
  rw [shiftToTargetExponent, same]
  unfold totalExponent
  omega

/-- Values below `2 ^ (-1075)` are nearer to zero than to the smallest positive number. -/
theorem nearest_small {value : ℚ} (positive : 0 < value) (small : value < 2 ^ (-1075 : ℤ)) :
    nearest value = .zero .positive := by
  have log : Int.log 2 value < -1075 :=
    (Int.lt_zpow_iff_log_lt one_lt_two positive).mp (by simpa using small)
  have grids : grid value = -1074 := by
    rw [grid]
    omega
  have half : value / 2 ^ (-1074 : ℤ) < 1 / 2 := by
    rw [div_lt_iff₀ (zpow_two_pos _)]
    calc value < 2 ^ (-1075 : ℤ) := small
      _ = 2 ^ (-1 : ℤ) * 2 ^ (-1074 : ℤ) := by
          rw [← zpow_add₀ two_ne_zero]
          norm_num
      _ = 1 / 2 * 2 ^ (-1074 : ℤ) := by rw [zpow_neg_one, one_div]
  rw [nearest, if_neg positive.ne', grids, nearest_nat_small half]
  rfl

theorem scientific_large {mantissa : ℕ} {exponent : ℤ} (positive : 0 < mantissa)
    (huge : 2048 < exponent) : (2 : ℚ) ^ (1024 : ℤ) ≤ mantissa * 10 ^ exponent := by
  have one : (1 : ℚ) ≤ mantissa := Nat.one_le_cast.mpr positive
  have power : (0 : ℚ) < 10 ^ exponent := zpow_pos (by norm_num) exponent
  calc (2 : ℚ) ^ (1024 : ℤ) ≤ 10 ^ (1024 : ℤ) :=
        zpow_le_zpow_left₀ (by norm_num) two_pos.le (by norm_num)
    _ ≤ 10 ^ exponent := zpow_le_zpow_right₀ (by norm_num) (by omega)
    _ ≤ mantissa * 10 ^ exponent := le_mul_of_one_le_left power.le one

theorem scientific_small {mantissa : ℕ} {exponent : ℤ} (positive : 0 < mantissa)
    (tiny : exponent < -(2048 + mantissa.log2)) :
    (mantissa : ℚ) * 10 ^ exponent < 2 ^ (-1075 : ℤ) := by
  obtain ⟨-, high⟩ := scaled_bounds positive 0
  have base : (10 : ℚ) ^ exponent ≤ 2 ^ exponent := by
    obtain ⟨count, rfl⟩ : ∃ count : ℕ, exponent = -count := ⟨exponent.natAbs, by omega⟩
    rw [zpow_neg, zpow_neg, zpow_natCast, zpow_natCast]
    exact inv_anti₀ (by positivity) (pow_le_pow_left₀ two_pos.le (by norm_num) count)
  rw [zpow_zero, mul_one, add_zero] at high
  calc (mantissa : ℚ) * 10 ^ exponent ≤ mantissa * 2 ^ exponent :=
        mul_le_mul_of_nonneg_left base (Nat.cast_nonneg mantissa)
    _ < 2 ^ ((mantissa.log2 : ℤ) + 1) * 2 ^ exponent :=
        mul_lt_mul_of_pos_right high (zpow_two_pos exponent)
    _ = 2 ^ ((mantissa.log2 : ℤ) + 1 + exponent) := (zpow_add₀ two_ne_zero _ _).symm
    _ ≤ 2 ^ (-1075 : ℤ) := zpow_le_zpow_right₀ one_le_two (by omega)

/-- A whole decimal is a product; the mantissa gets enough digits to be rounded. -/
theorem scientific_product {mantissa : ℕ} (positive : 0 < mantissa) (count : ℕ)
    (shifted : 0 < mantissa <<< 53) (power : 0 < 10 ^ count) :
    UnpackedFloat.mul .binary64 (.finite .positive (mantissa <<< 53) (-53) shifted)
      (.finite .positive (10 ^ count) 0 power) = nearest (mantissa * 10 ^ (count : ℤ)) := by
  have value : ((mantissa <<< 53 : ℕ) : ℚ) * 2 ^ (-53 : ℤ) * ((10 ^ count : ℕ) * 2 ^ (0 : ℤ)) =
      mantissa * 10 ^ (count : ℤ) := by
    rw [Nat.shiftLeft_eq, zpow_neg, zpow_zero, zpow_natCast, mul_one]
    push_cast
    field_simp
  have one : (1 : ℚ) ≤ mantissa * 10 ^ (count : ℤ) := by
    rw [zpow_natCast]
    exact_mod_cast Nat.mul_pos positive power
  have log : 0 ≤ Int.log 2 ((mantissa : ℚ) * 10 ^ (count : ℤ)) :=
    (Int.zpow_le_iff_le_log one_lt_two (zero_lt_one.trans_le one)).mp (by simpa using one)
  have enough : (-53 : ℤ) + (0 : ℤ) ≤
      grid (((mantissa <<< 53 : ℕ) : ℚ) * 2 ^ (-53 : ℤ) * ((10 ^ count : ℕ) * 2 ^ (0 : ℤ))) := by
    rw [value, grid]
    omega
  rw [mul_eq_nearest shifted power enough, value]

theorem scientific_quotient {mantissa : ℕ} (positive : 0 < mantissa) (count : ℕ)
    (power : 0 < 10 ^ count) :
    UnpackedFloat.div .binary64 (.finite .positive mantissa 0 positive)
      (.finite .positive (10 ^ count) 0 power) = nearest (mantissa * 10 ^ (-count : ℤ)) := by
  have value : (mantissa : ℚ) * 2 ^ (0 : ℤ) / ((10 ^ count : ℕ) * 2 ^ (0 : ℤ)) =
      mantissa * 10 ^ (-count : ℤ) := by
    rw [zpow_zero, zpow_neg, zpow_natCast, mul_one, mul_one, div_eq_mul_inv, Nat.cast_pow,
      Nat.cast_ofNat]
  rw [div_eq_nearest positive power (by norm_num), value]

theorem model_of_scientific (mantissa : ℕ) (exponent : ℤ) :
    Float.Model.ofScientific mantissa exponent =
      Float.Model.pack (nearest (mantissa * 10 ^ exponent)) := by
  unfold Float.Model.ofScientific UnpackedFloat.ofScientific
  split
  · rename_i none
    rw [none, Nat.cast_zero, zero_mul, nearest, if_pos rfl]
  rename_i some
  have positive : 0 < mantissa := Nat.pos_of_ne_zero some
  split
  · rename_i huge
    exact (pack_nearest_large (scientific_large positive (by simpa using huge))).symm
  split
  · rename_i tiny
    have power : (0 : ℚ) < 10 ^ exponent := zpow_pos (by norm_num) exponent
    rw [nearest_small (mul_pos (Nat.cast_pos.mpr positive) power)
      (scientific_small positive (by simpa using tiny))]
  split
  · rename_i whole
    obtain ⟨count, rfl⟩ := Int.eq_ofNat_of_zero_le whole
    exact congrArg Float.Model.pack (scientific_product positive count _ _)
  · rename_i fractional
    obtain ⟨count, rfl⟩ : ∃ count : ℕ, exponent = -count := ⟨exponent.natAbs, by omega⟩
    simp only [neg_neg, Int.toNat_natCast]
    rw [scientific_quotient positive count]

/-- A natural number of at most 53 digits is stored with all of them. -/
theorem storable_nat {number : ℕ} (positive : 0 < number) (short : number < 2 ^ 53) :
    Storable (number <<< (52 - number.log2)) (number.log2 - 52) ∧
      ((number <<< (52 - number.log2) : ℕ) : ℚ) * 2 ^ ((number.log2 : ℤ) - 52) = number := by
  have log : number.log2 < 53 := (Nat.log2_lt positive.ne').mpr short
  have low : 2 ^ number.log2 ≤ number := Nat.log2_self_le positive.ne'
  have high : number < 2 ^ (number.log2 + 1) := Nat.lt_log2_self
  rw [Nat.shiftLeft_eq]
  constructor
  · have first : 2 ^ 52 ≤ number * 2 ^ (52 - number.log2) := by
      calc 2 ^ 52 = 2 ^ number.log2 * 2 ^ (52 - number.log2) := by
            rw [← pow_add]
            congr 1
            omega
        _ ≤ number * 2 ^ (52 - number.log2) := Nat.mul_le_mul_right _ low
    have last : number * 2 ^ (52 - number.log2) < 2 ^ 53 := by
      calc number * 2 ^ (52 - number.log2)
          < 2 ^ (number.log2 + 1) * 2 ^ (52 - number.log2) :=
            Nat.mul_lt_mul_of_pos_right high (by positivity)
        _ = 2 ^ 53 := by
            rw [← pow_add]
            congr 1
            omega
    constructor <;> omega
  · have exponent : (number.log2 : ℤ) - 52 = -((52 - number.log2 : ℕ) : ℤ) := by omega
    rw [exponent, zpow_neg, zpow_natCast]
    push_cast
    field_simp

theorem unpack_nat {number : ℕ} (positive : 0 < number) (short : number < 2 ^ 53) :
    number.toUInt64.toFloat.toModel.unpack =
      .finite .positive (number <<< (52 - number.log2)) (number.log2 - 52)
        (storable_nat positive short).1.positive := by
  obtain ⟨storable, -⟩ := storable_nat positive short
  have log : number.log2 < 53 := (Nat.log2_lt positive.ne').mpr short
  have word : number.toUInt64.toNat = number := UInt64.toNat_ofNat_of_lt (short.trans (by decide))
  have order : compare (number : ℤ) 0 = .gt := Int.compare_eq_gt.mpr (by omega)
  have target : Format.binary64.targetExponent (totalExponent number 0) = number.log2 - 52 := by
    rw [target_exponent_eq, totalExponent]
    omega
  have rounded : UnpackedFloat.ofUInt64 .binary64 number.toUInt64 =
      .finite .positive (number <<< (52 - number.log2)) (number.log2 - 52) storable.positive := by
    have amount : (0 - ((number.log2 : ℤ) - 52)).toNat = 52 - number.log2 := by omega
    have exponent : (0 : ℤ) - ((52 - number.log2 : ℕ) : ℤ) = number.log2 - 52 := by omega
    unfold UnpackedFloat.ofUInt64 UnpackedFloat.ofNat UnpackedFloat.ofInt
      UnpackedFloat.normalize
    rw [word, order]
    dsimp only
    rw [Int.toNat_natCast, UnpackedFloat.round, target, decreaseExponent, amount]
    dsimp only
    rw [exponent]
    exact round_storable storable
  have packed : number.toUInt64.toFloat.toModel = Float.Model.pack
      (.finite .positive (number <<< (52 - number.log2)) (number.log2 - 52) storable.positive) :=
    congrArg Float.Model.pack rounded
  rw [packed]
  exact unpack_pack storable

def IsPowerOfTen (count : ℕ) (number : Float) : Prop :=
  number.isFinite = true ∧ number.toBits.toNat < 2 ^ 63 ∧
    (Binary.ofFloat number).significand * 2 ^ ((Binary.ofFloat number).exponent + 52).toNat =
      10 ^ count * 2 ^ 52 ∧
    -52 ≤ (Binary.ofFloat number).exponent ∧ (Binary.ofFloat number).exponent ≤ 21

instance (count : ℕ) (number : Float) : Decidable (IsPowerOfTen count number) :=
  inferInstanceAs (Decidable (_ ∧ _ ∧ _ ∧ _ ∧ _))

theorem table_exact : ∀ count : Fin 23,
    IsPowerOfTen count (Float.exactlyRepresentablePowersOfTen[count]) := by
  decide +kernel

theorem unpack_power {count : ℕ} {number : Float} (power : IsPowerOfTen count number) :
    ∃ mantissa exponent, ∃ positive : 0 < mantissa,
      number.toModel.unpack = .finite .positive mantissa exponent positive ∧
      (mantissa : ℚ) * 2 ^ exponent = 10 ^ count ∧ -52 ≤ exponent ∧ exponent ≤ 21 := by
  obtain ⟨finite, nonnegative, same, low, high⟩ := power
  have read := unpack_of_float finite nonnegative
  generalize Binary.ofFloat number = binary at read same low high
  obtain ⟨mantissa, exponent⟩ := binary
  dsimp only at same low high
  have positive : 0 < mantissa := by
    rw [Nat.pos_iff_ne_zero]
    rintro rfl
    have product : 0 < 10 ^ count * 2 ^ 52 := by positivity
    omega
  refine ⟨mantissa, exponent, positive, read.trans (dif_neg positive.ne'), ?_, low, high⟩
  have cast : (mantissa : ℚ) * 2 ^ (exponent + 52).toNat = 10 ^ count * 2 ^ 52 := by
    exact_mod_cast same
  have amount : ((exponent + 52).toNat : ℤ) = exponent + 52 := by omega
  rw [← zpow_natCast, amount, zpow_add₀ two_ne_zero, ← mul_assoc] at cast
  exact mul_right_cancel₀ (by norm_num) cast

theorem unpack_zero : (0 : ℕ).toUInt64.toFloat.toModel.unpack = .zero .positive := by
  rfl

theorem le_grid_product {left right : ℕ} (leftExponent rightExponent : ℤ) (full : 2 ^ 52 ≤ left)
    (positive : 0 < right) :
    leftExponent + rightExponent ≤
      grid ((left * 2 ^ leftExponent) * (right * 2 ^ rightExponent)) := by
  have leftPositive : 0 < left := by omega
  have log : 52 ≤ left.log2 := (Nat.le_log2 leftPositive.ne').mpr full
  obtain ⟨leftLow, -⟩ := scaled_bounds leftPositive leftExponent
  obtain ⟨rightLow, -⟩ := scaled_bounds positive rightExponent
  have low : (2 : ℚ) ^ (left.log2 + leftExponent + (right.log2 + rightExponent)) ≤
      (left * 2 ^ leftExponent) * (right * 2 ^ rightExponent) := by
    rw [zpow_add₀ two_ne_zero]
    exact mul_le_mul leftLow rightLow (zpow_two_pos _).le ((zpow_two_pos _).le.trans leftLow)
  have size := (Int.zpow_le_iff_le_log one_lt_two ((zpow_two_pos _).trans_le low)).mp
    (by simpa using low)
  rw [grid]
  omega

theorem fast_product {number count : ℕ} {power : Float} (short : number < 2 ^ 53)
    (isPower : IsPowerOfTen count power) :
    number.toUInt64.toFloat * power =
      .ofModel (.pack (nearest (number * 10 ^ (count : ℤ)))) := by
  obtain ⟨mantissa, exponent, positive, read, value, low, high⟩ := unpack_power isPower
  have product : number.toUInt64.toFloat * power = .ofModel (.pack (UnpackedFloat.mul .binary64
      number.toUInt64.toFloat.toModel.unpack power.toModel.unpack)) := rfl
  rw [product, read, zpow_natCast]
  rcases Nat.eq_zero_or_pos number with rfl | some
  · rw [unpack_zero, Nat.cast_zero, zero_mul, nearest, if_pos rfl]
    rfl
  · obtain ⟨storable, whole⟩ := storable_nat some short
    have full : 2 ^ 52 ≤ number <<< (52 - number.log2) := by
      have log : number.log2 < 53 := (Nat.log2_lt some.ne').mpr short
      have digits := storable.full
      omega
    rw [unpack_nat some short, mul_eq_nearest _ _ (le_grid_product _ _ full positive), whole,
      value]

theorem fast_quotient {number count : ℕ} {power : Float} (short : number < 2 ^ 53)
    (isPower : IsPowerOfTen count power) :
    number.toUInt64.toFloat / power =
      .ofModel (.pack (nearest (number * 10 ^ (-count : ℤ)))) := by
  obtain ⟨mantissa, exponent, positive, read, value, low, high⟩ := unpack_power isPower
  have quotient : number.toUInt64.toFloat / power = .ofModel (.pack (UnpackedFloat.div .binary64
      number.toUInt64.toFloat.toModel.unpack power.toModel.unpack)) := rfl
  rw [quotient, read, zpow_neg, zpow_natCast, ← div_eq_mul_inv]
  rcases Nat.eq_zero_or_pos number with rfl | some
  · rw [unpack_zero, Nat.cast_zero, zero_div, nearest, if_pos rfl]
    rfl
  · obtain ⟨storable, whole⟩ := storable_nat some short
    rw [unpack_nat some short, div_eq_nearest, whole, value]
    omega

def Decimal.value (decimal : Decimal) : ℚ :=
  decimal.significand * 10 ^ decimal.exponent

theorem to_float_eq_nearest (decimal : Decimal) :
    decimal.toFloat = .ofModel (.pack (nearest decimal.value)) := by
  obtain ⟨significand, exponent⟩ := decimal
  have magnitude : (if decide (exponent < 0) = true then -(exponent.natAbs : ℤ)
      else exponent.natAbs) = exponent := by
    split
    · rename_i negative
      rw [decide_eq_true_eq] at negative
      omega
    · rename_i nonnegative
      rw [decide_eq_true_eq] at nonnegative
      omega
  unfold Decimal.toFloat Float.ofScientific Decimal.value
  dsimp only
  split
  · rename_i fast
    obtain ⟨short, bound⟩ := fast
    have power := table_exact ⟨exponent.natAbs, by omega⟩
    split
    · rename_i negative
      rw [if_pos negative] at magnitude
      have quotient := fast_quotient short power
      rw [Fin.val_mk, magnitude] at quotient
      exact quotient
    · rename_i nonnegative
      rw [if_neg nonnegative] at magnitude
      have product := fast_product short power
      rw [Fin.val_mk, magnitude] at product
      exact product
  · rw [← model_of_scientific]
    congr 2

theorem to_float_congr {left right : Decimal} (same : left.value = right.value) :
    left.toFloat = right.toFloat := by
  rw [to_float_eq_nearest, to_float_eq_nearest, same]

theorem to_float_nonnegative (decimal : Decimal) : decimal.toFloat.toBits.toNat < 2 ^ 63 := by
  have words : ∀ value, ∃ scale fraction, UnpackedFloat.pack .binary64 (nearest value) =
      packComponents .binary64 .positive scale fraction := by
    intro value
    unfold nearest settled
    dsimp only
    split
    · exact ⟨_, _, rfl⟩
    · split
      · exact ⟨_, _, rfl⟩
      · unfold UnpackedFloat.pack
        dsimp only
        split
        · exact ⟨_, _, rfl⟩
        · split <;> exact ⟨_, _, rfl⟩
  obtain ⟨scale, fraction, packed⟩ := words decimal.value
  have word : decimal.toFloat.toBits.toNat =
      (UnpackedFloat.pack .binary64 (nearest decimal.value)).toNat := by
    rw [to_float_eq_nearest]
    rfl
  have scaleBound : scale.toNat < 2 ^ 11 := scale.isLt
  have fractionBound : fraction.toNat < 2 ^ 52 := fraction.isLt
  rw [word, packed, packed_to_nat]
  omega

def Binary.value (binary : Binary) : ℚ :=
  binary.significand * 2 ^ binary.exponent

/-- The value of a number, written as a decimal, is read as the number. -/
theorem exact_reads_back {number : Float} (finite : number.isFinite = true)
    (nonnegative : number.toBits.toNat < 2 ^ 63) {decimal : Decimal}
    (same : decimal.value = (Binary.ofFloat number).value) : decimal.toFloat = number := by
  have read : nearest (Binary.ofFloat number).value = (Binary.ofFloat number).unpacked := by
    unfold Binary.value Binary.unpacked
    split
    · rename_i none
      rw [none, Nat.cast_zero, zero_mul, nearest, if_pos rfl]
    · rename_i some
      exact nearest_storable (storable_of_float finite some)
  rw [to_float_eq_nearest, same, read]
  exact pack_of_float finite nonnegative

end Treewalk
