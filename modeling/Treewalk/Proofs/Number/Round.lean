import Mathlib

/-!
# Rounding to a binary number

Binary arithmetic computes a mantissa and notes where the exact value lies between it and its
successor; it then drops digits until the mantissa fits, and rounds once. What comes out depends on
the exact value alone: it is the nearest mantissa on the grid that the size of the value asks for.
-/

namespace Treewalk

set_option autoImplicit false

open Float.Model Float.Model.UnpackedFloat

def Located (mantissa : ℕ) (value : ℚ) : Accuracy → Prop
  | .exact => value = mantissa
  | .inexact .lt => mantissa < value ∧ value < mantissa + 1 / 2
  | .inexact .eq => value = mantissa + 1 / 2
  | .inexact .gt => mantissa + 1 / 2 < value ∧ value < mantissa + 1

namespace Located

variable {mantissa : ℕ} {value : ℚ} {accuracy : Accuracy}

theorem bounds (located : Located mantissa value accuracy) :
    (mantissa : ℚ) ≤ value ∧ value < mantissa + 1 := by
  rcases accuracy with _ | (_ | _ | _)
  all_goals simp only [Located] at located
  all_goals constructor <;> linarith

theorem floor_eq (located : Located mantissa value accuracy) : ⌊value⌋₊ = mantissa := by
  obtain ⟨low, high⟩ := located.bounds
  have nonnegative : (0 : ℚ) ≤ mantissa := Nat.cast_nonneg mantissa
  exact (Nat.floor_eq_iff (nonnegative.trans low)).mpr ⟨low, high⟩

end Located

def nearestNat (value : ℚ) : ℕ :=
  if value - ⌊value⌋₊ < 1 / 2 then ⌊value⌋₊
  else if value - ⌊value⌋₊ = 1 / 2 then ⌊value⌋₊ + ⌊value⌋₊ % 2
  else ⌊value⌋₊ + 1

theorem Located.rounds {mantissa : ℕ} {value : ℚ} {accuracy : Accuracy}
    (located : Located mantissa value accuracy) :
    accuracy.roundToNearestEven mantissa = nearestNat value := by
  have floor := located.floor_eq
  unfold nearestNat
  rw [floor]
  rcases accuracy with _ | (_ | _ | _)
  all_goals simp only [Located] at located
  · rw [if_pos (by linarith)]
    rfl
  · rw [if_pos (by linarith)]
    rfl
  · rw [if_neg (by linarith), if_pos (by linarith)]
    rfl
  · rw [if_neg (by linarith), if_neg (by linarith)]
    rfl

theorem nearest_nat_small {value : ℚ} (small : value < 1 / 2) :
    nearestNat value = 0 := by
  have floor : ⌊value⌋₊ = 0 := Nat.floor_eq_zero.mpr (by linarith)
  unfold nearestNat
  rw [floor, if_pos (by simpa using small)]

theorem le_nearest_nat {value : ℚ} {bound : ℕ} (low : (bound : ℚ) ≤ value) :
    bound ≤ nearestNat value := by
  have floor : bound ≤ ⌊value⌋₊ := Nat.le_floor low
  unfold nearestNat
  split_ifs <;> omega

theorem located_shift_right_one {extended : ExtendedMantissa} {value : ℚ}
    (located : Located extended.mantissa value extended.accuracy) :
    Located extended.shiftRightOne.mantissa (value / 2) extended.shiftRightOne.accuracy := by
  rcases extended with ⟨mantissa, roundBit, stickyBit⟩
  have split : mantissa = 2 * (mantissa / 2) + mantissa % 2 := by omega
  have cast : (mantissa : ℚ) = 2 * (mantissa / 2 : ℕ) + (mantissa % 2 : ℕ) := by
    exact_mod_cast split
  rcases Nat.mod_two_eq_zero_or_one mantissa with even | odd
  · rw [even, Nat.cast_zero] at cast
    cases roundBit <;> cases stickyBit
    all_goals simp only [ExtendedMantissa.shiftRightOne, ExtendedMantissa.accuracy, Located, even,
      bne_self_eq_false, Bool.or_false, Bool.or_true, Bool.or_self] at located ⊢
    · linarith
    · constructor <;> linarith
    · constructor <;> linarith
    · constructor <;> linarith
  · rw [odd, Nat.cast_one] at cast
    have bit : ((1 : ℕ) != 0) = true := rfl
    cases roundBit <;> cases stickyBit
    all_goals simp only [ExtendedMantissa.shiftRightOne, ExtendedMantissa.accuracy, Located, odd,
      bit, Bool.or_false, Bool.or_true, Bool.or_self] at located ⊢
    · linarith
    · constructor <;> linarith
    · constructor <;> linarith
    · constructor <;> linarith

theorem located_shift_right {extended : ExtendedMantissa} {value : ℚ}
    (located : Located extended.mantissa value extended.accuracy) (count : ℕ) :
    Located (extended >>> count).mantissa (value / 2 ^ count) (extended >>> count).accuracy := by
  induction count with
  | zero =>
      rw [pow_zero, div_one]
      exact located
  | succ count ih =>
      have step := located_shift_right_one ih
      rw [div_div, ← pow_succ] at step
      exact step

theorem located_extended {mantissa : ℕ} {value : ℚ} {accuracy : Accuracy}
    (located : Located mantissa value accuracy) :
    Located (ExtendedMantissa.ofMantissaAndAccuracy mantissa accuracy).mantissa value
      (ExtendedMantissa.ofMantissaAndAccuracy mantissa accuracy).accuracy := by
  rcases accuracy with _ | (_ | _ | _) <;> exact located

theorem zpow_two_pos (exponent : ℤ) : (0 : ℚ) < 2 ^ exponent :=
  zpow_pos two_pos exponent

theorem located_shift_to_exponent {mantissa : ℕ} {exponent target : ℤ} {accuracy : Accuracy}
    {value : ℚ} (located : Located mantissa (value / 2 ^ exponent) accuracy)
    (low : exponent ≤ target) :
    Located (shiftToExponent mantissa exponent accuracy target).1.mantissa (value / 2 ^ target)
        (shiftToExponent mantissa exponent accuracy target).1.accuracy ∧
      (shiftToExponent mantissa exponent accuracy target).2 = target := by
  obtain ⟨count, rfl⟩ := Int.le.dest low
  have amount : (exponent + (count : ℤ) - exponent).toNat = count := by omega
  have shifted := located_shift_right (located_extended located) count
  rw [div_div, ← zpow_natCast, ← zpow_add₀ two_ne_zero] at shifted
  unfold shiftToExponent
  rw [amount]
  exact ⟨shifted, rfl⟩

/-- The exponent of the grid on which a positive value is rounded: 53 digits, but none below the
smallest positive number. -/
def grid (value : ℚ) : ℤ :=
  max (Int.log 2 value - 52) (-1074)

theorem log_two_eq {value : ℚ} {exponent : ℤ} (low : (2 : ℚ) ^ exponent ≤ value)
    (high : value < 2 ^ (exponent + 1)) : Int.log 2 value = exponent := by
  have positive : 0 < value := (zpow_two_pos exponent).trans_le low
  have atLeast : exponent ≤ Int.log 2 value :=
    (Int.zpow_le_iff_le_log one_lt_two positive).mp (by simpa using low)
  have below : Int.log 2 value < exponent + 1 :=
    (Int.lt_zpow_iff_log_lt one_lt_two positive).mp (by simpa using high)
  omega

/-- The size of a value that lies between a mantissa and its successor. -/
theorem log_of_bounds {mantissa : ℕ} {exponent : ℤ} {value : ℚ} (nonzero : mantissa ≠ 0)
    (low : (mantissa : ℚ) ≤ value / 2 ^ exponent) (high : value / 2 ^ exponent < mantissa + 1) :
    Int.log 2 value = mantissa.log2 + exponent := by
  have power := zpow_two_pos exponent
  rw [le_div_iff₀ power] at low
  rw [div_lt_iff₀ power] at high
  have largest : ((2 ^ mantissa.log2 : ℕ) : ℚ) ≤ mantissa :=
    Nat.cast_le.mpr (Nat.log2_self_le nonzero)
  have next : ((mantissa + 1 : ℕ) : ℚ) ≤ (2 ^ (mantissa.log2 + 1) : ℕ) :=
    Nat.cast_le.mpr Nat.lt_log2_self
  push_cast at largest next
  apply log_two_eq
  · rw [zpow_add₀ two_ne_zero, zpow_natCast]
    exact (mul_le_mul_of_nonneg_right largest power.le).trans low
  · have exponents : (mantissa.log2 : ℤ) + exponent + 1 =
        ((mantissa.log2 + 1 : ℕ) : ℤ) + exponent := by
      push_cast
      ring
    rw [exponents, zpow_add₀ two_ne_zero, zpow_natCast]
    exact high.trans_le (mul_le_mul_of_nonneg_right next power.le)

theorem target_exponent_eq (total : ℤ) :
    Format.binary64.targetExponent total = max (total - 53) (-1074) := by
  unfold Format.targetExponent Format.minExponent Format.mantissaBits
  norm_num

/-- The grid is known from the mantissa if this has a digit, or if no finer grid exists. -/
theorem target_of_located {mantissa : ℕ} {exponent : ℤ} {accuracy : Accuracy} {value : ℚ}
    (located : Located mantissa (value / 2 ^ exponent) accuracy) (positive : 0 < value)
    (finest : mantissa = 0 → exponent = -1074) :
    Format.binary64.targetExponent (totalExponent mantissa exponent) = grid value := by
  obtain ⟨low, high⟩ := located.bounds
  rw [target_exponent_eq, totalExponent, grid]
  by_cases none : mantissa = 0
  · have small : value < 2 ^ exponent := by
      rw [none, Nat.cast_zero, zero_add, div_lt_one (zpow_two_pos exponent)] at high
      exact high
    have log : Int.log 2 value < exponent :=
      (Int.lt_zpow_iff_log_lt one_lt_two positive).mp (by simpa using small)
    have digits : mantissa.log2 = 0 := by
      rw [none]
      rfl
    have least := finest none
    omega
  · have log := log_of_bounds none low high
    omega

/-- A rounded mantissa on its grid: if rounding gave it one digit more, the last one is dropped. -/
def settled (sign : Sign) (mantissa : ℕ) (exponent : ℤ) : UnpackedFloat :=
  let shifted := shiftToTargetExponent .binary64 mantissa exponent .exact
  if nonzero : shifted.1.mantissa = 0 then .zero sign
  else .finite sign shifted.1.mantissa shifted.2 (Nat.pos_of_ne_zero nonzero)

theorem settled_eq {sign : Sign} {mantissa shifted : ℕ} {exponent target : ℤ}
    (positive : 0 < shifted)
    (sameMantissa :
      (shiftToTargetExponent .binary64 mantissa exponent .exact).1.mantissa = shifted)
    (sameExponent : (shiftToTargetExponent .binary64 mantissa exponent .exact).2 = target) :
    settled sign mantissa exponent = .finite sign shifted target positive := by
  subst sameMantissa sameExponent
  exact dif_neg positive.ne'

/-- The binary number nearest to a value that is not negative; a tie goes to the even neighbour. -/
def nearest (value : ℚ) : UnpackedFloat :=
  if value = 0 then .zero .positive
  else settled .positive (nearestNat (value / 2 ^ grid value)) (grid value)

/-- Rounding a mantissa with enough digits gives the number nearest to the exact value. -/
theorem round_with_accuracy_eq {mantissa : ℕ} {exponent : ℤ} {accuracy : Accuracy} {value : ℚ}
    (located : Located mantissa (value / 2 ^ exponent) accuracy) (positive : 0 < value)
    (finest : mantissa = 0 → exponent = -1074) (enough : exponent ≤ grid value) :
    roundWithAccuracy .binary64 .positive mantissa exponent accuracy = nearest value := by
  have target := target_of_located located positive finest
  obtain ⟨shifted, same⟩ := located_shift_to_exponent located enough
  rw [nearest, if_neg positive.ne', ← shifted.rounds]
  unfold roundWithAccuracy settled
  unfold shiftToTargetExponent
  rw [target]
  dsimp only
  rw [same]
  rfl

theorem mul_eq_nearest {left right : ℕ} {leftExponent rightExponent : ℤ} (leftPositive : 0 < left)
    (rightPositive : 0 < right)
    (enough : leftExponent + rightExponent ≤
      grid ((left * 2 ^ leftExponent) * (right * 2 ^ rightExponent))) :
    UnpackedFloat.mul .binary64 (.finite .positive left leftExponent leftPositive)
        (.finite .positive right rightExponent rightPositive) =
      nearest ((left * 2 ^ leftExponent) * (right * 2 ^ rightExponent)) := by
  have leftPower := zpow_two_pos leftExponent
  have rightPower := zpow_two_pos rightExponent
  have located : Located (left * right) (((left : ℚ) * 2 ^ leftExponent) *
      (right * 2 ^ rightExponent) / 2 ^ (leftExponent + rightExponent)) .exact := by
    rw [Located, zpow_add₀ two_ne_zero]
    push_cast
    field_simp
  have product : left * right ≠ 0 := (Nat.mul_pos leftPositive rightPositive).ne'
  exact round_with_accuracy_eq located (by positivity) (fun none => absurd none product) enough

theorem located_fraction (top bottom : ℕ) (positive : 0 < bottom) :
    Located (top / bottom) ((top : ℚ) / bottom) (accuracyOfFraction (top % bottom) bottom) := by
  have cast : (0 : ℚ) < bottom := Nat.cast_pos.mpr positive
  have below : top % bottom < bottom := Nat.mod_lt top positive
  have split : (top : ℚ) / bottom = (top / bottom : ℕ) + (top % bottom : ℕ) / bottom := by
    have whole : (bottom : ℚ) * (top / bottom : ℕ) + (top % bottom : ℕ) = top := by
      exact_mod_cast Nat.div_add_mod top bottom
    rw [← whole]
    field_simp
  rw [split]
  generalize top / bottom = whole
  generalize top % bottom = rest at below
  unfold accuracyOfFraction
  split
  · rename_i none
    rw [none, Located, Nat.cast_zero, zero_div, add_zero]
  · rename_i some
    have someCast : (0 : ℚ) < (rest : ℚ) / bottom :=
      div_pos (Nat.cast_pos.mpr (Nat.pos_of_ne_zero some)) cast
    have restBelow : (rest : ℚ) / bottom < 1 := by
      rw [div_lt_one cast]
      exact_mod_cast below
    cases order : compare (2 * rest) bottom with
    | lt =>
        have less : ((2 * rest : ℕ) : ℚ) < bottom := Nat.cast_lt.mpr (Nat.compare_eq_lt.mp order)
        push_cast at less
        have half : (rest : ℚ) / bottom < 1 / 2 := by
          rw [div_lt_div_iff₀ cast two_pos]
          linarith
        exact ⟨by linarith, by linarith⟩
    | eq =>
        have same : ((2 * rest : ℕ) : ℚ) = bottom := by rw [Nat.compare_eq_eq.mp order]
        push_cast at same
        have half : (rest : ℚ) / bottom = 1 / 2 := by
          rw [div_eq_div_iff cast.ne' two_ne_zero]
          linarith
        rw [Located, half]
    | gt =>
        have more : (bottom : ℚ) < (2 * rest : ℕ) := Nat.cast_lt.mpr (Nat.compare_eq_gt.mp order)
        push_cast at more
        have half : 1 / 2 < (rest : ℚ) / bottom := by
          rw [div_lt_div_iff₀ two_pos cast]
          linarith
        exact ⟨by linarith, by linarith⟩

theorem scaled_bounds {mantissa : ℕ} (positive : 0 < mantissa) (exponent : ℤ) :
    (2 : ℚ) ^ (mantissa.log2 + exponent) ≤ mantissa * 2 ^ exponent ∧
      (mantissa : ℚ) * 2 ^ exponent < 2 ^ (mantissa.log2 + exponent + 1) := by
  have power := zpow_two_pos exponent
  have largest : ((2 ^ mantissa.log2 : ℕ) : ℚ) ≤ mantissa :=
    Nat.cast_le.mpr (Nat.log2_self_le positive.ne')
  have next : (mantissa : ℚ) < (2 ^ (mantissa.log2 + 1) : ℕ) :=
    Nat.cast_lt.mpr Nat.lt_log2_self
  push_cast at largest next
  constructor
  · rw [zpow_add₀ two_ne_zero, zpow_natCast]
    exact mul_le_mul_of_nonneg_right largest power.le
  · rw [add_right_comm, zpow_add₀ two_ne_zero]
    exact mul_lt_mul_of_pos_right (by exact_mod_cast next) power

/-- A quotient is at most one binary digit smaller than the sizes of its parts say. -/
theorem le_log_quotient {left right : ℕ} (leftExponent rightExponent : ℤ) (leftPositive : 0 < left)
    (rightPositive : 0 < right) :
    (left.log2 + leftExponent) - (right.log2 + rightExponent) - 1 ≤
      Int.log 2 (((left : ℚ) * 2 ^ leftExponent) / (right * 2 ^ rightExponent)) := by
  obtain ⟨low, -⟩ := scaled_bounds leftPositive leftExponent
  obtain ⟨-, high⟩ := scaled_bounds rightPositive rightExponent
  have bottom : (0 : ℚ) < right * 2 ^ rightExponent :=
    mul_pos (Nat.cast_pos.mpr rightPositive) (zpow_two_pos rightExponent)
  have top : (0 : ℚ) < left * 2 ^ leftExponent :=
    mul_pos (Nat.cast_pos.mpr leftPositive) (zpow_two_pos leftExponent)
  apply (Int.zpow_le_iff_le_log one_lt_two (div_pos top bottom)).mp
  rw [Nat.cast_ofNat, le_div_iff₀ bottom]
  calc (2 : ℚ) ^ ((left.log2 + leftExponent) - (right.log2 + rightExponent) - 1) *
        (right * 2 ^ rightExponent)
      ≤ 2 ^ ((left.log2 + leftExponent) - (right.log2 + rightExponent) - 1) *
        2 ^ (right.log2 + rightExponent + 1) :=
        mul_le_mul_of_nonneg_left high.le (zpow_two_pos _).le
    _ = 2 ^ (left.log2 + leftExponent) := by
        rw [← zpow_add₀ two_ne_zero]
        congr 1
        ring
    _ ≤ left * 2 ^ leftExponent := low

theorem located_quotient (left : ℕ) {right : ℕ} {leftExponent rightExponent target : ℤ}
    (rightPositive : 0 < right) (fine : target ≤ leftExponent - rightExponent) :
    Located ((left <<< (leftExponent - rightExponent - target).toNat) / right)
      (((left : ℚ) * 2 ^ leftExponent) / (right * 2 ^ rightExponent) / 2 ^ target)
      (accuracyOfFraction ((left <<< (leftExponent - rightExponent - target).toNat) % right)
        right) := by
  have located := located_fraction (left <<< (leftExponent - rightExponent - target).toNat) right
    rightPositive
  have amount : ((leftExponent - rightExponent - target).toNat : ℤ) =
      leftExponent - rightExponent - target := by omega
  have same : ((left <<< (leftExponent - rightExponent - target).toNat : ℕ) : ℚ) / right =
      ((left : ℚ) * 2 ^ leftExponent) / (right * 2 ^ rightExponent) / 2 ^ target := by
    rw [Nat.shiftLeft_eq, Nat.cast_mul, Nat.cast_pow, Nat.cast_ofNat, ← zpow_natCast, amount,
      zpow_sub₀ two_ne_zero, zpow_sub₀ two_ne_zero]
    field_simp
  rw [← same]
  exact located

theorem div_eq_nearest {left right : ℕ} {leftExponent rightExponent : ℤ} (leftPositive : 0 < left)
    (rightPositive : 0 < right) (coarse : -1074 ≤ leftExponent - rightExponent) :
    UnpackedFloat.div .binary64 (.finite .positive left leftExponent leftPositive)
        (.finite .positive right rightExponent rightPositive) =
      nearest ((left * 2 ^ leftExponent) / (right * 2 ^ rightExponent)) := by
  have positive : (0 : ℚ) < (left * 2 ^ leftExponent) / (right * 2 ^ rightExponent) :=
    div_pos (mul_pos (Nat.cast_pos.mpr leftPositive) (zpow_two_pos leftExponent))
      (mul_pos (Nat.cast_pos.mpr rightPositive) (zpow_two_pos rightExponent))
  have size := le_log_quotient leftExponent rightExponent leftPositive rightPositive
  have target := target_exponent_eq
    (totalExponent left leftExponent - totalExponent right rightExponent)
  unfold totalExponent at target
  have grids := grid.eq_1 (((left : ℚ) * 2 ^ leftExponent) / (right * 2 ^ rightExponent))
  unfold UnpackedFloat.div divCore totalExponent
  dsimp only
  rw [target]
  have fine : min (leftExponent - rightExponent)
      (max (left.log2 + 1 + leftExponent - (right.log2 + 1 + rightExponent) - 53) (-1074)) ≤
        leftExponent - rightExponent := min_le_left _ _
  have located := located_quotient left rightPositive fine
  apply round_with_accuracy_eq located positive
  · -- An empty quotient is smaller than a unit of the grid, which must be the finest then.
    intro none
    obtain ⟨-, high⟩ := located.bounds
    rw [none, Nat.cast_zero, zero_add, div_lt_one (zpow_two_pos _)] at high
    have small := (Int.lt_zpow_iff_log_lt one_lt_two positive).mp (by simpa using high)
    omega
  · omega

end Treewalk
