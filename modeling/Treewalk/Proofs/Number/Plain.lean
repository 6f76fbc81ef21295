import Treewalk.Number.Layout
import Treewalk.Token.Chunk
import Treewalk.Proofs.Number.Nearest

/-!
# Printed numbers are read back

A number that was read from digits and is finite is printed in digits, with a point and more digits
behind them if it is not whole, and these digits are read as the same number.
-/

namespace Treewalk

set_option autoImplicit false

theorem cast_pow (base count : ℕ) : ((Nat.pow base count : ℕ) : ℚ) = base ^ count :=
  Nat.cast_pow base count

theorem expansion_value (binary : Binary) : binary.expansion.value = binary.value := by
  unfold Binary.expansion Decimal.value Binary.value
  obtain ⟨significand, exponent⟩ := binary
  dsimp only
  split
  · rename_i whole
    obtain ⟨count, rfl⟩ := Int.eq_ofNat_of_zero_le whole
    rw [zpow_zero, mul_one, Int.toNat_natCast, zpow_natCast, Nat.cast_mul, cast_pow,
      Nat.cast_ofNat]
  · rename_i fractional
    obtain ⟨count, rfl⟩ : ∃ count : ℕ, exponent = -count := ⟨exponent.natAbs, by omega⟩
    have ten : (10 : ℚ) ^ count = 2 ^ count * 5 ^ count := by
      rw [← mul_pow]
      norm_num
    rw [Int.natAbs_neg, Int.natAbs_natCast, Nat.cast_mul, cast_pow, Nat.cast_ofNat, zpow_neg,
      zpow_neg, zpow_natCast, zpow_natCast, ten]
    field_simp

theorem drop_zeros_value (fuel : ℕ) (decimal : Decimal) :
    (Decimal.dropZeros fuel decimal).value = decimal.value := by
  induction fuel generalizing decimal with
  | zero => rfl
  | succ fuel ih =>
      unfold Decimal.dropZeros
      split
      · rename_i ends
        rw [ih]
        unfold Decimal.value
        dsimp only
        have tenth : (decimal.significand : ℚ) = (decimal.significand / 10 : ℕ) * 10 := by
          have whole : decimal.significand = decimal.significand / 10 * 10 := by omega
          exact_mod_cast whole
        rw [tenth, zpow_add₀ (by norm_num), zpow_one]
        ring
      · rfl

theorem candidate_reads_back {binary : Binary} {number : Float} {shift : ℤ} {decimal : Decimal}
    (accepted : binary.candidate number shift = some decimal) : decimal.toFloat = number := by
  unfold Binary.candidate at accepted
  dsimp only at accepted
  apply float_eq_of_bits
  split at accepted
  · rename_i below
    cases accepted
    rw [Bool.and_eq_true] at below
    exact beq_iff_eq.mp below.1
  · split at accepted
    · rename_i above
      cases accepted
      exact beq_iff_eq.mp above
    · cases accepted

theorem shortest_reads_back {number : Float} (finite : number.isFinite = true)
    (nonnegative : number.toBits.toNat < 2 ^ 63) : (shortestDecimal number).toFloat = number := by
  unfold shortestDecimal
  dsimp only
  split
  · rename_i none
    apply exact_reads_back finite nonnegative
    rw [Decimal.value, Binary.value, none, Nat.cast_zero, zero_mul, zero_mul]
  · rw [Decimal.canonical, to_float_congr (drop_zeros_value _ _)]
    generalize searched : (List.range mostDigits).findSome? _ = found
    cases found with
    | none => exact exact_reads_back finite nonnegative (expansion_value _)
    | some decimal =>
        obtain ⟨before, -, accepted⟩ := List.exists_of_findSome?_eq_some searched
        exact candidate_reads_back accepted

theorem of_digits_eq (whole fraction : List Char) :
    Decimal.ofDigits whole fraction =
      ⟨Nat.ofDigitChars 10 (whole ++ fraction) 0, -fraction.length⟩ :=
  rfl

theorem digits_eq (decimal : Decimal) : decimal.digits = Nat.toDigits 10 decimal.significand :=
  Nat.toList_repr

theorem digits_digit {decimal : Decimal} {char : Char} (inside : char ∈ decimal.digits) :
    Chunk.isDigit char = true := by
  rw [digits_eq] at inside
  have digit := Nat.isDigit_of_mem_toDigits (by decide) (by decide) inside
  simp only [Char.isDigit, Chunk.isDigit, Bool.and_eq_true, decide_eq_true_eq] at digit ⊢
  exact digit

theorem digits_ne_nil (decimal : Decimal) : decimal.digits ≠ [] := by
  rw [digits_eq]
  exact Nat.toDigits_ne_nil

theorem of_digit_chars_digits (decimal : Decimal) :
    Nat.ofDigitChars 10 decimal.digits 0 = decimal.significand := by
  rw [digits_eq, Nat.ofDigitChars_ten_toDigits]

theorem replicate_digit {count : ℕ} {char : Char} (inside : char ∈ List.replicate count '0') :
    Chunk.isDigit char = true := by
  rw [List.eq_of_mem_replicate inside]
  rfl

/-- The digits in front of the point and behind it, as a number is printed with them. -/
structure Layout (text : List Char) (value : ℚ) (whole behind : List Char) : Prop where
  text_eq : text = whole ++ (if behind.isEmpty then [] else '.' :: behind)
  nonempty : whole ≠ []
  insideWhole : ∀ char ∈ whole, Chunk.isDigit char = true
  insideBehind : ∀ char ∈ behind, Chunk.isDigit char = true
  value_eq : (Decimal.ofDigits whole behind).value = value

theorem layout_small {decimal : Decimal} (small : decimal.point ≤ 0) :
    Layout (Number.positional decimal) decimal.value ['0']
      (List.replicate decimal.point.natAbs '0' ++ decimal.digits) := by
  have nonempty := digits_ne_nil decimal
  constructor
  · unfold Number.positional
    rw [if_pos small]
    cases found : decimal.digits with
    | nil => exact absurd found nonempty
    | cons first rest => simp
  · exact List.cons_ne_nil _ _
  · intro char inside
    rw [List.mem_singleton.mp inside]
    rfl
  · intro char inside
    rcases List.mem_append.mp inside with zero | digit
    · exact replicate_digit zero
    · exact digits_digit digit
  · have places : -((List.replicate decimal.point.natAbs '0' ++ decimal.digits).length : ℤ) =
        decimal.exponent := by
      rw [List.length_append, List.length_replicate]
      unfold Decimal.point at small ⊢
      omega
    have significand : Nat.ofDigitChars 10 (['0'] ++
        (List.replicate decimal.point.natAbs '0' ++ decimal.digits)) 0 = decimal.significand := by
      rw [Nat.ofDigitChars_append, Nat.ofDigitChars_append, Nat.ofDigitChars_replicate_zero]
      exact of_digit_chars_digits decimal
    rw [of_digits_eq, places, significand]

theorem layout_whole {decimal : Decimal} (large : 0 < decimal.point)
    (whole : decimal.digits.length ≤ decimal.point.toNat) :
    Layout (Number.positional decimal) decimal.value
      (decimal.digits ++
        List.replicate (decimal.point.toNat - decimal.digits.length) '0') [] := by
  have nonempty := digits_ne_nil decimal
  constructor
  · unfold Number.positional
    rw [if_neg (by omega), if_pos whole]
    exact (List.append_nil _).symm
  · exact List.append_ne_nil_of_left_ne_nil nonempty _
  · intro char inside
    rcases List.mem_append.mp inside with digit | zero
    · exact digits_digit digit
    · exact replicate_digit zero
  · exact List.forall_mem_nil _
  · have places : decimal.exponent = ((decimal.point.toNat - decimal.digits.length : ℕ) : ℤ) := by
      unfold Decimal.point at large whole ⊢
      omega
    rw [of_digits_eq, List.append_nil, Nat.ofDigitChars_append, of_digit_chars_digits,
      Nat.ofDigitChars_replicate_zero, Decimal.value, Decimal.value, places]
    dsimp only
    rw [List.length_nil, Nat.cast_zero, neg_zero, zpow_zero, mul_one, zpow_natCast]
    push_cast
    ring

theorem layout_split {decimal : Decimal} (large : 0 < decimal.point)
    (short : decimal.point.toNat < decimal.digits.length) :
    Layout (Number.positional decimal) decimal.value (decimal.digits.take decimal.point.toNat)
      (decimal.digits.drop decimal.point.toNat) := by
  constructor
  · unfold Number.positional
    have some : (decimal.digits.drop decimal.point.toNat).isEmpty = false := by
      rw [List.isEmpty_eq_false_iff, Ne, List.drop_eq_nil_iff]
      omega
    rw [if_neg (by omega), if_neg (by omega), some]
    rfl
  · rw [Ne, List.take_eq_nil_iff]
    rintro (none | none)
    · omega
    · exact digits_ne_nil decimal none
  · exact fun char inside => digits_digit (List.mem_of_mem_take inside)
  · exact fun char inside => digits_digit (List.mem_of_mem_drop inside)
  · have places : -((decimal.digits.drop decimal.point.toNat).length : ℤ) = decimal.exponent := by
      rw [List.length_drop]
      unfold Decimal.point at large short ⊢
      omega
    rw [of_digits_eq, List.take_append_drop, of_digit_chars_digits, places]

theorem layout_positional (decimal : Decimal) :
    ∃ whole behind, Layout (Number.positional decimal) decimal.value whole behind := by
  by_cases small : decimal.point ≤ 0
  · exact ⟨_, _, layout_small small⟩
  · by_cases whole : decimal.digits.length ≤ decimal.point.toNat
    · exact ⟨_, _, layout_whole (by omega) whole⟩
    · exact ⟨_, _, layout_split (by omega) (by omega)⟩

theorem abs_of_nonnegative {number : Float} (finite : number.isFinite = true)
    (nonnegative : number.toBits.toNat < 2 ^ 63) : number.abs = number := by
  have unsigned : (Binary.ofFloat number).unpacked.abs = (Binary.ofFloat number).unpacked := by
    unfold Binary.unpacked
    split <;> rfl
  have read : number.abs = .ofModel (.pack number.toModel.unpack.abs) := rfl
  rw [read, unpack_of_float finite nonnegative, unsigned]
  exact pack_of_float finite nonnegative

theorem plain_eq {number : Float} (finite : number.isFinite = true)
    (nonnegative : number.toBits.toNat < 2 ^ 63) :
    (Number.plain number).toList = Number.positional (shortestDecimal number) := by
  have isNumber : number.isNaN = false ∧ number.isInf = false := by
    unfold Float.isFinite Float.Model.isFinite at finite
    unfold Float.isNaN Float.isInf Float.Model.isNaN Float.Model.isInf
    cases unpacked : number.toModel.unpack with
    | zero sign => exact ⟨rfl, rfl⟩
    | finite sign mantissa exponent positive => exact ⟨rfl, rfl⟩
    | infinity sign =>
        rw [unpacked] at finite
        cases finite
    | notANumber =>
        rw [unpacked] at finite
        cases finite
  have sign : Number.sign number = "" := by
    have positive : Number.isNegative number = false := decide_eq_false nonnegative.not_ge
    rw [Number.sign, positive]
    rfl
  rw [Number.plain, isNumber.1, isNumber.2, sign, Number.magnitude,
    abs_of_nonnegative finite nonnegative]
  simp

theorem plain_reads_back {whole fraction : List Char}
    (finite : (Decimal.ofDigits whole fraction).toFloat.isFinite = true) :
    ∃ first more behind, (Number.plain (Decimal.ofDigits whole fraction).toFloat).toList =
        first :: (more ++ (if behind.isEmpty then [] else '.' :: behind)) ∧
      Chunk.isDigit first = true ∧ (∀ char ∈ more, Chunk.isDigit char = true) ∧
      (∀ char ∈ behind, Chunk.isDigit char = true) ∧
      (Decimal.ofDigits (first :: more) behind).toFloat =
        (Decimal.ofDigits whole fraction).toFloat := by
  have nonnegative := to_float_nonnegative (Decimal.ofDigits whole fraction)
  generalize (Decimal.ofDigits whole fraction).toFloat = number at finite nonnegative ⊢
  obtain ⟨front, behind, text, nonempty, insideFront, insideBehind, value⟩ :=
    layout_positional (shortestDecimal number)
  have reads : (Decimal.ofDigits front behind).toFloat = number :=
    (to_float_congr value).trans (shortest_reads_back finite nonnegative)
  cases front with
  | nil => exact absurd rfl nonempty
  | cons first more =>
      rw [List.forall_mem_cons] at insideFront
      exact ⟨first, more, behind, (plain_eq finite nonnegative).trans text, insideFront.1,
        insideFront.2, insideBehind, reads⟩

end Treewalk
