import Treewalk.Number.Decimal
import Treewalk.Proofs.Number.Round

/-!
# Numbers as words of 64 bits

A word that is not negative and finite holds the scale of the number above the fraction; what is
read out of it is packed into the same word, and what is packed in lowest terms is read out again.
-/

namespace Treewalk

set_option autoImplicit false

open Float.Model Float.Model.UnpackedFloat

structure Storable (mantissa : ℕ) (exponent : ℤ) : Prop where
  positive : 0 < mantissa
  short : mantissa < 2 ^ 53
  coarse : -1074 ≤ exponent
  small : exponent ≤ 971
  full : exponent = -1074 ∨ 2 ^ 52 ≤ mantissa

theorem packed_to_nat (scale : BitVec 11) (fraction : BitVec 52) :
    (packComponents .binary64 .positive scale fraction).toNat =
      scale.toNat * 2 ^ 52 + fraction.toNat := by
  have below : fraction.toNat < 2 ^ 52 := fraction.isLt
  have signed : ((Sign.toBitVec .positive ++ scale : BitVec (1 + 11))).toNat = scale.toNat := by
    rw [BitVec.toNat_append]
    simp [Sign.toBitVec]
  unfold packComponents
  rw [BitVec.toNat_append, signed, ← Nat.shiftLeft_add_eq_or_of_lt below, Nat.shiftLeft_eq]

theorem mantissa_to_nat (word : BitVec 64) :
    (@unpackMantissa .binary64 word).toNat = word.toNat % 2 ^ 52 := by
  simp [unpackMantissa]

theorem scale_to_nat (word : BitVec 64) :
    (@unpackExponent .binary64 word).toNat = word.toNat / 2 ^ 52 % 2 ^ 11 := by
  simp [unpackExponent, Nat.shiftRight_eq_div_pow]

theorem sign_to_nat (word : BitVec 64) :
    (@unpackSign .binary64 word).toNat = word.toNat / 2 ^ 63 % 2 := by
  simp [unpackSign, Nat.shiftRight_eq_div_pow]

theorem float_eq_of_bits {left right : Float} (same : left.toBits = right.toBits) :
    left = right := by
  rcases left with ⟨⟨bits, _⟩⟩
  rcases right with ⟨⟨others, _⟩⟩
  have bitsSame : bits = others := same
  subst bitsSame
  rfl

theorem scale_full_iff {scale : BitVec 11} : scale = -1#11 ↔ scale.toNat = 2047 := by
  rw [← BitVec.toNat_inj]
  rfl

theorem scale_zero_iff {scale : BitVec 11} : scale = 0#11 ↔ scale.toNat = 0 := by
  rw [← BitVec.toNat_inj]
  rfl

theorem fraction_zero_iff {fraction : BitVec 52} : fraction = 0#52 ↔ fraction.toNat = 0 := by
  rw [← BitVec.toNat_inj]
  rfl

theorem implicit_to_nat (fraction : BitVec 52) :
    (1#1 ++ fraction).toNat = 2 ^ 52 + fraction.toNat := by
  rw [BitVec.toNat_append, ← Nat.shiftLeft_add_eq_or_of_lt fraction.isLt]
  rfl

def Binary.unpacked (binary : Binary) : UnpackedFloat :=
  if none : binary.significand = 0 then .zero .positive
  else .finite .positive binary.significand binary.exponent (Nat.pos_of_ne_zero none)

theorem of_float_eq (number : Float) :
    Binary.ofFloat number =
      if number.toBits.toNat / 2 ^ 52 % 2 ^ 11 = 0 then ⟨number.toBits.toNat % 2 ^ 52, -1074⟩
      else ⟨2 ^ 52 + number.toBits.toNat % 2 ^ 52,
        ((number.toBits.toNat / 2 ^ 52 % 2 ^ 11 : ℕ) : ℤ) - 1075⟩ :=
  rfl

/-- What a word that is not negative stands for if its scale is not the largest. -/
theorem unpack_word {word : BitVec 64} (nonnegative : word.toNat < 2 ^ 63)
    (bounded : word.toNat / 2 ^ 52 % 2 ^ 11 ≠ 2047) :
    UnpackedFloat.unpack .binary64 word =
      (if word.toNat / 2 ^ 52 % 2 ^ 11 = 0 then ⟨word.toNat % 2 ^ 52, -1074⟩
        else ⟨2 ^ 52 + word.toNat % 2 ^ 52,
          ((word.toNat / 2 ^ 52 % 2 ^ 11 : ℕ) : ℤ) - 1075⟩ : Binary).unpacked := by
  have sign : Sign.ofBitVec (@unpackSign .binary64 word) = .positive := by
    have none : @unpackSign .binary64 word = 0#1 := by
      rw [← BitVec.toNat_inj, sign_to_nat]
      simp only [BitVec.toNat_ofNat]
      omega
    rw [none]
    rfl
  have full : @unpackExponent .binary64 word ≠ -1#11 := by
    rw [Ne, scale_full_iff, scale_to_nat]
    exact bounded
  unfold UnpackedFloat.unpack
  dsimp only
  rw [if_neg full, sign]
  by_cases scaleZero : word.toNat / 2 ^ 52 % 2 ^ 11 = 0
  · have small : @unpackExponent .binary64 word = 0#11 := by
      rw [scale_zero_iff, scale_to_nat]
      exact scaleZero
    rw [if_pos small, if_pos scaleZero, small]
    by_cases none : word.toNat % 2 ^ 52 = 0
    · have fraction : @unpackMantissa .binary64 word = 0#52 := by
        rw [fraction_zero_iff, mantissa_to_nat]
        exact none
      rw [dif_pos fraction, Binary.unpacked, dif_pos none]
    · have fraction : @unpackMantissa .binary64 word ≠ 0#52 := by
        rw [Ne, fraction_zero_iff, mantissa_to_nat]
        exact none
      rw [dif_neg fraction, Binary.unpacked, dif_neg none]
      congr 1
  · have large : @unpackExponent .binary64 word ≠ 0#11 := by
      rw [Ne, scale_zero_iff, scale_to_nat]
      exact scaleZero
    rw [if_neg large, if_neg scaleZero, Binary.unpacked, dif_neg (by positivity)]
    congr 1
    · rw [implicit_to_nat, mantissa_to_nat]
    · rw [scale_to_nat]
      rfl

theorem scale_of_finite {word : BitVec 64}
    (finite : (UnpackedFloat.unpack .binary64 word).isFinite = true) :
    word.toNat / 2 ^ 52 % 2 ^ 11 ≠ 2047 := by
  intro bounded
  have full : @unpackExponent .binary64 word = -1#11 := by
    rw [scale_full_iff, scale_to_nat]
    exact bounded
  unfold UnpackedFloat.unpack at finite
  dsimp only at finite
  rw [if_pos full] at finite
  split at finite <;> cases finite

theorem unpack_of_float {number : Float} (finite : number.isFinite = true)
    (nonnegative : number.toBits.toNat < 2 ^ 63) :
    number.toModel.unpack = (Binary.ofFloat number).unpacked :=
  unpack_word nonnegative (scale_of_finite finite)

theorem storable_of_float {number : Float} (finite : number.isFinite = true)
    (nonzero : (Binary.ofFloat number).significand ≠ 0) :
    Storable (Binary.ofFloat number).significand (Binary.ofFloat number).exponent := by
  have bounded : number.toBits.toNat / 2 ^ 52 % 2 ^ 11 ≠ 2047 := scale_of_finite finite
  rw [of_float_eq] at nonzero ⊢
  generalize number.toBits.toNat = bits at bounded nonzero ⊢
  split at nonzero
  · rename_i none
    rw [if_pos none]
    constructor <;> dsimp only at nonzero ⊢ <;> omega
  · rename_i some
    rw [if_neg some]
    constructor <;> dsimp only at nonzero ⊢ <;> omega

theorem pack_overflow {mantissa : ℕ} {exponent : ℤ} (positive : 0 < mantissa)
    (large : 972 ≤ exponent) :
    UnpackedFloat.pack .binary64 (.finite .positive mantissa exponent positive) =
      packedInfinity .binary64 .positive := by
  unfold UnpackedFloat.pack Format.exponentBias
  dsimp only
  rw [if_pos (by omega)]

/-- A stored number is packed with its scale above its fraction; the scale is zero if the mantissa
lacks its first digit. -/
theorem pack_storable {mantissa : ℕ} {exponent : ℤ} (storable : Storable mantissa exponent) :
    UnpackedFloat.pack .binary64 (.finite .positive mantissa exponent storable.positive) =
      packComponents .binary64 .positive
        (if 2 ^ 52 ≤ mantissa then BitVec.ofNat 11 (exponent + 1075).toNat else 0#11)
        (BitVec.ofNat 52 mantissa) := by
  obtain ⟨positive, short, coarse, small, full⟩ := storable
  have digits : mantissa.log2 + 1 = Format.binary64.mantissaBits ↔ 2 ^ 52 ≤ mantissa := by
    have log := Nat.log2_eq_iff (n := mantissa) (k := 52) positive.ne'
    change mantissa.log2 + 1 = 53 ↔ _
    omega
  unfold UnpackedFloat.pack Format.exponentBias
  dsimp only
  rw [if_neg (by omega)]
  by_cases large : 2 ^ 52 ≤ mantissa
  · rw [if_pos (digits.mpr large), if_pos large]
    congr 3
    omega
  · rw [if_neg (mt digits.mp large), if_neg large]

theorem pack_storable_to_nat {mantissa : ℕ} {exponent : ℤ}
    (storable : Storable mantissa exponent) :
    (UnpackedFloat.pack .binary64 (.finite .positive mantissa exponent storable.positive)).toNat =
      if 2 ^ 52 ≤ mantissa then (exponent + 1075).toNat * 2 ^ 52 + (mantissa - 2 ^ 52)
      else mantissa := by
  obtain ⟨positive, short, coarse, small, full⟩ := id storable
  rw [pack_storable storable, packed_to_nat]
  by_cases large : 2 ^ 52 ≤ mantissa
  · rw [if_pos large, if_pos large, BitVec.toNat_ofNat, BitVec.toNat_ofNat]
    omega
  · rw [if_neg large, if_neg large, BitVec.toNat_ofNat, BitVec.toNat_ofNat]
    omega

/-- Reading a number that is not negative and packing it again changes nothing. -/
theorem pack_of_float {number : Float} (finite : number.isFinite = true)
    (nonnegative : number.toBits.toNat < 2 ^ 63) :
    Float.ofModel (Float.Model.pack (Binary.ofFloat number).unpacked) = number := by
  have words : (UnpackedFloat.pack .binary64 (Binary.ofFloat number).unpacked).toNat =
      number.toBits.toNat := by
    unfold Binary.unpacked
    split
    · rename_i none
      rw [of_float_eq] at none
      have zero : (packedZero .binary64 .positive).toNat = 0 := by rfl
      rw [UnpackedFloat.pack, zero]
      split at none <;> dsimp only at none <;> omega
    · rename_i some
      have storable := storable_of_float finite some
      have bounded : number.toBits.toNat / 2 ^ 52 % 2 ^ 11 ≠ 2047 := scale_of_finite finite
      rw [pack_storable_to_nat storable, of_float_eq]
      generalize number.toBits.toNat = bits at nonnegative bounded
      by_cases none : bits / 2 ^ 52 % 2 ^ 11 = 0
      · rw [if_pos none]
        dsimp only
        split <;> omega
      · rw [if_neg none]
        dsimp only
        split <;> omega
  exact float_eq_of_bits (UInt64.toNat_inj.mp words)

theorem of_float_pack {mantissa : ℕ} {exponent : ℤ} (storable : Storable mantissa exponent) :
    Binary.ofFloat (.ofModel (.pack (.finite .positive mantissa exponent storable.positive))) =
      ⟨mantissa, exponent⟩ := by
  obtain ⟨positive, short, coarse, small, full⟩ := id storable
  have word : (Float.ofModel (.pack (.finite .positive mantissa exponent positive))).toBits.toNat =
      _ := pack_storable_to_nat storable
  rw [of_float_eq, word]
  by_cases large : 2 ^ 52 ≤ mantissa
  · have scale : ((exponent + 1075).toNat * 2 ^ 52 + (mantissa - 2 ^ 52)) / 2 ^ 52 % 2 ^ 11 =
        (exponent + 1075).toNat := by omega
    have fraction : ((exponent + 1075).toNat * 2 ^ 52 + (mantissa - 2 ^ 52)) % 2 ^ 52 =
        mantissa - 2 ^ 52 := by omega
    rw [if_pos large, scale, fraction, if_neg (by omega), Binary.mk.injEq]
    constructor <;> omega
  · rw [if_neg large, if_pos (by omega), Binary.mk.injEq]
    constructor <;> omega

theorem unpack_pack {mantissa : ℕ} {exponent : ℤ} (storable : Storable mantissa exponent) :
    (Float.Model.pack (.finite .positive mantissa exponent storable.positive)).unpack =
      .finite .positive mantissa exponent storable.positive := by
  obtain ⟨positive, short, coarse, small, full⟩ := id storable
  have word := pack_storable_to_nat storable
  have nonnegative : (UnpackedFloat.pack .binary64
      (.finite .positive mantissa exponent positive)).toNat < 2 ^ 63 := by
    rw [word]
    split <;> omega
  have bounded : (UnpackedFloat.pack .binary64
      (.finite .positive mantissa exponent positive)).toNat / 2 ^ 52 % 2 ^ 11 ≠ 2047 := by
    rw [word]
    split <;> omega
  have read := unpack_word nonnegative bounded
  have fields := of_float_pack storable
  rw [of_float_eq] at fields
  calc (Float.Model.pack (.finite .positive mantissa exponent positive)).unpack
      = (Binary.mk mantissa exponent).unpacked := read.trans (congrArg Binary.unpacked fields)
    _ = .finite .positive mantissa exponent positive := dif_neg positive.ne'

end Treewalk
