/-!
# Decimal forms of numbers

A binary number is written with the fewest decimal digits that read back as the same number. The
search tries one digit, two digits, and so on. On the grid of decimals with that many digits it
looks at the two neighbours of the number and keeps those that read back. The exact expansion
stands behind the search as the last resort.
-/

namespace Treewalk

set_option autoImplicit false

structure Decimal where
  significand : Nat
  exponent : Int
deriving DecidableEq, Inhabited

namespace Decimal

/-- The binary number nearest to a decimal; a tie goes to the even neighbour. -/
def toFloat (decimal : Decimal) : Float :=
  Float.ofScientific decimal.significand (decimal.exponent < 0) decimal.exponent.natAbs

def ofDigits (whole fraction : List Char) : Decimal :=
  let value (total : Nat) (digit : Char) : Nat := 10 * total + (digit.toNat - '0'.toNat)
  ⟨(whole ++ fraction).foldl value 0, -fraction.length⟩

def digits (decimal : Decimal) : List Char :=
  (toString decimal.significand).toList

def dropZeros : Nat → Decimal → Decimal
  | 0, decimal => decimal
  | fuel + 1, decimal =>
      if decimal.significand ≠ 0 ∧ decimal.significand % 10 = 0 then
        dropZeros fuel ⟨decimal.significand / 10, decimal.exponent + 1⟩
      else decimal

def canonical (decimal : Decimal) : Decimal :=
  decimal.dropZeros decimal.digits.length

/-- The position of the decimal point: the number is `0.d₁d₂… * 10 ^ point` for the digits `d`. -/
def point (decimal : Decimal) : Int :=
  decimal.digits.length + decimal.exponent

end Decimal

structure Binary where
  significand : Nat
  exponent : Int
deriving DecidableEq, Inhabited

namespace Binary

def ofFloat (number : Float) : Binary :=
  let bits : Nat := number.toBits.toNat
  let fraction : Nat := bits % Nat.pow 2 52
  let scale : Nat := bits / Nat.pow 2 52 % Nat.pow 2 11
  if scale = 0 then ⟨fraction, -1074⟩ else ⟨Nat.pow 2 52 + fraction, (scale : Int) - 1075⟩

def ratio (binary : Binary) : Nat × Nat :=
  if 0 ≤ binary.exponent then (binary.significand * Nat.pow 2 binary.exponent.toNat, 1)
  else (binary.significand, Nat.pow 2 binary.exponent.natAbs)

def scaledRatio (binary : Binary) (shift : Int) : Nat × Nat :=
  let (top, bottom) := binary.ratio
  if 0 ≤ shift then (top * Nat.pow 10 shift.toNat, bottom)
  else (top, bottom * Nat.pow 10 shift.natAbs)

def expansion (binary : Binary) : Decimal :=
  if 0 ≤ binary.exponent then ⟨binary.significand * Nat.pow 2 binary.exponent.toNat, 0⟩
  else ⟨binary.significand * Nat.pow 5 binary.exponent.natAbs, binary.exponent⟩

/-- Of the two neighbours on the grid of decimals with `shift` places behind the point, the nearer
one that reads back as `number`; of two at the same distance, the larger. -/
def candidate (binary : Binary) (number : Float) (shift : Int) : Option Decimal :=
  let (top, bottom) := binary.scaledRatio shift
  let below : Decimal := ⟨top / bottom, -shift⟩
  let above : Decimal := ⟨top / bottom + 1, -shift⟩
  let readsBack (decimal : Decimal) : Bool := decimal.toFloat.toBits == number.toBits
  let nearerBelow : Bool := 2 * (top % bottom) < bottom
  if readsBack below && (nearerBelow || !readsBack above) then some below
  else if readsBack above then some above
  else none

end Binary

def mostDigits : Nat := 17

/-- The decimal with the fewest digits that reads back as the non-negative finite `number`. -/
def shortestDecimal (number : Float) : Decimal :=
  let binary := Binary.ofFloat number
  if binary.significand = 0 then ⟨0, 0⟩
  else
    let point := binary.expansion.point
    let found := (List.range mostDigits).findSome? fun (before : Nat) =>
      binary.candidate number (((before + 1 : Nat) : Int) - point)
    (found.getD binary.expansion).canonical

/-- The magnitude of a finite number in units of `10 ^ -places`, rounded to nearest; a tie goes to
the even unit. -/
def roundToPlaces (places : Nat) (number : Float) : Nat :=
  let (top, bottom) := (Binary.ofFloat number).scaledRatio places
  let floor := top / bottom
  let rest := 2 * (top % bottom)
  if rest < bottom then floor
  else if rest > bottom then floor + 1
  else floor + floor % 2

end Treewalk
