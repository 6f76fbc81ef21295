import Treewalk.Number.Decimal

/-!
# Texts of numbers

The language writes a number in four ways: in a printed program (`plain`), in a joined string or as
the value of a session line (`general`), by a print statement (`printed`), and in a tree dump
(`dumped`). All but the third show the shortest decimal; they differ in where the exponent starts to
be written and in how it looks.
-/

namespace Treewalk.Number

set_option autoImplicit false

def isNegative (number : Float) : Bool :=
  Nat.pow 2 63 ≤ number.toBits.toNat

def sign (number : Float) : String :=
  if isNegative number then "-" else ""

def magnitude (number : Float) : Decimal :=
  shortestDecimal number.abs

def positional (decimal : Decimal) : List Char :=
  let digits := decimal.digits
  let point := decimal.point
  if point ≤ 0 then '0' :: '.' :: List.replicate point.natAbs '0' ++ digits
  else if digits.length ≤ point.toNat then
    digits ++ List.replicate (point.toNat - digits.length) '0'
  else digits.take point.toNat ++ '.' :: digits.drop point.toNat

def mantissa (decimal : Decimal) : List Char :=
  match decimal.digits with
  | [] => []
  | [digit] => [digit]
  | digit :: rest => digit :: '.' :: rest

def leadingPower (decimal : Decimal) : Int :=
  decimal.point - 1

def plain (number : Float) : String :=
  if number.isNaN then "NaN"
  else if number.isInf then sign number ++ "inf"
  else sign number ++ String.ofList (positional (magnitude number))

def padded (width : Nat) (value : Nat) : List Char :=
  let digits := (toString value).toList
  List.replicate (width - digits.length) '0' ++ digits

/-- Shortest digits; below `1e-4` and from `1e21` on with a signed exponent of two digits or more.
-/
def general (number : Float) : String :=
  if number.isNaN then "NaN"
  else if number.isInf then (if isNegative number then "-Inf" else "+Inf")
  else
    let decimal := magnitude number
    let power := leadingPower decimal
    if decimal.significand = 0 || (-4 ≤ power && power < 21) then plain number
    else
      sign number ++ String.ofList (mantissa decimal) ++ "e" ++ (if power < 0 then "-" else "+")
        ++ String.ofList (padded 2 power.natAbs)

def fixed (places : Nat) (number : Float) : String :=
  if number.isNaN then "NaN"
  else if number.isInf then sign number ++ "inf"
  else
    let units := roundToPlaces places number
    sign number ++ toString (units / Nat.pow 10 places) ++ "."
      ++ String.ofList (padded places (units % Nat.pow 10 places))

def printed (number : Float) : String :=
  if number.isNaN || number.isInf then fixed 6 number
  else if roundToPlaces 6 number % Nat.pow 10 6 = 0 then
    sign number ++ toString (roundToPlaces 6 number / Nat.pow 10 6)
  else fixed 6 number

/-- Shortest digits with at least one behind the point; below `1e-4` and from `1e16` on with a bare
exponent. -/
def dumped (number : Float) : String :=
  if number.isNaN || number.isInf then plain number
  else
    let decimal := magnitude number
    let power := leadingPower decimal
    if decimal.significand = 0 || (-4 ≤ power && power < 16) then
      plain number ++ (if 0 ≤ decimal.exponent then ".0" else "")
    else sign number ++ String.ofList (mantissa decimal) ++ "e" ++ toString power

end Treewalk.Number
