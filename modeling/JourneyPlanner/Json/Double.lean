/-!
# Decimal numbers as doubles

Whether a double can hold a decimal number. The number is first brought to a significand of sixty-four
bits and a power of ten: digits that no longer fit are given up (`Decimal.ofDigits`). Significand and
power are then rounded to doubles each by itself, and what counts is whether their product still rounds
to one. Near the greatest double this decides otherwise than rounding the number itself would, either
way.
-/

namespace JourneyPlanner.Json

/-- The number `significand * 10 ^ scale`. -/
structure Decimal where
  significand : Nat
  scale : Int
  deriving DecidableEq, Repr

namespace Decimal

/-- A significand is less than this. -/
def significandLimit : Nat := Nat.pow 2 64

/-- Appends digits to a significand up to the first that no longer fits, and counts them from `taken`
on. -/
def extend (significand taken : Nat) : List Char → Nat × Nat
  | [] => (significand, taken)
  | c :: rest =>
    let longer := significand * 10 + (c.toNat - 48)
    if longer < significandLimit then extend longer (taken + 1) rest else (significand, taken)

/-- The number with the digits `whole` before its point and `places` after it, times ten to the `power`.
A digit before the point that does not fit still counts for the scale; one after the point is dropped. -/
def ofDigits (whole places : List Char) (power : Int) : Decimal :=
  let (significand, kept) := extend 0 0 whole
  let (significand, taken) := extend significand 0 places
  { significand, scale := power + (whole.length - kept : Nat) - taken }

/-- How many binary digits a double keeps. -/
def precision : Nat := 53

/-- The nearest whole number with at most `precision` binary digits before its trailing zeros. Halfway
between two, it is the one whose digits are even. -/
def round (n : Nat) : Nat :=
  let unit := Nat.pow 2 (n.log2 + 1 - precision)
  let below := n / unit
  let rest := n % unit
  if unit < 2 * rest ∨ (unit = 2 * rest ∧ below % 2 = 1) then (below + 1) * unit else below * unit

/-- Numbers from here on, and no smaller ones, round to no double. -/
def overflow : Nat := Nat.pow 2 1024 - Nat.pow 2 970

/-- The greatest power of ten that is a double. -/
def maxPower : Int := 308

/-- Whether a double can hold the number. A scale below zero makes it small enough in any case. -/
def isFinite (number : Decimal) : Bool :=
  number.significand == 0 ||
    (number.scale ≤ maxPower &&
      round number.significand * round (Nat.pow 10 number.scale.toNat) < overflow)

end Decimal

end JourneyPlanner.Json
