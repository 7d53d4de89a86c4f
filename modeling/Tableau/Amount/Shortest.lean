import Tableau.Amount.Basic

/-!
The shortest decimal that reads back as a given amount.  The reals that round
to an amount form an interval; the search goes from coarse decimal grids to
fine ones and stops at the first grid with a point in the interval, so that no
decimal with fewer digits reads back.
-/

namespace Tableau

structure Decimal where
  digits : Nat
  exponent : Int
deriving DecidableEq, Repr

/-- A fraction of naturals, the common ground on which binary and decimal
numbers are compared. -/
structure Fraction where
  top : Nat
  bottom : Nat
deriving DecidableEq, Repr

namespace Fraction

def scaled (significand base : Nat) : Int → Fraction
  | .ofNat power => ⟨significand * base.pow power, 1⟩
  | .negSucc power => ⟨significand, base.pow (power + 1)⟩

def compare (left right : Fraction) : Ordering :=
  Ord.compare (left.top * right.bottom) (right.top * left.bottom)

end Fraction

def Decimal.toFraction (decimal : Decimal) : Fraction :=
  Fraction.scaled decimal.digits 10 decimal.exponent

namespace Amount

def toFraction (amount : Amount) : Fraction :=
  Fraction.scaled amount.significand 2 amount.binaryExponent

/-- Below a power of two the amounts lie twice as dense as above it. -/
def narrowBelow (amount : Amount) : Bool :=
  amount.fractionField == 0 && 1 < amount.exponentField

def lowerEnd (amount : Amount) : Fraction :=
  Fraction.scaled
    (4 * amount.significand - (if amount.narrowBelow then 1 else 2)) 2
    (amount.binaryExponent - 2)

def upperEnd (amount : Amount) : Fraction :=
  Fraction.scaled (4 * amount.significand + 2) 2 (amount.binaryExponent - 2)

/-- The decimal lies among the reals that round to the magnitude of `amount`.
The two ends round to an even significand. -/
def readsBack (amount : Amount) (decimal : Decimal) : Bool :=
  let low := amount.lowerEnd.compare decimal.toFraction
  let high := decimal.toFraction.compare amount.upperEnd
  let ends := amount.significand % 2 == 0
  (low == .lt || (ends && low == .eq)) &&
    (high == .lt || (ends && high == .eq))

def gridFloor (amount : Amount) (exponent : Int) : Nat :=
  let whole := amount.toFraction
  let step := Fraction.scaled 1 10 exponent
  whole.top * step.bottom / (whole.bottom * step.top)

/-- The point of the grid with step `10 ^ exponent` that reads back as
`amount`.  Of two such points the nearer one is taken, and of two equally near
ones the greater. -/
def gridPoint? (amount : Amount) (exponent : Int) : Option Decimal :=
  let steps := amount.gridFloor exponent
  let below : Decimal := ⟨steps, exponent⟩
  let above : Decimal := ⟨steps + 1, exponent⟩
  let middle := Fraction.scaled (2 * steps + 1) 10 exponent
  let twice := Fraction.scaled (2 * amount.significand) 2 amount.binaryExponent
  if amount.readsBack below &&
      (!amount.readsBack above || twice.compare middle == .lt) then some below
  else if amount.readsBack above then some above
  else none

/-- A power of ten above the magnitude: the bit length times the logarithm of
two, with a margin. -/
def coarseExponent (amount : Amount) : Int :=
  ((Nat.log2 amount.significand : Int) + 1 + amount.binaryExponent) *
    30103 / 100000 + 2

def exactDecimal (amount : Amount) : Decimal :=
  match amount.binaryExponent with
  | .ofNat power => ⟨amount.significand <<< power, 0⟩
  | .negSucc power =>
      ⟨amount.significand * Nat.pow 5 (power + 1), -((power : Int) + 1)⟩

/-- Go through `count` grids, each ten times as fine as the one before. -/
def searchGrids (amount : Amount) : Nat → Int → Decimal
  | 0, _ => amount.exactDecimal
  | count + 1, exponent =>
      match amount.gridPoint? exponent with
      | some decimal => decimal
      | none => searchGrids amount count (exponent - 1)

/-- The shortest decimal that reads back as the magnitude of a finite amount.
Seventeen digits always suffice, so the search ends well within its range. -/
def shortest (amount : Amount) : Decimal :=
  if amount.significand = 0 then ⟨0, 0⟩
  else searchGrids amount 24 amount.coarseExponent

example : one.shortest = ⟨1, 0⟩ := by decide +kernel

example : (⟨0x3FD3333333333334⟩ : Amount).shortest =
    ⟨30000000000000004, -17⟩ := by decide +kernel

/-- Of two equally near decimals the greater one is taken. -/
example : (⟨0x3E60000000000000⟩ : Amount).shortest =
    ⟨29802322387695313, -24⟩ := by decide +kernel

end Amount

end Tableau
