import Tableau.Checked

/-!
Amounts: the binary64 numbers that effects add and multiply.  An amount is its
64-bit pattern, so that two amounts are equal exactly when they are stored
alike; -0 and the payload of a NaN survive storing.  Addition and
multiplication round to nearest, ties to even.
-/

namespace Tableau

/-- A binary64 number, kept as its bit pattern. -/
structure Amount where
  bits : UInt64
deriving DecidableEq, Repr

namespace Amount

def zero : Amount := ⟨0⟩

/-- The sum of no amounts at all: the neutral element of addition, which +0
is not, since -0 + 0 is +0. -/
def emptySum : Amount := ⟨0x8000000000000000⟩

def one : Amount := ⟨0x3FF0000000000000⟩

instance : Inhabited Amount := ⟨zero⟩

def isNegative (amount : Amount) : Bool :=
  decide (0x8000000000000000 ≤ amount.bits)

/-- The number of fractions that share a sign and an exponent: 2 to the power
52, since the fraction takes the low 52 bits. -/
def fractionCount : Nat := 0x10000000000000

def exponentField (amount : Amount) : Nat :=
  amount.bits.toNat / fractionCount % 2048

def fractionField (amount : Amount) : Nat :=
  amount.bits.toNat % fractionCount

def isNaN (amount : Amount) : Bool :=
  amount.exponentField == 2047 && amount.fractionField != 0

def isInfinite (amount : Amount) : Bool :=
  amount.exponentField == 2047 && amount.fractionField == 0

/-- Zero of either sign: the amounts that change no sum. -/
def isZero (amount : Amount) : Bool :=
  amount == zero || amount == emptySum

def isOne (amount : Amount) : Bool :=
  amount == one

theorem isZero_iff {amount : Amount} :
    amount.isZero = true ↔ amount = zero ∨ amount = emptySum := by
  simp [isZero]

theorem isOne_iff {amount : Amount} : amount.isOne = true ↔ amount = one := by
  simp [isOne]

/-- The significand of the magnitude, an integer. -/
def significand (amount : Amount) : Nat :=
  if amount.exponentField = 0 then amount.fractionField
  else fractionCount + amount.fractionField

def binaryExponent (amount : Amount) : Int :=
  if amount.exponentField = 0 then -1074
  else (amount.exponentField : Int) - 1075

def toFloat (amount : Amount) : Float := Float.ofBits amount.bits

def ofFloat (value : Float) : Amount := ⟨value.toBits⟩

/-- A NaN with its quiet bit set and the rest of its payload kept. -/
def quiet (amount : Amount) : Amount := ⟨amount.bits ||| 0x0008000000000000⟩

/-- What an operation yields that has no value, such as 0 * inf. -/
def undefinedResult : Amount := ⟨0xFFF8000000000000⟩

/-- The result of an operation on two amounts, given its value when neither is
a NaN.  A NaN among the operands is passed on, the left one first. -/
def combine (left right : Amount) (value : Float) : Amount :=
  if left.isNaN then left.quiet
  else if right.isNaN then right.quiet
  else if (ofFloat value).isNaN then undefinedResult
  else ofFloat value

def add (left right : Amount) : Amount :=
  combine left right (left.toFloat + right.toFloat)

def mul (left right : Amount) : Amount :=
  combine left right (left.toFloat * right.toFloat)

instance : Add Amount := ⟨add⟩

instance : Mul Amount := ⟨mul⟩

def ofNat (count : Nat) : Amount := ofFloat (Float.ofNat count)

def ofScore (score : Int64) : Amount := ofFloat (Float.ofInt score.toInt)

/-- The sum of a list of amounts, from left to right. -/
def sum (amounts : List Amount) : Amount :=
  amounts.foldl (· + ·) emptySum

/-- The magnitude of a finite amount, rounded to an integer; a half goes up. -/
def roundedMagnitude (amount : Amount) : Nat :=
  match amount.binaryExponent with
  | .ofNat shift => amount.significand <<< shift
  | .negSucc shift => (amount.significand + (1 <<< shift)) >>> (shift + 1)

/-- The nearest score that a signed 64-bit word holds. -/
def clampScore (value : Int) : Int64 :=
  if value < Int64.minValue.toInt then Int64.minValue
  else if Int64.maxValue.toInt < value then Int64.maxValue
  else Int64.ofInt value

/-- Round to the nearest integer, a half away from zero; beyond the 64-bit range
take the nearer end, and for a NaN zero. -/
def round (amount : Amount) : Int64 :=
  if amount.isNaN then 0
  else if amount.isNegative then clampScore (-(amount.roundedMagnitude : Int))
  else clampScore amount.roundedMagnitude

/-- Read `digits * 10 ^ exponent`, correctly rounded.  A magnitude that rounds
beyond the finite amounts is refused. -/
def ofDecimal? (negative : Bool) (digits : Nat) (exponent : Int) :
    Option Amount :=
  let scale := (Nat.toDigits 10 digits).length + exponent
  let magnitude :=
    if digits = 0 ∨ scale < -330 then zero
    else if 310 < scale then ofFloat (Float.ofBits 0x7FF0000000000000)
    else ofFloat (Float.ofScientific digits (exponent < 0) exponent.natAbs)
  if magnitude.isInfinite then none
  else if negative then some ⟨magnitude.bits ||| 0x8000000000000000⟩
  else some magnitude

example : one + one = ofNat 2 := by decide

example : sum [] = emptySum ∧ sum [zero] = zero := by decide

example : (⟨0x4004000000000000⟩ : Amount).round = 3 := by decide

example : (⟨0xC004000000000000⟩ : Amount).round = -3 := by decide

example : ofDecimal? true 0 0 = some emptySum := by decide

example : ofDecimal? false 1 309 = none := by decide +kernel

end Amount

end Tableau
