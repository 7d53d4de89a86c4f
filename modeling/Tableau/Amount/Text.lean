import Tableau.Amount.Shortest

/-!
The written form of an amount: the shortest decimal that reads back, always
positional, without a point when it is whole.  Both zeros keep their sign.
-/

namespace Tableau

def dropFinalZeros (digits : List Char) : List Char :=
  (digits.reverse.dropWhile (· == '0')).reverse

/-- A decimal in positional notation, without zeros at the end of its
fraction. -/
def Decimal.text (decimal : Decimal) : String :=
  let digits := Nat.toDigits 10 decimal.digits
  match decimal.exponent with
  | .ofNat power => String.ofList (digits ++ List.replicate power '0')
  | .negSucc power =>
      let places := power + 1
      let padded := List.replicate (places + 1 - digits.length) '0' ++ digits
      let whole := padded.take (padded.length - places)
      let fraction := dropFinalZeros (padded.drop (padded.length - places))
      if fraction.isEmpty then String.ofList whole
      else String.ofList (whole ++ '.' :: fraction)

namespace Amount

def magnitudeText (amount : Amount) : String :=
  if amount.isInfinite then "inf" else amount.shortest.text

def text (amount : Amount) : String :=
  if amount.isNaN then "NaN"
  else if amount.isNegative then "-" ++ amount.magnitudeText
  else amount.magnitudeText

/-- The text of an amount with a sign in any case, but for a NaN. -/
def signedText (amount : Amount) : String :=
  if amount.isNaN then "NaN"
  else if amount.isNegative then "-" ++ amount.magnitudeText
  else "+" ++ amount.magnitudeText

example : emptySum.text = "-0" ∧ emptySum.signedText = "-0" := by
  decide +kernel

example : zero.signedText = "+0" := by decide +kernel

example : (ofNat 1000000).text = "1000000" := by decide +kernel

example : (⟨0x3EE4F8B588E368F1⟩ : Amount).text = "0.00001" := by
  decide +kernel

example : undefinedResult.signedText = "NaN" := by decide +kernel

end Amount

end Tableau
