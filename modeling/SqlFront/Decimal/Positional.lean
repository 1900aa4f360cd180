import SqlFront.Decimal.Shortest

/-!
# Numbers in positional notation

A number is written with the fewest digits that read back, never with an exponent, and with no
fraction part if it is whole. Negative zero keeps its sign; an undefined number has none.
-/

namespace SqlFront.Decimal

/-- The digits of a natural number. -/
def digitChars (n : Nat) : List Char :=
  Nat.toDigits 10 n

/-- A decimal in positional notation. Trailing zeros of the fraction part are left out. -/
def Scaled.positional (d : Scaled) : List Char :=
  if 0 ≤ d.exponent then digitChars d.digits ++ List.replicate d.exponent.toNat '0'
  else
    let places := (-d.exponent).toNat
    let digits := digitChars d.digits
    let padded := List.replicate (places + 1 - digits.length) '0' ++ digits
    let whole := padded.take (padded.length - places)
    let fraction := padded.drop (padded.length - places)
    match (fraction.reverse.dropWhile (· == '0')).reverse with
    | [] => whole
    | shown => whole ++ '.' :: shown

/-- The text of a number. -/
def Binary.text : Binary → String
  | .nan => "NaN"
  | .infinite negative => (if negative then "-" else "") ++ "inf"
  | .finite negative mantissa exponent narrowBelow =>
    let magnitude :=
      if mantissa = 0 then ['0'] else (shortest mantissa exponent narrowBelow).positional
    (if negative then "-" else "") ++ String.ofList magnitude

/-- The text of a double. -/
def text (x : Float) : String :=
  (Binary.ofFloat x).text

end SqlFront.Decimal
