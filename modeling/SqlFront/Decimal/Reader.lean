import SqlFront.Text.Ascii
import SqlFront.Decimal.Binary

/-!
# Reading numbers

The text of a number is an optional sign and then either one of the words `inf`, `infinity` and
`nan`, in any case, or decimal digits with at most one point among them and an optional exponent.
There is a digit before or after the point and at least one in the exponent. The double nearest to
the number is read, a half to the even neighbour.
-/

namespace SqlFront.Decimal

/-- The value of a row of decimal digits. -/
def digitsValue (cs : List Char) : Nat :=
  cs.foldl (fun n c => 10 * n + (c.toNat - '0'.toNat)) 0

/-- Take an optional sign off the front; the flag tells a minus. -/
def signOf : List Char → Bool × List Char
  | '-' :: cs => (true, cs)
  | '+' :: cs => (false, cs)
  | cs => (false, cs)

/-- The exponent that a whole text spells after the mantissa; nothing at all spells zero. -/
def exponentOf? : List Char → Option Int
  | [] => some 0
  | e :: cs =>
    let (negative, digits) := signOf cs
    if (e = 'e' ∨ e = 'E') ∧ digits ≠ [] ∧ digits.all Char.isDigit then
      some (if negative then -(digitsValue digits : Int) else digitsValue digits)
    else none

/-- A number as written: the digits without the point, and the power of ten they are scaled by. -/
structure Written where
  digits : List Char
  exponent : Int
  deriving DecidableEq, Repr

/-- Read unsigned digits with an optional point and exponent. -/
def Written.ofChars? (cs : List Char) : Option Written :=
  let whole := cs.takeWhile Char.isDigit
  let afterWhole := cs.dropWhile Char.isDigit
  let (fraction, rest) := match afterWhole with
    | '.' :: tail => (tail.takeWhile Char.isDigit, tail.dropWhile Char.isDigit)
    | other => ([], other)
  if whole ++ fraction = [] then none
  else (exponentOf? rest).map fun e => ⟨whole ++ fraction, e - fraction.length⟩

/-- Powers of ten beyond this one lie outside the range of a double, whatever digits are scaled
    from below a hundred powers nearer to one. -/
def exponentLimit : Nat := 400

/-- The bits of the double nearest to a number as written. A number whose leading digit lies far
    outside the range of a double is decided without computing its power of ten. -/
def Written.bits (w : Written) : Nat :=
  let significant := w.digits.dropWhile (· == '0')
  let magnitude : Int := significant.length + w.exponent
  if significant = [] then 0
  else if exponentLimit < magnitude then infinityBits
  else if magnitude < -(exponentLimit : Int) then 0
  else
    nearestBits (digitsValue significant * tenTo w.exponent.toNat) (tenTo (-w.exponent).toNat)

/-- The words for numbers that have no digits. -/
def wordBits? (cs : List Char) : Option Nat :=
  let word := Text.lower (String.ofList cs)
  if word = "inf" ∨ word = "infinity" then some infinityBits
  else if word = "nan" then some nanBits
  else none

/-- Read the whole text as a number. -/
def read? (s : String) : Option Float :=
  let (negative, cs) := signOf s.toList
  let bits? := match wordBits? cs with
    | some bits => some bits
    | none => (Written.ofChars? cs).map Written.bits
  bits?.map (floatOfBits negative)

end SqlFront.Decimal
