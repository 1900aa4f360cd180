import SqlFront.Decimal.Positional
import SqlFront.Decimal.Reader
import SqlFront.Text.Space

/-!
# Values

An attribute of a row holds a number or a text.
-/

namespace SqlFront

/-- A number or a text. -/
inductive Value where
  | number (x : Float)
  | text (s : String)

namespace Value

/-- Whether the first character of a text may be that of a number with digits. -/
def looksNumeric (s : String) : Bool :=
  s.toList.head?.any fun c => c.isDigit || c == '+' || c == '-' || c == '.'

/-- Read a trimmed text as a number if it is the text of a finite one, and as a text otherwise. The
    words for numbers without digits are texts. -/
def ofText (s : String) : Value :=
  let s := Text.trim s
  match Decimal.read? s with
  | some x => if looksNumeric s && x.isFinite then .number x else .text s
  | none => .text s

/-- Whether two values are equal. Numbers are compared as such: zero equals negative zero, and an
    undefined number equals nothing. -/
def equals : Value → Value → Bool
  | .number x, .number y => x == y
  | .text s, .text t => s == t
  | _, _ => false

/-- The value as it is written. -/
def render : Value → String
  | .number x => Decimal.text x
  | .text s => s

/-- The value, with a text that looks like a number read as one. -/
def coerced : Value → Value
  | .number x => .number x
  | .text s => ofText s

end Value

end SqlFront
