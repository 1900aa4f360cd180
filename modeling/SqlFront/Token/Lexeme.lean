import SqlFront.Text.Letter
import SqlFront.Text.Quoted
import SqlFront.Token.Basic

/-!
# The token at the front of a text

`Lexeme.first` reads one token from its first character on. It always takes that character, and
what it takes and what it leaves make up the input. Numbers and names take as many characters as
they can; a string literal or quoted name ends at its first quote that is not doubled.
-/

namespace SqlFront

/-- A token cut off the front of a text: what it is, its characters, and what follows them. -/
structure Lexeme where
  kind : Token.Kind
  chars : List Char
  rest : List Char

namespace Lexeme

/-- Whether a character may start a name. -/
def startsName (c : Char) : Bool :=
  Text.isLetter c || c == '_'

/-- Whether a character may stand in a name after its first. -/
def continuesName (c : Char) : Bool :=
  Text.isLetter c || Text.isNumeral c || c == '_' || c == '$'

/-- The name or reserved word that a text spells. -/
def wordKind (text : String) : Token.Kind :=
  match Keyword.ofText? text with
  | some keyword => .keyword keyword
  | none => .name text

/-- The fraction part at the front of a text: a point and at least one digit. -/
def fraction : List Char → List Char × List Char
  | '.' :: d :: rest =>
    if d.isDigit then
      ('.' :: (d :: rest).takeWhile Char.isDigit, (d :: rest).dropWhile Char.isDigit)
    else ([], '.' :: d :: rest)
  | cs => ([], cs)

/-- Take an optional sign off the front of a text. -/
def sign : List Char → List Char × List Char
  | '+' :: rest => (['+'], rest)
  | '-' :: rest => (['-'], rest)
  | cs => ([], cs)

/-- The exponent at the front of a text: the letter E, an optional sign and at least one digit. -/
def exponent : List Char → List Char × List Char
  | [] => ([], [])
  | e :: rest =>
    let (signs, digits) := sign rest
    if (e = 'e' ∨ e = 'E') ∧ digits.head?.any Char.isDigit then
      (e :: (signs ++ digits.takeWhile Char.isDigit), digits.dropWhile Char.isDigit)
    else ([], e :: rest)

/-- The number at the front of a text that starts with a digit, or with a point and a digit. -/
def number (cs : List Char) : Lexeme :=
  let whole := cs.takeWhile Char.isDigit
  let (places, afterPlaces) := fraction (cs.dropWhile Char.isDigit)
  let (power, rest) := exponent afterPlaces
  let chars := whole ++ places ++ power
  ⟨.number (String.ofList chars), chars, rest⟩

/-- A name or reserved word whose first character has been read. -/
def word (c : Char) (cs : List Char) : Lexeme :=
  let chars := c :: cs.takeWhile continuesName
  ⟨wordKind (String.ofList chars), chars, cs.dropWhile continuesName⟩

/-- A string literal whose opening quote has been read. -/
def string (cs : List Char) : Lexeme :=
  match Text.cutQuoted? '\x27' cs with
  | some (inside, rest) =>
    ⟨.string (String.ofList (Text.undoubled '\x27' inside)), '\x27' :: (inside ++ ['\x27']), rest⟩
  | none => ⟨.invalid .openString, '\x27' :: cs, []⟩

/-- A quoted name whose opening quote has been read. -/
def quotedName (cs : List Char) : Lexeme :=
  match Text.cutQuoted? '\x22' cs with
  | some (inside, rest) =>
    let chars := '\x22' :: (inside ++ ['\x22'])
    ⟨.name (String.ofList chars), chars, rest⟩
  | none => ⟨.invalid .openName, '\x22' :: cs, []⟩

/-- A sign of one character, or of two if the second follows. -/
def oneOrTwo (c : Char) (one : Token.Kind) (longer : List (Char × Symbol)) (cs : List Char) : Lexeme :=
  match cs with
  | [] => ⟨one, [c], []⟩
  | d :: rest =>
    match longer.lookup d with
    | some two => ⟨.symbol two, [c, d], rest⟩
    | none => ⟨one, [c], d :: rest⟩

/-- The token that starts with `c` and may go on into `cs`. -/
def first (c : Char) (cs : List Char) : Lexeme :=
  match c with
  | '(' => ⟨.symbol .leftParen, [c], cs⟩
  | ')' => ⟨.symbol .rightParen, [c], cs⟩
  | ',' => ⟨.symbol .comma, [c], cs⟩
  | ';' => ⟨.symbol .semicolon, [c], cs⟩
  | '+' => ⟨.symbol .plus, [c], cs⟩
  | '-' => ⟨.symbol .minus, [c], cs⟩
  | '/' => ⟨.symbol .slash, [c], cs⟩
  | '=' => ⟨.symbol .equal, [c], cs⟩
  | '#' => ⟨.symbol .hash, [c], cs⟩
  | '?' => ⟨.symbol .question, [c], cs⟩
  | '*' => oneOrTwo c (.symbol .star) [('*', .power)] cs
  | '<' => oneOrTwo c (.symbol .less) [('=', .lessEqual), ('>', .lessGreater)] cs
  | '>' => oneOrTwo c (.symbol .greater) [('=', .greaterEqual)] cs
  | '!' => oneOrTwo c (.invalid (.stray c)) [('=', .notEqual)] cs
  | '|' => oneOrTwo c (.invalid (.stray c)) [('|', .concat)] cs
  | '.' => if cs.head?.any Char.isDigit then number (c :: cs) else ⟨.symbol .dot, [c], cs⟩
  | '\x27' => string cs
  | '\x22' => quotedName cs
  | _ =>
    if c.isDigit then number (c :: cs)
    else if startsName c then word c cs
    else ⟨.invalid (.stray c), [c], cs⟩

end Lexeme

end SqlFront
