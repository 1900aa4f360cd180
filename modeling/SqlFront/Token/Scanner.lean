import SqlFront.Text.Space
import SqlFront.Token.Lexeme

/-!
# Reading a text token by token

Tokens are set apart by layout: white space, comments from `--` to the end of the line, and
comments from `/*` to the next `*/`. The last token of every text is the end, an empty span behind
its last byte.
-/

namespace SqlFront

/-- What the characters being skipped belong to. -/
inductive Layout where
  /-- White space between tokens. -/
  | blank
  /-- A comment that ends with the line. -/
  | line
  /-- The second character of the sign that opens a comment. -/
  | opening
  /-- A comment that ends at its closing sign. -/
  | block
  /-- The second character of the sign that closes a comment. -/
  | closing
  deriving DecidableEq, Repr

/-- What the characters behind `c` belong to, given that `cs` follow; nothing if a token starts with
    `c`. -/
def Layout.after? (layout : Layout) (c : Char) (cs : List Char) : Option Layout :=
  match layout with
  | .blank =>
    if Text.isSpace c then some .blank
    else if c = '-' ∧ cs.head? = some '-' then some .line
    else if c = '/' ∧ cs.head? = some '*' then some .opening
    else none
  | .line => some (if c = '\n' then .blank else .line)
  | .opening => some .block
  | .block => some (if c = '*' ∧ cs.head? = some '/' then .closing else .block)
  | .closing => some .blank

/-- Split off the layout at the front of a text. A comment that is not closed takes the rest. -/
def Layout.skip (layout : Layout) : List Char → List Char × List Char
  | [] => ([], [])
  | c :: cs =>
    match layout.after? c cs with
    | none => ([], c :: cs)
    | some next =>
      let (skipped, rest) := Layout.skip next cs
      (c :: skipped, rest)

/-- A place in a text: the bytes before it and the characters after it. -/
structure Scanner where
  offset : Nat
  rest : List Char

namespace Scanner

/-- The beginning of a text. -/
def start (text : String) : Scanner := ⟨0, text.toList⟩

/-- The next token and the place behind it. At the end of the text it is the end, again and again. -/
def next (s : Scanner) : Token × Scanner :=
  let (skipped, rest) := Layout.skip .blank s.rest
  let start := s.offset + Text.byteLength skipped
  match rest with
  | [] => (⟨.eof, ⟨start, start⟩⟩, ⟨start, []⟩)
  | c :: cs =>
    let lexeme := Lexeme.first c cs
    let stop := start + Text.byteLength lexeme.chars
    (⟨lexeme.kind, ⟨start, stop⟩⟩, ⟨stop, lexeme.rest⟩)

/-- At most `limit` tokens before the end, and the place behind them. -/
def tokens : Nat → Scanner → List Token × Scanner
  | 0, s => ([], s)
  | limit + 1, s =>
    let (token, behind) := s.next
    if token.kind = .eof then ([], s)
    else
      let (rest, last) := tokens limit behind
      (token :: rest, last)

end Scanner

namespace Token

/-- The tokens of a text before its end, and the end. Every token has at least one character, so
    there are no more tokens than characters. -/
def scan (text : String) : List Token × Token :=
  let (tokens, last) := Scanner.tokens text.length (Scanner.start text)
  (tokens, last.next.1)

/-- All tokens of a text, the end last. -/
def tokenize (text : String) : List Token :=
  let (tokens, finish) := scan text
  tokens ++ [finish]

end Token

end SqlFront
