import SqlFront.Token.Keyword
import SqlFront.Token.Span

/-!
# Tokens

A token is a word, number, text or symbol of the input with the bytes it stands on. What cannot be
read becomes a token too, so that the text before and after it keeps its meaning.
-/

namespace SqlFront

/-- An operator sign or delimiter. -/
inductive Symbol where
  | plus | minus | star | power | slash | concat
  | equal | notEqual | lessGreater | hash | less | lessEqual | greater | greaterEqual
  | question
  | leftParen | rightParen | comma | semicolon | dot
  deriving DecidableEq, Repr

/-- The sign as it is written. -/
def Symbol.text : Symbol → String
  | .plus => "+"
  | .minus => "-"
  | .star => "*"
  | .power => "**"
  | .slash => "/"
  | .concat => "||"
  | .equal => "="
  | .notEqual => "!="
  | .lessGreater => "<>"
  | .hash => "#"
  | .less => "<"
  | .lessEqual => "<="
  | .greater => ">"
  | .greaterEqual => ">="
  | .question => "?"
  | .leftParen => "("
  | .rightParen => ")"
  | .comma => ","
  | .semicolon => ";"
  | .dot => "."

/-- Why a piece of the input is no token. -/
inductive LexicalFault where
  /-- A string literal without its closing quote. -/
  | openString
  /-- A quoted name without its closing quote. -/
  | openName
  /-- A character that starts no token. -/
  | stray (c : Char)
  deriving DecidableEq, Repr

/-- The wording of a lexical fault. -/
def LexicalFault.message : LexicalFault → String
  | .openString => "Unterminated string literal"
  | .openName => "Unterminated quoted identifier"
  | .stray c => "Unexpected character: " ++ String.singleton c

namespace Token

/-- What a token is. -/
inductive Kind where
  /-- A number, as it is written. -/
  | number (text : String)
  /-- A string literal, without its quotes. -/
  | string (value : String)
  /-- A name. A quoted name keeps its quotes. -/
  | name (text : String)
  /-- A reserved word. -/
  | keyword (word : Keyword)
  /-- An operator sign or delimiter. -/
  | symbol (sign : Symbol)
  /-- The end of the input. -/
  | eof
  /-- A piece of the input that is no token. -/
  | invalid (fault : LexicalFault)
  deriving DecidableEq, Repr

/-- Whether the token is a name that spells the given word, in any case of its letters. -/
def Kind.isWord (word : String) : Kind → Bool
  | .name text => Text.sameWord text word
  | _ => false

end Token

/-- A token with the bytes it stands on. -/
structure Token where
  kind : Token.Kind
  span : Span
  deriving DecidableEq, Repr

end SqlFront
