import SqlFront.Function.Registry
import SqlFront.Token.Basic

/-!
# What can go wrong while reading SQL

Each error says its cause; the wording is in one function.
-/

namespace SqlFront

/-- What the grammar asks for at some place. -/
inductive Expected where
  | symbol (sign : Symbol)
  | keyword (word : Keyword)
  /-- A word that is not reserved. -/
  | word (text : String)
  | name
  | expression
  | statement
  /-- The rows of an INSERT. -/
  | rows
  | lockMode
  /-- The text of a COMMENT. -/
  | comment
  /-- The rest of a test that starts with NOT behind its first operand. -/
  | test
  /-- The end of a statement. -/
  | terminator
  deriving DecidableEq, Repr

/-- What is asked for, as messages name it. -/
def Expected.text : Expected → String
  | .symbol sign => "\x60" ++ sign.text ++ "\x60"
  | .keyword k => k.text
  | .word text => text
  | .name => "identifier"
  | .expression => "expression"
  | .statement => "SELECT, INSERT, UPDATE, DELETE, LOCK, COMMIT, ROLLBACK or SET TRANSACTION"
  | .rows => "VALUES or SELECT"
  | .lockMode => "lock mode"
  | .comment => "comment string"
  | .test => "BETWEEN, LIKE or IN"
  | .terminator => "\x60;\x60"

/-- Why a text is not SQL. -/
inductive Fault where
  /-- Another token stands where one is asked for. -/
  | unexpected (expected : Expected) (found : Token.Kind)
  /-- A comparison follows a comparison. -/
  | chainedComparison
  /-- A name that is called is not registered. -/
  | unknownFunction (name : String)
  /-- A function is called with a number of arguments it does not take. -/
  | argumentCount (name : String) (arity : Arity) (count : Nat)
  deriving DecidableEq, Repr

/-- A token as messages describe it. -/
def Token.Kind.description : Token.Kind → String
  | .number text => "number " ++ text
  | .string value => "string \x27" ++ value ++ "\x27"
  | .name text => "identifier " ++ text
  | .keyword k => "keyword " ++ k.text
  | .symbol sign => "\x60" ++ sign.text ++ "\x60"
  | .eof => "end of input"
  | .invalid fault => fault.message

/-- The wording of a fault. A piece of the input that is no token speaks for itself. -/
def Fault.message : Fault → String
  | .unexpected _ (.invalid fault) => fault.message
  | .unexpected expected .eof => "Unexpected end of input: expected " ++ expected.text
  | .unexpected expected found =>
    "Unexpected token: expected " ++ expected.text ++ ", found " ++ found.description
  | .chainedComparison => "comparison operators cannot be chained"
  | .unknownFunction name => "unknown function " ++ name
  | .argumentCount name arity count =>
    "function " ++ Text.upper name ++ " expects " ++ arity.text ++ " argument(s), found "
      ++ toString count

/-- Why nothing could be read. -/
inductive ReadError where
  /-- The input is not SQL, at the given place. -/
  | malformed (fault : Fault) (span : Span)
  /-- There is no input yet. -/
  | noInput
  /-- The input could not be fetched. -/
  | unreadable (reason : String)
  deriving DecidableEq, Repr

/-- The wording of the error, with its place. -/
def ReadError.message : ReadError → String
  | .malformed fault span => fault.message ++ " at position " ++ span.text
  | .noInput => "parser has no input"
  | .unreadable reason => "failed to read input: " ++ reason

end SqlFront
