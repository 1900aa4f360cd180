import SqlFront.Parse.Statement

/-!
# Sessions

A parser reads from an input of its own and recognises the functions of a registry, which other
parsers may share: a function registered through one of them is known to all. A parser without
input reads nothing; one whose input could not be fetched keeps the input it had. After an error
reading goes on where the error was found.
-/

namespace SqlFront

/-- A parser: the number of its registry, and its place in its input. -/
structure Parser where
  registry : Nat
  cursor : Option Cursor

/-- Registries and the parsers that use them. -/
structure Session where
  registries : List Registry
  parsers : List Parser

/-- Where an input comes from. -/
inductive Input where
  /-- A text. -/
  | text (content : String)
  /-- Bytes, which should be a text in UTF-8. -/
  | bytes (content : ByteArray)
  /-- A source that fails for the given reason. -/
  | broken (reason : String)

/-- The text of an input. -/
def Input.fetch : Input → Except ReadError String
  | .text content => .ok content
  | .bytes content =>
    match String.fromUTF8? content with
    | some decoded => .ok decoded
    | none => .error (.unreadable "stream did not contain valid UTF-8")
  | .broken reason => .error (.unreadable reason)

namespace Session

/-- Parsers without input, each with the number of its registry. -/
def start (registries : List Registry) (users : List Nat) : Session :=
  ⟨registries, users.map fun registry => ⟨registry, none⟩⟩

/-- The given parser; one that is not there has no input. -/
def parser (s : Session) (p : Nat) : Parser :=
  s.parsers[p]?.getD ⟨0, none⟩

/-- The registry of a parser. -/
def registry (s : Session) (p : Nat) : Registry :=
  s.registries[(s.parser p).registry]?.getD Registry.builtin

/-- Put a parser in the place of another. -/
def withParser (s : Session) (p : Nat) (parser : Parser) : Session :=
  { s with parsers := s.parsers.set p parser }

/-- Give a parser a new input, if it can be fetched. -/
def load (s : Session) (p : Nat) (input : Input) : Except ReadError Session :=
  match input.fetch with
  | .ok text => .ok (s.withParser p { s.parser p with cursor := some (Cursor.ofText text) })
  | .error e => .error e

/-- Put a new parser of a text, with a registry of its own, in the place of another. -/
def renew (s : Session) (p : Nat) (text : String) : Session :=
  let fresh : Parser := ⟨s.registries.length, some (Cursor.ofText text)⟩
  { s with registries := s.registries ++ [Registry.builtin] }.withParser p fresh

/-- Register a function with the registry of a parser. -/
def register (s : Session) (p : Nat) (name : String) (arity : Arity) : Session :=
  let registry := (s.registry p).register name arity
  { s with registries := s.registries.set (s.parser p).registry registry }

/-- Read from the input of a parser. -/
def read {α : Type} (s : Session) (p : Nat) (reading : Registry → Reading α) :
    Except ReadError α × Session :=
  match (s.parser p).cursor with
  | none => (.error .noInput, s)
  | some cursor =>
    let (result, cursor) := reading (s.registry p) cursor
    (result, s.withParser p { s.parser p with cursor := some cursor })

end Session

end SqlFront
