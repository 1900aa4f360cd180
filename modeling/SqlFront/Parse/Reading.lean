import SqlFront.Parse.Error
import SqlFront.Token.Scanner

/-!
# Reading a row of tokens

A cursor stands between the tokens that have been read and those still ahead. A reading moves the
cursor forward and gives a value or an error; after an error the cursor stays where the error was
found. The end of the input is never passed.
-/

namespace SqlFront

/-- A place in a row of tokens: the tokens read, the latest first, the tokens ahead, and where the
    end of the input stands. -/
structure Cursor where
  behind : List Token
  ahead : List Token
  finish : Span
  deriving DecidableEq, Repr

namespace Cursor

/-- The beginning of a text. -/
def ofText (text : String) : Cursor :=
  let (tokens, finish) := Token.scan text
  ⟨[], tokens, finish.span⟩

/-- The token at the cursor; the end if no token is ahead. -/
def current (c : Cursor) : Token :=
  c.ahead.headD ⟨.eof, c.finish⟩

/-- The cursor behind the current token. -/
def advance (c : Cursor) : Cursor :=
  match c.ahead with
  | [] => c
  | token :: rest => ⟨token :: c.behind, rest, c.finish⟩

/-- The cursor behind the last token. -/
def toEnd (c : Cursor) : Cursor :=
  ⟨c.ahead.reverse ++ c.behind, [], c.finish⟩

/-- Where the last token read stands; the current token if none has been read. -/
def lastSpan (c : Cursor) : Span :=
  match c.behind with
  | token :: _ => token.span
  | [] => c.current.span

/-- From `c` to `d` the cursor has moved over the given tokens. -/
structure Passes (c : Cursor) (tokens : List Token) (d : Cursor) : Prop where
  ahead : c.ahead = tokens ++ d.ahead
  behind : d.behind = tokens.reverse ++ c.behind
  finish : d.finish = c.finish

/-- A cursor that stays has moved over nothing. -/
theorem Passes.refl (c : Cursor) : c.Passes [] c :=
  ⟨rfl, rfl, rfl⟩

/-- What is moved over in two stretches. -/
theorem Passes.trans {c d e : Cursor} {first second : List Token}
    (h : c.Passes first d) (h' : d.Passes second e) : c.Passes (first ++ second) e where
  ahead := by rw [h.ahead, h'.ahead, List.append_assoc]
  behind := by rw [h'.behind, h.behind, List.reverse_append, List.append_assoc]
  finish := h'.finish.trans h.finish

/-- The cursor has moved forward, if at all. -/
def Reaches (c d : Cursor) : Prop := ∃ tokens, c.Passes tokens d

theorem Reaches.refl (c : Cursor) : c.Reaches c := ⟨[], .refl c⟩

theorem Reaches.trans {c d e : Cursor} : c.Reaches d → d.Reaches e → c.Reaches e
  | ⟨_, h⟩, ⟨_, h'⟩ => ⟨_, h.trans h'⟩

theorem reaches_advance (c : Cursor) : c.Reaches c.advance := by
  obtain ⟨behind, ahead, finish⟩ := c
  cases ahead with
  | nil => exact .refl _
  | cons token rest => exact ⟨[token], rfl, rfl, rfl⟩

theorem reaches_toEnd (c : Cursor) : c.Reaches c.toEnd :=
  ⟨c.ahead, by simp [toEnd], rfl, rfl⟩

end Cursor

/-- What reads a value from the place of a cursor, or fails, and moves the cursor forward. -/
structure Reading (α : Type) where
  run : Cursor → Except ReadError α × Cursor
  forward : ∀ c : Cursor, c.Reaches (run c).2

namespace Reading

variable {α β σ : Type}

instance : CoeFun (Reading α) fun _ => Cursor → Except ReadError α × Cursor := ⟨run⟩

instance : Monad Reading where
  pure a := ⟨fun c => (.ok a, c), .refl⟩
  bind p f := {
    run := fun c =>
      match p.run c with
      | (.ok a, d) => (f a).run d
      | (.error e, d) => (.error e, d)
    forward := fun c => by
      have hp := p.forward c
      revert hp
      rcases p.run c with ⟨_ | a, d⟩ <;> intro hp
      · exact hp
      · exact hp.trans ((f a).forward d) }

theorem pure_apply (a : α) (c : Cursor) : (pure a : Reading α) c = (.ok a, c) := rfl

theorem bind_apply (p : Reading α) (f : α → Reading β) (c : Cursor) :
    (p >>= f) c = match p c with
      | (.ok a, d) => f a d
      | (.error e, d) => (.error e, d) := rfl

/-- Fail with a fault at the given place. -/
def failAt (fault : Fault) (span : Span) : Reading α :=
  ⟨fun c => (.error (.malformed fault span), c), .refl⟩

/-- The kind of the current token. -/
def kind : Reading Token.Kind :=
  ⟨fun c => (.ok c.current.kind, c), .refl⟩

/-- Where the current token stands. -/
def span : Reading Span :=
  ⟨fun c => (.ok c.current.span, c), .refl⟩

/-- Where the last token read stands. -/
def lastSpan : Reading Span :=
  ⟨fun c => (.ok c.lastSpan, c), .refl⟩

/-- The kind of the token behind the current one. -/
def nextKind : Reading Token.Kind :=
  ⟨fun c => (.ok c.advance.current.kind, c), .refl⟩

/-- Pass the current token. -/
def advance : Reading Unit :=
  ⟨fun c => (.ok (), c.advance), Cursor.reaches_advance⟩

/-- Pass everything up to the end. -/
def toEnd : Reading Unit :=
  ⟨fun c => (.ok (), c.toEnd), Cursor.reaches_toEnd⟩

/-- Pass the current token if it is as described, and tell whether it was. -/
def accept (p : Token.Kind → Bool) : Reading Bool where
  run c := if p c.current.kind then (.ok true, c.advance) else (.ok false, c)
  forward c := by
    split
    · exact c.reaches_advance
    · exact .refl c

/-- Pass a sign if it is the given one, and tell whether it was. -/
def acceptSymbol (sign : Symbol) : Reading Bool := accept (· == .symbol sign)

/-- Pass a reserved word if it is the given one, and tell whether it was. -/
def acceptKeyword (word : Keyword) : Reading Bool := accept (· == .keyword word)

/-- Pass a name if it spells the given word, and tell whether it did. -/
def acceptWord (word : String) : Reading Bool := accept (·.isWord word)

/-- Fail at the current token because something else is asked for. -/
def unexpected (expected : Expected) : Reading α :=
  ⟨fun c => (.error (.malformed (.unexpected expected c.current.kind) c.current.span), c), .refl⟩

/-- Pass the given sign, which has to be there. -/
def symbol (sign : Symbol) : Reading Unit := do
  unless ← acceptSymbol sign do unexpected (.symbol sign)

/-- Pass the given reserved word, which has to be there. -/
def keyword (word : Keyword) : Reading Unit := do
  unless ← acceptKeyword word do unexpected (.keyword word)

/-- Pass a name that spells the given word, which has to be there. -/
def word (text : String) : Reading Unit := do
  unless ← acceptWord text do unexpected (.word text)

/-- Read a name. -/
def name : Reading String := do
  match ← kind with
  | .name text => advance; return text
  | _ => unexpected .name

/-- Repeat a step until it is done, at most `limit` times. -/
def iterateAtMost (step : σ → Reading (ForInStep σ)) : Nat → σ → Reading σ
  | 0, s => pure s
  | limit + 1, s => do
    match ← step s with
    | .done s => pure s
    | .yield s => iterateAtMost step limit s

/-- Repeat a step until it is done. A step that goes on has passed a token, so the tokens ahead
    bound the number of steps. -/
def iterate (step : σ → Reading (ForInStep σ)) (s : σ) : Reading σ where
  run c := iterateAtMost step (c.ahead.length + 1) s c
  forward c := (iterateAtMost step (c.ahead.length + 1) s).forward c

/-- Read one or more values with commas between them. -/
def commaList (item : Reading α) : Reading (List α) := do
  let first ← item
  iterate (fun items => do
    if ← acceptSymbol .comma then return .yield (items ++ [← item]) else return .done items) [first]

end Reading

end SqlFront
