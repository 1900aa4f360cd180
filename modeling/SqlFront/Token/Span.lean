/-!
# Byte ranges of a text

Places in a text are counted in bytes of its UTF-8 form. A span is the range from `start` up to,
but not including, `stop`.
-/

namespace SqlFront

/-- The bytes from `start` up to `stop`. -/
structure Span where
  start : Nat
  stop : Nat
  deriving DecidableEq, Repr

namespace Span

/-- The empty span at the beginning. -/
def zero : Span := ⟨0, 0⟩

/-- The number of bytes in the span. -/
def length (s : Span) : Nat := s.stop - s.start

/-- Whether the span ends where it starts. -/
def isEmpty (s : Span) : Bool := s.start == s.stop

/-- The least span that covers both. -/
def merge (a b : Span) : Span :=
  ⟨min a.start b.start, max a.stop b.stop⟩

/-- The span as `start..stop`. -/
def text (s : Span) : String :=
  toString s.start ++ ".." ++ toString s.stop

end Span

namespace Text

/-- The number of bytes of a row of characters in UTF-8. -/
def byteLength : List Char → Nat
  | [] => 0
  | c :: cs => c.utf8Size + byteLength cs

@[simp] theorem byteLength_nil : byteLength [] = 0 := rfl

@[simp] theorem byteLength_cons (c : Char) (cs : List Char) :
    byteLength (c :: cs) = c.utf8Size + byteLength cs := rfl

/-- Joined texts take the bytes of both. -/
@[simp] theorem byteLength_append (a b : List Char) :
    byteLength (a ++ b) = byteLength a + byteLength b := by
  induction a with
  | nil => simp
  | cons c cs ih => simp [ih, Nat.add_assoc]

/-- Split off the characters that take up exactly the given number of bytes. There are none if the
    text is shorter, or if the cut would fall inside a character. -/
def cutBytes? : Nat → List Char → Option (List Char × List Char)
  | 0, cs => some ([], cs)
  | _ + 1, [] => none
  | n + 1, c :: cs =>
    if c.utf8Size ≤ n + 1 then
      (cutBytes? (n + 1 - c.utf8Size) cs).map fun (taken, rest) => (c :: taken, rest)
    else none

/-- Cutting at the byte length of the front part gives back both parts. -/
theorem cutBytes?_append (a b : List Char) : cutBytes? (byteLength a) (a ++ b) = some (a, b) := by
  induction a with
  | nil => cases b <;> rfl
  | cons c cs ih =>
    have hpos := Char.utf8Size_pos c
    obtain ⟨n, hn⟩ : ∃ n, byteLength (c :: cs) = n + 1 := ⟨byteLength (c :: cs) - 1, by
      simp only [byteLength_cons]; omega⟩
    rw [hn, List.cons_append, cutBytes?, ← hn]
    have : byteLength (c :: cs) - c.utf8Size = byteLength cs := by simp
    rw [if_pos (by simp), this, ih]
    rfl

end Text

/-- The part of a text that a span covers, if the span lies within it and cuts no character. -/
def Span.slice? (s : Span) (input : String) : Option String :=
  if s.start ≤ s.stop then do
    let (_, rest) ← Text.cutBytes? s.start input.toList
    let (taken, _) ← Text.cutBytes? s.length rest
    return String.ofList taken
  else none

end SqlFront
