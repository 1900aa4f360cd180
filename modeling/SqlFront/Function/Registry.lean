import SqlFront.Text.Ascii
import SqlFront.Text.Space

/-!
# Functions and their arities

A registry says which names are functions and how many arguments each takes. Names are compared
trimmed and in upper case; the last registration of a name counts. Every registry has the five
aggregates, and lists its names in increasing order.
-/

namespace SqlFront

/-- The number of arguments that a function takes. -/
inductive Arity where
  | fixed (count : Nat)
  | variadic
  deriving DecidableEq, Repr

namespace Arity

/-- The arity given by a signed number; a negative one means one argument. -/
def ofInt (n : Int) : Arity :=
  .fixed (if n < 0 then 1 else n.toNat)

/-- Whether a call with `count` arguments is allowed. -/
def accepts : Arity → Nat → Bool
  | .fixed n, count => n == count
  | .variadic, _ => true

/-- The arity as messages name it. -/
def text : Arity → String
  | .fixed n => toString n
  | .variadic => "any number of"

end Arity

/-- A function to be registered. -/
structure Signature where
  name : String
  arity : Arity
  deriving DecidableEq, Repr

/-- The functions known, by name. -/
structure Registry where
  entries : List (String × Arity)
  deriving DecidableEq, Repr

namespace Registry

/-- The aggregates that every registry starts with. -/
def aggregates : List String := ["SUM", "AVG", "MIN", "MAX", "COUNT"]

/-- The form of a name under which it is registered and looked up. -/
def normalName (name : String) : String :=
  Text.upper (Text.trim name)

/-- Put an entry into a list ordered by name, in place of the entry of that name if there is one. -/
def insertEntry (name : String) (arity : Arity) : List (String × Arity) → List (String × Arity)
  | [] => [(name, arity)]
  | (other, a) :: rest =>
    if name = other then (name, arity) :: rest
    else if name < other then (name, arity) :: (other, a) :: rest
    else (other, a) :: insertEntry name arity rest

/-- The registry with one more function, or another arity for a known one. -/
def register (r : Registry) (name : String) (arity : Arity) : Registry :=
  ⟨insertEntry (normalName name) arity r.entries⟩

/-- The registry of the aggregates, each with one argument. -/
def builtin : Registry :=
  aggregates.foldl (fun r name => r.register name (.fixed 1)) ⟨[]⟩

/-- The registry of the aggregates and the given functions, a later one replacing an earlier. -/
def ofSignatures (signatures : List Signature) : Registry :=
  signatures.foldl (fun r s => r.register s.name s.arity) builtin

/-- The arity of a registered function. -/
def arity? (r : Registry) (name : String) : Option Arity :=
  r.entries.lookup (normalName name)

/-- Whether a name is that of a registered function. -/
def isFunction (r : Registry) (name : String) : Bool :=
  (r.arity? name).isSome

/-- Whether a name is that of an aggregate. -/
def isAggregate (name : String) : Bool :=
  aggregates.any (Text.sameWord · (Text.trim name))

/-- The function that a text such as `SUM(PRICE)` calls: what stands before its first parenthesis,
    if that is the name of a registered function. -/
def call? (r : Registry) (text : String) : Option String :=
  let cs := text.toList
  let before := cs.takeWhile (· != '(')
  let name := Text.trim (String.ofList before)
  if before.length < cs.length ∧ before ≠ [] ∧ r.isFunction name then some name else none

/-- The registered names, in increasing order. -/
def names (r : Registry) : List String :=
  r.entries.map (·.1)

/-- The number of registered functions. -/
def size (r : Registry) : Nat :=
  r.entries.length

/-- Whether no function is registered. -/
def isEmpty (r : Registry) : Bool :=
  r.entries.isEmpty

/-- A new entry is found under its name, and every other name keeps its arity. -/
theorem lookup_insertEntry (name other : String) (arity : Arity) (entries : List (String × Arity)) :
    (insertEntry name arity entries).lookup other =
      if other = name then some arity else entries.lookup other := by
  induction entries with
  | nil => grind [insertEntry]
  | cons e rest ih =>
    obtain ⟨n, a⟩ := e
    rw [insertEntry]
    split <;> grind

/-- The names after a registration are the names before it and the new one. -/
theorem mem_names_insertEntry (name : String) (arity : Arity) (entries : List (String × Arity))
    (x : String) :
    x ∈ (insertEntry name arity entries).map (·.1) ↔ x = name ∨ x ∈ entries.map (·.1) := by
  induction entries with
  | nil => simp [insertEntry]
  | cons e rest ih =>
    obtain ⟨n, a⟩ := e
    rw [insertEntry]
    split
    · rename_i h; subst h; simp
    · split
      · simp
      · simp only [List.map_cons, List.mem_cons, ih]
        constructor <;> rintro (h | h | h) <;> simp [h]

end Registry

end SqlFront
