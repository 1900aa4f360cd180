import SqlFront.Json.Value
import SqlFront.Decimal.Binary

/-!
# Reading data from JSON

Types of values have to match exactly: no text is read as a number, nor a number as a truth value.
A record is an object with a field for each of its parts, or an array of its parts in their order.
An alternative is its name alone if it has no content, and otherwise an object whose single field
has its name.
-/

namespace SqlFront

namespace Json

variable {α β : Type}

/-- The content of a text. -/
def string? : Json → Option String
  | .string s => some s
  | _ => none

/-- The truth value. -/
def bool? : Json → Option Bool
  | .bool b => some b
  | _ => none

/-- A natural number. -/
def nat? : Json → Option Nat
  | .integer n => if 0 ≤ n then some n.toNat else none
  | _ => none

/-- A number, rounded to the nearest double. -/
def float? : Json → Option Float
  | .integer n => some (Decimal.floatOfBits (n < 0) (Decimal.nearestBits n.natAbs 1))
  | .double x => some x
  | _ => none

/-- An array whose items can all be read. -/
def list? (item : Json → Option α) : Json → Option (List α)
  | .array items => items.mapM item
  | _ => none

/-- An array of two. -/
def pair? (first : Json → Option α) (second : Json → Option β) : Json → Option (α × β)
  | .array [a, b] => do return (← first a, ← second b)
  | _ => none

/-- A value, or null for none. -/
def option? (value : Json → Option α) : Json → Option (Option α)
  | .null => some none
  | j => (value j).map some

/-- An object whose values can all be read, with its names. -/
def map? (value : Json → Option α) : Json → Option (List (String × α))
  | .object fields => fields.mapM fun (name, j) => (value j).map fun a => (name, a)
  | _ => none

/-- The fields of a record with the given names. An array gives them in order, and may leave out
    the last ones that are not required. -/
def record? (names : List String) (required : Nat) : Json → Option (List (String × Json))
  | .object fields => some fields
  | .array items =>
    if required ≤ items.length ∧ items.length ≤ names.length then some (names.zip items) else none
  | _ => none

/-- A field that has to be there. -/
def field? (fields : List (String × Json)) (name : String) (value : Json → Option α) : Option α :=
  (fields.lookup name).bind value

/-- A field that may be null or missing. -/
def optional? (fields : List (String × Json)) (name : String) (value : Json → Option α) :
    Option (Option α) :=
  match fields.lookup name with
  | none => some none
  | some j => option? value j

/-- The name of an alternative and its content, if it has any. -/
def variant? : Json → Option (String × Option Json)
  | .string name => some (name, none)
  | .object [(name, content)] => some (name, some content)
  | _ => none

/-- Read one of several names without content. Null may stand for the content. -/
def enum? (names : List (String × α)) (j : Json) : Option α := do
  match ← variant? j with
  | (name, none) | (name, some .null) => names.lookup name
  | _ => none

/-- An alternative with content. -/
def tagged (name : String) (content : Json) : Json := .object [(name, content)]

/-- A value, or null for none. -/
def ofOption (value : α → Json) : Option α → Json
  | none => .null
  | some a => value a

/-- The array of the values. -/
def ofList (item : α → Json) (items : List α) : Json := .array (items.map item)

/-- A natural number. -/
def ofNat (n : Nat) : Json := .integer n

end Json

end SqlFront
