import SqlFront.Eval.Value
import SqlFront.Text.Pieces

/-!
# Rows of named values

A row has attributes in the order in which they were declared. Each has a name, and a value unless
it is unset. An index finds the place of a name.
-/

namespace SqlFront

/-- Names, the values at the same places, and the place of each name. -/
structure Row where
  names : List String
  values : List (Option Value)
  index : List (String × Nat)

namespace Row

/-- The row without attributes. -/
def empty : Row := ⟨[], [], []⟩

/-- The number of attributes. -/
def size (row : Row) : Nat := row.names.length

/-- Whether the row has no attributes. -/
def isEmpty (row : Row) : Bool := row.names.isEmpty

/-- The place of a name. -/
def indexOf? (row : Row) (name : String) : Option Nat := row.index.lookup name

/-- Whether a name is that of an attribute, set or not. -/
def contains (row : Row) (name : String) : Bool := (row.indexOf? name).isSome

/-- The name at a place. -/
def nameAt? (row : Row) (i : Nat) : Option String := row.names[i]?

/-- The value at a place, if there is one and it is set. -/
def valueAt? (row : Row) (i : Nat) : Option Value := row.values[i]?.join

/-- The value of an attribute, if there is one of that name and it is set. -/
def get? (row : Row) (name : String) : Option Value := (row.indexOf? name).bind row.valueAt?

/-- The row with an attribute of the given name, and its place. A new attribute comes last and is
    unset. -/
def declare (row : Row) (name : String) : Row × Nat :=
  match row.indexOf? name with
  | some i => (row, i)
  | none =>
    let i := row.names.length
    (⟨row.names ++ [name], row.values ++ [none], row.index ++ [(name, i)]⟩, i)

/-- The row with the attributes that a header names between commas, all unset. Blank names are
    skipped. -/
def ofHeader (header : String) : Row :=
  let fields := ((Text.split ',' header).map Text.trim).filter (· ≠ "")
  fields.foldl (fun row name => (row.declare name).1) empty

/-- The values of the first list, replaced by those of the second as far as both go. -/
def overwrite : List (Option Value) → List (Option Value) → List (Option Value)
  | _ :: old, value :: new => value :: overwrite old new
  | [], _ => []
  | old, [] => old

/-- The value that a field of a line stands for. A blank field stands for none. -/
def fieldValue (field : String) : Option Value :=
  let field := Text.trim field
  if field = "" then none else some (Value.ofText field)

/-- Set the values in order from the fields that a line has between commas. -/
def setLine (row : Row) (line : String) : Row :=
  { row with values := overwrite row.values ((Text.split ',' line).map fieldValue) }

/-- Set the values in order. -/
def setValues (row : Row) (values : List Value) : Row :=
  { row with values := overwrite row.values (values.map some) }

/-- Set the value of an attribute, which comes last if it is new. -/
def set (row : Row) (name : String) (value : Value) : Row :=
  let (row, i) := row.declare name
  { row with values := row.values.set i (some value) }

/-- Whether two indexes find the same places, in whatever order they list them. -/
def sameIndex (a b : List (String × Nat)) : Bool :=
  a.length == b.length && a.all fun (name, i) => b.lookup name == some i

/-- Whether two unset or set values are equal. -/
def sameValue : Option Value → Option Value → Bool
  | none, none => true
  | some v, some w => v.equals w
  | _, _ => false

/-- Whether two rows have the same names with equal values at the same places. -/
def equals (a b : Row) : Bool :=
  a.names == b.names && a.values.length == b.values.length
    && (a.values.zip b.values).all (fun (v, w) => sameValue v w) && sameIndex a.index b.index

/-- The row as `[name = value, …]`. -/
def render (row : Row) : String :=
  let shown (a : String × Option Value) : String :=
    a.1 ++ " = " ++ match a.2 with
      | some value => value.render
      | none => "(null)"
  "[" ++ Text.join ", " ((row.names.zip row.values).map shown) ++ "]"

end Row

end SqlFront
