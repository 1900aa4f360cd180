import SqlFront.Text.Space
import SqlFront.Text.Pieces

/-!
# Dotted names

A table is named `[schema.]table`, a column `[[schema.]table.]column`. The text of a name is kept
as it is given and is what the name is written as; its parts are there to be asked for.
-/

namespace SqlFront

/-- What the last part of a dotted name is. -/
inductive NameForm where
  /-- A table, as after FROM. -/
  | table
  /-- A column, as in a select list. -/
  | column
  deriving DecidableEq, Repr

/-- A dotted name with its parts and an optional alias. -/
structure QualifiedName where
  text : String
  schema : Option String
  table : Option String
  column : Option String
  aliasName : Option String
  form : NameForm
  deriving DecidableEq, Repr

namespace QualifiedName

/-- What stands between the last `(` of a text and the first `)` behind it, trimmed: the argument
    of a call, and the whole text if there is no call. -/
def argument (cs : List Char) : List Char :=
  let inner := (cs.reverse.takeWhile (· != '(')).reverse
  Text.trimChars (inner.takeWhile (· != ')'))

/-- The parts of a dotted text that are not empty. -/
def parts (text : String) : List (List Char) :=
  (Text.pieces '.' text.toList).filter (· ≠ [])

/-- The name without parts that a text is kept whole in. -/
def whole (text : String) : QualifiedName :=
  ⟨text, none, none, none, none, .column⟩

/-- The leading parts of a name, joined by dots again. -/
def joinDots : List (List Char) → List Char
  | [] => []
  | [p] => p
  | p :: rest => p ++ '.' :: joinDots rest

/-- Split a dotted text. One part is the table or column, according to the form; two are schema
    and table, or table and column; of three or more the last two are table and column and the
    others the schema. Each part is read as the argument of a call if it looks like one, so that
    `SUM(t.a)` has table `t` and column `a`. -/
def ofText (text : String) (form : NameForm) : QualifiedName :=
  let part (cs : List Char) : Option String := some (String.ofList (argument cs))
  let name := { whole text with form }
  match (parts text).reverse, form with
  | [], _ => name
  | [only], .table => { name with table := part only }
  | [only], .column => { name with column := part only }
  | [second, first], .table => { name with schema := part first, table := part second }
  | [second, first], .column => { name with table := part first, column := part second }
  | column :: table :: leading, _ =>
    { name with
      schema := part (joinDots leading.reverse)
      table := part table
      column := part column }

/-- The name with an alias. -/
def withAlias (n : QualifiedName) (aliasName : String) : QualifiedName :=
  { n with aliasName := some aliasName }

/-- Whether the name stands for all tables or columns: the table `*`, or a column with a `*`. -/
def isWildcard (n : QualifiedName) : Bool :=
  match n.form with
  | .table => n.table == some "*"
  | .column => n.column.any fun c => c.toList.contains '*'

/-- An alias as it is written behind what it stands for. -/
def aliasText : Option String → String
  | some aliasName => " " ++ aliasName
  | none => ""

/-- The name as it is written, followed by its alias. -/
def render (n : QualifiedName) : String :=
  n.text ++ aliasText n.aliasName

end QualifiedName

end SqlFront
