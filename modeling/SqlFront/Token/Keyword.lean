import SqlFront.Text.Ascii

/-!
# Reserved words

Only words that can never be a name are reserved. Words with a meaning in one place of one
statement, such as `LOCK`, `COMMIT` or `NOWAIT`, stay ordinary names.
-/

namespace SqlFront

/-- A reserved word. -/
inductive Keyword where
  | select | distinct | all | «from» | «where» | group | by | having | order | asc | desc | «for» | as
  | union | intersect | minus | except
  | insert | into | values | update | set | delete
  | and | or | not | between | like | «in» | is | null | «exists» | any | some
  deriving DecidableEq, Repr

namespace Keyword

/-- The word in upper case. -/
def text : Keyword → String
  | .select => "SELECT"
  | .distinct => "DISTINCT"
  | .all => "ALL"
  | .from => "FROM"
  | .where => "WHERE"
  | .group => "GROUP"
  | .by => "BY"
  | .having => "HAVING"
  | .order => "ORDER"
  | .asc => "ASC"
  | .desc => "DESC"
  | .for => "FOR"
  | .as => "AS"
  | .union => "UNION"
  | .intersect => "INTERSECT"
  | .minus => "MINUS"
  | .except => "EXCEPT"
  | .insert => "INSERT"
  | .into => "INTO"
  | .values => "VALUES"
  | .update => "UPDATE"
  | .set => "SET"
  | .delete => "DELETE"
  | .and => "AND"
  | .or => "OR"
  | .not => "NOT"
  | .between => "BETWEEN"
  | .like => "LIKE"
  | .in => "IN"
  | .is => "IS"
  | .null => "NULL"
  | .exists => "EXISTS"
  | .any => "ANY"
  | .some => "SOME"

/-- Every reserved word. -/
def reserved : List Keyword :=
  [.select, .distinct, .all, .from, .where, .group, .by, .having, .order, .asc, .desc, .for, .as,
   .union, .intersect, .minus, .except, .insert, .into, .values, .update, .set, .delete,
   .and, .or, .not, .between, .like, .in, .is, .null, .exists, .any, .some]

/-- The list leaves out no word. -/
theorem mem_reserved (k : Keyword) : k ∈ reserved := by
  cases k <;> simp [reserved]

/-- The reserved word that a text spells, in any case of its letters. -/
def ofText? (s : String) : Option Keyword :=
  let word := Text.upper s
  reserved.find? (·.text == word)

/-- A text spells only the reserved word whose capitals it has. -/
theorem text_of_ofText? {s : String} {k : Keyword} (h : ofText? s = Option.some k) :
    k.text = Text.upper s := by
  simpa using List.find?_some h

end Keyword

end SqlFront
