import SqlFront.Text.Ascii

/-!
# Operators

An operation names its operator by its text. The texts that the SQL of this library can produce
are listed here, with the classes of operators that reading, writing and evaluation tell apart.
Signs belong to their class as they stand, words in any case of their letters.
-/

namespace SqlFront.Operator

def and : String := "AND"
def or : String := "OR"
def not : String := "NOT"

def equal : String := "="
def notEqual : String := "!="
def lessGreater : String := "<>"
def hash : String := "#"
def less : String := "<"
def lessEqual : String := "<="
def greater : String := ">"
def greaterEqual : String := ">="

def between : String := "BETWEEN"
def notBetween : String := "NOT BETWEEN"
def like : String := "LIKE"
def notLike : String := "NOT LIKE"
def isIn : String := "IN"
def notIn : String := "NOT IN"
def isNull : String := "IS NULL"
def isNotNull : String := "IS NOT NULL"

def plus : String := "+"
def minus : String := "-"
def concat : String := "||"
def times : String := "*"
def divide : String := "/"
def power : String := "**"

def exist : String := "EXISTS"
def any : String := "ANY"
def all : String := "ALL"
def some : String := "SOME"

/-- The list of values in `(a, b) = (1, 2)`. -/
def list : String := ","

def union : String := "UNION"
def unionAll : String := "UNION ALL"
def intersect : String := "INTERSECT"
def minusSet : String := "MINUS"
def except : String := "EXCEPT"

/-- The operators that compare two values. -/
def comparisons : List String :=
  [equal, notEqual, lessGreater, hash, less, lessEqual, greater, greaterEqual]

/-- The operators that join two queries. -/
def setOperators : List String :=
  [union, unionAll, intersect, minusSet, except]

/-- The words that stand between a comparison and a subquery. -/
def quantifiers : List String :=
  [any, all, some]

/-- The operators that test membership in a list or subquery. -/
def memberships : List String :=
  [isIn, notIn]

/-- The operators that test for an absent value. -/
def nullTests : List String :=
  [isNull, isNotNull]

/-- Every operator text. -/
def texts : List String :=
  [and, or, not] ++ comparisons ++ [between, notBetween, like, notLike] ++ memberships ++ nullTests
    ++ [plus, minus, concat, times, divide, power, exist] ++ quantifiers ++ [list] ++ setOperators

/-- Whether an operator compares two values. -/
def isComparison (operator : String) : Bool :=
  comparisons.contains operator

/-- Whether an operator joins two queries. -/
def isSetOperator (operator : String) : Bool :=
  setOperators.contains (Text.upper operator)

/-- Whether an operator stands between a comparison and a subquery. -/
def isQuantifier (operator : String) : Bool :=
  quantifiers.contains (Text.upper operator)

/-- Whether an operator tests membership. -/
def isMembership (operator : String) : Bool :=
  memberships.contains (Text.upper operator)

/-- Whether an operator tests for an absent value. -/
def isNullTest (operator : String) : Bool :=
  nullTests.contains (Text.upper operator)

end SqlFront.Operator
