import SqlFront.Operator

/-!
# What operators mean

The operators that have a meaning as a condition or in arithmetic. Operators of conditions are
found by their text in upper case, those of arithmetic by their text as it stands.
-/

namespace SqlFront

/-- How the difference of two values is tested. -/
inductive Comparison where
  | equal | notEqual | less | lessEqual | greater | greaterEqual
  deriving DecidableEq, Repr

/-- Whether a difference passes the test. An undefined difference passes only "not equal". -/
def Comparison.holds : Comparison → Float → Bool
  | .equal, d => d == 0
  | .notEqual, d => d != 0
  | .less, d => d < 0
  | .lessEqual, d => d ≤ 0
  | .greater, d => d > 0
  | .greaterEqual, d => d ≥ 0

/-- The meaning of an operator that joins conditions. -/
inductive Connective where
  /-- Every operand holds. -/
  | every
  /-- Some operand holds. -/
  | some
  /-- The first operand does not hold. -/
  | negation
  deriving DecidableEq, Repr

/-- The meaning of an operator, given in upper case, that joins conditions. -/
def Connective.of? (operator : String) : Option Connective :=
  [(Operator.and, Connective.every), (Operator.or, .some), (Operator.not, .negation)].lookup operator

/-- The meaning of an operator that tests values. -/
inductive Predicate where
  /-- The difference of two values passes a test. -/
  | compare (comparison : Comparison)
  /-- A value lies between two bounds, or does not. -/
  | between (negated : Bool)
  /-- A text matches a pattern, or does not. -/
  | like (negated : Bool)
  /-- A value is one of others, or is not. -/
  | membership (negated : Bool)
  /-- A constant is NULL, or is not. -/
  | nullTest (negated : Bool)
  /-- The operator is known to have no meaning. -/
  | unsupported
  deriving DecidableEq, Repr

/-- The meanings of the operators that test values. -/
def Predicate.table : List (String × Predicate) :=
  [(Operator.equal, .compare .equal), (Operator.notEqual, .compare .notEqual),
   (Operator.lessGreater, .compare .notEqual), (Operator.greater, .compare .greater),
   (Operator.greaterEqual, .compare .greaterEqual), (Operator.less, .compare .less),
   (Operator.lessEqual, .compare .lessEqual), (Operator.hash, .unsupported),
   (Operator.between, .between false), (Operator.notBetween, .between true),
   (Operator.like, .like false), (Operator.notLike, .like true),
   (Operator.isIn, .membership false), (Operator.notIn, .membership true),
   (Operator.isNull, .nullTest false), (Operator.isNotNull, .nullTest true)]

/-- The meaning of an operator, given in upper case, that tests values. -/
def Predicate.of? (operator : String) : Option Predicate :=
  table.lookup operator

/-- The meaning of an operator in arithmetic. -/
inductive Arithmetic where
  | sum | difference | product | quotient | power
  deriving DecidableEq, Repr

/-- The result for two numbers. -/
def Arithmetic.apply : Arithmetic → Float → Float → Float
  | .sum, x, y => x + y
  | .difference, x, y => x - y
  | .product, x, y => x * y
  | .quotient, x, y => x / y
  | .power, x, y => x ^ y

/-- The meaning of an operator in arithmetic, if it has one. -/
def Arithmetic.of? (operator : String) : Option Arithmetic :=
  [(Operator.plus, Arithmetic.sum), (Operator.minus, .difference), (Operator.times, .product),
   (Operator.divide, .quotient), (Operator.power, .power)].lookup operator

end SqlFront
