/-!
# Why an expression has no value
-/

namespace SqlFront

/-- The cause of a failed evaluation. -/
inductive EvalError where
  /-- An operator that needs operands has none. -/
  | missingArguments (operator : String)
  /-- The operator is known but has no meaning here. -/
  | unsupportedOperator (operator : String)
  /-- The operator is not known. -/
  | unknownOperator (operator : String)
  /-- A comparison or LIKE has other than two operands. -/
  | comparisonArity (found : Nat)
  /-- The row has no such attribute, or it is unset. -/
  | unknownColumn (name : String)
  /-- An operand of LIKE is no text. -/
  | likeOperands
  /-- An operand of arithmetic is no number. -/
  | notNumeric (text : String)
  /-- A test for NULL is given something that is no constant. -/
  | nullTarget (text : String)
  /-- A condition is no operation. -/
  | notAPredicate (text : String)
  /-- A subquery or parameter stands where a value is needed. -/
  | unsupportedOperand (text : String)
  /-- The operator has a fixed number of operands, and not this one. -/
  | operandCount (operator : String) (expected found : Nat)
  deriving DecidableEq, Repr

/-- The wording of the error. -/
def EvalError.message : EvalError → String
  | .missingArguments operator => "operator " ++ operator ++ " has no operands"
  | .unsupportedOperator operator => "operator " ++ operator ++ " is not supported"
  | .unknownOperator operator => "unknown operator " ++ operator
  | .comparisonArity found => "cannot compare " ++ toString found ++ " value(s), expected 2"
  | .unknownColumn name => "unknown column " ++ name
  | .likeOperands => "LIKE can only compare strings"
  | .notNumeric text => "expression is not numeric: " ++ text
  | .nullTarget text => "IS NULL can only test a constant, found " ++ text
  | .notAPredicate text => "only operations can be evaluated as conditions, found " ++ text
  | .unsupportedOperand text => "cannot evaluate operand " ++ text
  | .operandCount operator expected found =>
    "operator " ++ operator ++ " expects " ++ toString expected ++ " operand(s), found "
      ++ toString found

end SqlFront
