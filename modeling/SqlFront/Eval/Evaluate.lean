import SqlFront.Eval.Error
import SqlFront.Eval.Meaning
import SqlFront.Eval.Row
import SqlFront.Render.Expr
import SqlFront.Text.Lowercase

/-!
# Expressions evaluated over a row

Columns stand for the values of a row. Values are compared by their difference if both are numbers;
otherwise they are only told equal or not. Operands are evaluated from the left and the first error
counts: no operand is skipped because an earlier one has decided the result.
-/

namespace SqlFront

namespace Eval

/-- The value of a constant. A column is read as a number if it looks like one; NULL stands for its
    own text. -/
def constantValue (row : Row) (c : Constant) : Except EvalError Value :=
  match c.kind with
  | .column =>
    match row.get? c.value with
    | some v => .ok v.coerced
    | none => .error (.unknownColumn c.value)
  | .number =>
    match Decimal.read? c.value with
    | some x => .ok (.number x)
    | none => .error (.notNumeric c.value)
  | .string | .null => .ok (.text c.value)

/-- The number that a value is. -/
def asNumber : Value → Except EvalError Float
  | .number x => .ok x
  | .text s => .error (.notNumeric s)

mutual

/-- The value of an expression. Operations are arithmetic. -/
def value (row : Row) : Expr → Except EvalError Value
  | .constant c => constantValue row c
  | .operation ⟨operator, operands, _⟩ => (arithmetic row operator operands).map .number
  | .query q => .error (.unsupportedOperand (Expr.query q).text)
  | .placeholder => .error (.unsupportedOperand Expr.placeholder.text)

/-- The result of an operator on numbers, from the left. A minus with one operand negates. -/
def arithmetic (row : Row) (operator : String) : List Expr → Except EvalError Float
  | [] => .error (.missingArguments operator)
  | first :: rest => do
    let x ← asNumber (← value row first)
    match Arithmetic.of? operator with
    | none => .error (.unknownOperator operator)
    | some meaning =>
      if meaning = .difference ∧ rest.isEmpty then return -x else accumulate row meaning x rest

/-- The result of an operator on a number and the expressions that follow it. -/
def accumulate (row : Row) (meaning : Arithmetic) (x : Float) : List Expr → Except EvalError Float
  | [] => .ok x
  | e :: rest => do
    let y ← asNumber (← value row e)
    accumulate row meaning (meaning.apply x y) rest

end

/-- The difference of two values that are numbers. Of any others, zero if they are equal and minus
    one if they are not. -/
def difference : Value → Value → Float
  | .number x, .number y => x - y
  | a, b => if a.equals b then 0 else -1

/-- The difference of the values of two expressions. -/
def comparePair (row : Row) (left right : Expr) : Except EvalError Float := do
  let a ← value row left
  let b ← value row right
  return difference a b

/-- The difference of exactly two operands. -/
def compare (row : Row) (operands : List Expr) : Except EvalError Float :=
  match operands with
  | [left, right] => comparePair row left right
  | _ => .error (.comparisonArity operands.length)

/-- Whether a text matches a pattern. A `%` in front lets the text start in any way, a `%` behind
    lets it end in any way; without either the texts are compared in lower case. -/
def matchesPattern (subject pattern : List Char) : Bool :=
  if pattern.head? = some '%' then pattern.tail.isSuffixOf subject
  else if pattern.getLast? = some '%' then pattern.dropLast.isPrefixOf subject
  else Text.lowercase (String.ofList subject) == Text.lowercase (String.ofList pattern)

/-- Whether the first of two operands matches the second. -/
def like (row : Row) (operands : List Expr) : Except EvalError Bool :=
  match operands with
  | [subject, pattern] => do
    match ← value row subject, ← value row pattern with
    | .text s, .text p => return matchesPattern s.toList p.toList
    | _, _ => .error .likeOperands
  | _ => .error (.comparisonArity operands.length)

/-- Whether an expression equals one of others. -/
def memberOf (row : Row) (e : Expr) : List Expr → Except EvalError Bool
  | [] => .ok false
  | candidate :: rest => do
    let here ← comparePair row e candidate
    let there ← memberOf row e rest
    return here == 0 || there

/-- Whether the first operand is the constant NULL. Nothing at all counts as NULL. -/
def isNullConstant (operands : List Expr) : Except EvalError Bool :=
  match operands with
  | [] => .ok true
  | .constant c :: _ => .ok (c.kind == .null)
  | e :: _ => .error (.nullTarget e.text)

/-- Whether a predicate holds of its operands. -/
def test (row : Row) (operator : String) (operands : List Expr) : Predicate → Except EvalError Bool
  | .compare comparison => return comparison.holds (← compare row operands)
  | .between negated =>
    match operands with
    | [e, low, high] => do
      let above ← comparePair row e low
      let below ← comparePair row e high
      return (above ≥ 0 && below ≤ 0) != negated
    | _ => .error (.operandCount operator 3 operands.length)
  | .like negated => return (← like row operands) != negated
  | .membership negated =>
    match operands with
    | [] => .error (.missingArguments operator)
    | e :: candidates => return (← memberOf row e candidates) != negated
  | .nullTest negated => return (← isNullConstant operands) != negated
  | .unsupported => .error (.unsupportedOperator operator)

mutual

/-- Whether an expression holds as a condition. -/
def condition (row : Row) : Expr → Except EvalError Bool
  | .operation ⟨operator, operands, _⟩ =>
    let operator := Text.upper operator
    match Connective.of? operator, Predicate.of? operator with
    | some .every, _ => everyHolds row operands
    | some .some, _ => someHolds row operands
    | some .negation, _ => notFirst row operator operands
    | none, some predicate => test row operator operands predicate
    | none, none => .error (.unknownOperator operator)
  | .constant c => .error (.notAPredicate (Expr.constant c).text)
  | .query q => .error (.notAPredicate (Expr.query q).text)
  | .placeholder => .error (.notAPredicate Expr.placeholder.text)

/-- Whether all conditions hold. -/
def everyHolds (row : Row) : List Expr → Except EvalError Bool
  | [] => .ok true
  | e :: rest => do
    let here ← condition row e
    let there ← everyHolds row rest
    return here && there

/-- Whether some condition holds. -/
def someHolds (row : Row) : List Expr → Except EvalError Bool
  | [] => .ok false
  | e :: rest => do
    let here ← condition row e
    let there ← someHolds row rest
    return here || there

/-- Whether the first condition does not hold. -/
def notFirst (row : Row) (operator : String) : List Expr → Except EvalError Bool
  | [] => .error (.missingArguments operator)
  | e :: _ => do return !(← condition row e)

end

end Eval

end SqlFront
