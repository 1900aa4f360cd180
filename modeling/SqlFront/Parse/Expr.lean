import SqlFront.Parse.Power
import SqlFront.Parse.Reading
import SqlFront.Tree.Expr

/-!
# The grammar of expressions

The rules here read expressions by binding powers. A rule that needs an expression or query as a
part asks the readers it is given, and only after it has passed a token itself.
-/

namespace SqlFront

/-- How the parts of a rule are read: an expression of at least a given power, and a query. -/
structure Readers where
  expression : Nat → Reading Expr
  query : Reading (Query Expr)

namespace Grammar

open Reading

variable (registry : Registry) (part : Readers)

/-- A query between parentheses. -/
def enclosedQuery : Reading (Query Expr) := do
  symbol .leftParen
  let q ← part.query
  symbol .rightParen
  return q

/-- Expressions with commas between them. -/
def expressions : Reading (List Expr) :=
  commaList (part.expression 0)

/-- Expressions between parentheses: a list of values, or a single expression by itself. -/
def enclosed : Reading Expr := do
  if (← nextKind) = .keyword .select then return .query (← enclosedQuery part)
  symbol .leftParen
  let items ← expressions part
  symbol .rightParen
  match items with
  | [e] => return e
  | items => return .applied Operator.list items

/-- The rest of a column whose first name has been read: names and at last a `*` behind dots. -/
def columnRest (first : String) : Reading Expr := do
  let name ← iterate (fun text => do
    if ← acceptSymbol .dot then
      if ← acceptSymbol .star then return .done (text ++ ".*")
      else return .yield (text ++ "." ++ (← name))
    else return .done text) first
  return .column name

/-- An argument of a call: an expression, or `*`. -/
def argument : Reading Expr := do
  if ← acceptSymbol .star then return .column "*" else part.expression 0

/-- The arguments of a call up to its closing parenthesis. -/
def arguments : Reading (List Expr) := do
  if (← kind) = .symbol .rightParen then return [] else commaList (argument part)

/-- The rest of a call of the function whose name has been read at the given place. -/
def callRest (name : String) (place : Span) : Reading Expr := do
  match registry.arity? name with
  | none => failAt (.unknownFunction name) place
  | some arity =>
    symbol .leftParen
    let args ← arguments part
    symbol .rightParen
    if arity.accepts args.length then return .call name args
    else failAt (.argumentCount name arity args.length) (place.merge (← lastSpan))

/-- An expression that no operator splits. -/
def primary : Reading Expr := do
  match ← kind with
  | .number text => advance; return .number text
  | .string value => advance; return .string value
  | .keyword .null => advance; return .null
  | .symbol .question => advance; return .placeholder
  | .keyword .exists => advance; return .unary Operator.exist (.query (← enclosedQuery part))
  | .symbol .leftParen => enclosed part
  | .name text =>
    let place ← span
    advance
    if (← kind) = .symbol .leftParen then callRest registry part text place
    else columnRest text
  | _ => unexpected .expression

/-- An operand with the NOT or sign before it. A plus sign leaves no trace. -/
def operand : Reading Expr := do
  match ← kind with
  | .keyword .not => advance; return .unary Operator.not (← part.expression Power.notOperand)
  | .symbol .minus => advance; return .unary Operator.minus (← part.expression Power.signOperand)
  | .symbol .plus => advance; part.expression Power.signOperand
  | _ => primary registry part

/-- The right side of a comparison: an operand, or a quantifier over a subquery. -/
def comparand (power : Nat) : Reading Expr := do
  match ← kind with
  | .keyword .any => advance; return .unary Operator.any (.query (← enclosedQuery part))
  | .keyword .all => advance; return .unary Operator.all (.query (← enclosedQuery part))
  | .keyword .some => advance; return .unary Operator.some (.query (← enclosedQuery part))
  | _ => part.expression power

/-- What stands between the parentheses behind IN: a subquery, or a list of expressions. -/
def candidates : Reading (List Expr) := do
  if (← kind) = .keyword .select then return [.query (← part.query)] else expressions part

/-- A test with BETWEEN, LIKE or IN of an operand that has been read with the NOT behind it, if there
    was one. -/
def testOf (left : Expr) (negated : Bool) : Reading Expr := do
  let choose (plain negative : String) : String := if negated then negative else plain
  match ← kind with
  | .keyword .between =>
    advance
    let low ← part.expression Power.testOperand
    keyword .and
    let high ← part.expression Power.testOperand
    return .applied (choose Operator.between Operator.notBetween) [left, low, high]
  | .keyword .like =>
    advance
    let pattern ← part.expression Power.testOperand
    return .binary (choose Operator.like Operator.notLike) left pattern
  | .keyword .in =>
    advance
    symbol .leftParen
    let list ← candidates part
    symbol .rightParen
    return .applied (choose Operator.isIn Operator.notIn) (left :: list)
  | _ => unexpected .test

/-- A test with BETWEEN, LIKE or IN, negated or not, of an operand that has been read. -/
def test (left : Expr) : Reading Expr := do
  testOf part left (← acceptKeyword .not)

/-- The rest of a test for NULL of an operand that has been read. -/
def nullTest (left : Expr) : Reading Expr := do
  advance
  let operator := if ← acceptKeyword .not then Operator.isNotNull else Operator.isNull
  keyword .null
  return .unary operator left

/-- An operand with the operators read behind it so far: the operator whose operands are still
    being collected, and whether there has been a comparison. -/
structure Chain where
  expr : Expr
  run : Option String
  compared : Bool

/-- Join one more operand to a chain. A run of one operator becomes one operation with all its
    operands. -/
def Chain.join (chain : Chain) (operator : String) (right : Expr) : Chain :=
  match chain.expr, decide (chain.run = some operator) with
  | .operation op, true =>
    { chain with expr := .operation { op with operands := op.operands ++ [right] } }
  | left, _ => { chain with expr := .binary operator left right, run := some operator }

/-- Read one operator of at least the given power with its right side, or stop. -/
def chainStep (power : Nat) (chain : Chain) : Reading (ForInStep Chain) := do
  let token ← kind
  match Power.of? token with
  | none => return .done chain
  | some p =>
    if p.left < power then return .done chain
    match p.continuation with
    | .nullTest => return .yield { chain with expr := ← nullTest chain.expr, run := none }
    | .test => return .yield { chain with expr := ← test part chain.expr, run := none }
    | .comparison operator =>
      if chain.compared then failAt .chainedComparison (← span)
      else
        advance
        let right ← comparand part p.right
        return .yield ⟨.binary operator chain.expr right, none, true⟩
    | .chain operator =>
      advance
      return .yield (chain.join operator (← part.expression p.right))

/-- An expression of operators with at least the given power. -/
def expression (power : Nat) : Reading Expr := do
  let first ← operand registry part
  let chain ← iterate (chainStep part power) ⟨first, none, false⟩
  return chain.expr

end Grammar

end SqlFront
