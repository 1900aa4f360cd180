import SqlFront.Name
import SqlFront.Operator

/-!
# Expressions and queries

An expression is a constant, an operator applied to a row of expressions, a subquery, or a `?`
parameter. Queries hold expressions in their clauses, so the parts of a query are written over the
type of expressions they hold, and `Expr` closes the circle.
-/

namespace SqlFront

/-- What the text of a constant denotes. -/
inductive Constant.Kind where
  /-- A column such as `PRICE`, `t.PRICE` or `t.*`. -/
  | column
  /-- The absent value. -/
  | null
  /-- A number, as it is written. -/
  | number
  /-- A text, without its quotes. -/
  | string
  deriving DecidableEq, Repr

/-- A leaf of an expression. Two constants are equal only if they are spelled alike: `01` is not
    `1`. -/
structure Constant where
  kind : Constant.Kind
  value : String
  deriving DecidableEq, Repr

/-- An operator and its operands. The operator is a sign, a word operator, a set operator, a function
    name, or `,` for a list of values. Calls are marked and are always written `NAME(args)`. -/
structure Operation (ε : Type) where
  operator : String
  operands : List ε
  call : Bool

/-- An item of a select list. A wildcard has no expression; a call of a registered function records
    the function. -/
structure SelectItem (ε : Type) where
  name : QualifiedName
  expression : Option ε
  function : Option String

/-- The expressions to group by, and the condition on the groups. -/
structure GroupBy (ε : Type) where
  exprs : List ε
  having : Option ε

/-- An expression to order by, and the direction. -/
structure OrderBy (ε : Type) where
  expr : ε
  ascending : Bool

/-- A SELECT query over expressions of type `ε`. -/
structure Query (ε : Type) where
  distinct : Bool
  items : List (SelectItem ε)
  sources : List QualifiedName
  condition : Option ε
  groupBy : Option (GroupBy ε)
  setOperation : Option (Operation ε)
  orderBy : List (OrderBy ε)
  forUpdate : Bool

/-- An SQL expression. -/
inductive Expr where
  /-- A leaf. -/
  | constant (c : Constant)
  /-- An operator with its operands. -/
  | operation (op : Operation Expr)
  /-- A subquery. -/
  | query (q : Query Expr)
  /-- A `?` parameter. -/
  | placeholder

namespace Expr

/-- The column of that name. -/
def column (name : String) : Expr := .constant ⟨.column, name⟩

/-- The number that is written so. -/
def number (text : String) : Expr := .constant ⟨.number, text⟩

/-- The text with that content. -/
def string (value : String) : Expr := .constant ⟨.string, value⟩

/-- The absent value. -/
def null : Expr := .constant ⟨.null, "NULL"⟩

/-- An operation with one operand. -/
def unary (operator : String) (operand : Expr) : Expr :=
  .operation ⟨operator, [operand], false⟩

/-- An operation with two operands. -/
def binary (operator : String) (left right : Expr) : Expr :=
  .operation ⟨operator, [left, right], false⟩

/-- An operation with the given operands. -/
def applied (operator : String) (operands : List Expr) : Expr :=
  .operation ⟨operator, operands, false⟩

/-- A function call. Function names are kept in upper case. -/
def call (name : String) (args : List Expr) : Expr :=
  .operation ⟨Text.upper name, args, true⟩

/-! The operators that conditions are put together with, under their own names. -/

def equal (a b : Expr) : Expr := binary Operator.equal a b
def notEqual (a b : Expr) : Expr := binary Operator.notEqual a b
def less (a b : Expr) : Expr := binary Operator.less a b
def lessEqual (a b : Expr) : Expr := binary Operator.lessEqual a b
def greater (a b : Expr) : Expr := binary Operator.greater a b
def greaterEqual (a b : Expr) : Expr := binary Operator.greaterEqual a b
def and (a b : Expr) : Expr := binary Operator.and a b
def or (a b : Expr) : Expr := binary Operator.or a b
def like (a pattern : Expr) : Expr := binary Operator.like a pattern
def negate (a : Expr) : Expr := unary Operator.not a
def isNull (a : Expr) : Expr := unary Operator.isNull a
def isNotNull (a : Expr) : Expr := unary Operator.isNotNull a
def between (a low high : Expr) : Expr := applied Operator.between [a, low, high]
def isIn (a : Expr) (list : List Expr) : Expr := applied Operator.isIn (a :: list)

/-- Whether the expression is a column. -/
def isColumn : Expr → Bool
  | .constant c => c.kind == .column
  | _ => false

/-- Induction over the operands of operations. Subqueries count as leaves. -/
@[elab_as_elim]
theorem operandInduction {motive : Expr → Prop} (constant : ∀ c, motive (.constant c))
    (operation : ∀ op : Operation Expr, (∀ e ∈ op.operands, motive e) → motive (.operation op))
    (query : ∀ q, motive (.query q)) (placeholder : motive .placeholder) (e : Expr) : motive e := by
  match e with
  | .constant c => exact constant c
  | .query q => exact query q
  | .placeholder => exact placeholder
  | .operation ⟨operator, operands, call⟩ =>
    refine operation _ fun e he => ?_
    have hsize : sizeOf e < sizeOf operands := List.sizeOf_lt_of_mem he
    exact operandInduction constant operation query placeholder e
termination_by sizeOf e
decreasing_by
  simp only [Expr.operation.sizeOf_spec, Operation.mk.sizeOf_spec]
  omega

end Expr

namespace SelectItem

variable {ε : Type}

/-- The item with an alias. -/
def withAlias (item : SelectItem ε) (aliasName : String) : SelectItem ε :=
  { item with name := item.name.withAlias aliasName }

/-- Whether the item is more than a column or wildcard. -/
def isExpression (item : SelectItem Expr) : Bool :=
  item.expression.any fun e => !e.isColumn

/-- Whether the item is a wildcard such as `*` or `t.*`. -/
def isWildcard (item : SelectItem ε) : Bool :=
  item.expression.isNone && item.name.isWildcard

/-- The item for a dotted column name. A name with `*` for its column is a wildcard. -/
def column (name : String) : SelectItem Expr :=
  let qualified := QualifiedName.ofText name .column
  ⟨qualified, if qualified.isWildcard then none else some (Expr.column name), none⟩

/-- The item `*`. -/
def wildcard : SelectItem Expr := column "*"

end SelectItem

/-- The direction of an entry as it is written. -/
def OrderBy.direction {ε : Type} (entry : OrderBy ε) : String :=
  if entry.ascending then "ASC" else "DESC"

end SqlFront
