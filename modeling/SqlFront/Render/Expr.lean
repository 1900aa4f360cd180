import SqlFront.Function.Registry
import SqlFront.Text.Pieces
import SqlFront.Text.Quoted
import SqlFront.Tree.Expr

/-!
# Expressions and queries as text

The canonical text of a tree: keywords of clauses in lower case, operators as they are stored, and
every operation in parentheses unless it is a call, a quantifier or a UNION. An operation that is
not marked as a call is still written as one if a registered function has the name of its operator.
-/

namespace SqlFront

/-- A constant as it is written. A text stands between quotes, with its own quotes doubled. -/
def Constant.render (c : Constant) : String :=
  match c.kind with
  | .string => "\x27" ++ String.ofList (Text.doubled '\x27' c.value.toList) ++ "\x27"
  | .column | .null | .number => c.value

/-- How the operands of an operation stand around its operator. -/
inductive OperationShape where
  /-- The operator, then the operands between parentheses. -/
  | call
  /-- The operand, then the operator. -/
  | after
  /-- The operand alone. -/
  | alone
  /-- The operator, then the operand. -/
  | before
  /-- The tested value, the operator, and two bounds joined by AND. -/
  | range
  /-- The tested value, the operator, and a subquery or a list between parentheses. -/
  | membership
  /-- The operands with commas between them. -/
  | list
  /-- The operands with the operator between them. -/
  | chain
  deriving DecidableEq, Repr

/-- The shape of an operation, which depends on its operator, the number of its operands, and on
    the functions registered. -/
def OperationShape.of (r : Registry) (op : Operation Expr) : OperationShape :=
  if op.call || op.operands.isEmpty || r.isFunction op.operator then .call
  else if op.operands.length = 1 then
    if Operator.isNullTest op.operator then .after
    else if op.operator = Operator.list then .alone
    else .before
  else if op.operands.length = 3 ∧ Operator.between.toList <:+ (Text.upper op.operator).toList then
    .range
  else if Operator.isMembership op.operator then .membership
  else if op.operator = Operator.list then .list
  else .chain

/-- The text of the values after IN: a single subquery brings its own parentheses. -/
def membershipText (candidates : List Expr) (texts : List String) : String :=
  match candidates with
  | [.query _] => Text.join ", " texts
  | _ => "(" ++ Text.join ", " texts ++ ")"

/-- The text of an operation, given the texts of its operands. -/
def Operation.layout (r : Registry) (op : Operation Expr) (texts : List String) : String :=
  let parenthesize (s : String) : String :=
    if Operator.isQuantifier op.operator || Text.sameWord op.operator Operator.union then s
    else "(" ++ s ++ ")"
  match OperationShape.of r op, texts with
  | .call, _ => op.operator ++ "(" ++ Text.join "," texts ++ ")"
  | .after, [operand] => parenthesize (operand ++ " " ++ op.operator)
  | .alone, [operand] => parenthesize operand
  | .before, [operand] => parenthesize (op.operator ++ " " ++ operand)
  | .range, [value, low, high] =>
    parenthesize (value ++ " " ++ op.operator ++ " " ++ low ++ " AND " ++ high)
  | .membership, value :: rest =>
    parenthesize (value ++ " " ++ op.operator ++ " " ++ membershipText op.operands.tail rest)
  | .list, _ => parenthesize (Text.join ", " texts)
  | _, _ => parenthesize (Text.join (" " ++ op.operator ++ " ") texts)

theorem Operation.layout_call {r : Registry} {o : String} {es : List Expr} {texts : List String} :
    Operation.layout r ⟨o, es, true⟩ texts = o ++ "(" ++ Text.join "," texts ++ ")" := by
  have hshape : OperationShape.of r ⟨o, es, true⟩ = .call := by simp [OperationShape.of]
  simp [Operation.layout, hshape]

mutual

/-- The text of an expression. -/
def Expr.render (r : Registry) : Expr → String
  | .constant c => c.render
  | .operation op => renderOperation r op
  | .query q => "(" ++ renderQuery r q ++ ")"
  | .placeholder => "?"

/-- The text of an operation. -/
def Expr.renderOperation (r : Registry) : Operation Expr → String
  | ⟨operator, operands, call⟩ =>
    Operation.layout r ⟨operator, operands, call⟩ (renderList r operands)

/-- The texts of expressions in order. -/
def Expr.renderList (r : Registry) : List Expr → List String
  | [] => []
  | e :: rest => Expr.render r e :: renderList r rest

/-- What a select item shows: its expression, or its name if it is a column or wildcard. -/
def Expr.renderShown (r : Registry) (name : String) : Option Expr → String
  | some e => if e.isColumn then name else Expr.render r e
  | none => name

/-- The text of a select item. -/
def Expr.renderItem (r : Registry) : SelectItem Expr → String
  | ⟨name, expression, _⟩ => renderShown r name.text expression ++ QualifiedName.aliasText name.aliasName

/-- The texts of select items in order. -/
def Expr.renderItems (r : Registry) : List (SelectItem Expr) → List String
  | [] => []
  | item :: rest => renderItem r item :: renderItems r rest

/-- The condition of a clause behind its keyword, or nothing. -/
def Expr.renderClause (r : Registry) (keyword : String) : Option Expr → String
  | none => ""
  | some e => keyword ++ Expr.render r e

/-- The text of a GROUP BY. -/
def Expr.renderGroup (r : Registry) : GroupBy Expr → String
  | ⟨exprs, having⟩ =>
    "group by " ++ Text.join ", " (renderList r exprs) ++ renderClause r " having " having

/-- The text of a GROUP BY behind what precedes it, or nothing. -/
def Expr.renderGroupClause (r : Registry) : Option (GroupBy Expr) → String
  | none => ""
  | some group => " " ++ renderGroup r group

/-- The text of a set operator with the queries that follow it. -/
def Expr.renderSetClause (r : Registry) : Option (Operation Expr) → String
  | none => ""
  | some ⟨operator, operands, _⟩ =>
    " " ++ operator ++ String.join ((renderList r operands).map (" " ++ ·))

/-- The text of an ORDER BY entry. -/
def Expr.renderOrder (r : Registry) : OrderBy Expr → String
  | ⟨expr, ascending⟩ => Expr.render r expr ++ " " ++ OrderBy.direction ⟨expr, ascending⟩

/-- The texts of ORDER BY entries in order. -/
def Expr.renderOrders (r : Registry) : List (OrderBy Expr) → List String
  | [] => []
  | entry :: rest => renderOrder r entry :: renderOrders r rest

/-- The text of a query. -/
def Expr.renderQuery (r : Registry) : Query Expr → String
  | ⟨distinct, items, sources, condition, group, set, order, forUpdate⟩ =>
    "select " ++ (if distinct then "distinct " else "") ++ Text.join ", " (renderItems r items)
      ++ " from " ++ Text.join ", " (sources.map QualifiedName.render)
      ++ renderClause r " where " condition ++ renderGroupClause r group ++ renderSetClause r set
      ++ (if order.isEmpty then "" else " order by " ++ Text.join ", " (renderOrders r order))
      ++ (if forUpdate then " for update" else "")

end

/-- The text of an operation. -/
abbrev Operation.render (r : Registry) (op : Operation Expr) : String := Expr.renderOperation r op

/-- The text of a query. -/
abbrev Query.render (r : Registry) (q : Query Expr) : String := Expr.renderQuery r q

theorem Expr.render_query (r : Registry) (q : Query Expr) :
    (Expr.query q).render r = "(" ++ q.render r ++ ")" := by
  rw [Expr.render]

theorem Expr.renderList_eq (r : Registry) (es : List Expr) :
    Expr.renderList r es = es.map (Expr.render r) := by
  induction es with
  | nil => rfl
  | cons e es ih => rw [Expr.renderList, ih, List.map_cons]

theorem Expr.render_operation (r : Registry) (op : Operation Expr) :
    (Expr.operation op).render r = op.layout r (op.operands.map (Expr.render r)) := by
  rw [Expr.render, Expr.renderOperation, Expr.renderList_eq]

/-- The text of a select item. -/
abbrev SelectItem.render (r : Registry) (item : SelectItem Expr) : String := Expr.renderItem r item

/-- The text of a GROUP BY clause. -/
abbrev GroupBy.render (r : Registry) (group : GroupBy Expr) : String := Expr.renderGroup r group

/-- The text of an ORDER BY entry. -/
abbrev OrderBy.render (r : Registry) (entry : OrderBy Expr) : String := Expr.renderOrder r entry

/-- The text of an expression when only the aggregates are registered. -/
def Expr.text (e : Expr) : String := e.render Registry.builtin

mutual

/-- The text of an expression with every operator before its operands, between parentheses:
    `(AND (> a 1) (= b 2))`. Subqueries keep their canonical text. -/
def Expr.polish (r : Registry) : Expr → String
  | .operation ⟨operator, operands, _⟩ => "(" ++ operator ++ polishList r operands ++ ")"
  | .constant c => Expr.render r (.constant c)
  | .query q => Expr.render r (.query q)
  | .placeholder => Expr.render r .placeholder

/-- The prefix forms of operands, each behind a space. -/
def Expr.polishList (r : Registry) : List Expr → String
  | [] => ""
  | e :: rest => " " ++ Expr.polish r e ++ polishList r rest

end

end SqlFront
