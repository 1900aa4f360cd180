import SqlFront.Parse.Expr
import SqlFront.Render.Item

/-!
# The grammar of queries, and expressions and queries tied together

Expressions hold queries and queries hold expressions. The readers of depth `n + 1` read their
parts with the readers of depth `n`. A part is read only behind a token that has been passed, so the
number of tokens ahead is deep enough; readers of depth zero stand where no token is left.
-/

namespace SqlFront

namespace Grammar

open Reading

variable (registry : Registry) (part : Readers)

/-- A dotted name such as `s.t`. -/
def dottedName : Reading String := do
  let first ← name
  iterate (fun text => do
    if ← acceptSymbol .dot then return .yield (text ++ "." ++ (← name)) else return .done text) first

/-- A name, if there is one. -/
def name? : Reading (Option String) := do
  match ← kind with
  | .name text => advance; return some text
  | _ => return none

/-- An optional alias, with or without AS. -/
def optionalAlias : Reading (Option String) := do
  if ← acceptKeyword .as then return some (← name) else name?

/-- An item of a select list. A lone `*` takes no alias. -/
def selectItem : Reading (SelectItem Expr) := do
  if ← acceptSymbol .star then return SelectItem.wildcard
  let item := SelectItem.ofExpr registry (← part.expression 0)
  match ← optionalAlias with
  | some aliasName => return item.withAlias aliasName
  | none => return item

/-- A table of a FROM clause. -/
def source : Reading QualifiedName := do
  let table := QualifiedName.ofText (← dottedName) .table
  match ← optionalAlias with
  | some aliasName => return table.withAlias aliasName
  | none => return table

/-- An optional condition behind its reserved word. -/
def clause? (word : Keyword) : Reading (Option Expr) := do
  if ← acceptKeyword word then return some (← part.expression 0) else return none

/-- An optional GROUP BY clause with an optional HAVING. -/
def groupBy? : Reading (Option (GroupBy Expr)) := do
  if ← acceptKeyword .group then
    keyword .by
    let exprs ← expressions part
    return some ⟨exprs, ← clause? part .having⟩
  else return none

/-- An optional set operator. -/
def setOperator? : Reading (Option String) := do
  match ← kind with
  | .keyword .union =>
    advance
    if ← acceptKeyword .all then return some Operator.unionAll else return some Operator.union
  | .keyword .intersect => advance; return some Operator.intersect
  | .keyword .minus => advance; return some Operator.minusSet
  | .keyword .except => advance; return some Operator.except
  | _ => return none

/-- The query behind a set operator, with or without parentheses. -/
def joinedQuery : Reading (Query Expr) := do
  if (← kind) = .symbol .leftParen then enclosedQuery part else part.query

/-- An optional set operator with the query it joins. -/
def setOperation? : Reading (Option (Operation Expr)) := do
  match ← setOperator? with
  | none => return none
  | some operator => return some ⟨operator, [.query (← joinedQuery part)], false⟩

/-- An entry of an ORDER BY. Without a direction it is ascending. -/
def orderEntry : Reading (OrderBy Expr) := do
  let expr ← part.expression 0
  if ← acceptKeyword .desc then return ⟨expr, false⟩
  discard (acceptKeyword .asc)
  return ⟨expr, true⟩

/-- An optional ORDER BY clause. -/
def orderBy : Reading (List (OrderBy Expr)) := do
  if ← acceptKeyword .order then
    keyword .by
    commaList (orderEntry part)
  else return []

/-- An optional FOR UPDATE. -/
def forUpdate : Reading Bool := do
  if ← acceptKeyword .for then
    keyword .update
    return true
  else return false

/-- Whether the word DISTINCT is there. ALL may stand in its place and says nothing. -/
def distinct : Reading Bool := do
  if ← acceptKeyword .distinct then return true
  discard (acceptKeyword .all)
  return false

/-- A query from SELECT to its last clause. -/
def query : Reading (Query Expr) := do
  keyword .select
  let distinct ← distinct
  let items ← commaList (selectItem registry part)
  keyword .from
  let sources ← commaList source
  let condition ← clause? part .where
  let group ← groupBy? part
  let set ← setOperation? part
  let order ← orderBy part
  let locked ← forUpdate
  return ⟨distinct, items, sources, condition, group, set, order, locked⟩

/-- The readers of a given depth. -/
def readersOfDepth : Nat → Readers
  | 0 => ⟨fun _ => unexpected .expression, unexpected (.keyword .select)⟩
  | n + 1 =>
    let part := readersOfDepth n
    ⟨expression registry part, query registry part⟩

/-- The readers of expressions and queries, deep enough for the tokens ahead. -/
def readers : Readers where
  expression power :=
    ⟨fun c => (readersOfDepth registry c.ahead.length).expression power c,
      fun c => ((readersOfDepth registry c.ahead.length).expression power).forward c⟩
  query :=
    ⟨fun c => (readersOfDepth registry c.ahead.length).query c,
      fun c => (readersOfDepth registry c.ahead.length).query.forward c⟩

end Grammar

end SqlFront
