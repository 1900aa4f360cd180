import SqlFront.Json.Decode
import SqlFront.Tree.Statement

/-!
# Trees in JSON

Every type of tree has its JSON form. Reading a form checks types but no more: lists may be empty
and names may be odd. Reading an expression goes down the value level by level, so the depth of the
value bounds it.
-/

namespace SqlFront

/-! ## Names and constants -/

def NameForm.toJson : NameForm → Json
  | .table => .string "Table"
  | .column => .string "Column"

def NameForm.ofJson? : Json → Option NameForm :=
  Json.enum? [("Table", .table), ("Column", .column)]

def QualifiedName.toJson (n : QualifiedName) : Json :=
  .object [("text", .string n.text), ("schema", Json.ofOption .string n.schema),
    ("table", Json.ofOption .string n.table), ("column", Json.ofOption .string n.column),
    ("alias", Json.ofOption .string n.aliasName), ("form", n.form.toJson)]

def QualifiedName.ofJson? (j : Json) : Option QualifiedName := do
  let fields ← Json.record? ["text", "schema", "table", "column", "alias", "form"] 6 j
  return {
    text := ← Json.field? fields "text" Json.string?
    schema := ← Json.optional? fields "schema" Json.string?
    table := ← Json.optional? fields "table" Json.string?
    column := ← Json.optional? fields "column" Json.string?
    aliasName := ← Json.optional? fields "alias" Json.string?
    form := ← Json.field? fields "form" NameForm.ofJson? }

/-- The form of a table of a FROM clause, which holds its name. -/
def QualifiedName.sourceToJson (n : QualifiedName) : Json :=
  .object [("name", n.toJson)]

def QualifiedName.sourceOfJson? (j : Json) : Option QualifiedName := do
  Json.field? (← Json.record? ["name"] 1 j) "name" QualifiedName.ofJson?

def Constant.Kind.toJson : Constant.Kind → Json
  | .column => .string "ColumnName"
  | .null => .string "Null"
  | .number => .string "Number"
  | .string => .string "String"

def Constant.Kind.ofJson? : Json → Option Constant.Kind :=
  Json.enum? [("ColumnName", .column), ("Null", .null), ("Number", .number), ("String", .string)]

def Constant.toJson (c : Constant) : Json :=
  .object [("kind", c.kind.toJson), ("value", .string c.value)]

def Constant.ofJson? (j : Json) : Option Constant := do
  let fields ← Json.record? ["kind", "value"] 2 j
  return {
    kind := ← Json.field? fields "kind" Constant.Kind.ofJson?
    value := ← Json.field? fields "value" Json.string? }

/-! ## Expressions and queries -/

mutual

def Expr.toJson : Expr → Json
  | .constant c => Json.tagged "Constant" c.toJson
  | .operation op => Json.tagged "Operation" (operationToJson op)
  | .query q => Json.tagged "Query" (queryToJson q)
  | .placeholder => .string "Placeholder"

def Expr.operationToJson : Operation Expr → Json
  | ⟨operator, operands, call⟩ =>
    .object [("operator", .string operator), ("operands", .array (listToJson operands)),
      ("call", .bool call)]

def Expr.listToJson : List Expr → List Json
  | [] => []
  | e :: rest => Expr.toJson e :: listToJson rest

def Expr.optionToJson : Option Expr → Json
  | none => .null
  | some e => Expr.toJson e

def Expr.itemToJson : SelectItem Expr → Json
  | ⟨name, expression, function⟩ =>
    .object [("name", name.toJson), ("expression", optionToJson expression),
      ("aggregate", Json.ofOption .string function)]

def Expr.itemsToJson : List (SelectItem Expr) → List Json
  | [] => []
  | item :: rest => itemToJson item :: itemsToJson rest

def Expr.groupToJson : GroupBy Expr → Json
  | ⟨exprs, having⟩ =>
    .object [("exprs", .array (listToJson exprs)), ("having", optionToJson having)]

def Expr.groupOptionToJson : Option (GroupBy Expr) → Json
  | none => .null
  | some group => groupToJson group

def Expr.operationOptionToJson : Option (Operation Expr) → Json
  | none => .null
  | some op => operationToJson op

def Expr.orderToJson : OrderBy Expr → Json
  | ⟨expr, ascending⟩ => .object [("expr", Expr.toJson expr), ("ascending", .bool ascending)]

def Expr.ordersToJson : List (OrderBy Expr) → List Json
  | [] => []
  | entry :: rest => orderToJson entry :: ordersToJson rest

def Expr.queryToJson : Query Expr → Json
  | ⟨distinct, items, sources, condition, group, set, order, forUpdate⟩ =>
    .object [("distinct", .bool distinct), ("items", .array (itemsToJson items)),
      ("from", Json.ofList QualifiedName.sourceToJson sources),
      ("where_clause", optionToJson condition), ("group_by", groupOptionToJson group),
      ("set_operation", operationOptionToJson set), ("order_by", .array (ordersToJson order)),
      ("for_update", .bool forUpdate)]

end

abbrev Query.toJson (q : Query Expr) : Json := Expr.queryToJson q

variable {ε : Type} (expr : Json → Option ε)

/-- Read an operation, given how its operands are read. One without the mark of a call is none. -/
def Operation.ofJson? (j : Json) : Option (Operation ε) := do
  let fields ← Json.record? ["operator", "operands", "call"] 2 j
  return {
    operator := ← Json.field? fields "operator" Json.string?
    operands := ← Json.field? fields "operands" (Json.list? expr)
    call := ← match fields.lookup "call" with
      | none => some false
      | some j => j.bool? }

def SelectItem.ofJson? (j : Json) : Option (SelectItem ε) := do
  let fields ← Json.record? ["name", "expression", "aggregate"] 3 j
  return {
    name := ← Json.field? fields "name" QualifiedName.ofJson?
    expression := ← Json.optional? fields "expression" expr
    function := ← Json.optional? fields "aggregate" Json.string? }

def GroupBy.ofJson? (j : Json) : Option (GroupBy ε) := do
  let fields ← Json.record? ["exprs", "having"] 2 j
  return {
    exprs := ← Json.field? fields "exprs" (Json.list? expr)
    having := ← Json.optional? fields "having" expr }

def OrderBy.ofJson? (j : Json) : Option (OrderBy ε) := do
  let fields ← Json.record? ["expr", "ascending"] 2 j
  return {
    expr := ← Json.field? fields "expr" expr
    ascending := ← Json.field? fields "ascending" Json.bool? }

def Query.ofJson? (j : Json) : Option (Query ε) := do
  let fields ← Json.record?
    ["distinct", "items", "from", "where_clause", "group_by", "set_operation", "order_by",
      "for_update"] 8 j
  return {
    distinct := ← Json.field? fields "distinct" Json.bool?
    items := ← Json.field? fields "items" (Json.list? (SelectItem.ofJson? expr))
    sources := ← Json.field? fields "from" (Json.list? QualifiedName.sourceOfJson?)
    condition := ← Json.optional? fields "where_clause" expr
    groupBy := ← Json.optional? fields "group_by" (GroupBy.ofJson? expr)
    setOperation := ← Json.optional? fields "set_operation" (Operation.ofJson? expr)
    orderBy := ← Json.field? fields "order_by" (Json.list? (OrderBy.ofJson? expr))
    forUpdate := ← Json.field? fields "for_update" Json.bool? }

omit ε expr

/-- Read an expression from a value of at most the given depth. -/
def Expr.ofJsonWithin? : Nat → Json → Option Expr
  | 0, _ => none
  | depth + 1, j => do
    match ← Json.variant? j with
    | ("Constant", some content) => .constant <$> Constant.ofJson? content
    | ("Operation", some content) => .operation <$> Operation.ofJson? (ofJsonWithin? depth) content
    | ("Query", some content) => .query <$> Query.ofJson? (ofJsonWithin? depth) content
    | ("Placeholder", none) | ("Placeholder", some .null) => some .placeholder
    | _ => none

/-- Read an expression. -/
def Expr.ofJson? (j : Json) : Option Expr := Expr.ofJsonWithin? j.depth j

/-! ## Statements -/

def InsertSource.toJson : InsertSource → Json
  | .list values => Json.tagged "List" (Json.ofList Expr.toJson values)
  | .query q => Json.tagged "Query" q.toJson

def InsertSource.ofJson? (j : Json) : Option InsertSource := do
  match ← Json.variant? j with
  | ("List", some content) => .list <$> Json.list? Expr.ofJson? content
  | ("Query", some content) => .query <$> Query.ofJson? Expr.ofJson? content
  | _ => none

def Insert.toJson (i : Insert) : Json :=
  .object [("table", .string i.table), ("columns", Json.ofOption (Json.ofList .string) i.columns),
    ("values", i.source.toJson)]

def Insert.ofJson? (j : Json) : Option Insert := do
  let fields ← Json.record? ["table", "columns", "values"] 3 j
  return {
    table := ← Json.field? fields "table" Json.string?
    columns := ← Json.optional? fields "columns" (Json.list? Json.string?)
    source := ← Json.field? fields "values" InsertSource.ofJson? }

def Update.toJson (u : Update) : Json :=
  .object [("table", .string u.table), ("alias", Json.ofOption .string u.aliasName),
    ("assignments", Json.ofList (fun a => .array [.string a.1, a.2.toJson]) u.assignments),
    ("where_clause", Json.ofOption Expr.toJson u.condition)]

def Update.ofJson? (j : Json) : Option Update := do
  let fields ← Json.record? ["table", "alias", "assignments", "where_clause"] 4 j
  return {
    table := ← Json.field? fields "table" Json.string?
    aliasName := ← Json.optional? fields "alias" Json.string?
    assignments := ←
      Json.field? fields "assignments" (Json.list? (Json.pair? Json.string? Expr.ofJson?))
    condition := ← Json.optional? fields "where_clause" Expr.ofJson? }

def Delete.toJson (d : Delete) : Json :=
  .object [("table", .string d.table), ("where_clause", Json.ofOption Expr.toJson d.condition)]

def Delete.ofJson? (j : Json) : Option Delete := do
  let fields ← Json.record? ["table", "where_clause"] 2 j
  return {
    table := ← Json.field? fields "table" Json.string?
    condition := ← Json.optional? fields "where_clause" Expr.ofJson? }

def LockMode.toJson : LockMode → Json
  | .rowShare => .string "RowShare"
  | .rowExclusive => .string "RowExclusive"
  | .shareUpdate => .string "ShareUpdate"
  | .share => .string "Share"
  | .shareRowExclusive => .string "ShareRowExclusive"
  | .exclusive => .string "Exclusive"

def LockMode.ofJson? : Json → Option LockMode :=
  Json.enum? [("RowShare", .rowShare), ("RowExclusive", .rowExclusive),
    ("ShareUpdate", .shareUpdate), ("Share", .share), ("ShareRowExclusive", .shareRowExclusive),
    ("Exclusive", .exclusive)]

def Lock.toJson (l : Lock) : Json :=
  .object [("tables", Json.ofList .string l.tables), ("mode", l.mode.toJson),
    ("nowait", .bool l.nowait)]

def Lock.ofJson? (j : Json) : Option Lock := do
  let fields ← Json.record? ["tables", "mode", "nowait"] 3 j
  return {
    tables := ← Json.field? fields "tables" (Json.list? Json.string?)
    mode := ← Json.field? fields "mode" LockMode.ofJson?
    nowait := ← Json.field? fields "nowait" Json.bool? }

def Transaction.toJson (t : Transaction) : Json :=
  .object [("statement", .string t.statement), ("comment", Json.ofOption .string t.comment),
    ("read_only", .bool t.readOnly)]

def Transaction.ofJson? (j : Json) : Option Transaction := do
  let fields ← Json.record? ["statement", "comment", "read_only"] 3 j
  return {
    statement := ← Json.field? fields "statement" Json.string?
    comment := ← Json.optional? fields "comment" Json.string?
    readOnly := ← Json.field? fields "read_only" Json.bool? }

def Statement.toJson : Statement → Json
  | .query q => Json.tagged "Query" q.toJson
  | .insert i => Json.tagged "Insert" i.toJson
  | .update u => Json.tagged "Update" u.toJson
  | .delete d => Json.tagged "Delete" d.toJson
  | .lock l => Json.tagged "LockTable" l.toJson
  | .transaction t => Json.tagged "Transaction" t.toJson

def Statement.ofJson? (j : Json) : Option Statement := do
  match ← Json.variant? j with
  | ("Query", some content) => .query <$> Query.ofJson? Expr.ofJson? content
  | ("Insert", some content) => .insert <$> Insert.ofJson? content
  | ("Update", some content) => .update <$> Update.ofJson? content
  | ("Delete", some content) => .delete <$> Delete.ofJson? content
  | ("LockTable", some content) => .lock <$> Lock.ofJson? content
  | ("Transaction", some content) => .transaction <$> Transaction.ofJson? content
  | _ => none

end SqlFront
