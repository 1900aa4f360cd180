import SqlFront.Parse.Query
import SqlFront.Tree.Statement

/-!
# The grammar of statements

Statements are set apart by semicolons. Words such as LOCK, COMMIT or EXIT are names that mean
something only where a statement starts.
-/

namespace SqlFront

namespace Grammar

open Reading

variable (registry : Registry)

/-- Pass a semicolon, or stand at the end. -/
def terminator : Reading Unit := do
  unless ← acceptSymbol .semicolon do
    unless (← kind) = .eof do unexpected .terminator

/-- The list of columns of an INSERT, if there is one and not a query between parentheses. -/
def insertColumns? : Reading (Option (List String)) := do
  if (← kind) = .symbol .leftParen then
    if (← nextKind) = .keyword .select then return none
    advance
    let columns ← commaList dottedName
    symbol .rightParen
    return some columns
  else return none

/-- The rows of an INSERT: VALUES with a list, or a query with or without parentheses. -/
def insertSource : Reading InsertSource := do
  match ← kind with
  | .keyword .values =>
    advance
    symbol .leftParen
    let values ← expressions (readers registry)
    symbol .rightParen
    return .list values
  | .keyword .select => return .query (← (readers registry).query)
  | .symbol .leftParen => return .query (← enclosedQuery (readers registry))
  | _ => unexpected .rows

/-- An INSERT statement. -/
def insert : Reading Insert := do
  keyword .insert
  keyword .into
  let table ← dottedName
  let columns ← insertColumns?
  let source ← insertSource registry
  return ⟨table, columns, source⟩

/-- An assignment of an UPDATE. -/
def assignment : Reading (String × Expr) := do
  let column ← dottedName
  symbol .equal
  return (column, ← (readers registry).expression 0)

/-- An UPDATE statement with its assignments in the order in which they are written. -/
def updateAsWritten : Reading Update := do
  keyword .update
  let table ← dottedName
  let aliasName ← name?
  keyword .set
  let assignments ← commaList (assignment registry)
  let condition ← clause? (readers registry) .where
  return ⟨table, aliasName, assignments, condition⟩

/-- An UPDATE statement. A column that is assigned twice keeps its place and the last value. -/
def update : Reading Update := do
  let u ← updateAsWritten registry
  return { u with assignments := Update.merge u.assignments }

/-- A DELETE statement. The word FROM may be left out. -/
def delete : Reading Delete := do
  keyword .delete
  discard (acceptKeyword .from)
  let table ← dottedName
  return ⟨table, ← clause? (readers registry) .where⟩

/-- The mode of a LOCK TABLE. -/
def lockMode : Reading LockMode := do
  if ← acceptWord "ROW" then
    if ← acceptWord "SHARE" then return .rowShare
    word "EXCLUSIVE"
    return .rowExclusive
  if ← acceptWord "SHARE" then
    if ← acceptKeyword .update then return .shareUpdate
    if ← acceptWord "ROW" then
      word "EXCLUSIVE"
      return .shareRowExclusive
    return .share
  if ← acceptWord "EXCLUSIVE" then return .exclusive
  unexpected .lockMode

/-- A LOCK TABLE statement. -/
def lock : Reading Lock := do
  word "LOCK"
  word "TABLE"
  let tables ← commaList dottedName
  keyword .in
  let mode ← lockMode
  word "MODE"
  return ⟨tables, mode, ← acceptWord "NOWAIT"⟩

/-- The word that ends a transaction. -/
def ending : Reading Transaction := do
  if ← acceptWord "COMMIT" then return Transaction.commit
  word "ROLLBACK"
  return Transaction.rollback

/-- The comment of a COMMIT or ROLLBACK, if there is one. -/
def comment? : Reading (Option String) := do
  if ← acceptWord "COMMENT" then
    match ← kind with
    | .string text => advance; return some text
    | _ => unexpected .comment
  else return none

/-- A COMMIT or ROLLBACK. The word WORK leaves no trace. -/
def endTransaction : Reading Transaction := do
  let transaction ← ending
  discard (acceptWord "WORK")
  return { transaction with comment := ← comment? }

/-- A SET TRANSACTION statement. -/
def setTransaction : Reading Transaction := do
  keyword .set
  word "TRANSACTION"
  word "READ"
  if ← acceptWord "ONLY" then return Transaction.set true
  word "WRITE"
  return Transaction.set false

/-- A statement, told by its first word. -/
def statement : Reading Statement := do
  let first ← kind
  match first with
  | .keyword .select => return .query (← (readers registry).query)
  | .keyword .insert => return .insert (← insert registry)
  | .keyword .update => return .update (← update registry)
  | .keyword .delete => return .delete (← delete registry)
  | .keyword .set => return .transaction (← setTransaction)
  | _ =>
    if first.isWord "LOCK" then return .lock (← lock)
    else if first.isWord "COMMIT" || first.isWord "ROLLBACK" then
      return .transaction (← endTransaction)
    else unexpected .statement

/-- Pass the semicolons of empty statements. -/
def emptyStatements : Reading Unit :=
  iterate (fun _ => do
    if ← acceptSymbol .semicolon then return .yield () else return .done ()) ()

/-- The next statement with its semicolon. There is none at the end of the input, nor from an EXIT
    or QUIT on, which passes everything behind it. Empty statements are skipped. -/
def statement? : Reading (Option Statement) := do
  emptyStatements
  let first ← kind
  if first = .eof then return none
  if first.isWord "EXIT" || first.isWord "QUIT" then
    toEnd
    return none
  let statement ← statement registry
  terminator
  return some statement

/-- All statements that are left. -/
def statements : Reading (List Statement) :=
  iterate (fun done => do
    match ← statement? registry with
    | some statement => return .yield (done ++ [statement])
    | none => return .done done) []

/-- A single expression up to a semicolon or the end. A WHERE before it is skipped. -/
def condition : Reading Expr := do
  discard (acceptKeyword .where)
  let e ← (readers registry).expression 0
  terminator
  return e

end Grammar

end SqlFront
