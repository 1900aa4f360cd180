import SqlFront.Tree.Equality

/-!
# Statements

The statements besides SELECT: INSERT, UPDATE, DELETE, LOCK TABLE, and the control of transactions.
-/

namespace SqlFront

/-- The rows that an INSERT adds. -/
inductive InsertSource where
  /-- One row of values. -/
  | list (values : List Expr)
  /-- The rows of a query. -/
  | query (q : Query Expr)
  deriving DecidableEq

/-- An INSERT statement. -/
structure Insert where
  table : String
  columns : Option (List String)
  source : InsertSource
  deriving DecidableEq

/-- An UPDATE statement. -/
structure Update where
  table : String
  aliasName : Option String
  assignments : List (String × Expr)
  condition : Option Expr
  deriving DecidableEq

/-- A DELETE statement. -/
structure Delete where
  table : String
  condition : Option Expr
  deriving DecidableEq

/-- How a table is locked. -/
inductive LockMode where
  | rowShare | rowExclusive | shareUpdate | share | shareRowExclusive | exclusive
  deriving DecidableEq, Repr

/-- The lock mode as it is written. -/
def LockMode.text : LockMode → String
  | .rowShare => "ROW SHARE"
  | .rowExclusive => "ROW EXCLUSIVE"
  | .shareUpdate => "SHARE UPDATE"
  | .share => "SHARE"
  | .shareRowExclusive => "SHARE ROW EXCLUSIVE"
  | .exclusive => "EXCLUSIVE"

/-- A LOCK TABLE statement. -/
structure Lock where
  tables : List String
  mode : LockMode
  nowait : Bool
  deriving DecidableEq, Repr

/-- A COMMIT, ROLLBACK or SET TRANSACTION. -/
structure Transaction where
  statement : String
  comment : Option String
  readOnly : Bool
  deriving DecidableEq, Repr

namespace Transaction

/-- The words that SET TRANSACTION is told by. -/
def setWords : String := "SET TRANSACTION"

/-- The control statement of the given words, which are kept in upper case. -/
def ofWords (words : String) : Transaction :=
  ⟨Text.upper words, none, false⟩

/-- The statement that keeps the changes made. -/
def commit : Transaction := ofWords "COMMIT"

/-- The statement that takes the changes back. -/
def rollback : Transaction := ofWords "ROLLBACK"

/-- The statement that says whether changes may be made. -/
def set (readOnly : Bool) : Transaction := { ofWords setWords with readOnly }

end Transaction

/-- An SQL statement. -/
inductive Statement where
  | query (q : Query Expr)
  | insert (i : Insert)
  | update (u : Update)
  | delete (d : Delete)
  | lock (l : Lock)
  | transaction (t : Transaction)
  deriving DecidableEq

/-- The words that a statement starts with. -/
def Statement.keyword : Statement → String
  | .query _ => "SELECT"
  | .insert _ => "INSERT"
  | .update _ => "UPDATE"
  | .delete _ => "DELETE"
  | .lock _ => "LOCK TABLE"
  | .transaction t => t.statement

/-- Whether a statement is a query. -/
def Statement.isQuery : Statement → Bool
  | .query _ => true
  | _ => false

/-- The expression that an UPDATE assigns to a column. -/
def Update.value? (u : Update) (column : String) : Option Expr :=
  u.assignments.lookup column

/-- Add an assignment. An earlier one to the same column keeps its place and takes the new value. -/
def Update.assign (column : String) (value : Expr) : List (String × Expr) → List (String × Expr)
  | [] => [(column, value)]
  | (c, e) :: rest =>
    if c = column then (c, value) :: rest else (c, e) :: assign column value rest

/-- The assignments made one after the other, each column once. -/
def Update.merge (assignments : List (String × Expr)) : List (String × Expr) :=
  assignments.foldl (fun done (c, e) => Update.assign c e done) []

end SqlFront
