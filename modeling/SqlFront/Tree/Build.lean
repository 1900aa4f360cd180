import SqlFront.Tree.Statement

/-!
# Building trees by hand

A tree that a program puts together may lack a part that SQL text always has. The functions here
hand a tree out only if nothing is missing, and otherwise say what is.
-/

namespace SqlFront

/-- What is wrong with a tree that is being built or asked for a part. -/
inductive BuildError where
  /-- There is no operand of that index. -/
  | operandOutOfBounds (operator : String) (index size : Nat)
  /-- An operation that is no call has no operands. -/
  | noOperands (operator : String)
  /-- A query selects nothing. -/
  | missingSelect
  /-- A query has no tables. -/
  | missingFrom
  /-- An UPDATE assigns nothing. -/
  | noAssignments (table : String)
  /-- An INSERT adds nothing. -/
  | missingValues (table : String)
  /-- A LOCK names no tables. -/
  | noTables
  deriving DecidableEq, Repr

/-- The wording of the error. -/
def BuildError.message : BuildError → String
  | .operandOutOfBounds operator index size =>
    "operand index " ++ toString index ++ " out of bounds for \x60" ++ operator ++ "\x60 with "
      ++ toString size ++ " operand(s)"
  | .noOperands operator => "operation \x60" ++ operator ++ "\x60 requires at least one operand"
  | .missingSelect => "query has no select items"
  | .missingFrom => "query has no from items"
  | .noAssignments table => "update of \x60" ++ table ++ "\x60 has no assignments"
  | .missingValues table => "insert into \x60" ++ table ++ "\x60 has no values"
  | .noTables => "lock statement has no tables"

namespace Operation

variable {ε : Type}

/-- An operation that is no call and has operands. -/
def build (operator : String) (operands : List ε) : Except BuildError (Operation ε) :=
  if operands.isEmpty then .error (.noOperands operator) else .ok ⟨operator, operands, false⟩

/-- The operand of the given index, counted from zero. -/
def operand (op : Operation ε) (index : Nat) : Except BuildError ε :=
  match op.operands[index]? with
  | some e => .ok e
  | none => .error (.operandOutOfBounds op.operator index op.operands.length)

end Operation

namespace Query

/-- The query with nothing in it yet. -/
def blank : Query Expr :=
  ⟨false, [], [], none, none, none, [], false⟩

/-- The query joined with another one by a set operator. -/
def withSetOperation (q : Query Expr) (operator : String) (other : Query Expr) : Query Expr :=
  { q with setOperation := some ⟨Text.upper operator, [.query other], false⟩ }

/-- The query, if it selects something from something. -/
def build (q : Query Expr) : Except BuildError (Query Expr) :=
  if q.items.isEmpty then .error .missingSelect
  else if q.sources.isEmpty then .error .missingFrom
  else .ok q

end Query

/-- An INSERT, if it adds values or the rows of a query. -/
def Insert.build (table : String) (columns : Option (List String)) (source : Option InsertSource) :
    Except BuildError Insert :=
  match source with
  | none | some (.list []) => .error (.missingValues table)
  | some source => .ok ⟨table, columns, source⟩

/-- An UPDATE by assignments in the order in which they are made, if there is one. -/
def Update.build (table : String) (aliasName : Option String) (assignments : List (String × Expr))
    (condition : Option Expr) : Except BuildError Update :=
  match Update.merge assignments with
  | [] => .error (.noAssignments table)
  | done => .ok ⟨table, aliasName, done, condition⟩

/-- A LOCK, if it names a table. -/
def Lock.build (tables : List String) (mode : LockMode) (nowait : Bool) : Except BuildError Lock :=
  if tables.isEmpty then .error .noTables else .ok ⟨tables, mode, nowait⟩

end SqlFront
