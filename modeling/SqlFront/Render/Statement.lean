import SqlFront.Render.Expr
import SqlFront.Tree.Statement

/-!
# Statements as text

The canonical text of every kind of statement.
-/

namespace SqlFront

/-- The columns of an INSERT. An empty list of columns is left out. -/
def Insert.renderColumns : Option (List String) → String
  | some (c :: cs) => "(" ++ Text.join "," (c :: cs) ++ ")"
  | _ => ""

/-- The rows of an INSERT behind what precedes them. -/
def InsertSource.render (r : Registry) : InsertSource → String
  | .list values => " values (" ++ Text.join ", " (values.map (Expr.render r)) ++ ")"
  | .query q => " " ++ q.render r

/-- The text of an INSERT. -/
def Insert.render (r : Registry) (i : Insert) : String :=
  "insert into " ++ i.table ++ renderColumns i.columns ++ i.source.render r

/-- The text of an assignment. -/
def Update.renderAssignment (r : Registry) (a : String × Expr) : String :=
  a.1 ++ "=" ++ a.2.render r

/-- The text of an UPDATE. -/
def Update.render (r : Registry) (u : Update) : String :=
  "update " ++ u.table ++ QualifiedName.aliasText u.aliasName ++ " set "
    ++ Text.join ", " (u.assignments.map (renderAssignment r))
    ++ Expr.renderClause r " where " u.condition

/-- The text of a DELETE. -/
def Delete.render (r : Registry) (d : Delete) : String :=
  "delete from " ++ d.table ++ Expr.renderClause r " where " d.condition

/-- The text of a LOCK TABLE. -/
def Lock.render (l : Lock) : String :=
  "lock table " ++ Text.join ", " l.tables ++ " in " ++ l.mode.text ++ " mode"
    ++ (if l.nowait then " nowait" else "")

/-- The comment of a COMMIT or ROLLBACK behind what precedes it. -/
def Transaction.renderComment : Option String → String
  | some comment => " comment " ++ Constant.render ⟨.string, comment⟩
  | none => ""

/-- The text of a COMMIT, ROLLBACK or SET TRANSACTION. -/
def Transaction.render (t : Transaction) : String :=
  let access :=
    if t.statement = Transaction.setWords then
      if t.readOnly then " read only" else " read write"
    else ""
  Text.lower t.statement ++ access ++ renderComment t.comment

/-- The text of a statement. -/
def Statement.render (r : Registry) : Statement → String
  | .query q => q.render r
  | .insert i => i.render r
  | .update u => u.render r
  | .delete d => d.render r
  | .lock l => l.render
  | .transaction t => t.render

/-- The text of a statement when only the aggregates are registered. -/
def Statement.text (s : Statement) : String := s.render Registry.builtin

end SqlFront
