import SqlFront.Render.Expr

/-!
# Select items named by their text

A select item is named by the text of its expression. Only columns, and calls over a single column,
have a name with parts: `SUM(t.a)` has table `t` and column `a`.
-/

namespace SqlFront

/-- Whether an expression is an operation whose only operand is a column. -/
def Expr.isOverColumn : Expr → Bool
  | .operation ⟨_, [operand], _⟩ => operand.isColumn
  | _ => false

/-- The item for an expression. If its text calls a registered function, the function is recorded. -/
def SelectItem.ofExpr (r : Registry) (e : Expr) : SelectItem Expr :=
  match e with
  | .constant ⟨.column, name⟩ => SelectItem.column name
  | e =>
    let text := e.render r
    let function := r.call? text
    let name :=
      if function.isSome && e.isOverColumn then QualifiedName.ofText text .column
      else QualifiedName.whole text
    ⟨name, some e, function⟩

end SqlFront
