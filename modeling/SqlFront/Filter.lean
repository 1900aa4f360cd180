import SqlFront.Eval.Evaluate
import SqlFront.Parse.Statement

/-!
# Conditions as text

A condition is read from its text and evaluated over a row.
-/

namespace SqlFront

/-- Why a text says nothing about a row. -/
inductive FilterError where
  /-- The text is no condition. -/
  | unread (cause : ReadError)
  /-- The condition has no answer for the row. -/
  | unanswered (cause : EvalError)
  deriving DecidableEq, Repr

/-- The wording of the error is that of its cause. -/
def FilterError.message : FilterError → String
  | .unread cause => cause.message
  | .unanswered cause => cause.message

/-- Read a single expression when only the aggregates are registered. -/
def Expr.ofText (text : String) : Except ReadError Expr :=
  (Grammar.condition Registry.builtin (Cursor.ofText text)).1

/-- Whether the condition that a text states holds of a row. -/
def Row.satisfies (row : Row) (text : String) : Except FilterError Bool :=
  match Expr.ofText text with
  | .error cause => .error (.unread cause)
  | .ok e =>
    match Eval.condition row e with
    | .error cause => .error (.unanswered cause)
    | .ok holds => .ok holds

end SqlFront
