import SqlFront.Proofs.Connectives

/-! # A run of one operator and its nesting

An operation on many operands gives the result of the same operator on two at a time, from the left.
One step makes an operation of the first two operands, and the whole nesting is a run of such steps.
-/

namespace SqlFront

/-- The operator on the last operand and on the others, which are joined two at a time from the
    left. -/
def Operation.nested (operator : String) (first : Expr) (middle : List Expr) (last : Expr) :
    Operation Expr :=
  ⟨operator, [middle.foldl (Expr.binary operator) first, last], false⟩

namespace Eval

variable {β : Type} {row : Row} {operator : String}

/-- A result that stays when the first two operands of several are joined stays when they are
    nested. -/
theorem eq_nested (result : List Expr → β)
    (hstep : ∀ first second rest, rest ≠ [] →
      result (first :: second :: rest) = result (.binary operator first second :: rest))
    (first : Expr) (middle : List Expr) (last : Expr) :
    result (first :: (middle ++ [last])) =
      result (Operation.nested operator first middle last).operands := by
  induction middle generalizing first with
  | nil => rfl
  | cons second rest ih =>
    rw [List.cons_append, hstep _ _ _ (by simp), ih]
    rfl

/-! ## Arithmetic -/

/-- The number that an expression stands for. -/
def number (row : Row) (e : Expr) : Except EvalError Float :=
  value row e >>= asNumber

/-- The result of an operator on a number and the expressions that follow it, one at least. -/
def continued (row : Row) (operator : String) (rest : List Expr) (x : Float) :
    Except EvalError Float :=
  match Arithmetic.of? operator with
  | none => .error (.unknownOperator operator)
  | some meaning => accumulate row meaning x rest

theorem accumulate_nil (row : Row) (meaning : Arithmetic) (x : Float) :
    accumulate row meaning x [] = .ok x := by
  rw [accumulate]

theorem accumulate_cons (row : Row) (meaning : Arithmetic) (x : Float) (e : Expr)
    (rest : List Expr) :
    accumulate row meaning x (e :: rest) =
      number row e >>= fun y => accumulate row meaning (meaning.apply x y) rest := by
  rw [accumulate, number, bind_assoc]

theorem arithmetic_cons_cons (row : Row) (operator : String) (first second : Expr)
    (rest : List Expr) :
    arithmetic row operator (first :: second :: rest) =
      number row first >>= continued row operator (second :: rest) := by
  rw [arithmetic, number, bind_assoc]
  apply bind_congr
  intro v
  apply bind_congr
  intro x
  rw [continued]
  cases Arithmetic.of? operator <;> simp

/-- The number of an operation is its result. -/
theorem number_operation (row : Row) (op : Operation Expr) :
    number row (.operation op) = arithmetic row op.operator op.operands := by
  rw [number, value]
  cases arithmetic row op.operator op.operands <;> rfl

/-- An operation on two operands has its result, or its error, in place of both. -/
theorem arithmetic_join (row : Row) (operator : String) (first second : Expr) {rest : List Expr}
    (hrest : rest ≠ []) :
    arithmetic row operator (first :: second :: rest) =
      arithmetic row operator (.binary operator first second :: rest) := by
  obtain ⟨third, rest, rfl⟩ := List.exists_cons_of_ne_nil hrest
  rw [arithmetic_cons_cons, arithmetic_cons_cons, Expr.binary, number_operation,
    arithmetic_cons_cons, bind_assoc]
  apply bind_congr
  intro x
  rw [continued, continued]
  cases hmeaning : Arithmetic.of? operator with
  | none => rfl
  | some meaning =>
    dsimp only
    rw [accumulate_cons, accumulate_cons row meaning x second [], bind_assoc]
    apply bind_congr
    intro y
    rw [accumulate_nil]
    change _ = continued row operator (third :: rest) (meaning.apply x y)
    rw [continued, hmeaning]

/-! ## Conditions -/

/-- An operator that puts the results of all operands together may do so with the first two
    beforehand. -/
theorem condition_join (together : List Bool → Bool)
    (hoperator : ∀ es call, condition row (.operation ⟨operator, es, call⟩) =
      (es.mapM (condition row)).map together)
    (htogether : ∀ a b bs, together (a :: b :: bs) = together (together [a, b] :: bs))
    (call : Bool) (first second : Expr) (rest : List Expr) :
    condition row (.operation ⟨operator, first :: second :: rest, call⟩) =
      condition row (.operation ⟨operator, .binary operator first second :: rest, call⟩) := by
  rw [hoperator, hoperator, List.mapM_cons, List.mapM_cons, List.mapM_cons, Expr.binary, hoperator,
    List.mapM_cons, List.mapM_cons, List.mapM_nil]
  cases condition row first with
  | error cause => rfl
  | ok a =>
    cases condition row second with
    | error cause => rfl
    | ok b =>
      cases rest.mapM (condition row) with
      | error cause => rfl
      | ok bs => exact congrArg Except.ok (htogether a b bs)

theorem condition_connective_join (h : Text.upper operator = Operator.and ∨
      Text.upper operator = Operator.or) (call : Bool) (first second : Expr) (rest : List Expr) :
    condition row (.operation ⟨operator, first :: second :: rest, call⟩) =
      condition row (.operation ⟨operator, .binary operator first second :: rest, call⟩) := by
  obtain hand | hor := h
  · apply condition_join (List.all · id)
    · intro es call
      rw [condition_every hand, everyHolds_eq]
    · intro a b bs
      simp [Bool.and_assoc]
  · apply condition_join (List.any · id)
    · intro es call
      rw [condition_some hor, someHolds_eq]
    · intro a b bs
      simp [Bool.or_assoc]

/-! ## Nesting -/

/-- An operation on two operands or more gives the same result, or the same error, as the same
    operator on two at a time from the left: in arithmetic and as a value whatever the operator,
    and as a condition for AND and OR. -/
theorem nested_same (row : Row) (operator : String) (call : Bool) (first : Expr)
    (middle : List Expr) (last : Expr) :
    arithmetic row operator (first :: (middle ++ [last])) =
      arithmetic row operator (Operation.nested operator first middle last).operands ∧
    value row (.operation ⟨operator, first :: (middle ++ [last]), call⟩) =
      value row (.operation (Operation.nested operator first middle last)) ∧
    (Text.upper operator = Operator.and ∨ Text.upper operator = Operator.or →
      condition row (.operation ⟨operator, first :: (middle ++ [last]), call⟩) =
        condition row (.operation (Operation.nested operator first middle last))) := by
  have harithmetic := eq_nested (arithmetic row operator)
    (fun first second _ => arithmetic_join row operator first second) first middle last
  refine ⟨harithmetic, ?_, ?_⟩
  · rw [value, harithmetic, Operation.nested, value]
  · intro h
    have hnested := eq_nested (fun es => condition row (.operation ⟨operator, es, call⟩))
      (fun first second rest _ => condition_connective_join h call first second rest)
      first middle last
    rw [hnested, Operation.nested, condition, condition]

/-- The second of three conditions fails, after one that does not hold. -/
theorem nested_same_failing :
    Text.upper "and" = Operator.and ∧
    condition .empty (.operation ⟨"and",
        [.isNull (.number "1"), .equal (.column "a") (.number "1"), .placeholder], false⟩) =
      .error (.unknownColumn "a") ∧
    condition .empty (.operation (.nested "and" (.isNull (.number "1"))
        [.equal (.column "a") (.number "1")] .placeholder)) =
      .error (.unknownColumn "a") := by
  have hupper : Text.upper "and" = Operator.and := by decide
  have hflat : condition .empty (.operation ⟨"and",
      [.isNull (.number "1"), .equal (.column "a") (.number "1"), .placeholder], false⟩) =
        .error (.unknownColumn "a") := rfl
  have hnested := (nested_same .empty "and" false (.isNull (.number "1"))
    [.equal (.column "a") (.number "1")] .placeholder).2.2 (.inl hupper)
  exact ⟨hupper, hflat, hnested.symm.trans hflat⟩

end Eval

end SqlFront
