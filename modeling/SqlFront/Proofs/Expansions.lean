import SqlFront.Proofs.Connectives

/-! # Predicates and their expansions

BETWEEN stands for two comparisons and IN for a disjunction of equalities. Main statement: they give
the results of these, and every negated predicate gives the results of NOT over the plain one,
errors included.
-/

namespace SqlFront

namespace Predicate

/-- The predicate that holds where the given one does not, if it has an operator of its own. Less
    and greater or equal are no such pair: neither holds of an undefined difference. -/
def opposite? : Predicate → Option Predicate
  | .compare .equal => some (.compare .notEqual)
  | .between false => some (.between true)
  | .like false => some (.like true)
  | .membership false => some (.membership true)
  | .nullTest false => some (.nullTest true)
  | _ => none

/-- The operands are so many that no error of the predicate names its operator. -/
def Takes (es : List Expr) : Predicate → Prop
  | .between _ => ∃ x low high, es = [x, low, high]
  | .membership _ => es ≠ []
  | .compare _ | .like _ | .nullTest _ | .unsupported => True

/-- The operators of predicates are in upper case, join no conditions, and have one meaning each. -/
theorem table_entry : ∀ entry ∈ table, Text.upper entry.1 = entry.1 ∧
    Connective.of? entry.1 = none ∧ of? entry.1 = some entry.2 := by
  decide

end Predicate

namespace Eval

variable {row : Row} {es : List Expr}

theorem condition_predicate (operator : String) (predicate : Predicate)
    (h : (operator, predicate) ∈ Predicate.table) (row : Row) (es : List Expr) :
    condition row (.applied operator es) = test row operator es predicate := by
  obtain ⟨hupper, hconnective, hpredicate⟩ := Predicate.table_entry _ h
  simp only [Expr.applied, condition, hupper, hconnective, hpredicate]

theorem condition_comparison (operator : String) (comparison : Comparison)
    (h : (operator, .compare comparison) ∈ Predicate.table) (row : Row) (left right : Expr) :
    condition row (.binary operator left right) =
      (comparePair row left right).map comparison.holds := by
  change condition row (.applied operator [left, right]) = _
  rw [condition_predicate operator _ h, test, compare]
  cases comparePair row left right <;> rfl

theorem condition_equal (row : Row) (x y : Expr) :
    condition row (x.equal y) = (comparePair row x y).map (· == 0) :=
  condition_comparison Operator.equal .equal (by decide) row x y

/-! ## Negated predicates -/

theorem bind_negated (result : Except EvalError Bool) :
    (result >>= fun b => pure (b != true)) = (result >>= fun b => pure (b != false)).map (!·) := by
  cases result with
  | error cause => rfl
  | ok b => cases b <;> rfl

theorem test_opposite {predicate opposite : Predicate} (h : predicate.opposite? = some opposite)
    (hes : predicate.Takes es) (operator operator' : String) :
    test row operator' es opposite = (test row operator es predicate).map (!·) := by
  match predicate, h with
  | .compare .equal, h =>
    cases h
    rw [test, test]
    cases compare row es <;> rfl
  | .between false, h =>
    cases h
    obtain ⟨x, low, high, rfl⟩ := hes
    rw [test, test]
    cases comparePair row x low with
    | error cause => rfl
    | ok above =>
      cases comparePair row x high with
      | error cause => rfl
      | ok below => exact bind_negated (.ok (above ≥ 0 && below ≤ 0))
  | .like false, h =>
    cases h
    exact bind_negated (like row es)
  | .membership false, h =>
    cases h
    cases es with
    | nil => exact absurd rfl hes
    | cons e candidates => exact bind_negated (memberOf row e candidates)
  | .nullTest false, h =>
    cases h
    exact bind_negated (isNullConstant es)

theorem condition_opposite {operator operator' : String} (predicate : Predicate)
    {opposite : Predicate} (hplain : (operator, predicate) ∈ Predicate.table)
    (hopposite : predicate.opposite? = some opposite)
    (hnegated : (operator', opposite) ∈ Predicate.table) (hes : predicate.Takes es) :
    condition row (.applied operator' es) = condition row (Expr.applied operator es).negate := by
  rw [condition_negate, condition_predicate _ _ hplain, condition_predicate _ _ hnegated,
    test_opposite hopposite hes]

/-! ## Expansions -/

theorem condition_between (row : Row) (x low high : Expr) :
    condition row (x.between low high) =
      condition row ((x.greaterEqual low).and (x.lessEqual high)) := by
  have hbetween : condition row (x.between low high) =
      test row Operator.between [x, low, high] (.between false) :=
    condition_predicate _ _ (by decide) row _
  have hlow : condition row (x.greaterEqual low) = (comparePair row x low).map (decide <| · ≥ 0) :=
    condition_comparison Operator.greaterEqual .greaterEqual (by decide) row x low
  have hhigh : condition row (x.lessEqual high) = (comparePair row x high).map (decide <| · ≤ 0) :=
    condition_comparison Operator.lessEqual .lessEqual (by decide) row x high
  have hand : condition row ((x.greaterEqual low).and (x.lessEqual high)) =
      everyHolds row [x.greaterEqual low, x.lessEqual high] := condition_and row _
  rw [hbetween, hand, test, everyHolds, everyHolds, everyHolds, hlow, hhigh]
  cases comparePair row x low with
  | error cause => rfl
  | ok above =>
    cases comparePair row x high with
    | error cause => rfl
    | ok below =>
      apply congrArg Except.ok
      rw [Bool.bne_false, Bool.and_true]

theorem memberOf_eq (row : Row) (x : Expr) (list : List Expr) :
    memberOf row x list = someHolds row (list.map x.equal) := by
  induction list with
  | nil => rfl
  | cons candidate rest ih =>
    rw [memberOf, List.map_cons, someHolds, condition_equal, ih]
    cases comparePair row x candidate <;> rfl

theorem condition_isIn (row : Row) (x : Expr) (list : List Expr) :
    condition row (x.isIn list) = memberOf row x list := by
  rw [Expr.isIn, condition_predicate Operator.isIn (.membership false) (by decide), test]
  cases memberOf row x list with
  | error cause => rfl
  | ok found => exact congrArg Except.ok (Bool.bne_false found)

/-- BETWEEN gives the result of two comparisons joined by AND, and IN that of a disjunction of
    equalities. Operators for unlike values and negated predicates give that of NOT over the plain
    ones. Errors are results here, and so is what undefined differences come to. -/
theorem predicates_expand (row : Row) (x low high pattern : Expr) (list : List Expr) :
    condition row (x.between low high) =
      condition row ((x.greaterEqual low).and (x.lessEqual high)) ∧
    condition row (x.isIn list) = condition row (.applied Operator.or (list.map x.equal)) ∧
    (∀ y, condition row (x.isIn [y]) = condition row (x.equal y)) ∧
    (∀ y, condition row (x.notEqual y) = condition row (x.equal y).negate) ∧
    (∀ y, condition row (.binary Operator.lessGreater x y) = condition row (x.equal y).negate) ∧
    condition row (.applied Operator.notBetween [x, low, high]) =
      condition row (x.between low high).negate ∧
    condition row (.applied Operator.notIn (x :: list)) = condition row (x.isIn list).negate ∧
    condition row (.binary Operator.notLike x pattern) = condition row (x.like pattern).negate ∧
    condition row x.isNotNull = condition row x.isNull.negate := by
  refine ⟨condition_between row x low high, ?_, ?_, ?_, ?_, ?_, ?_, ?_, ?_⟩
  · rw [condition_isIn, condition_or, memberOf_eq]
  · intro y
    rw [condition_isIn, memberOf, memberOf, condition_equal]
    cases comparePair row x y with
    | error cause => rfl
    | ok d => exact congrArg Except.ok (Bool.or_false _)
  · intro y
    exact condition_opposite (.compare .equal) (by decide) rfl (by decide) trivial
  · intro y
    exact condition_opposite (.compare .equal) (by decide) rfl (by decide) trivial
  · exact condition_opposite (.between false) (by decide) rfl (by decide) ⟨x, low, high, rfl⟩
  · exact condition_opposite (.membership false) (by decide) rfl (by decide) nofun
  · exact condition_opposite (.like false) (by decide) rfl (by decide) trivial
  · exact condition_opposite (.nullTest false) (by decide) rfl (by decide) trivial

end Eval

end SqlFront
