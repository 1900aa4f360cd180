import SqlFront.Tree.Expr

/-!
# Equality of trees

Two trees are equal if they agree node by node. Main statement: the comparison decides equality of
expressions and queries, so both have decidable equality.
-/

namespace SqlFront

mutual

/-- Whether two expressions are the same tree. -/
def Expr.same : Expr → Expr → Bool
  | .constant a, .constant b => decide (a = b)
  | .operation a, .operation b => sameOperation a b
  | .query a, .query b => sameQuery a b
  | .placeholder, .placeholder => true
  | _, _ => false

def Expr.sameOperation : Operation Expr → Operation Expr → Bool
  | ⟨operator, operands, call⟩, ⟨operator', operands', call'⟩ =>
    decide (operator = operator') && sameList operands operands' && decide (call = call')

def Expr.sameList : List Expr → List Expr → Bool
  | [], [] => true
  | a :: as, b :: bs => Expr.same a b && sameList as bs
  | _, _ => false

def Expr.sameOption : Option Expr → Option Expr → Bool
  | none, none => true
  | some a, some b => Expr.same a b
  | _, _ => false

def Expr.sameItem : SelectItem Expr → SelectItem Expr → Bool
  | ⟨name, expression, function⟩, ⟨name', expression', function'⟩ =>
    decide (name = name') && sameOption expression expression' && decide (function = function')

def Expr.sameItems : List (SelectItem Expr) → List (SelectItem Expr) → Bool
  | [], [] => true
  | a :: as, b :: bs => sameItem a b && sameItems as bs
  | _, _ => false

def Expr.sameGroup : GroupBy Expr → GroupBy Expr → Bool
  | ⟨exprs, having⟩, ⟨exprs', having'⟩ => sameList exprs exprs' && sameOption having having'

def Expr.sameGroupOption : Option (GroupBy Expr) → Option (GroupBy Expr) → Bool
  | none, none => true
  | some a, some b => sameGroup a b
  | _, _ => false

def Expr.sameOperationOption : Option (Operation Expr) → Option (Operation Expr) → Bool
  | none, none => true
  | some a, some b => sameOperation a b
  | _, _ => false

def Expr.sameOrder : OrderBy Expr → OrderBy Expr → Bool
  | ⟨expr, ascending⟩, ⟨expr', ascending'⟩ => Expr.same expr expr' && decide (ascending = ascending')

def Expr.sameOrders : List (OrderBy Expr) → List (OrderBy Expr) → Bool
  | [], [] => true
  | a :: as, b :: bs => sameOrder a b && sameOrders as bs
  | _, _ => false

def Expr.sameQuery : Query Expr → Query Expr → Bool
  | ⟨distinct, items, sources, condition, group, set, order, lock⟩,
    ⟨distinct', items', sources', condition', group', set', order', lock'⟩ =>
    decide (distinct = distinct') && sameItems items items' && decide (sources = sources')
      && sameOption condition condition' && sameGroupOption group group'
      && sameOperationOption set set' && sameOrders order order' && decide (lock = lock')

end

namespace Expr

mutual

theorem same_iff (a b : Expr) : Expr.same a b = true ↔ a = b := by
  cases a <;> cases b <;> simp only [Expr.same, reduceCtorEq, Bool.false_eq_true,
    Expr.constant.injEq, Expr.operation.injEq, Expr.query.injEq, decide_eq_true_eq]
  · exact sameOperation_iff _ _
  · exact sameQuery_iff _ _

theorem sameOperation_iff (a b : Operation Expr) : sameOperation a b = true ↔ a = b := by
  obtain ⟨operator, operands, call⟩ := a
  obtain ⟨operator', operands', call'⟩ := b
  simp only [sameOperation, Bool.and_eq_true, decide_eq_true_eq, Operation.mk.injEq,
    sameList_iff operands operands', and_assoc]

theorem sameList_iff (as bs : List Expr) : sameList as bs = true ↔ as = bs := by
  cases as with
  | nil => cases bs <;> simp [sameList]
  | cons a as =>
    cases bs with
    | nil => simp [sameList]
    | cons b bs => simp [sameList, same_iff a b, sameList_iff as bs]

theorem sameOption_iff (a b : Option Expr) : sameOption a b = true ↔ a = b := by
  cases a with
  | none => cases b <;> simp [sameOption]
  | some a =>
    cases b with
    | none => simp [sameOption]
    | some b => simp [sameOption, same_iff a b]

theorem sameItem_iff (a b : SelectItem Expr) : sameItem a b = true ↔ a = b := by
  obtain ⟨name, expression, function⟩ := a
  obtain ⟨name', expression', function'⟩ := b
  simp only [sameItem, Bool.and_eq_true, decide_eq_true_eq, SelectItem.mk.injEq,
    sameOption_iff expression expression', and_assoc]

theorem sameItems_iff (as bs : List (SelectItem Expr)) : sameItems as bs = true ↔ as = bs := by
  cases as with
  | nil => cases bs <;> simp [sameItems]
  | cons a as =>
    cases bs with
    | nil => simp [sameItems]
    | cons b bs => simp [sameItems, sameItem_iff a b, sameItems_iff as bs]

theorem sameGroup_iff (a b : GroupBy Expr) : sameGroup a b = true ↔ a = b := by
  obtain ⟨exprs, having⟩ := a
  obtain ⟨exprs', having'⟩ := b
  simp [sameGroup, sameList_iff exprs exprs', sameOption_iff having having']

theorem sameGroupOption_iff (a b : Option (GroupBy Expr)) :
    sameGroupOption a b = true ↔ a = b := by
  cases a with
  | none => cases b <;> simp [sameGroupOption]
  | some a =>
    cases b with
    | none => simp [sameGroupOption]
    | some b => simp [sameGroupOption, sameGroup_iff a b]

theorem sameOperationOption_iff (a b : Option (Operation Expr)) :
    sameOperationOption a b = true ↔ a = b := by
  cases a with
  | none => cases b <;> simp [sameOperationOption]
  | some a =>
    cases b with
    | none => simp [sameOperationOption]
    | some b => simp [sameOperationOption, sameOperation_iff a b]

theorem sameOrder_iff (a b : OrderBy Expr) : sameOrder a b = true ↔ a = b := by
  obtain ⟨expr, ascending⟩ := a
  obtain ⟨expr', ascending'⟩ := b
  simp [sameOrder, same_iff expr expr']

theorem sameOrders_iff (as bs : List (OrderBy Expr)) : sameOrders as bs = true ↔ as = bs := by
  cases as with
  | nil => cases bs <;> simp [sameOrders]
  | cons a as =>
    cases bs with
    | nil => simp [sameOrders]
    | cons b bs => simp [sameOrders, sameOrder_iff a b, sameOrders_iff as bs]

theorem sameQuery_iff (a b : Query Expr) : sameQuery a b = true ↔ a = b := by
  obtain ⟨distinct, items, sources, condition, group, set, order, lock⟩ := a
  obtain ⟨distinct', items', sources', condition', group', set', order', lock'⟩ := b
  simp only [sameQuery, Bool.and_eq_true, decide_eq_true_eq, Query.mk.injEq,
    sameItems_iff items items', sameOption_iff condition condition',
    sameGroupOption_iff group group', sameOperationOption_iff set set', sameOrders_iff order order',
    and_assoc]

end

end Expr

instance : DecidableEq Expr := fun a b => decidable_of_iff _ (Expr.same_iff a b)
instance : DecidableEq (Query Expr) := fun a b => decidable_of_iff _ (Expr.sameQuery_iff a b)

end SqlFront
