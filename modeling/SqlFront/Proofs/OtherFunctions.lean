import SqlFront.Proofs.Clauses
import SqlFront.Render.Statement

/-! # The same text with other functions

An operation is written as a call if a function has the name of its operator, so what is written for a
tree could change with the functions that are known. Main statement: for a tree that has been read it
does not, as long as no function is named like an operator; which functions the tree calls does not
matter, nor where it has been read.
-/

namespace SqlFront

variable {r r₁ r₂ : Registry}

/-- The same operators are names of functions. -/
def Registry.AgreeOnOperators (r₁ r₂ : Registry) : Prop :=
  ∀ o ∈ Operator.texts, r₁.isFunction o = r₂.isFunction o

theorem Registry.SparesOperators.agree (h₁ : r₁.SparesOperators) (h₂ : r₂.SparesOperators) :
    r₁.AgreeOnOperators r₂ := by
  intro o ho
  rw [h₁.isFunction ho, h₂.isFunction ho]

theorem Registry.builtin_sparesOperators : Registry.builtin.SparesOperators := by
  unfold Registry.SparesOperators
  decide

/-! ## Expressions and queries -/

namespace Operator

/-- The operators whose operations stand between parentheses. -/
def bracketed : List String :=
  comparisons ++ likes ++ ranges ++ memberships ++ nullTests ++ chains ++ [not, minus, list, exist]

theorem bracketed_subset : ∀ o ∈ bracketed, o ∈ texts := by decide

end Operator

namespace Operation

/-- An operation calls a function, stands between parentheses, or is a quantifier. -/
theorem Form.operator_cases {op : Operation Expr} (h : op.Form r) :
    (op.call = true ∧ ∃ name, Token.IsName name ∧ r.isFunction name = true ∧
      op.operator = Text.upper name) ∨
      op.operator ∈ Operator.bracketed ∨ op.operator ∈ Operator.quantifiers := by
  cases h with
  | call hname harity => exact .inl ⟨rfl, _, hname, by simp [Registry.isFunction, harity], rfl⟩
  | not | sign | list | «exists» => exact .inr (.inl (by simp [Operator.bracketed]))
  | comparison ho | like ho | range ho | membership ho | nullTest ho | chain ho =>
    exact .inr (.inl (by simp [Operator.bracketed, ho]))
  | quantifier ho => exact .inr (.inr ho)

/-- What is not marked as a call has the name of an operator. -/
theorem Form.operator_mem {op : Operation Expr} (h : op.Form r) :
    op.call = true ∨ op.operator ∈ Operator.texts := by
  obtain ⟨hcall, -⟩ | ho | ho := h.operator_cases
  · exact .inl hcall
  · exact .inr (Operator.bracketed_subset _ ho)
  · exact .inr (Operator.quantifiers_subset _ ho)

theorem layout_congr {op : Operation Expr}
    (h : op.call = true ∨ r₁.isFunction op.operator = r₂.isFunction op.operator)
    (texts : List String) : op.layout r₁ texts = op.layout r₂ texts := by
  have hshape : OperationShape.of r₁ op = OperationShape.of r₂ op := by
    obtain h | h := h <;> simp [OperationShape.of, h]
  simp only [Operation.layout, hshape]

end Operation

namespace Expr

theorem renderClause_congr {condition : Option Expr} (word : String)
    (h : ∀ e ∈ condition, e.render r₁ = e.render r₂) :
    renderClause r₁ word condition = renderClause r₂ word condition := by
  cases condition with
  | none => rfl
  | some e => rw [renderClause, renderClause, h e rfl]

theorem renderItem_congr {item : SelectItem Expr}
    (h : ∀ e ∈ item.expression, e.render r₁ = e.render r₂) :
    renderItem r₁ item = renderItem r₂ item := by
  obtain ⟨name, expression, function⟩ := item
  cases expression with
  | none => rfl
  | some e => simp only [renderItem, renderShown, h e rfl]

/-- A query is written alike if its parts are. -/
theorem renderQuery_congr {q : Query Expr} (h : ∀ e ∈ q.parts, e.render r₁ = e.render r₂) :
    q.render r₁ = q.render r₂ := by
  have hitems : q.items.map (renderItem r₁) = q.items.map (renderItem r₂) :=
    List.map_congr_left fun i hi => renderItem_congr fun e he =>
      h e (Query.mem_parts.mpr (.inl ⟨i, hi, he⟩))
  have hwhere : renderClause r₁ " where " q.condition = renderClause r₂ " where " q.condition :=
    renderClause_congr _ fun e he => h e (Query.mem_parts.mpr (.inr (.inl he)))
  have hgroup : renderGroupClause r₁ q.groupBy = renderGroupClause r₂ q.groupBy := by
    cases hg : q.groupBy with
    | none => rfl
    | some g =>
      obtain ⟨exprs, having⟩ := g
      have hpart (e : Expr) (he : e ∈ exprs ∨ e ∈ having) : e.render r₁ = e.render r₂ :=
        h e (Query.mem_parts.mpr (.inr (.inr (.inl ⟨_, hg, he⟩))))
      have hexprs := List.map_congr_left fun e he => hpart e (.inl he)
      have hhaving := renderClause_congr " having " fun e he => hpart e (.inr he)
      simp only [renderGroupClause, renderGroup, renderList_eq, hexprs, hhaving]
  have hset : renderSetClause r₁ q.setOperation = renderSetClause r₂ q.setOperation := by
    cases hop : q.setOperation with
    | none => rfl
    | some op =>
      simp only [renderSetClause, renderList_eq, List.map_congr_left fun e he =>
        h e (Query.mem_parts.mpr (.inr (.inr (.inr (.inl ⟨op, hop, he⟩)))))]
  have horder : q.orderBy.map (renderOrder r₁) = q.orderBy.map (renderOrder r₂) :=
    List.map_congr_left fun entry hentry => by
      have hpart := h entry.expr
        (Query.mem_parts.mpr (.inr (.inr (.inr (.inr ⟨entry, hentry, rfl⟩)))))
      obtain ⟨e, ascending⟩ := entry
      rw [renderOrder, renderOrder, hpart]
  simp only [Grammar.renderQuery_eq, Grammar.renderItems_eq, Grammar.renderOrders_eq, hitems, hwhere,
    hgroup, hset, horder]

end Expr

/-- An expression that has been read is written alike, in its canonical form and with its operators in
    front. -/
theorem Expr.Formed.render_congr (hr : r₁.AgreeOnOperators r₂) {e : Expr} (h : e.Formed r) :
    e.render r₁ = e.render r₂ ∧ e.polish r₁ = e.polish r₂ := by
  induction h with
  | constant | placeholder => exact ⟨rfl, rfl⟩
  | @operation op hform _ ih =>
    have hfunction := hform.operator_mem.imp id (hr op.operator)
    have hpolish (es : List Expr) (hes : ∀ e ∈ es, e ∈ op.operands) :
        Expr.polishList r₁ es = Expr.polishList r₂ es := by
      induction es with
      | nil => rfl
      | cons e es ihes =>
        rw [Expr.polishList, Expr.polishList, (ih e (hes e (List.mem_cons_self ..))).2,
          ihes fun e he => hes e (List.mem_cons_of_mem _ he)]
    constructor
    · rw [Expr.render_operation, Expr.render_operation, Operation.layout_congr hfunction,
        List.map_congr_left fun e he => (ih e he).1]
    · rw [Expr.polish, Expr.polish, hpolish _ fun _ he => he]
  | query _ _ ih =>
    have hquery := Expr.renderQuery_congr fun e he => (ih e he).1
    constructor
    · rw [Expr.render_query, Expr.render_query, hquery]
    · rw [Expr.polish, Expr.polish, Expr.render_query, Expr.render_query, hquery]

theorem Expr.Formed.renderQuery_congr (hr : r₁.AgreeOnOperators r₂) {q : Query Expr}
    (h : (Expr.query q).Formed r) : q.render r₁ = q.render r₂ := by
  cases h with
  | query _ hparts => exact Expr.renderQuery_congr fun e he => ((hparts e he).render_congr hr).1

/-! ## Statements -/

theorem InsertSource.Formed.render_congr (hr : r₁.AgreeOnOperators r₂) {rows : InsertSource}
    (h : rows.Formed r) : rows.render r₁ = rows.render r₂ := by
  cases h with
  | list _ hes =>
    rw [InsertSource.render, InsertSource.render,
      List.map_congr_left fun e he => ((hes e he).1.render_congr hr).1]
  | query hq => rw [InsertSource.render, InsertSource.render, hq.renderQuery_congr hr]

/-- A statement that has been read is written alike. -/
theorem Statement.Formed.render_congr (hr : r₁.AgreeOnOperators r₂) {s : Statement}
    (h : s.Formed r) : s.render r₁ = s.render r₂ := by
  cases h with
  | query hq => exact hq.renderQuery_congr hr
  | insert _ _ hrows =>
    rw [Statement.render, Statement.render, Insert.render, Insert.render, hrows.render_congr hr]
  | @update _ _ assignments _ _ _ _ _ hassignments hcondition =>
    have hset : assignments.map (Update.renderAssignment r₁) =
        assignments.map (Update.renderAssignment r₂) :=
      List.map_congr_left fun a ha => by
        rw [Update.renderAssignment, Update.renderAssignment,
          ((hassignments a ha).2.1.render_congr hr).1]
    have hwhere := Expr.renderClause_congr " where " fun e he =>
      ((hcondition e he).1.render_congr hr).1
    rw [Statement.render, Statement.render, Update.render, Update.render, hset, hwhere]
  | delete _ hcondition =>
    have hwhere := Expr.renderClause_congr " where " fun e he =>
      ((hcondition e he).1.render_congr hr).1
    rw [Statement.render, Statement.render, Delete.render, Delete.render, hwhere]
  | lock | transaction => rfl

/-- What has been read at any place of a text with any functions is written alike with any two
    registries that have no function named like an operator, and so as it is written when only the
    aggregates are known: statements, and expressions in both of their forms. -/
theorem render_any_registry (r : Registry) (text : String) (c : Cursor)
    (hc : (Cursor.ofText text).Reaches c) (r₁ r₂ : Registry) (h₁ : r₁.SparesOperators)
    (h₂ : r₂.SparesOperators) :
    (∀ s, (Grammar.statement? r c).1 = .ok (some s) →
      s.render r₁ = s.render r₂ ∧ s.text = s.render r₁) ∧
    (∀ ss, (Grammar.statements r c).1 = .ok ss → ∀ s ∈ ss,
      s.render r₁ = s.render r₂ ∧ s.text = s.render r₁) ∧
    ∀ e, (Grammar.condition r c).1 = .ok e →
      e.render r₁ = e.render r₂ ∧ e.polish r₁ = e.polish r₂ ∧ e.text = e.render r₁ := by
  have hagree := h₁.agree h₂
  have hbuiltin := Registry.builtin_sparesOperators.agree h₁
  refine ⟨fun s h => ?_, fun ss h s hs => ?_, fun e h => ?_⟩
  · have hformed := Grammar.statement?_formed hc (Prod.ext h rfl)
    exact ⟨hformed.render_congr hagree, hformed.render_congr hbuiltin⟩
  · have hformed := Grammar.statements_formed hc (Prod.ext h rfl) s hs
    exact ⟨hformed.render_congr hagree, hformed.render_congr hbuiltin⟩
  · have hformed := (Grammar.condition_free hc (Prod.ext h rfl)).1
    exact ⟨(hformed.render_congr hagree).1, (hformed.render_congr hagree).2,
      (hformed.render_congr hbuiltin).1⟩

theorem render_any_registry_custom :
    ∃ s, (Grammar.statement? (Registry.builtin.register "dbl" (.fixed 1))
        (Cursor.ofText "select dbl(a - 1) x from t where not b in (dbl(?), 2)")).1 = .ok (some s) ∧
      s.render (Registry.builtin.register "dbl" (.fixed 1)) = s.render Registry.builtin ∧
      s.text = s.render (Registry.builtin.register "dbl" (.fixed 1)) := by
  have hspares : (Registry.builtin.register "dbl" (.fixed 1)).SparesOperators := by
    unfold Registry.SparesOperators
    decide
  have hread : ((Grammar.statement? (Registry.builtin.register "dbl" (.fixed 1))
      (Cursor.ofText "select dbl(a - 1) x from t where not b in (dbl(?), 2)")).1.toOption.bind
        id).isSome = true := by decide +kernel
  obtain ⟨s, hs⟩ := ok_of_isSome hread
  exact ⟨s, hs, (render_any_registry _ _ _ (.refl _) _ _ hspares Registry.builtin_sparesOperators).1 s hs⟩

end SqlFront
