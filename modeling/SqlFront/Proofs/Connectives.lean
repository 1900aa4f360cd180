import SqlFront.Eval.Evaluate

/-! # Connectives ask all their operands

AND and OR evaluate every operand, from the left. Main statement: they fail with the first operand
that fails, whatever the others decide, and are otherwise the conjunction and the disjunction of
their operands, so that NOT turns each into the other.
-/

namespace SqlFront

namespace Eval

variable {α β : Type} {row : Row}

/-! ## Results one after the other -/

/-- The first item that fails does so with the cause. -/
def FailsFirst (f : α → Except EvalError β) (cause : EvalError) (items : List α) : Prop :=
  ∃ front item back, items = front ++ item :: back ∧ (∀ a ∈ front, ∃ b, f a = .ok b) ∧
    f item = .error cause

section

variable {f : α → Except EvalError β} {items : List α}

/-- Either every item has a result, or the first failure counts. -/
theorem mapM_cases (f : α → Except EvalError β) (items : List α) :
    (∃ results, items.mapM f = .ok results ∧ items.map f = results.map .ok) ∨
      ∃ cause, items.mapM f = .error cause ∧ FailsFirst f cause items := by
  induction items with
  | nil => exact .inl ⟨[], rfl, rfl⟩
  | cons item rest ih =>
    cases hitem : f item with
    | error cause =>
      refine .inr ⟨cause, ?_, [], item, rest, rfl, nofun, hitem⟩
      rw [List.mapM_cons, hitem]
      rfl
    | ok result =>
      obtain ⟨results, hresults, hmap⟩ | ⟨cause, hcause, front, failing, back, rfl, hfront, hfails⟩ :=
        ih
      · refine .inl ⟨result :: results, ?_, ?_⟩
        · rw [List.mapM_cons, hitem, hresults]
          rfl
        · rw [List.map_cons, List.map_cons, hitem, hmap]
      · refine .inr ⟨cause, ?_, item :: front, failing, back, rfl, ?_, hfails⟩
        · rw [List.mapM_cons, hitem, hcause]
          rfl
        · exact List.forall_mem_cons.mpr ⟨⟨result, hitem⟩, hfront⟩

theorem mapM_ok {results : List β} (h : items.mapM f = .ok results) :
    items.map f = results.map .ok := by
  obtain ⟨results', hresults, hmap⟩ | ⟨cause, hcause, -⟩ := mapM_cases f items
  · rw [h] at hresults
    cases hresults
    exact hmap
  · rw [h] at hcause
    cases hcause

theorem mapM_error_iff {cause : EvalError} :
    items.mapM f = .error cause ↔ FailsFirst f cause items := by
  constructor
  · intro h
    obtain ⟨results, hresults, -⟩ | ⟨cause', hcause, hfails⟩ := mapM_cases f items
    · rw [h] at hresults
      cases hresults
    · rw [h] at hcause
      cases hcause
      exact hfails
  · rintro ⟨front, item, back, rfl, hfront, hitem⟩
    induction front with
    | nil =>
      rw [List.nil_append, List.mapM_cons, hitem]
      rfl
    | cons a front ih =>
      obtain ⟨⟨b, hb⟩, hfront⟩ := List.forall_mem_cons.mp hfront
      rw [List.cons_append, List.mapM_cons, hb, ih hfront]
      rfl

/-- All items have a result exactly if each of them has. -/
theorem exists_mapM_ok_iff :
    (∃ results, items.mapM f = .ok results) ↔ ∀ a ∈ items, ∃ b, f a = .ok b := by
  constructor
  · rintro ⟨results, h⟩ a ha
    have hmem : f a ∈ results.map .ok := by
      rw [← mapM_ok h]
      exact List.mem_map_of_mem ha
    obtain ⟨b, -, hb⟩ := List.mem_map.mp hmem
    exact ⟨b, hb.symm⟩
  · intro h
    cases hitems : items.mapM f with
    | ok results => exact ⟨results, rfl⟩
    | error cause =>
      obtain ⟨front, item, back, rfl, -, hitem⟩ := mapM_error_iff.mp hitems
      obtain ⟨b, hb⟩ := h item (by simp)
      rw [hb] at hitem
      cases hitem

theorem mapM_map_result {γ : Type} (g : β → γ) (items : List α) :
    items.mapM (fun a => (f a).map g) = (items.mapM f).map (List.map g) := by
  induction items with
  | nil => rfl
  | cons item rest ih =>
    rw [List.mapM_cons, List.mapM_cons, ih]
    cases f item <;> cases rest.mapM f <;> rfl

end

/-! ## Connectives by their operands -/

theorem everyHolds_eq (row : Row) (es : List Expr) :
    everyHolds row es = (es.mapM (condition row)).map (List.all · id) := by
  induction es with
  | nil => rfl
  | cons e rest ih =>
    rw [everyHolds, List.mapM_cons, ih]
    cases condition row e <;> cases rest.mapM (condition row) <;> rfl

theorem someHolds_eq (row : Row) (es : List Expr) :
    someHolds row es = (es.mapM (condition row)).map (List.any · id) := by
  induction es with
  | nil => rfl
  | cons e rest ih =>
    rw [someHolds, List.mapM_cons, ih]
    cases condition row e <;> cases rest.mapM (condition row) <;> rfl

section

variable {operator : String} {call : Bool} {es : List Expr}

/-! The operator of a condition counts in any case of its letters, and the mark of a call does not
count. -/

theorem condition_every (h : Text.upper operator = Operator.and) :
    condition row (.operation ⟨operator, es, call⟩) = everyHolds row es := by
  rw [condition, h]
  rfl

theorem condition_some (h : Text.upper operator = Operator.or) :
    condition row (.operation ⟨operator, es, call⟩) = someHolds row es := by
  rw [condition, h]
  rfl

theorem condition_and (row : Row) (es : List Expr) :
    condition row (.applied Operator.and es) = everyHolds row es :=
  condition_every (by decide)

theorem condition_or (row : Row) (es : List Expr) :
    condition row (.applied Operator.or es) = someHolds row es :=
  condition_some (by decide)

theorem condition_negate (row : Row) (e : Expr) :
    condition row e.negate = (condition row e).map (!·) := by
  have hnot : Text.upper Operator.not = Operator.not := by decide
  rw [Expr.negate, Expr.unary, condition, hnot]
  change notFirst row Operator.not [e] = _
  rw [notFirst]
  cases condition row e <;> rfl

end

/-! ## Strictness -/

/-- An operator on conditions asks all of them. It has a result if all have one, and then it holds
    if they do so together, in whatever order and however often they are listed; otherwise it fails
    with the first failure. -/
structure Strict (row : Row) (operator : String) (Together : List Expr → Prop) (es : List Expr) :
    Prop where
  result : (∃ b, condition row (.applied operator es) = .ok b) ↔
    ∀ e ∈ es, ∃ b, condition row e = .ok b
  holds : ∀ b, condition row (.applied operator es) = .ok b → (b = true ↔ Together es)
  order : ∀ b es', condition row (.applied operator es) = .ok b → (∀ e, e ∈ es' ↔ e ∈ es) →
    condition row (.applied operator es') = .ok b
  error : ∀ cause, condition row (.applied operator es) = .error cause ↔
    FailsFirst (condition row) cause es

section

variable {operator : String} {Together : List Expr → Prop}

/-- An operator that puts the results of all operands together is strict. -/
theorem strict (together : List Bool → Bool)
    (hoperator : ∀ es,
      condition row (.applied operator es) = (es.mapM (condition row)).map together)
    (htogether : ∀ es bs, es.map (condition row) = bs.map .ok →
      (together bs = true ↔ Together es))
    (hmembers : ∀ es es', (∀ e, e ∈ es' ↔ e ∈ es) → (Together es' ↔ Together es)) (es : List Expr) :
    Strict row operator Together es := by
  have hresult (es : List Expr) : (∃ b, condition row (.applied operator es) = .ok b) ↔
      ∀ e ∈ es, ∃ b, condition row e = .ok b := by
    rw [← exists_mapM_ok_iff, hoperator]
    cases es.mapM (condition row) <;> simp [Except.map]
  have hholds (es : List Expr) (b : Bool) (h : condition row (.applied operator es) = .ok b) :
      b = true ↔ Together es := by
    rw [hoperator] at h
    cases hes : es.mapM (condition row) with
    | error cause => rw [hes] at h; cases h
    | ok bs =>
      rw [hes] at h
      cases h
      exact htogether es bs (mapM_ok hes)
  constructor
  · exact hresult es
  · exact hholds es
  · intro b es' h hmem
    have hes' : ∃ b', condition row (.applied operator es') = .ok b' := by
      rw [hresult]
      intro e he
      exact (hresult es).mp ⟨b, h⟩ e ((hmem e).mp he)
    obtain ⟨b', hb'⟩ := hes'
    have hsame : b' = b := by
      rw [Bool.eq_iff_iff, hholds es' b' hb', hholds es b h]
      exact hmembers es es' hmem
    rw [hb', hsame]
  · intro cause
    rw [← mapM_error_iff, hoperator]
    cases es.mapM (condition row) <;> simp [Except.map]

end

theorem strict_and (row : Row) (es : List Expr) :
    Strict row Operator.and (fun es => ∀ e ∈ es, condition row e = .ok true) es := by
  apply strict (List.all · id)
  · intro es
    rw [condition_and, everyHolds_eq]
  · intro es bs h
    have hall : (∀ e ∈ es, condition row e = .ok true) ↔
        ∀ result ∈ es.map (condition row), result = .ok true := by
      rw [List.forall_mem_map]
    rw [hall, h, List.forall_mem_map]
    simp only [List.all_eq_true, id, Except.ok.injEq]
  · intro es es' hmem
    simp only [hmem]

theorem strict_or (row : Row) (es : List Expr) :
    Strict row Operator.or (fun es => ∃ e ∈ es, condition row e = .ok true) es := by
  apply strict (List.any · id)
  · intro es
    rw [condition_or, someHolds_eq]
  · intro es bs h
    have hany : (∃ e ∈ es, condition row e = .ok true) ↔
        ∃ result ∈ es.map (condition row), result = .ok true := by simp
    rw [hany, h]
    simp
  · intro es es' hmem
    simp only [hmem]

/-- What the conditions negated come to one after the other. -/
theorem mapM_negate (row : Row) (es : List Expr) :
    (es.map Expr.negate).mapM (condition row) = (es.mapM (condition row)).map (List.map (!·)) := by
  rw [List.mapM_map, ← mapM_map_result]
  exact congrArg (fun f => es.mapM f) (funext (condition_negate row))

/-- AND and OR evaluate all operands from the left and fail with the first failure. NOT turns each
    into the other over the negated operands, errors included. -/
theorem connectives_strict (row : Row) (es : List Expr) :
    Strict row Operator.and (fun es => ∀ e ∈ es, condition row e = .ok true) es ∧
    Strict row Operator.or (fun es => ∃ e ∈ es, condition row e = .ok true) es ∧
    condition row (Expr.applied Operator.and es).negate =
      condition row (.applied Operator.or (es.map .negate)) ∧
    condition row (Expr.applied Operator.or es).negate =
      condition row (.applied Operator.and (es.map .negate)) := by
  refine ⟨strict_and row es, strict_or row es, ?_, ?_⟩
  · rw [condition_negate, condition_and, condition_or, everyHolds_eq, someHolds_eq, mapM_negate]
    cases es.mapM (condition row) with
    | error cause => rfl
    | ok bs => simp [Except.map, List.not_all_eq_any_not]
  · rw [condition_negate, condition_and, condition_or, everyHolds_eq, someHolds_eq, mapM_negate]
    cases es.mapM (condition row) with
    | error cause => rfl
    | ok bs => simp [Except.map, List.not_any_eq_all_not]

end Eval

end SqlFront
