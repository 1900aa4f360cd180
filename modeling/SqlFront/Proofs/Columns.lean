import SqlFront.Eval.Evaluate
import SqlFront.Proofs.MoreFunctions
import SqlFront.Proofs.WellFormed

/-! # Evaluation reads columns and nothing else of a row

Two rows in which the columns of an expression read alike give it the same results, errors included.
A value is read alike as a number and as the text of that number, so it does not matter how it is
kept. -/

namespace SqlFront

namespace Text

theorem trim_trim (s : String) : trim (trim s) = trim s := by
  simp only [trim, String.toList_ofList, trimChars_trimChars]

end Text

namespace Value

theorem ofText_trim (s : String) : ofText (Text.trim s) = ofText s := by
  unfold ofText
  rw [Text.trim_trim]

/-- A text that is no number is kept without the blanks at its ends. -/
theorem ofText_text {s t : String} (h : ofText s = .text t) : t = Text.trim s := by
  unfold ofText at h
  dsimp only at h
  split at h
  · split at h
    · cases h
    · exact (Value.text.inj h).symm
  · exact (Value.text.inj h).symm

/-- A text that is no number stays one when it is read again. -/
theorem coerced_ofText (s : String) : (ofText s).coerced = ofText s := by
  cases hread : ofText s with
  | number => rfl
  | text t => rw [coerced, ofText_text hread, ofText_trim, hread, ofText_text hread]

theorem coerced_coerced (v : Value) : v.coerced.coerced = v.coerced := by
  cases v with
  | number => rfl
  | text s => exact coerced_ofText s

end Value

/-- The row with every value read as evaluation reads it. -/
def Row.coerced (row : Row) : Row := { row with values := row.values.map (Option.map Value.coerced) }

theorem Row.get?_coerced (row : Row) (name : String) :
    row.coerced.get? name = (row.get? name).map Value.coerced := by
  change (row.indexOf? name).bind row.coerced.valueAt? = _
  rw [get?]
  cases row.indexOf? name with
  | none => rfl
  | some i =>
    rw [Option.bind_some, Option.bind_some, valueAt?, valueAt?, coerced, List.getElem?_map]
    cases row.values[i]? <;> rfl

namespace Eval

variable {row row' : Row}

/-- Every column of an expression reads alike in two rows: it has no value in either, or values that
    are the same once texts that look like numbers are read as such. -/
def AgreeOn (row row' : Row) (e : Expr) : Prop :=
  ∀ column, e.Holds (.column column) →
    (row.get? column).map Value.coerced = (row'.get? column).map Value.coerced

theorem AgreeOn.operands {op : Operation Expr} (h : AgreeOn row row' (.operation op)) :
    ∀ e ∈ op.operands, AgreeOn row row' e := by
  intro e he column hcolumn
  exact h column (.of_operand he hcolumn)

theorem AgreeOn.coerced {e : Expr} (h : AgreeOn row row' e) : AgreeOn row.coerced row' e := by
  intro column hcolumn
  rw [← h column hcolumn, Row.get?_coerced, Option.map_map]
  exact congrArg (fun f => (row.get? column).map f) (funext Value.coerced_coerced)

theorem constantValue_column (row : Row) (name : String) :
    constantValue row ⟨.column, name⟩ =
      match (row.get? name).map Value.coerced with
      | some v => .ok v
      | none => .error (.unknownColumn name) := by
  simp only [constantValue]
  cases row.get? name <;> rfl

theorem constantValue_congr {c : Constant} (h : AgreeOn row row' (.constant c)) :
    constantValue row c = constantValue row' c := by
  obtain ⟨kind, name⟩ := c
  cases kind with
  | column => rw [constantValue_column, constantValue_column, h name .self]
  | null | number | string => rfl

theorem accumulate_congr {es : List Expr} (h : ∀ e ∈ es, value row e = value row' e)
    (meaning : Arithmetic) (x : Float) :
    accumulate row meaning x es = accumulate row' meaning x es := by
  induction es generalizing x with
  | nil => simp only [accumulate]
  | cons e rest ih =>
    obtain ⟨hfirst, hrest⟩ := List.forall_mem_cons.mp h
    simp only [accumulate, hfirst, ih hrest]

theorem arithmetic_congr {operator : String} {es : List Expr}
    (h : ∀ e ∈ es, value row e = value row' e) :
    arithmetic row operator es = arithmetic row' operator es := by
  cases es with
  | nil => simp only [arithmetic]
  | cons e rest =>
    obtain ⟨hfirst, hrest⟩ := List.forall_mem_cons.mp h
    simp only [arithmetic, hfirst, accumulate_congr hrest]

/-- The value of an expression depends on its columns only. -/
theorem value_congr {e : Expr} (h : AgreeOn row row' e) : value row e = value row' e := by
  induction e using Expr.operandInduction with
  | constant c => simp only [value, constantValue_congr h]
  | operation op ih =>
    have hoperands := h.operands
    simp only [value, arithmetic_congr fun e he => ih e he (hoperands e he)]
  | query | placeholder => simp only [value]

theorem comparePair_congr {left right : Expr} (hleft : value row left = value row' left)
    (hright : value row right = value row' right) :
    comparePair row left right = comparePair row' left right := by
  simp only [comparePair, hleft, hright]

theorem compare_congr {es : List Expr} (h : ∀ e ∈ es, value row e = value row' e) :
    compare row es = compare row' es := by
  unfold compare
  split
  · exact comparePair_congr (h _ (by simp)) (h _ (by simp))
  · rfl

theorem like_congr {es : List Expr} (h : ∀ e ∈ es, value row e = value row' e) :
    like row es = like row' es := by
  unfold like
  split
  · rename_i subject pattern
    rw [h subject (by simp), h pattern (by simp)]
  · rfl

theorem memberOf_congr {e : Expr} (he : value row e = value row' e) {es : List Expr}
    (h : ∀ e ∈ es, value row e = value row' e) : memberOf row e es = memberOf row' e es := by
  induction es with
  | nil => rfl
  | cons candidate rest ih =>
    obtain ⟨hfirst, hrest⟩ := List.forall_mem_cons.mp h
    rw [memberOf, memberOf, comparePair_congr he hfirst, ih hrest]

theorem test_congr {operator : String} {es : List Expr} (predicate : Predicate)
    (h : ∀ e ∈ es, value row e = value row' e) :
    test row operator es predicate = test row' operator es predicate := by
  cases predicate with
  | compare comparison => simp only [test, compare_congr h]
  | between negated =>
    simp only [test]
    split
    · rw [comparePair_congr (h _ (by simp)) (h _ (by simp)),
        comparePair_congr (h _ (by simp)) (h _ (by simp))]
    · rfl
  | like negated => simp only [test, like_congr h]
  | membership negated =>
    cases es with
    | nil => rfl
    | cons e candidates =>
      obtain ⟨hfirst, hrest⟩ := List.forall_mem_cons.mp h
      simp only [test, memberOf_congr hfirst hrest]
  | nullTest | unsupported => rfl

theorem everyHolds_congr {es : List Expr} (h : ∀ e ∈ es, condition row e = condition row' e) :
    everyHolds row es = everyHolds row' es := by
  induction es with
  | nil => simp only [everyHolds]
  | cons e rest ih =>
    obtain ⟨hfirst, hrest⟩ := List.forall_mem_cons.mp h
    rw [everyHolds, everyHolds, hfirst, ih hrest]

theorem someHolds_congr {es : List Expr} (h : ∀ e ∈ es, condition row e = condition row' e) :
    someHolds row es = someHolds row' es := by
  induction es with
  | nil => simp only [someHolds]
  | cons e rest ih =>
    obtain ⟨hfirst, hrest⟩ := List.forall_mem_cons.mp h
    rw [someHolds, someHolds, hfirst, ih hrest]

theorem notFirst_congr {operator : String} {es : List Expr}
    (h : ∀ e ∈ es, condition row e = condition row' e) :
    notFirst row operator es = notFirst row' operator es := by
  cases es with
  | nil => simp only [notFirst]
  | cons e rest => rw [notFirst, notFirst, h e List.mem_cons_self]

/-- Whether an expression holds depends on its columns only. -/
theorem condition_congr {e : Expr} (h : AgreeOn row row' e) :
    condition row e = condition row' e := by
  induction e using Expr.operandInduction with
  | constant | query | placeholder => simp only [condition]
  | operation op ih =>
    obtain ⟨operator, operands, call⟩ := op
    have hoperands := h.operands
    have hconditions : ∀ e ∈ operands, condition row e = condition row' e :=
      fun e he => ih e he (hoperands e he)
    have hvalues : ∀ e ∈ operands, value row e = value row' e :=
      fun e he => value_congr (hoperands e he)
    simp only [condition, everyHolds_congr hconditions, someHolds_congr hconditions,
      notFirst_congr hconditions, test_congr _ hvalues]

/-- Two rows give some expressions the same results: each by itself, as a condition and as a value,
    and all of them as the operands of a comparison, of LIKE and of arithmetic. -/
structure SameResults (row row' : Row) (es : List Expr) : Prop where
  condition : ∀ e ∈ es, Eval.condition row e = Eval.condition row' e
  value : ∀ e ∈ es, Eval.value row e = Eval.value row' e
  compare : Eval.compare row es = Eval.compare row' es
  like : Eval.like row es = Eval.like row' es
  arithmetic : ∀ operator, Eval.arithmetic row operator es = Eval.arithmetic row' operator es

theorem sameResults {es : List Expr} (h : ∀ e ∈ es, AgreeOn row row' e) :
    SameResults row row' es := by
  have hvalue : ∀ e ∈ es, value row e = value row' e := fun e he => value_congr (h e he)
  constructor
  · intro e he
    exact condition_congr (h e he)
  · exact hvalue
  · exact compare_congr hvalue
  · exact like_congr hvalue
  · intro operator
    exact arithmetic_congr hvalue

/-- Two rows in which the columns of some expressions read alike give them the same results, errors
    included. So does either row once its values are kept as they are read, and so do both for the
    operands of the expressions. -/
theorem results_by_columns (row row' : Row) (es : List Expr)
    (h : ∀ e ∈ es, AgreeOn row row' e) :
    SameResults row row' es ∧ SameResults row.coerced row' es ∧
      ∀ op, Expr.operation op ∈ es → SameResults row row' op.operands := by
  refine ⟨sameResults h, ?_, ?_⟩
  · apply sameResults
    intro e he
    exact (h e he).coerced
  · intro op hop
    exact sameResults (h _ hop).operands

/-- The order of the attributes, further ones, and blanks around a number do not matter. -/
theorem results_by_columns_reordered :
    (∀ e ∈ [Expr.greater (.column "a") (.number "5")],
      AgreeOn ((Row.ofHeader "b, a").setLine "x, 12") (Row.empty.set "a" (.text " 12 ")) e) ∧
    SameResults ((Row.ofHeader "b, a").setLine "x, 12") (Row.empty.set "a" (.text " 12 "))
      [Expr.greater (.column "a") (.number "5")] ∧
    SameResults ((Row.ofHeader "b, a").setLine "x, 12") (Row.empty.set "a" (.text " 12 "))
      [.column "a", .number "5"] := by
  have hagree : ∀ e ∈ [Expr.greater (.column "a") (.number "5")],
      AgreeOn ((Row.ofHeader "b, a").setLine "x, 12") (Row.empty.set "a" (.text " 12 ")) e := by
    intro e he column hcolumn
    obtain rfl := List.mem_singleton.mp he
    have hparts : ∀ x, (Expr.greater (.column "a") (.number "5")).Holds x →
        x = .greater (.column "a") (.number "5") ∨ x = .column "a" ∨ x = .number "5" := by
      intro x hx
      induction hx with
      | self => exact .inl rfl
      | child _ hy ih =>
        obtain rfl | rfl | rfl := ih
        · exact .inr (by simpa [Expr.greater, Expr.binary, Expr.children] using hy)
        · cases hy
        · cases hy
    obtain h | h | h := hparts _ hcolumn
    · cases h
    · cases h
      rfl
    · cases h
  have hsame := results_by_columns _ _ _ hagree
  exact ⟨hagree, hsame.1, hsame.2.2 _ List.mem_cons_self⟩

end Eval

end SqlFront
