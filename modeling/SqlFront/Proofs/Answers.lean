import SqlFront.Eval.Evaluate
import SqlFront.Proofs.Columns

/-! # Which errors a condition that was read can end in

The operators of a tree that was read have as many operands as evaluation asks for. So evaluation
never complains about their number, but for a call without arguments where a number is needed.
-/

namespace SqlFront

theorem mem_of_lookup {α : Type} {name : String} {a : α} {entries : List (String × α)}
    (h : entries.lookup name = some a) : (name, a) ∈ entries := by
  obtain ⟨front, back, rfl, -⟩ := List.lookup_eq_some_iff.mp h
  exact List.mem_append_right _ List.mem_cons_self

/-- The error is about a number of operands only if it is that of an operator without any for which
    the given property holds. -/
def EvalError.MissesOnly (Empty : String → Prop) : EvalError → Prop
  | .comparisonArity _ | .operandCount _ _ _ => False
  | .missingArguments operator => Empty operator
  | .unsupportedOperator _ | .unknownOperator _ | .unknownColumn _ | .likeOperands
  | .notNumeric _ | .nullTarget _ | .notAPredicate _ | .unsupportedOperand _ => True

/-- The error is about an operator or an operand that has no meaning where it stands. -/
def EvalError.OfMeaning : EvalError → Prop
  | .unsupportedOperator _ | .unknownOperator _ | .likeOperands | .nullTarget _ | .notAPredicate _
  | .unsupportedOperand _ => True
  | .missingArguments _ | .comparisonArity _ | .operandCount _ _ _ | .unknownColumn _
  | .notNumeric _ => False

namespace Predicate

/-- How many operands a predicate is read with: the least number, and the greatest if there is
    one. -/
def operandCount : Predicate → Nat × Option Nat
  | .compare _ | .like _ | .unsupported => (2, some 2)
  | .between _ => (3, some 3)
  | .membership _ => (2, none)
  | .nullTest _ => (1, some 1)

theorem operandCount_table : ∀ entry ∈ table,
    entry.1 ∈ Operator.applied ∧ Operator.operandCount entry.1 = entry.2.operandCount := by
  decide

end Predicate

theorem Connective.of?_negation {operator : String} (h : of? operator = Option.some .negation) :
    operator = Operator.not := by
  simpa using mem_of_lookup h

namespace Operation

variable {r : Registry} {op : Operation Expr}

/-- Operators are written in upper case, and so are functions. -/
theorem Form.upper_operator (h : op.Form r) : Text.upper op.operator = op.operator := by
  have hupper : ∀ o ∈ Operator.applied, Text.upper o = o := by decide
  by_cases hcall : op.call = true
  · cases h with
    | call => exact Text.upper_upper _
    | comparison | like | range | membership | nullTest | not | sign | chain | list
    | «exists» | quantifier => cases hcall
  · have hform := h.wellFormed.call
    have happlied : op.operator ∈ Operator.applied := by
      by_contra hno
      exact hcall (hform.mpr hno)
    exact hupper _ happlied

/-- An operator that is found by its capitals has as many operands as it takes. -/
theorem Form.count_upper (h : op.Form r) (ho : Text.upper op.operator ∈ Operator.applied) :
    (Operator.operandCount (Text.upper op.operator)).1 ≤ op.operands.length ∧
      ∀ greatest ∈ (Operator.operandCount (Text.upper op.operator)).2,
        op.operands.length ≤ greatest := by
  rw [h.upper_operator] at ho ⊢
  exact h.wellFormed.count ho

end Operation

namespace Eval

variable {α β : Type} {P : EvalError → Prop} {Empty : String → Prop} {row : Row}

/-- Whatever error the evaluation ends in has the property. -/
def FailsOnly (P : EvalError → Prop) (result : Except EvalError α) : Prop :=
  ∀ cause, result = .error cause → P cause

/-- Whatever the evaluation misses, it misses only the operands of such operators. -/
def MissesOnly (Empty : String → Prop) (result : Except EvalError α) : Prop :=
  ∀ cause, result = .error cause → cause.MissesOnly Empty

theorem fails_ok (a : α) : FailsOnly P (.ok a) := nofun

theorem fails_error {cause : EvalError} (h : P cause) :
    FailsOnly P (.error cause : Except EvalError α) := by
  intro _ heq
  cases heq
  exact h

theorem FailsOnly.bind {result : Except EvalError α} {next : α → Except EvalError β}
    (h : FailsOnly P result) (hnext : ∀ a, result = .ok a → FailsOnly P (next a)) :
    FailsOnly P (result >>= next) := by
  cases result with
  | error cause => exact fails_error (h cause rfl)
  | ok a => exact hnext a rfl

theorem FailsOnly.map {result : Except EvalError α} (h : FailsOnly P result) (f : α → β) :
    FailsOnly P (result.map f) := by
  cases result with
  | error cause => exact fails_error (h cause rfl)
  | ok a => exact fails_ok (f a)

/-- The property holds of what the constants of the expression, their texts taken as numbers, the
    operators without operands and the meaning of operators can end in. -/
structure Allows (P : EvalError → Prop) (row : Row) (e : Expr) : Prop where
  constant : ∀ c, e.Holds (.constant c) → FailsOnly P (constantValue row c)
  text : ∀ x t, e.Holds x → value row x = .ok (.text t) → P (.notNumeric t)
  empty : ∀ op, e.Holds (.operation op) → op.operands = [] → P (.missingArguments op.operator)
  meaning : ∀ cause : EvalError, cause.OfMeaning → P cause

theorem Allows.operand {op : Operation Expr} (h : Allows P row (.operation op)) {e : Expr}
    (he : e ∈ op.operands) : Allows P row e where
  constant c hc := h.constant c (.of_operand he hc)
  text x t hx := h.text x t (.of_operand he hx)
  empty op' hop := h.empty op' (.of_operand he hop)
  meaning := h.meaning

/-- Of the values that an expression can have, only texts are no numbers. -/
theorem Allows.asNumber {e : Expr} (h : Allows P row e) {v : Value} (hv : value row e = .ok v) :
    FailsOnly P (asNumber v) := by
  cases v with
  | number x => exact fails_ok x
  | text t => exact fails_error (h.text e t .self hv)

theorem accumulate_fails {es : List Expr}
    (h : ∀ e ∈ es, Allows P row e ∧ FailsOnly P (value row e)) (meaning : Arithmetic) (x : Float) :
    FailsOnly P (accumulate row meaning x es) := by
  induction es generalizing x with
  | nil =>
    rw [accumulate]
    exact fails_ok x
  | cons e rest ih =>
    obtain ⟨⟨hallows, hfirst⟩, hrest⟩ := List.forall_mem_cons.mp h
    rw [accumulate]
    apply hfirst.bind
    intro v hv
    apply (hallows.asNumber hv).bind
    intro y _
    exact ih hrest _

theorem arithmetic_fails {op : Operation Expr} (hallows : Allows P row (.operation op))
    (h : ∀ e ∈ op.operands, FailsOnly P (value row e)) :
    FailsOnly P (arithmetic row op.operator op.operands) := by
  have hempty := hallows.empty op .self
  have hoperands : ∀ e ∈ op.operands, Allows P row e ∧ FailsOnly P (value row e) :=
    fun e he => ⟨hallows.operand he, h e he⟩
  cases hes : op.operands with
  | nil =>
    rw [arithmetic]
    exact fails_error (hempty hes)
  | cons e rest =>
    rw [hes] at hoperands
    obtain ⟨⟨hnumber, hfirst⟩, hrest⟩ := List.forall_mem_cons.mp hoperands
    rw [arithmetic]
    apply hfirst.bind
    intro v hv
    apply (hnumber.asNumber hv).bind
    intro x _
    split
    · exact fails_error (hallows.meaning _ trivial)
    · split
      · exact fails_ok _
      · exact accumulate_fails hrest _ _

/-- A value fails only where what it is made of does. -/
theorem value_fails {e : Expr} (h : Allows P row e) : FailsOnly P (value row e) := by
  induction e using Expr.operandInduction with
  | constant c =>
    rw [value]
    exact h.constant c .self
  | operation op ih =>
    have hoperands : ∀ e ∈ op.operands, FailsOnly P (value row e) :=
      fun e he => ih e he (h.operand he)
    rw [value]
    exact (arithmetic_fails h hoperands).map _
  | query | placeholder =>
    rw [value]
    exact fails_error (h.meaning _ trivial)

theorem comparePair_fails {left right : Expr} (hleft : FailsOnly P (value row left))
    (hright : FailsOnly P (value row right)) : FailsOnly P (comparePair row left right) := by
  apply hleft.bind
  intro a _
  apply hright.bind
  intro b _
  exact fails_ok _

theorem memberOf_fails {e : Expr} {es : List Expr} (he : FailsOnly P (value row e))
    (h : ∀ e ∈ es, FailsOnly P (value row e)) : FailsOnly P (memberOf row e es) := by
  induction es with
  | nil => exact fails_ok _
  | cons candidate rest ih =>
    obtain ⟨hfirst, hrest⟩ := List.forall_mem_cons.mp h
    rw [memberOf]
    apply (comparePair_fails he hfirst).bind
    intro here _
    apply (ih hrest).bind
    intro there _
    exact fails_ok _

theorem isNullConstant_fails (hmeaning : ∀ cause : EvalError, cause.OfMeaning → P cause)
    (es : List Expr) : FailsOnly P (isNullConstant es) := by
  unfold isNullConstant
  split
  · exact fails_ok _
  · exact fails_ok _
  · exact fails_error (hmeaning _ trivial)

/-- A predicate over as many operands as it is read with fails only where their values do. -/
theorem test_fails {operator : String} {es : List Expr} {predicate : Predicate}
    (hmeaning : ∀ cause : EvalError, cause.OfMeaning → P cause)
    (h : ∀ e ∈ es, FailsOnly P (value row e))
    (hleast : predicate.operandCount.1 ≤ es.length)
    (hgreatest : ∀ greatest ∈ predicate.operandCount.2, es.length ≤ greatest) :
    FailsOnly P (test row operator es predicate) := by
  cases predicate with
  | compare comparison =>
    have hlength : es.length = 2 := Nat.le_antisymm (hgreatest 2 rfl) hleast
    obtain ⟨left, right, rfl⟩ := List.length_eq_two.mp hlength
    apply (comparePair_fails (h left (by simp)) (h right (by simp))).bind
    intro d _
    exact fails_ok _
  | between negated =>
    have hlength : es.length = 3 := Nat.le_antisymm (hgreatest 3 rfl) hleast
    obtain ⟨e, low, high, rfl⟩ := List.length_eq_three.mp hlength
    apply (comparePair_fails (h e (by simp)) (h low (by simp))).bind
    intro above _
    apply (comparePair_fails (h e (by simp)) (h high (by simp))).bind
    intro below _
    exact fails_ok _
  | like negated =>
    have hlength : es.length = 2 := Nat.le_antisymm (hgreatest 2 rfl) hleast
    obtain ⟨subject, pattern, rfl⟩ := List.length_eq_two.mp hlength
    refine FailsOnly.bind ?_ fun _ _ => fails_ok _
    apply (h subject (by simp)).bind
    intro s _
    apply (h pattern (by simp)).bind
    intro p _
    split
    · exact fails_ok _
    · exact fails_error (hmeaning _ trivial)
  | membership negated =>
    cases es with
    | nil => simp [Predicate.operandCount] at hleast
    | cons e candidates =>
      obtain ⟨hfirst, hrest⟩ := List.forall_mem_cons.mp h
      apply (memberOf_fails hfirst hrest).bind
      intro found _
      exact fails_ok _
  | nullTest negated =>
    apply (isNullConstant_fails hmeaning es).bind
    intro isNull _
    exact fails_ok _
  | unsupported => exact fails_error (hmeaning _ trivial)

theorem everyHolds_fails {es : List Expr} (h : ∀ e ∈ es, FailsOnly P (condition row e)) :
    FailsOnly P (everyHolds row es) := by
  induction es with
  | nil =>
    rw [everyHolds]
    exact fails_ok _
  | cons e rest ih =>
    obtain ⟨hfirst, hrest⟩ := List.forall_mem_cons.mp h
    rw [everyHolds]
    apply hfirst.bind
    intro here _
    apply (ih hrest).bind
    intro there _
    exact fails_ok _

theorem someHolds_fails {es : List Expr} (h : ∀ e ∈ es, FailsOnly P (condition row e)) :
    FailsOnly P (someHolds row es) := by
  induction es with
  | nil =>
    rw [someHolds]
    exact fails_ok _
  | cons e rest ih =>
    obtain ⟨hfirst, hrest⟩ := List.forall_mem_cons.mp h
    rw [someHolds]
    apply hfirst.bind
    intro here _
    apply (ih hrest).bind
    intro there _
    exact fails_ok _

theorem notFirst_fails {operator : String} {es : List Expr} (hne : es ≠ [])
    (h : ∀ e ∈ es, FailsOnly P (condition row e)) : FailsOnly P (notFirst row operator es) := by
  cases es with
  | nil => exact absurd rfl hne
  | cons e rest =>
    rw [notFirst]
    apply (h e List.mem_cons_self).bind
    intro holds _
    exact fails_ok _

/-- Of an expression that was read, not even a condition fails but where what its values are made of
    does: its operators have the operands that they ask for. -/
theorem condition_fails {r : Registry} {e : Expr} (he : e.Formed r) (h : Allows P row e) :
    FailsOnly P (condition row e) := by
  induction he with
  | constant | placeholder | query =>
    rw [condition]
    exact fails_error (h.meaning _ trivial)
  | @operation op hform _ ih =>
    have hconditions : ∀ e ∈ op.operands, FailsOnly P (condition row e) :=
      fun e he => ih e he (h.operand he)
    have hvalues : ∀ e ∈ op.operands, FailsOnly P (value row e) :=
      fun e he => value_fails (h.operand he)
    -- The meaning is found by the capitals of the operator, so its operands are counted by those.
    rw [condition]
    split
    · exact everyHolds_fails hconditions
    · exact someHolds_fails hconditions
    · rename_i hnegation
      have hnot := Connective.of?_negation hnegation
      have hoperands := hform.count_upper (by rw [hnot]; decide)
      rw [hnot] at hoperands
      exact notFirst_fails (List.ne_nil_of_length_pos hoperands.1) hconditions
    · rename_i predicate _ hpredicate
      obtain ⟨happlied, hcount⟩ :=
        Predicate.operandCount_table _ (mem_of_lookup hpredicate)
      have hoperands := hform.count_upper happlied
      rw [hcount] at hoperands
      exact test_fails h.meaning hvalues hoperands.1 hoperands.2
    · exact fails_error (h.meaning _ trivial)

/-- Of the errors about a number of operands, an expression gives rise only to those of its operations
    that have none. -/
theorem allows_misses {e : Expr}
    (h : ∀ op, e.Holds (.operation op) → op.operands = [] → Empty op.operator) :
    Allows (EvalError.MissesOnly Empty) row e where
  constant c _ := by
    unfold constantValue
    split
    · split
      · exact fails_ok _
      · exact fails_error trivial
    · split
      · exact fails_ok _
      · exact fails_error trivial
    · exact fails_ok _
    · exact fails_ok _
  text _ _ _ _ := trivial
  empty := h
  meaning cause hcause := by
    cases cause with
    | comparisonArity | operandCount | missingArguments => cases hcause
    | _ => trivial

/-- A value is missing operands only in an operation of the expression that has none. -/
theorem value_misses {e : Expr}
    (h : ∀ op, e.Holds (.operation op) → op.operands = [] → Empty op.operator) :
    MissesOnly Empty (value row e) :=
  value_fails (allows_misses h)

/-- Of an expression that was read, not even a condition is missing other operands than its values
    are. -/
theorem condition_misses {r : Registry} {e : Expr} (he : e.Formed r)
    (h : ∀ op, e.Holds (.operation op) → op.operands = [] → Empty op.operator) :
    MissesOnly Empty (condition row e) :=
  condition_fails he (allows_misses h)

end Eval

/-- What was read has no operation without operands but calls. -/
theorem Expr.Formed.call_of_empty {r : Registry} {e : Expr} (h : e.Formed r)
    {op : Operation Expr} (hop : e.Holds (.operation op)) (hempty : op.operands = []) :
    op = ⟨op.operator, [], true⟩ := by
  have hleast : ∀ o ∈ Operator.applied, 1 ≤ (Operator.operandCount o).1 := by decide
  have hformed : op.WellFormed r := (h.holds hop).root
  have hcall : op.call = true := by
    rw [hformed.call]
    intro happlied
    have hcount := (hformed.count happlied).1
    rw [hempty] at hcount
    exact absurd (hleast _ happlied) (by simpa using hcount)
  rw [← hcall, ← hempty]

/-- No expression that is read at any place of a text, evaluated over any row as a condition or as a
    value, has a number of operands that its operators do not take; and it misses the operands of
    calls without arguments that occur in it, and of nothing else. -/
theorem read_misses_only_calls (r : Registry) (text : String) (c : Cursor)
    (hc : (Cursor.ofText text).Reaches c) (e : Expr) (he : (Grammar.condition r c).1 = .ok e)
    (row : Row) (cause : EvalError)
    (hcause : Eval.condition row e = .error cause ∨ Eval.value row e = .error cause) :
    (∀ found, cause ≠ .comparisonArity found) ∧
      (∀ operator expected found, cause ≠ .operandCount operator expected found) ∧
      ∀ name, cause = .missingArguments name → e.Holds (.operation ⟨name, [], true⟩) := by
  have hformed := (Grammar.condition_free hc (Prod.ext he rfl)).1
  have hempty : ∀ op, e.Holds (.operation op) → op.operands = [] →
      e.Holds (.operation ⟨op.operator, [], true⟩) := by
    intro op hop hnone
    rwa [← hformed.call_of_empty hop hnone]
  have hmisses : cause.MissesOnly fun name => e.Holds (.operation ⟨name, [], true⟩) := by
    obtain h | h := hcause
    · exact Eval.condition_misses hformed hempty cause h
    · exact Eval.value_misses hempty cause h
  cases cause with
  | comparisonArity | operandCount => cases hmisses
  | missingArguments operator =>
    refine ⟨nofun, nofun, ?_⟩
    intro name hname
    cases hname
    exact hmisses
  | unsupportedOperator | unknownOperator | unknownColumn | likeOperands | notNumeric | nullTarget
  | notAPredicate | unsupportedOperand => exact ⟨nofun, nofun, nofun⟩

theorem read_misses_only_calls_variadic :
    ∃ e, (Grammar.condition (Registry.builtin.register "now" .variadic)
        (Cursor.ofText "not (b = 'x' or now() < a)")).1 = .ok e ∧
      Eval.condition ((Row.ofHeader "a,b").setLine "1,y") e = .error (.missingArguments "NOW") ∧
      e.Holds (.operation ⟨"NOW", [], true⟩) := by
  have hread : ((Grammar.condition (Registry.builtin.register "now" .variadic)
      (Cursor.ofText "not (b = 'x' or now() < a)")).1.toOption.any fun e =>
        Eval.condition ((Row.ofHeader "a,b").setLine "1,y") e =
          .error (.missingArguments "NOW")) = true := by decide +kernel
  obtain ⟨e, he, hcause⟩ := (Option.any_eq_true _ _).mp hread
  have he := ok_of_toOption he
  have hcause := of_decide_eq_true hcause
  have hmisses := read_misses_only_calls _ _ _ (.refl _) e he _ _ (.inl hcause)
  exact ⟨e, he, hcause, hmisses.2.2 "NOW" rfl⟩

end SqlFront
