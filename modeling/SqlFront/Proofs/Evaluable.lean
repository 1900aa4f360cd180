import SqlFront.Proofs.Answers
import SqlFront.Proofs.Connectives

/-! # What evaluates has been evaluated as a whole

Main statement: a condition that was read and has a result over a row consists only of operators that
have a meaning, and the row has values for all its columns. Only a test for NULL does not ask for the
value of its operand.
-/

namespace SqlFront

/-- The operators that have no meaning over a row. -/
def Operator.unevaluated : List String := [list, exist, concat, hash] ++ quantifiers

/-! ## The operators that have a meaning -/

theorem Arithmetic.of?_known {operator : String} {meaning : Arithmetic}
    (h : of? operator = some meaning) :
    operator ∈ Operator.applied ∧ operator ∉ Operator.unevaluated := by
  have htable : ∀ entry ∈ [(Operator.plus, sum), (Operator.minus, .difference),
      (Operator.times, .product), (Operator.divide, .quotient), (Operator.power, .power)],
      entry.1 ∈ Operator.applied ∧ entry.1 ∉ Operator.unevaluated := by decide
  exact htable _ (mem_of_lookup h)

theorem Connective.of?_known {operator : String} {meaning : Connective}
    (h : of? operator = Option.some meaning) :
    operator ∈ Operator.applied ∧ operator ∉ Operator.unevaluated := by
  have htable : ∀ entry ∈ [(Operator.and, every), (Operator.or, some), (Operator.not, negation)],
      entry.1 ∈ Operator.applied ∧ entry.1 ∉ Operator.unevaluated := by decide
  exact htable _ (mem_of_lookup h)

theorem Predicate.known_table : ∀ entry ∈ table, entry.2 ≠ .unsupported →
    entry.1 ∉ Operator.unevaluated := by
  decide

theorem Predicate.nullTest_table : ∀ entry ∈ table, ∀ negated, entry.2 = .nullTest negated →
    entry.1 ∈ Operator.nullTests := by
  decide

namespace Expr

/-- Whether evaluation knows what the root of the expression means. -/
def Supported : Expr → Prop
  | .constant _ => True
  | .operation op => op.call = false ∧ op.operator ∉ Operator.unevaluated
  | .query _ => False
  | .placeholder => False

/-- The column stands in the expression, and not right under a test for NULL. -/
inductive Consults (e : Expr) (name : String) : Prop
  | root : e = .column name → Consults e name
  | child {x} : e.Holds x → (∀ op, x = .operation op → op.operator ∉ Operator.nullTests) →
      .column name ∈ x.children → Consults e name

/-- Everything in the expression has a meaning over the row. -/
structure Evaluable (row : Row) (e : Expr) : Prop where
  supported : ∀ x, e.Holds x → x.Supported
  columns : ∀ name, e.Consults name → (row.get? name).isSome = true

variable {row : Row} {op : Operation Expr}

theorem Evaluable.constant {c : Constant}
    (h : ∀ name, c = ⟨.column, name⟩ → (row.get? name).isSome = true) :
    Evaluable row (.constant c) := by
  have hroot {x : Expr} (hx : (Expr.constant c).Holds x) : x = .constant c := by
    obtain rfl | ⟨y, hy, -⟩ := holds_cases hx
    · rfl
    · cases hy
  constructor
  · intro x hx
    rw [hroot hx]
    trivial
  · intro name hname
    cases hname with
    | root heq => exact h name (Expr.constant.inj heq)
    | child hx _ hchild =>
      rw [hroot hx] at hchild
      cases hchild

theorem Evaluable.operation (hcall : op.call = false) (ho : op.operator ∉ Operator.unevaluated)
    (h : ∀ e ∈ op.operands, e.Evaluable row) : Evaluable row (.operation op) := by
  constructor
  · intro x hx
    obtain rfl | ⟨e, he, hx⟩ := holds_cases hx
    · exact ⟨hcall, ho⟩
    · exact (h e he).supported x hx
  · intro name hname
    cases hname with
    | root heq => cases heq
    | child hx hno hchild =>
      obtain rfl | ⟨e, he, hx⟩ := holds_cases hx
      · exact (h _ hchild).columns name (.root rfl)
      · exact (h e he).columns name (.child hx hno hchild)

/-- A column under a test for NULL may be unset. -/
theorem Evaluable.nullTest {c : Constant} (hcall : op.call = false)
    (ho : op.operator ∈ Operator.nullTests) (h : op.operands = [.constant c]) :
    Evaluable row (.operation op) := by
  have hmeaning : ∀ o ∈ Operator.nullTests, o ∉ Operator.unevaluated := by decide
  have hholds {x : Expr} (hx : (Expr.operation op).Holds x) :
      x = .operation op ∨ x = .constant c := by
    obtain rfl | ⟨e, he, hx⟩ := holds_cases hx
    · exact .inl rfl
    · change e ∈ op.operands at he
      rw [h, List.mem_singleton] at he
      subst he
      obtain rfl | ⟨y, hy, -⟩ := holds_cases hx
      · exact .inr rfl
      · cases hy
  constructor
  · intro x hx
    obtain rfl | rfl := hholds hx
    · exact ⟨hcall, hmeaning _ ho⟩
    · trivial
  · intro name hname
    cases hname with
    | root heq => cases heq
    | child hx hno hchild =>
      obtain rfl | rfl := hholds hx
      · exact absurd ho (hno op rfl)
      · cases hchild

end Expr

namespace Eval

variable {α β : Type} {r : Registry} {row : Row}

theorem ok_of_bind {result : Except EvalError α} {next : α → Except EvalError β} {b : β}
    (h : (result >>= next) = .ok b) : ∃ a, result = .ok a ∧ next a = .ok b := by
  cases result with
  | error cause => cases h
  | ok a => exact ⟨a, rfl, h⟩

/-! ## Values -/

theorem accumulate_ok {meaning : Arithmetic} {es : List Expr} {x y : Float}
    (h : accumulate row meaning x es = .ok y) : ∀ e ∈ es, ∃ v, value row e = .ok v := by
  induction es generalizing x with
  | nil => simp
  | cons e rest ih =>
    rw [accumulate] at h
    obtain ⟨v, hv, h⟩ := ok_of_bind h
    obtain ⟨_, _, h⟩ := ok_of_bind h
    exact List.forall_mem_cons.mpr ⟨⟨v, hv⟩, ih h⟩

/-- Arithmetic has a result only for the operators it knows and over values of all operands. -/
theorem arithmetic_ok {operator : String} {es : List Expr} {x : Float}
    (h : arithmetic row operator es = .ok x) :
    (∃ meaning, Arithmetic.of? operator = some meaning) ∧ ∀ e ∈ es, ∃ v, value row e = .ok v := by
  cases es with
  | nil =>
    rw [arithmetic] at h
    cases h
  | cons e rest =>
    rw [arithmetic] at h
    obtain ⟨v, hv, h⟩ := ok_of_bind h
    obtain ⟨x, _, h⟩ := ok_of_bind h
    rw [List.forall_mem_cons]
    split at h
    · cases h
    · rename_i meaning hmeaning
      refine ⟨⟨meaning, hmeaning⟩, ⟨v, hv⟩, ?_⟩
      split at h
      · rename_i hsign
        rw [List.isEmpty_iff.mp hsign.2]
        simp
      · exact accumulate_ok h

/-- An operation that is found in a table of meanings is no call. -/
theorem call_of_applied {op : Operation Expr} (h : op.Form r) (ho : op.operator ∈ Operator.applied) :
    op.call = false := by
  have hcall := h.wellFormed.call
  by_contra hno
  exact hcall.mp (by simpa using hno) ho

/-- An expression that was read and has a value is evaluated as a whole. -/
theorem value_evaluable {e : Expr} (he : e.Formed r) {v : Value} (h : value row e = .ok v) :
    e.Evaluable row := by
  induction he generalizing v with
  | @constant c hc =>
    apply Expr.Evaluable.constant
    rintro name rfl
    rw [value, constantValue] at h
    cases hname : row.get? name with
    | some => rfl
    | none => simp [hname] at h
  | @operation op hform _ ih =>
    rw [value] at h
    cases harithmetic : arithmetic row op.operator op.operands with
    | error cause => rw [harithmetic] at h; cases h
    | ok x =>
      obtain ⟨⟨meaning, hmeaning⟩, hvalues⟩ := arithmetic_ok harithmetic
      obtain ⟨happlied, hmeant⟩ := Arithmetic.of?_known hmeaning
      apply Expr.Evaluable.operation (call_of_applied hform happlied) hmeant
      intro e he
      obtain ⟨v, hv⟩ := hvalues e he
      exact ih e he hv
  | query | placeholder =>
    rw [value] at h
    cases h

/-! ## Conditions -/

theorem comparePair_ok {left right : Expr} {d : Float} (h : comparePair row left right = .ok d) :
    (∃ v, value row left = .ok v) ∧ ∃ v, value row right = .ok v := by
  obtain ⟨a, ha, h⟩ := ok_of_bind h
  obtain ⟨b, hb, -⟩ := ok_of_bind h
  exact ⟨⟨a, ha⟩, ⟨b, hb⟩⟩

theorem memberOf_ok {e : Expr} {es : List Expr} {b : Bool} (h : memberOf row e es = .ok b) :
    ∀ candidate ∈ es, (∃ v, value row e = .ok v) ∧ ∃ v, value row candidate = .ok v := by
  induction es generalizing b with
  | nil => simp
  | cons candidate rest ih =>
    rw [memberOf] at h
    obtain ⟨here, hhere, h⟩ := ok_of_bind h
    obtain ⟨there, hthere, -⟩ := ok_of_bind h
    exact List.forall_mem_cons.mpr ⟨comparePair_ok hhere, ih hthere⟩

/-- A predicate over as many operands as it is read with has a result only over values of all of
    them, unless it tests a constant for NULL. -/
theorem test_ok {operator : String} {es : List Expr} {predicate : Predicate} {b : Bool}
    (h : test row operator es predicate = .ok b) (hleast : predicate.operandCount.1 ≤ es.length)
    (hgreatest : ∀ greatest ∈ predicate.operandCount.2, es.length ≤ greatest) :
    predicate ≠ .unsupported ∧
      ((∃ negated c, predicate = .nullTest negated ∧ es = [.constant c]) ∨
        ∀ e ∈ es, ∃ v, value row e = .ok v) := by
  cases predicate with
  | compare comparison =>
    refine ⟨by simp, .inr ?_⟩
    have hlength : es.length = 2 := Nat.le_antisymm (hgreatest 2 rfl) hleast
    obtain ⟨left, right, rfl⟩ := List.length_eq_two.mp hlength
    obtain ⟨d, hd, -⟩ := ok_of_bind h
    simpa using comparePair_ok hd
  | between negated =>
    refine ⟨by simp, .inr ?_⟩
    have hlength : es.length = 3 := Nat.le_antisymm (hgreatest 3 rfl) hleast
    obtain ⟨e, low, high, rfl⟩ := List.length_eq_three.mp hlength
    obtain ⟨above, habove, h⟩ := ok_of_bind h
    obtain ⟨below, hbelow, -⟩ := ok_of_bind h
    have hlow := comparePair_ok habove
    have hhigh := comparePair_ok hbelow
    simpa using ⟨hlow.1, hlow.2, hhigh.2⟩
  | like negated =>
    refine ⟨by simp, .inr ?_⟩
    have hlength : es.length = 2 := Nat.le_antisymm (hgreatest 2 rfl) hleast
    obtain ⟨subject, pattern, rfl⟩ := List.length_eq_two.mp hlength
    obtain ⟨matched, hmatched, -⟩ := ok_of_bind h
    obtain ⟨s, hs, hmatched⟩ := ok_of_bind hmatched
    obtain ⟨p, hp, -⟩ := ok_of_bind hmatched
    simpa using ⟨⟨s, hs⟩, ⟨p, hp⟩⟩
  | membership negated =>
    refine ⟨by simp, .inr ?_⟩
    match es with
    | [] | [_] => simp [Predicate.operandCount] at hleast
    | e :: candidate :: rest =>
      obtain ⟨found, hfound, -⟩ := ok_of_bind h
      have hmembers := memberOf_ok hfound
      exact List.forall_mem_cons.mpr
        ⟨(hmembers candidate (by simp)).1, fun e he => (hmembers e he).2⟩
  | nullTest negated =>
    refine ⟨by simp, .inl ?_⟩
    have hlength : es.length = 1 := Nat.le_antisymm (hgreatest 1 rfl) hleast
    obtain ⟨e, rfl⟩ := List.length_eq_one_iff.mp hlength
    obtain ⟨absent, habsent, -⟩ := ok_of_bind h
    cases e with
    | constant c => exact ⟨negated, c, rfl, rfl⟩
    | operation | query | placeholder => cases habsent
  | unsupported => cases h

theorem everyHolds_ok {es : List Expr} {b : Bool} (h : everyHolds row es = .ok b) :
    ∀ e ∈ es, ∃ b, condition row e = .ok b := by
  rw [everyHolds_eq] at h
  cases hes : es.mapM (condition row) with
  | error cause => rw [hes] at h; cases h
  | ok bs => exact exists_mapM_ok_iff.mp ⟨bs, hes⟩

theorem someHolds_ok {es : List Expr} {b : Bool} (h : someHolds row es = .ok b) :
    ∀ e ∈ es, ∃ b, condition row e = .ok b := by
  rw [someHolds_eq] at h
  cases hes : es.mapM (condition row) with
  | error cause => rw [hes] at h; cases h
  | ok bs => exact exists_mapM_ok_iff.mp ⟨bs, hes⟩

theorem notFirst_ok {operator : String} {e : Expr} {b : Bool}
    (h : notFirst row operator [e] = .ok b) : ∃ b, condition row e = .ok b := by
  rw [notFirst] at h
  obtain ⟨b, hb, -⟩ := ok_of_bind h
  exact ⟨b, hb⟩

/-- A condition that was read and has a result is evaluated as a whole. -/
theorem condition_evaluable {e : Expr} (he : e.Formed r) {b : Bool} (h : condition row e = .ok b) :
    e.Evaluable row := by
  induction he generalizing b with
  | constant | query | placeholder =>
    rw [condition] at h
    cases h
  | @operation op hform hoperands ih =>
    have hconnective {meaning : Connective} (ho : Connective.of? op.operator = some meaning)
        (hconditions : ∀ e ∈ op.operands, ∃ b, condition row e = .ok b) :
        Expr.Evaluable row (.operation op) := by
      obtain ⟨happlied, hmeant⟩ := Connective.of?_known ho
      apply Expr.Evaluable.operation (call_of_applied hform happlied) hmeant
      intro e he
      obtain ⟨b, hb⟩ := hconditions e he
      exact ih e he hb
    rw [condition, hform.upper_operator] at h
    split at h
    · rename_i hevery
      exact hconnective hevery (everyHolds_ok h)
    · rename_i hsome
      exact hconnective hsome (someHolds_ok h)
    · rename_i hnegation
      have hnot := Connective.of?_negation hnegation
      have hcount := (hform.wellFormed.count (by rw [hnot]; decide))
      rw [hnot] at hcount
      have hlength : op.operands.length = 1 := Nat.le_antisymm (hcount.2 1 rfl) hcount.1
      obtain ⟨e, hone⟩ := List.length_eq_one_iff.mp hlength
      rw [hone] at h hconnective
      exact hconnective hnegation (by simpa using notFirst_ok h)
    · rename_i predicate _ hpredicate
      have hentry := mem_of_lookup hpredicate
      obtain ⟨happlied, hsame⟩ := Predicate.operandCount_table _ hentry
      have hcount := hform.wellFormed.count happlied
      rw [hsame] at hcount
      obtain ⟨hsupported, hoperand⟩ := test_ok h hcount.1 hcount.2
      have hcall := call_of_applied hform happlied
      obtain ⟨negated, c, rfl, hone⟩ | hvalues := hoperand
      · exact .nullTest hcall (Predicate.nullTest_table _ hentry negated rfl) hone
      · apply Expr.Evaluable.operation hcall (Predicate.known_table _ hentry hsupported)
        intro e he
        obtain ⟨v, hv⟩ := hvalues e he
        exact value_evaluable (hoperands e he) hv
    · cases h

end Eval

/-- A condition that is read at any place of a text and has a result over a row holds no subquery, no
    parameter, no call and no operator without a meaning, and every column in it that does not stand
    right under a test for NULL has a value in the row. -/
theorem condition_has_result_evaluable (r : Registry) (text : String) (c : Cursor)
    (hc : (Cursor.ofText text).Reaches c) (e : Expr) (he : (Grammar.condition r c).1 = .ok e)
    (row : Row) (b : Bool) (hb : Eval.condition row e = .ok b) :
    (∀ q, ¬ e.Holds (.query q)) ∧ ¬ e.Holds .placeholder ∧
      (∀ op, e.Holds (.operation op) → op.call = false ∧ op.operator ∉ Operator.unevaluated) ∧
      ∀ name, e.Consults name → (row.get? name).isSome = true := by
  have hformed := (Grammar.condition_free hc (Prod.ext he rfl)).1
  have hevaluable := Eval.condition_evaluable hformed hb
  refine ⟨?_, ?_, ?_, hevaluable.columns⟩
  · intro q hq
    exact hevaluable.supported _ hq
  · intro hparameter
    exact hevaluable.supported _ hparameter
  · intro op hop
    exact hevaluable.supported _ hop

theorem condition_has_result_evaluable_nested :
    ∃ e b, (Grammar.condition Registry.builtin
        (Cursor.ofText "not (a < b * -2 or c is null) and d in ('x', b)")).1 = .ok e ∧
      Eval.condition ((Row.ofHeader "a,b,c,d").setLine "1,2,,y") e = .ok b ∧
      (∀ q, ¬ e.Holds (.query q)) ∧
      ∀ name, e.Consults name →
        (((Row.ofHeader "a,b,c,d").setLine "1,2,,y").get? name).isSome = true := by
  have hread : ((Grammar.condition Registry.builtin
      (Cursor.ofText "not (a < b * -2 or c is null) and d in ('x', b)")).1.toOption.any fun e =>
        (Eval.condition ((Row.ofHeader "a,b,c,d").setLine "1,2,,y") e).toOption.isSome) = true := by
    decide +kernel
  obtain ⟨e, he, hresult⟩ := (Option.any_eq_true _ _).mp hread
  obtain ⟨b, hb⟩ := Option.isSome_iff_exists.mp hresult
  have he := ok_of_toOption he
  have hb := ok_of_toOption hb
  have h := condition_has_result_evaluable _ _ _ (.refl _) e he _ b hb
  exact ⟨e, b, he, hb, h.1, h.2.2.2⟩

end SqlFront
