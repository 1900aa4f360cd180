import SqlFront.Proofs.Formed

/-! # Every tree that is read is well formed

What holds at every place of a tree that comes from a text, however deep: operators have as many
operands as they take, whatever else is applied is a call of a registered function, quantifiers and
the column `*` stand only where they mean something, and no clause is empty. Operands are joined and
lists are built up without checks while a text is read, so this rests on the rules of the grammar.
-/

namespace SqlFront

namespace Operator

/-- The operators of conditions and values. -/
def applied : List String :=
  comparisons ++ likes ++ ranges ++ memberships ++ not :: nullTests ++ chains ++ list :: exist :: quantifiers

/-- How many operands an operator takes: the least number, and the greatest if there is one. -/
def operandCount (operator : String) : Nat × Option Nat :=
  if operator ∈ comparisons ∨ operator ∈ likes then (2, Option.some 2)
  else if operator ∈ ranges then (3, Option.some 3)
  else if operator = not ∨ operator ∈ nullTests then (1, Option.some 1)
  else if operator = exist ∨ operator ∈ quantifiers then (1, Option.some 1)
  else if operator = minus then (1, Option.none)
  else (2, Option.none)

theorem mem_applied_of_subquery {o : String} (h : o = exist ∨ o ∈ quantifiers) : o ∈ applied := by
  have happlied : ∀ o ∈ exist :: quantifiers, o ∈ applied := by decide
  exact happlied o (List.mem_cons.mpr h)

theorem applied_subset : ∀ o ∈ applied, o ∈ texts := by decide

end Operator

namespace Expr

/-- The expressions right below an expression. -/
def children : Expr → List Expr
  | .operation op => op.operands
  | .query q => q.parts
  | .constant _ => []
  | .placeholder => []

/-- The second expression is the first one or stands somewhere in it. -/
inductive Holds (e : Expr) : Expr → Prop
  | self : Holds e e
  | child {x y} : Holds e x → y ∈ x.children → Holds e y

theorem Holds.trans {e x y : Expr} (hx : e.Holds x) (hy : x.Holds y) : e.Holds y := by
  induction hy with
  | self => exact hx
  | child _ hchild ih => exact .child ih hchild

/-- What stands in an expression is the expression itself or stands in one of its parts. -/
theorem holds_cases {e x : Expr} (h : e.Holds x) : x = e ∨ ∃ y ∈ e.children, y.Holds x := by
  induction h with
  | self => exact .inl rfl
  | child _ hchild ih =>
    obtain rfl | ⟨y, hy, hx⟩ := ih
    · exact .inr ⟨_, hchild, .self⟩
    · exact .inr ⟨y, hy, .child hx hchild⟩

theorem Holds.of_operand {op : Operation Expr} {e x : Expr} (he : e ∈ op.operands)
    (hx : e.Holds x) : (Expr.operation op).Holds x :=
  .trans (.child .self he) hx

/-- Whether the expression is a quantifier over a subquery. -/
def IsQuantified (e : Expr) : Prop := ∃ op, e = .operation op ∧ op.operator ∈ Operator.quantifiers

end Expr

/-- What holds of an operation and its operands. -/
structure Operation.WellFormed (r : Registry) (op : Operation Expr) : Prop where
  /-- An operator has as many operands as it takes. -/
  count : op.operator ∈ Operator.applied →
    (Operator.operandCount op.operator).1 ≤ op.operands.length ∧
      ∀ greatest ∈ (Operator.operandCount op.operator).2, op.operands.length ≤ greatest
  /-- EXISTS and the quantifiers stand over a query. -/
  subquery : op.operator = Operator.exist ∨ op.operator ∈ Operator.quantifiers →
    ∃ q, op.operands = [.query q]
  /-- What is no operator is a call. -/
  call : op.call = true ↔ op.operator ∉ Operator.applied
  /-- A call is of a registered function that takes so many arguments. -/
  registered : op.call = true →
    ∃ arity, r.arity? op.operator = some arity ∧ arity.accepts op.operands.length = true
  /-- The column `*` is an argument of calls only. -/
  star : Expr.star ∈ op.operands → op.call = true
  /-- A quantifier is nothing but the right side of a comparison. -/
  quantified : ∀ i e, op.operands[i]? = some e → e.IsQuantified →
    op.operator ∈ Operator.comparisons ∧ i = 1

/-- What holds of a query and its clauses. -/
structure Query.WellFormed (q : Query Expr) : Prop where
  items : q.items ≠ []
  sources : q.sources ≠ []
  group : ∀ g ∈ q.groupBy, g.exprs ≠ []
  set : ∀ op ∈ q.setOperation, op.operator ∈ Operator.setOperators ∧ ∃ q', op.operands = [.query q']
  star : Expr.star ∉ q.parts
  quantified : ∀ e ∈ q.parts, ¬ e.IsQuantified

/-- What holds of an expression at its root. -/
def Expr.RootFormed (r : Registry) : Expr → Prop
  | .operation op => op.WellFormed r
  | .query q => q.WellFormed
  | .constant _ => True
  | .placeholder => True

/-- What holds of an expression at every place of it, and of the expression in its own place. -/
structure Expr.WellFormed (r : Registry) (e : Expr) : Prop where
  star : e ≠ Expr.star
  quantified : ¬ e.IsQuantified
  everywhere : ∀ x, e.Holds x → x.RootFormed r

/-- The expressions and queries that a statement is made of. -/
def Statement.parts : Statement → List Expr
  | .query q => [.query q]
  | .insert ⟨_, _, .list values⟩ => values
  | .insert ⟨_, _, .query q⟩ => [.query q]
  | .update u => u.assignments.map Prod.snd ++ u.condition.toList
  | .delete d => d.condition.toList
  | .lock _ => []
  | .transaction _ => []

/-- The lists of a statement that are not empty. -/
def Statement.Filled : Statement → Prop
  | .insert i => i.columns ≠ some [] ∧ i.source ≠ .list []
  | .update u => u.assignments ≠ []
  | .lock l => l.tables ≠ []
  | .query _ => True
  | .delete _ => True
  | .transaction _ => True

/-- What holds of a statement and of every expression in it. -/
structure Statement.WellFormed (r : Registry) (s : Statement) : Prop where
  filled : s.Filled
  parts : ∀ e ∈ s.parts, e.WellFormed r

namespace Expr

variable {r : Registry}

theorem Plain.not_isQuantified {e : Expr} (h : e.Plain) : ¬ e.IsQuantified := by
  rintro ⟨op, rfl, hop⟩
  exact h.2 op rfl hop

theorem Formed.children {e : Expr} (h : e.Formed r) : ∀ x ∈ e.children, x.Formed r := by
  cases h with
  | constant | placeholder => simp [Expr.children]
  | operation _ hoperands => exact hoperands
  | query _ hparts => exact hparts

theorem Formed.holds {e x : Expr} (h : e.Formed r) (hx : e.Holds x) : x.Formed r := by
  induction hx with
  | self => exact h
  | child _ hy ih => exact ih.children _ hy

end Expr

namespace Operation

variable {r : Registry}

/-- Operands that may stand anywhere are in place under every operator but the quantifiers. -/
theorem wellFormed_of_plain {o : String} {es : List Expr} (ho : o ∈ Operator.applied)
    (hsubquery : o ≠ Operator.exist ∧ o ∉ Operator.quantifiers)
    (hcount : (Operator.operandCount o).1 ≤ es.length ∧
      ∀ greatest ∈ (Operator.operandCount o).2, es.length ≤ greatest)
    (hes : ∀ e ∈ es, e.Plain) : WellFormed r ⟨o, es, false⟩ where
  count _ := hcount
  subquery h := (h.elim hsubquery.1 hsubquery.2).elim
  call := by simpa using ho
  registered := nofun
  star h := absurd rfl (hes _ h).1
  quantified i e hi he := by
    have hmem : e ∈ es := List.mem_of_getElem? hi
    exact absurd he (hes e hmem).not_isQuantified

/-- A single query is in place under every operator that takes one. -/
theorem wellFormed_of_query {o : String} {q : Query Expr}
    (ho : o = Operator.exist ∨ o ∈ Operator.quantifiers) : WellFormed r ⟨o, [.query q], false⟩ := by
  have happlied : ∀ o ∈ Operator.exist :: Operator.quantifiers,
      o ∈ Operator.applied ∧ Operator.operandCount o = (1, some 1) := by decide
  obtain ⟨ho', hcount⟩ := happlied o (List.mem_cons.mpr ho)
  exact {
    count := fun _ => by simp [hcount]
    subquery := fun _ => ⟨q, rfl⟩
    call := by simpa using ho'
    registered := nofun
    star := fun h => by cases List.mem_singleton.mp h
    quantified := fun i e hi he => by
      obtain rfl := List.mem_singleton.mp (List.mem_of_getElem? hi)
      exact absurd he (Expr.plain_query q).not_isQuantified }

theorem Form.wellFormed {op : Operation Expr} (h : op.Form r) : op.WellFormed r := by
  cases h with
  | @comparison o a b ho ha hb =>
    have hfacts : ∀ o ∈ Operator.comparisons, o ∈ Operator.applied ∧
        (o ≠ Operator.exist ∧ o ∉ Operator.quantifiers) ∧
        Operator.operandCount o = (2, some 2) := by decide
    obtain ⟨happlied, hsubquery, hcount⟩ := hfacts o ho
    obtain hb | ⟨o', -, q, rfl⟩ := hb
    · exact wellFormed_of_plain happlied hsubquery (by simp [hcount]) (by simp [ha, hb])
    · exact {
        count := fun _ => by simp [hcount]
        subquery := fun h => (h.elim hsubquery.1 hsubquery.2).elim
        call := by simpa using happlied
        registered := nofun
        star := fun h => by
          obtain h | h := (by simpa using h : Expr.star = a ∨ Expr.star = .unary o' (.query q))
          · exact absurd h.symm ha.1
          · cases h
        quantified := fun i e hi he => by
          match i with
          | 0 =>
            obtain rfl : a = e := by simpa using hi
            exact absurd he ha.not_isQuantified
          | 1 => exact ⟨ho, rfl⟩
          | i + 2 => simp at hi }
  | @like o a b ho ha hb =>
    have hfacts : ∀ o ∈ Operator.likes, o ∈ Operator.applied ∧
        (o ≠ Operator.exist ∧ o ∉ Operator.quantifiers) ∧
        Operator.operandCount o = (2, some 2) := by decide
    obtain ⟨happlied, hsubquery, hcount⟩ := hfacts o ho
    exact wellFormed_of_plain happlied hsubquery (by simp [hcount]) (by simp [ha, hb])
  | @range o a b c ho ha hb hc =>
    have hfacts : ∀ o ∈ Operator.ranges, o ∈ Operator.applied ∧
        (o ≠ Operator.exist ∧ o ∉ Operator.quantifiers) ∧
        Operator.operandCount o = (3, some 3) := by decide
    obtain ⟨happlied, hsubquery, hcount⟩ := hfacts o ho
    exact wellFormed_of_plain happlied hsubquery (by simp [hcount]) (by simp [ha, hb, hc])
  | @membership o a es ho ha hne hes =>
    have hfacts : ∀ o ∈ Operator.memberships, o ∈ Operator.applied ∧
        (o ≠ Operator.exist ∧ o ∉ Operator.quantifiers) ∧
        Operator.operandCount o = (2, none) := by decide
    obtain ⟨happlied, hsubquery, hcount⟩ := hfacts o ho
    have hlength := List.length_pos_iff.mpr hne
    exact wellFormed_of_plain happlied hsubquery (by simp [hcount]; omega) (by simpa using ⟨ha, hes⟩)
  | @nullTest o a ho ha =>
    have hfacts : ∀ o ∈ Operator.nullTests, o ∈ Operator.applied ∧
        (o ≠ Operator.exist ∧ o ∉ Operator.quantifiers) ∧
        Operator.operandCount o = (1, some 1) := by decide
    obtain ⟨happlied, hsubquery, hcount⟩ := hfacts o ho
    exact wellFormed_of_plain happlied hsubquery (by simp [hcount]) (by simpa using ha)
  | not ha => exact wellFormed_of_plain (by decide) (by decide) (by simp; decide) (by simpa using ha)
  | sign ha => exact wellFormed_of_plain (by decide) (by decide) (by simp; decide) (by simpa using ha)
  | @chain o es ho hlength hes =>
    have hfacts : ∀ o ∈ Operator.chains, o ∈ Operator.applied ∧
        (o ≠ Operator.exist ∧ o ∉ Operator.quantifiers) ∧
        (Operator.operandCount o).1 ≤ 2 ∧ (Operator.operandCount o).2 = none := by decide
    obtain ⟨happlied, hsubquery, hcount, hgreatest⟩ := hfacts o ho
    exact wellFormed_of_plain happlied hsubquery ⟨by omega, by simp [hgreatest]⟩ hes
  | list hlength hes =>
    have hcount : Operator.operandCount Operator.list = (2, none) := by decide
    exact wellFormed_of_plain (by decide) (by decide) (by simpa [hcount] using hlength) hes
  | «exists» => exact wellFormed_of_query (.inl rfl)
  | quantifier ho => exact wellFormed_of_query (.inr ho)
  | @call name arity args hname harity haccepts hargs =>
    have happlied : Text.upper name ∉ Operator.applied := fun hmem =>
      hname.upper.not_operator (Operator.applied_subset _ hmem)
    exact {
      count := fun h => absurd h happlied
      subquery := fun h => absurd (Operator.mem_applied_of_subquery h) happlied
      call := by simpa using happlied
      registered := fun _ => ⟨arity, (Registry.arity?_upper r name).trans harity, haccepts⟩
      star := fun _ => rfl
      quantified := fun i e hi he => by
        obtain h | rfl := hargs e (List.mem_of_getElem? hi)
        · exact absurd he h.not_isQuantified
        · obtain ⟨_, h, -⟩ := he
          cases h }

end Operation

/-- What an item of a select list holds may stand anywhere. -/
theorem SelectItem.Form.plain {r : Registry} {i : SelectItem Expr} (h : i.Form r) :
    ∀ e ∈ i.expression, e.Plain := by
  intro e he
  cases h with
  | all => cases he
  | column ht _ =>
    rw [SelectItem.expression_aliased] at he
    obtain ⟨ks, hks, hcolumn⟩ := ht
    obtain rfl := SelectItem.expression_column he
    exact Expr.plain_constant fun heq => hcolumn.ne_star hks (Constant.mk.inj heq).2
  | expression hcolumn hplain _ =>
    rw [SelectItem.expression_aliased, SelectItem.expression_ofExpr hcolumn] at he
    obtain rfl := Option.some.inj he
    exact hplain

/-- What stands in the clauses of a query may stand anywhere. -/
theorem Query.Form.plain {r : Registry} {q : Query Expr} (h : q.Form r) :
    ∀ e ∈ q.parts, e.Plain := by
  intro e he
  obtain ⟨i, hi, he⟩ | he | ⟨g, hg, he⟩ | ⟨op, hop, he⟩ | ⟨entry, hentry, rfl⟩ := Query.mem_parts.mp he
  · exact (h.item i hi).plain e he
  · exact h.condition e he
  · exact he.elim ((h.group g hg).2.1 e) ((h.group g hg).2.2 e)
  · obtain ⟨o, -, q', rfl⟩ := h.set op hop
    obtain rfl := List.mem_singleton.mp he
    exact Expr.plain_query q'
  · exact h.order entry hentry

theorem Query.Form.wellFormed {r : Registry} {q : Query Expr} (h : q.Form r) : q.WellFormed where
  items := h.items
  sources := h.sources
  group g hg := (h.group g hg).1
  set op hop := by
    obtain ⟨o, ho, q', rfl⟩ := h.set op hop
    exact ⟨ho, q', rfl⟩
  star hmem := (h.plain _ hmem).1 rfl
  quantified e he := (h.plain e he).not_isQuantified

namespace Expr

variable {r : Registry}

theorem Formed.root {e : Expr} (h : e.Formed r) : e.RootFormed r := by
  cases h with
  | constant | placeholder => trivial
  | operation hform _ => exact hform.wellFormed
  | query hform _ => exact hform.wellFormed

theorem Free.wellFormed {e : Expr} (h : e.Free r) : e.WellFormed r where
  star := h.2.1
  quantified := h.2.not_isQuantified
  everywhere _ hx := (h.1.holds hx).root

end Expr

namespace Statement.Formed

variable {r : Registry} {s : Statement}

theorem filled (h : s.Formed r) : s.Filled := by
  cases h with
  | query | delete | transaction => trivial
  | @insert _ columns _ _ hcolumns hrows =>
    refine ⟨?_, ?_⟩
    · rintro rfl
      exact (hcolumns [] rfl).1 rfl
    · rintro rfl
      cases hrows with
      | list hes => exact hes rfl
  | update _ _ hne => exact hne
  | lock hne => exact hne

/-- Every part of a statement may stand anywhere. -/
theorem parts_free (h : s.Formed r) : ∀ e ∈ s.parts, e.Free r := by
  cases h with
  | query hq => simpa [parts] using Rule.free_query hq
  | insert _ _ hrows =>
    cases hrows with
    | list _ hfree => exact hfree
    | query hq => simpa [parts] using Rule.free_query hq
  | update _ _ _ _ hassignments hcondition =>
    intro e he
    obtain he | he := List.mem_append.mp he
    · obtain ⟨a, ha, rfl⟩ := List.mem_map.mp he
      exact (hassignments a ha).2
    · exact hcondition e (Option.mem_toList.mp he)
  | delete _ hcondition => exact fun e he => hcondition e (Option.mem_toList.mp he)
  | lock | transaction => exact nofun

theorem wellFormed (h : s.Formed r) : s.WellFormed r :=
  ⟨h.filled, fun e he => (h.parts_free e he).wellFormed⟩

end Statement.Formed

/-- Every statement and every expression that is read at any place of a text is well formed. -/
theorem read_wellFormed (r : Registry) (text : String) (c : Cursor)
    (hc : (Cursor.ofText text).Reaches c) :
    (∀ s, (Grammar.statement? r c).1 = .ok (some s) → s.WellFormed r) ∧
      (∀ ss, (Grammar.statements r c).1 = .ok ss → ∀ s ∈ ss, s.WellFormed r) ∧
      ∀ e, (Grammar.condition r c).1 = .ok e → e.WellFormed r := by
  refine ⟨fun s h => ?_, fun ss h s hs => ?_, fun e h => ?_⟩
  · exact (Grammar.statement?_formed hc (Prod.ext h rfl)).wellFormed
  · exact (Grammar.statements_formed hc (Prod.ext h rfl) s hs).wellFormed
  · exact (Grammar.condition_free hc (Prod.ext h rfl)).wellFormed

theorem read_wellFormed_quantified :
    ∃ e, (Grammar.condition Registry.builtin (Cursor.ofText "a = any (select b from t)")).1 = .ok e ∧
      e.WellFormed Registry.builtin := by
  have hread : (Grammar.condition Registry.builtin
      (Cursor.ofText "a = any (select b from t)")).1.toOption.isSome = true := by decide +kernel
  obtain ⟨e, he⟩ := Option.isSome_iff_exists.mp hread
  have he := ok_of_toOption he
  exact ⟨e, he, (read_wellFormed _ "a = any (select b from t)" _ (.refl _)).2.2 e he⟩

end SqlFront
