import SqlFront.Proofs.Couplings
import SqlFront.Proofs.ItemNames

/-! # Where select items come from

A tree holds select items at any depth, in subqueries of subqueries. `Finds` says that a reading whose
value holds a given item has read that item, as an item, at a place it passed. Main statement: so it is
with every statement, all statements of a text, and a condition.
-/

namespace SqlFront

variable {α β σ : Type} {r : Registry} {i : SelectItem Expr}

namespace Expr

/-- The item stands in a select list somewhere in the expression. -/
def HasItem (e : Expr) (i : SelectItem Expr) : Prop :=
  ∃ q, e.Holds (.query q) ∧ i ∈ q.items

theorem hasItem_iff {e : Expr} :
    e.HasItem i ↔ (∃ q, e = .query q ∧ i ∈ q.items) ∨ ∃ x ∈ e.children, x.HasItem i := by
  constructor
  · rintro ⟨q, hq, hi⟩
    obtain heq | ⟨x, hx, hq⟩ := holds_cases hq
    · exact .inl ⟨q, heq.symm, hi⟩
    · exact .inr ⟨x, hx, q, hq, hi⟩
  · rintro (⟨q, rfl, hi⟩ | ⟨x, hx, q, hq, hi⟩)
    · exact ⟨q, .self, hi⟩
    · exact ⟨q, .trans (.child .self hx) hq, hi⟩

@[simp] theorem hasItem_constant (c : Constant) : ¬ (Expr.constant c).HasItem i := by
  rw [hasItem_iff]
  simp [children]

@[simp] theorem hasItem_column (t : String) : ¬ (Expr.column t).HasItem i :=
  hasItem_constant _

@[simp] theorem hasItem_operation (op : Operation Expr) :
    (Expr.operation op).HasItem i ↔ ∃ e ∈ op.operands, e.HasItem i := by
  rw [hasItem_iff]
  simp [children]

@[simp] theorem hasItem_unary (o : String) (e : Expr) : (unary o e).HasItem i ↔ e.HasItem i := by
  simp [unary]

@[simp] theorem hasItem_binary (o : String) (left right : Expr) :
    (binary o left right).HasItem i ↔ left.HasItem i ∨ right.HasItem i := by
  simp [binary]

@[simp] theorem hasItem_applied (o : String) (es : List Expr) :
    (applied o es).HasItem i ↔ ∃ e ∈ es, e.HasItem i := by
  simp [applied]

@[simp] theorem hasItem_query (q : Query Expr) :
    (Expr.query q).HasItem i ↔ i ∈ q.items ∨ ∃ e ∈ q.parts, e.HasItem i := by
  rw [hasItem_iff]
  simp [children]

@[simp] theorem hasItem_placeholder : ¬ Expr.placeholder.HasItem i := by
  rw [hasItem_iff]
  simp [children]

end Expr

namespace Statement

theorem hasItem_iff {s : Statement} : s.HasItem i ↔ ∃ e ∈ s.parts, e.HasItem i := Iff.rfl

@[simp] theorem hasItem_query (q : Query Expr) :
    (Statement.query q).HasItem i ↔ (Expr.query q).HasItem i := by
  simp [hasItem_iff, parts]

@[simp] theorem hasItem_insert_query (table : String) (columns : Option (List String))
    (q : Query Expr) :
    (Statement.insert ⟨table, columns, .query q⟩).HasItem i ↔ (Expr.query q).HasItem i := by
  simp [hasItem_iff, parts]

@[simp] theorem hasItem_delete (d : Delete) :
    (Statement.delete d).HasItem i ↔ ∃ e ∈ d.condition, e.HasItem i := by
  simp [hasItem_iff, parts]

@[simp] theorem hasItem_lock (l : Lock) : ¬ (Statement.lock l).HasItem i := by
  simp [hasItem_iff, parts]

@[simp] theorem hasItem_transaction (t : Transaction) : ¬ (Statement.transaction t).HasItem i := by
  simp [hasItem_iff, parts]

end Statement

@[simp] theorem Grammar.Chain.hasItem_join (chain : Chain) (operator : String) (right : Expr) :
    (chain.join operator right).expr.HasItem i ↔ chain.expr.HasItem i ∨ right.HasItem i := by
  rw [join]
  split
  · rename_i op _ hexpr _
    rw [hexpr]
    simp [or_and_right, exists_or]
  · simp

/-- Whatever an item made of an expression holds is that expression. -/
theorem SelectItem.mem_expression_ofExpr {e x : Expr} {a : Option String}
    (h : x ∈ ((ofExpr r e).aliased a).expression) : x = e := by
  rw [expression_aliased] at h
  obtain ⟨hsome, -⟩ | ⟨-, -, -, hsome | hnone⟩ := ofExpr_cases r e
  · exact (Option.some.inj (hsome.symm.trans h)).symm
  · exact (Option.some.inj (hsome.symm.trans h)).symm
  · cases hnone.symm.trans h

/-- Between the two places there is one at which the item is read. -/
def SelectItem.ReadBetween (r : Registry) (i : SelectItem Expr) (c d : Cursor) : Prop :=
  ∃ start finish, c.Reaches start ∧
    Grammar.selectItem r (Grammar.readers r) start = (.ok i, finish) ∧ finish.Reaches d

theorem SelectItem.ReadBetween.widen {c c' d d' : Cursor} (h : i.ReadBetween r c d)
    (hc : c'.Reaches c) (hd : d.Reaches d') : i.ReadBetween r c' d' := by
  obtain ⟨start, finish, hstart, hread, hfinish⟩ := h
  exact ⟨start, finish, hc.trans hstart, hread, hfinish.trans hd⟩

namespace Reading

/-- If the value that is read holds the item, then the item has been read on the way. -/
def Finds (r : Registry) (i : SelectItem Expr) (p : Reading α) (holds : α → Prop) : Prop :=
  ∀ ⦃c a d⦄, p c = (.ok a, d) → holds a → i.ReadBetween r c d

variable {p : Reading α} {f : α → Reading β} {P : α → Prop} {Q : β → Prop}

theorem reaches_of {c d : Cursor} {x : Except ReadError α} (h : p c = (x, d)) : c.Reaches d := by
  have hforward : c.Reaches (p c).2 := p.forward c
  rwa [h] at hforward

/-- What the first value holds has been read already, so the second reading answers for the rest. -/
theorem Finds.bind (hp : Finds r i p P) (hf : ∀ a, ¬ P a → Finds r i (f a) Q) :
    Finds r i (p >>= f) Q := by
  intro c b d h hb
  obtain ⟨a, e, hfirst, hrest⟩ := bind_ok.mp h
  by_cases ha : P a
  · exact (hp hfirst ha).widen (.refl c) (reaches_of hrest)
  · exact (hf a ha hrest hb).widen (reaches_of hfirst) (.refl d)

theorem finds_skip (hf : ∀ a, Finds r i (f a) Q) : Finds r i (p >>= f) Q :=
  Finds.bind (P := fun _ => False) nofun fun a _ => hf a

theorem finds_pure {a : α} (h : ¬ P a) : Finds r i (pure a) P := by
  intro c b d hp hb
  obtain ⟨rfl, -⟩ := pure_ok.mp hp
  exact absurd hb h

theorem finds_unexpected (expected : Expected) : Finds r i (unexpected expected) P :=
  fun _ _ _ h => absurd h (by simp [unexpected_ok])

theorem finds_failAt (fault : Fault) (place : Span) : Finds r i (failAt fault place) P :=
  fun _ _ _ h => absurd h (by simp [failAt_ok])

/-- A loop finds what each of its steps adds. -/
theorem finds_iterate {step : σ → Reading (ForInStep σ)} {P : σ → Prop}
    (hstep : ∀ s, ¬ P s → Finds r i (step s) fun turn => P turn.value) {s : σ} (hs : ¬ P s) :
    Finds r i (iterate step s) P := by
  have hlimit (limit : Nat) (s : σ) (hs : ¬ P s) : Finds r i (iterateAtMost step limit s) P := by
    induction limit generalizing s with
    | zero => exact finds_pure hs
    | succ limit ih =>
      refine (hstep s hs).bind fun turn hturn => ?_
      cases turn with
      | done t => exact finds_pure hturn
      | yield t => exact ih t hturn
  exact fun c _ _ h => hlimit (c.ahead.length + 1) s hs h

theorem finds_commaList (h : Finds r i p P) : Finds r i (commaList p) fun as => ∃ a ∈ as, P a := by
  refine h.bind fun first hfirst => finds_iterate (fun as has => ?_) (by simpa using hfirst)
  refine finds_skip fun b => ?_
  cases b
  · exact finds_pure has
  · refine h.bind fun a ha => finds_pure ?_
    simp only [ForInStep.value, List.mem_append, List.mem_singleton]
    rintro ⟨x, hx | rfl, hP⟩
    · exact has ⟨x, hx, hP⟩
    · exact ha hP

end Reading

/-- The parts find the item, and what they read as that item is read as it everywhere. -/
structure Readers.Find (part : Readers) (r : Registry) (i : SelectItem Expr) : Prop where
  expression : ∀ power, (part.expression power).Finds r i (·.HasItem i)
  query : part.query.Finds r i fun q => (Expr.query q).HasItem i
  item : ∀ ⦃c d⦄, Grammar.selectItem r part c = (.ok i, d) →
    Grammar.selectItem r (Grammar.readers r) c = (.ok i, d)

namespace Grammar

open Reading

/-! ## Expressions -/

section

variable {part : Readers} (hpart : part.Find r i)

include hpart

theorem enclosedQuery_finds : (enclosedQuery part).Finds r i fun q => (Expr.query q).HasItem i :=
  finds_skip fun _ => hpart.query.bind fun _ hq => finds_skip fun _ => finds_pure hq

theorem expressions_finds : (expressions part).Finds r i fun es => ∃ e ∈ es, e.HasItem i :=
  finds_commaList (hpart.expression 0)

theorem enclosed_finds : (enclosed part).Finds r i (·.HasItem i) := by
  refine finds_skip fun k => ?_
  split
  · exact (enclosedQuery_finds hpart).bind fun _ hq => finds_pure hq
  · refine finds_skip fun _ => (expressions_finds hpart).bind fun es hes => finds_skip fun _ => ?_
    split
    · exact finds_pure (by simpa using hes)
    · exact finds_pure (by simpa using hes)

omit hpart in
theorem columnRest_finds (first : String) : (columnRest first).Finds r i (·.HasItem i) :=
  finds_skip fun t => finds_pure (Expr.hasItem_column t)

theorem argument_finds : (argument part).Finds r i (·.HasItem i) := by
  refine finds_skip fun b => ?_
  cases b
  · exact hpart.expression 0
  · exact finds_pure (Expr.hasItem_column _)

theorem arguments_finds : (arguments part).Finds r i fun es => ∃ e ∈ es, e.HasItem i := by
  refine finds_skip fun k => ?_
  split
  · exact finds_pure (by simp)
  · exact finds_commaList (argument_finds hpart)

theorem callRest_finds (name : String) (place : Span) :
    (callRest r part name place).Finds r i (·.HasItem i) := by
  unfold callRest
  split
  · exact finds_failAt _ _
  · refine finds_skip fun _ => (arguments_finds hpart).bind fun args hargs => finds_skip fun _ => ?_
    split
    · exact finds_pure (by simpa [Expr.call] using hargs)
    · exact finds_skip fun _ => finds_failAt _ _

theorem primary_finds : (primary r part).Finds r i (·.HasItem i) := by
  refine finds_skip fun k => ?_
  split
  · exact finds_skip fun _ => finds_pure (Expr.hasItem_constant _)
  · exact finds_skip fun _ => finds_pure (Expr.hasItem_constant _)
  · exact finds_skip fun _ => finds_pure (Expr.hasItem_constant _)
  · exact finds_skip fun _ => finds_pure Expr.hasItem_placeholder
  · exact finds_skip fun _ => (enclosedQuery_finds hpart).bind fun _ hq =>
      finds_pure (by simpa using hq)
  · exact enclosed_finds hpart
  · refine finds_skip fun place => finds_skip fun _ => finds_skip fun k => ?_
    split
    · exact callRest_finds hpart _ _
    · exact columnRest_finds _
  · exact finds_unexpected _

theorem operand_finds : (operand r part).Finds r i (·.HasItem i) := by
  refine finds_skip fun k => ?_
  split
  · exact finds_skip fun _ => (hpart.expression _).bind fun _ he => finds_pure (by simpa using he)
  · exact finds_skip fun _ => (hpart.expression _).bind fun _ he => finds_pure (by simpa using he)
  · exact finds_skip fun _ => hpart.expression _
  · exact primary_finds hpart

theorem comparand_finds (power : Nat) : (comparand part power).Finds r i (·.HasItem i) := by
  have hquantified (operator : String) : Finds r i
      (do advance; return Expr.unary operator (.query (← enclosedQuery part))) (·.HasItem i) :=
    finds_skip fun _ => (enclosedQuery_finds hpart).bind fun _ hq => finds_pure (by simpa using hq)
  refine finds_skip fun k => ?_
  split
  · exact hquantified _
  · exact hquantified _
  · exact hquantified _
  · exact hpart.expression power

theorem candidates_finds : (candidates part).Finds r i fun es => ∃ e ∈ es, e.HasItem i := by
  refine finds_skip fun k => ?_
  split
  · exact hpart.query.bind fun _ hq => finds_pure (by simpa using hq)
  · exact expressions_finds hpart

theorem testOf_finds {left : Expr} (hleft : ¬ left.HasItem i) (negated : Bool) :
    (testOf part left negated).Finds r i (·.HasItem i) := by
  refine finds_skip fun k => ?_
  split
  · exact finds_skip fun _ => (hpart.expression _).bind fun _ hlow => finds_skip fun _ =>
      (hpart.expression _).bind fun _ hhigh => finds_pure (by simp [hleft, hlow, hhigh])
  · exact finds_skip fun _ => (hpart.expression _).bind fun _ hpattern =>
      finds_pure (by simp [hleft, hpattern])
  · exact finds_skip fun _ => finds_skip fun _ => (candidates_finds hpart).bind fun _ hes =>
      finds_skip fun _ => finds_pure (by simpa [hleft] using hes)
  · exact finds_unexpected _

theorem test_finds {left : Expr} (hleft : ¬ left.HasItem i) :
    (test part left).Finds r i (·.HasItem i) :=
  finds_skip fun negated => testOf_finds hpart hleft negated

omit hpart in
theorem nullTest_finds {left : Expr} (hleft : ¬ left.HasItem i) :
    (nullTest left).Finds r i (·.HasItem i) :=
  finds_skip fun _ => finds_skip fun _ => finds_skip fun _ => finds_pure (by simpa using hleft)

theorem chainStep_finds (power : Nat) {chain : Chain} (hchain : ¬ chain.expr.HasItem i) :
    (chainStep part power chain).Finds r i (·.value.expr.HasItem i) := by
  refine finds_skip fun k => ?_
  split
  · exact finds_pure hchain
  · split
    · exact finds_pure hchain
    · split
      · exact (nullTest_finds hchain).bind fun _ he => finds_pure he
      · exact (test_finds hpart hchain).bind fun _ he => finds_pure he
      · split
        · exact finds_skip fun _ => finds_failAt _ _
        · exact finds_skip fun _ => (comparand_finds hpart _).bind fun _ he =>
            finds_pure (by simp [ForInStep.value, hchain, he])
      · exact finds_skip fun _ => (hpart.expression _).bind fun _ he =>
          finds_pure (by simp [ForInStep.value, hchain, he])

theorem expression_finds (power : Nat) : (expression r part power).Finds r i (·.HasItem i) :=
  (operand_finds hpart).bind fun _ hfirst =>
    (finds_iterate (fun _ hchain => chainStep_finds hpart power hchain) hfirst).bind fun _ hchain =>
      finds_pure hchain

/-! ## Queries -/

/-- An item is found either because it is read here or because it stands in what is read here. -/
theorem selectItem_finds :
    (selectItem r part).Finds r i fun item => item = i ∨ ∃ e ∈ item.expression, e.HasItem i := by
  have hwithin : (selectItem r part).Finds r i fun item => ∃ e ∈ item.expression, e.HasItem i := by
    refine finds_skip fun b => ?_
    cases b
    · refine (hpart.expression 0).bind fun e he => finds_skip fun a => ?_
      have hitem : ¬ ∃ x ∈ ((SelectItem.ofExpr r e).aliased a).expression, x.HasItem i := by
        rintro ⟨x, hx, hi⟩
        exact he (SelectItem.mem_expression_ofExpr hx ▸ hi)
      cases a <;> exact finds_pure hitem
    · refine finds_pure ?_
      rintro ⟨x, hx, hi⟩
      rw [SelectItem.expression_column hx] at hi
      exact Expr.hasItem_column _ hi
  rintro c item d h (rfl | hitem)
  · exact ⟨c, d, .refl c, hpart.item h, .refl d⟩
  · exact hwithin h hitem

theorem clause?_finds (word : Keyword) :
    (clause? part word).Finds r i fun o => ∃ e ∈ o, e.HasItem i := by
  refine finds_skip fun b => ?_
  cases b
  · exact finds_pure (by simp)
  · exact (hpart.expression 0).bind fun _ he => finds_pure (by simpa using he)

theorem groupBy?_finds : (groupBy? part).Finds r i fun o =>
    ∃ g ∈ o, (∃ e ∈ g.exprs, e.HasItem i) ∨ ∃ e ∈ g.having, e.HasItem i := by
  refine finds_skip fun b => ?_
  cases b
  · exact finds_pure (by simp)
  · refine finds_skip fun _ => (expressions_finds hpart).bind fun es hes =>
      (clause?_finds hpart .having).bind fun having hhaving => finds_pure ?_
    simp only [Option.mem_some, exists_eq_left']
    exact fun h => h.elim hes hhaving

theorem joinedQuery_finds : (joinedQuery part).Finds r i fun q => (Expr.query q).HasItem i := by
  refine finds_skip fun k => ?_
  split
  · exact enclosedQuery_finds hpart
  · exact hpart.query

theorem setOperation?_finds : (setOperation? part).Finds r i fun o =>
    ∃ op ∈ o, ∃ e ∈ op.operands, e.HasItem i := by
  refine finds_skip fun operator => ?_
  cases operator
  · exact finds_pure (by simp)
  · exact (joinedQuery_finds hpart).bind fun _ hq => finds_pure (by simpa using hq)

theorem orderEntry_finds : (orderEntry part).Finds r i (·.expr.HasItem i) := by
  refine (hpart.expression 0).bind fun _ he => finds_skip fun b => ?_
  cases b
  · exact finds_skip fun _ => finds_pure he
  · exact finds_pure he

theorem orderBy_finds : (orderBy part).Finds r i fun os => ∃ o ∈ os, o.expr.HasItem i := by
  refine finds_skip fun b => ?_
  cases b
  · exact finds_pure (by simp)
  · exact finds_skip fun _ => finds_commaList (orderEntry_finds hpart)

theorem query_finds : (query r part).Finds r i fun q => (Expr.query q).HasItem i := by
  refine finds_skip fun _ => finds_skip fun _ =>
    (finds_commaList (selectItem_finds hpart)).bind fun items hitems => finds_skip fun _ =>
    finds_skip fun _ => (clause?_finds hpart .where).bind fun condition hcondition =>
    (groupBy?_finds hpart).bind fun group hgroup => (setOperation?_finds hpart).bind fun set hset =>
    (orderBy_finds hpart).bind fun order horder => finds_skip fun _ => finds_pure ?_
  simp only [Expr.hasItem_query, Query.mem_parts]
  rintro (hi | ⟨e, ⟨item, hitem, he⟩ | he | ⟨g, hg, he⟩ | ⟨op, hop, he⟩ | ⟨o, ho, rfl⟩, hi⟩)
  · exact hitems ⟨i, hi, .inl rfl⟩
  · exact hitems ⟨item, hitem, .inr ⟨e, he, hi⟩⟩
  · exact hcondition ⟨e, he, hi⟩
  · exact hgroup ⟨g, hg, he.imp (⟨e, ·, hi⟩) (⟨e, ·, hi⟩)⟩
  · exact hset ⟨op, hop, e, he, hi⟩
  · exact horder ⟨o, ho, hi⟩

end

/-- Nothing is asked of where the readings run, or of their failures. -/
def unconditional : Coupling where
  stands _ := True
  failure _ _ := True
  stands_reaches _ _ := trivial
  unexpected _ _ := trivial
  other _ _ := trivial

/-- What readers of some depth read, the readers for all tokens ahead read alike. -/
theorem readersOfDepth_within (r : Registry) (depth : Nat) :
    unconditional.Parts (readersOfDepth r depth) (readers r) := by
  induction depth with
  | zero => exact ⟨fun _ => Coupling.coupled_unexpected _ _, Coupling.coupled_unexpected _ _⟩
  | succ depth ih =>
    constructor
    · intro power
      rw [expression_readers]
      exact expression_coupled ih (.refl r) power
    · rw [query_readers]
      exact query_coupled ih fun _ _ _ _ _ => rfl

theorem readersOfDepth_find (r : Registry) (i : SelectItem Expr) (depth : Nat) :
    (readersOfDepth r depth).Find r i := by
  have hitem (depth : Nat) ⦃c d : Cursor⦄ (h : selectItem r (readersOfDepth r depth) c = (.ok i, d)) :
      selectItem r (readers r) c = (.ok i, d) :=
    (selectItem_coupled (readersOfDepth_within r depth) fun _ _ _ _ _ => rfl).ok trivial h
  induction depth with
  | zero => exact ⟨fun _ => finds_unexpected _, finds_unexpected _, hitem 0⟩
  | succ depth ih => exact ⟨expression_finds ih, query_finds ih, hitem (depth + 1)⟩

theorem readers_find (r : Registry) (i : SelectItem Expr) : (readers r).Find r i where
  expression power _ _ _ h := (readersOfDepth_find r i _).expression power h
  query _ _ _ h := (readersOfDepth_find r i _).query h
  item _ _ h := h

/-! ## Statements -/

theorem insertSource_finds (table : String) (columns : Option (List String)) :
    (insertSource r).Finds r i fun source => (Statement.insert ⟨table, columns, source⟩).HasItem i := by
  refine finds_skip fun k => ?_
  split
  · exact finds_skip fun _ => finds_skip fun _ => (expressions_finds (readers_find r i)).bind
      fun _ hes => finds_skip fun _ => finds_pure hes
  · exact (readers_find r i).query.bind fun _ hq => finds_pure (by simpa using hq)
  · exact (enclosedQuery_finds (readers_find r i)).bind fun _ hq => finds_pure (by simpa using hq)
  · exact finds_unexpected _

theorem insert_finds : (insert r).Finds r i fun s => (Statement.insert s).HasItem i :=
  finds_skip fun _ => finds_skip fun _ => finds_skip fun table => finds_skip fun columns =>
    (insertSource_finds table columns).bind fun _ hsource => finds_pure hsource

theorem assignment_finds : (assignment r).Finds r i (·.2.HasItem i) :=
  finds_skip fun _ => finds_skip fun _ => ((readers_find r i).expression 0).bind fun _ he =>
    finds_pure he

theorem update_finds : (update r).Finds r i fun s => (Statement.update s).HasItem i := by
  have hwritten : (updateAsWritten r).Finds r i fun s =>
      (∃ a ∈ s.assignments, a.2.HasItem i) ∨ ∃ e ∈ s.condition, e.HasItem i :=
    finds_skip fun _ => finds_skip fun _ => finds_skip fun _ => finds_skip fun _ =>
      (finds_commaList assignment_finds).bind fun _ hset =>
      (clause?_finds (readers_find r i) .where).bind fun _ hcondition =>
      finds_pure fun h => h.elim hset hcondition
  refine hwritten.bind fun u hu => finds_pure ?_
  rintro ⟨e, he, hi⟩
  obtain he | he := List.mem_append.mp he
  · obtain ⟨a, ha, rfl⟩ := List.mem_map.mp he
    exact hu (.inl ⟨a, Update.mem_of_mem_merge ha, hi⟩)
  · exact hu (.inr ⟨e, Option.mem_toList.mp he, hi⟩)

theorem delete_finds : (delete r).Finds r i fun s => (Statement.delete s).HasItem i :=
  finds_skip fun _ => finds_skip fun _ => finds_skip fun _ =>
    (clause?_finds (readers_find r i) .where).bind fun _ hcondition =>
    finds_pure (by simpa using hcondition)

theorem statement_finds : (statement r).Finds r i (·.HasItem i) := by
  refine finds_skip fun k => ?_
  split
  · exact (readers_find r i).query.bind fun _ hq => finds_pure (by simpa using hq)
  · exact insert_finds.bind fun _ h => finds_pure h
  · exact update_finds.bind fun _ h => finds_pure h
  · exact delete_finds.bind fun _ h => finds_pure h
  · exact finds_skip fun _ => finds_pure (Statement.hasItem_transaction _)
  · split
    · exact finds_skip fun _ => finds_pure (Statement.hasItem_lock _)
    · split
      · exact finds_skip fun _ => finds_pure (Statement.hasItem_transaction _)
      · exact finds_unexpected _

theorem statement?_finds : (statement? r).Finds r i fun o => ∃ s ∈ o, s.HasItem i := by
  refine finds_skip fun _ => finds_skip fun k => ?_
  split
  · exact finds_pure (by simp)
  · split
    · exact finds_skip fun _ => finds_pure (by simp)
    · exact statement_finds.bind fun _ hs => finds_skip fun _ => finds_pure (by simpa using hs)

theorem statements_finds : (statements r).Finds r i fun ss => ∃ s ∈ ss, s.HasItem i := by
  refine finds_iterate (fun done hdone => statement?_finds.bind fun o ho => ?_) (by simp)
  cases o with
  | none => exact finds_pure hdone
  | some s =>
    refine finds_pure ?_
    simp only [ForInStep.value, List.mem_append, List.mem_singleton]
    rintro ⟨t, ht | rfl, hi⟩
    · exact hdone ⟨t, ht, hi⟩
    · exact ho ⟨t, rfl, hi⟩

theorem condition_finds : (condition r).Finds r i (·.HasItem i) :=
  finds_skip fun _ => ((readers_find r i).expression 0).bind fun _ he => finds_skip fun _ =>
    finds_pure he

end Grammar

end SqlFront
