import SqlFront.Proofs.Assignments
import SqlFront.Proofs.Spelling
import SqlFront.Proofs.Takes

/-! # The trees that are read

An invariant of trees: operators stand over as many operands as they take, names and numbers are
spelled as tokens are, and clauses are not empty. Main statement: everything that is read from a text
has it.
-/

namespace SqlFront

namespace Operator

/-- The operators that join a row of operands. -/
def chains : List String := [and, or, plus, minus, concat, times, divide, power]

/-- The tests for a pattern. -/
def likes : List String := [like, notLike]

/-- The tests for a range. -/
def ranges : List String := [between, notBetween]

theorem quantifiers_subset : ∀ o ∈ quantifiers, o ∈ texts := by decide

end Operator

namespace Power

theorem chain_operator {k : Token.Kind} {p : Power} {operator : String} (h : of? k = some p)
    (hp : p.continuation = .chain operator) : operator ∈ Operator.chains := by
  unfold of? at h
  split at h <;> first
    | (injection h with h; subst h; injection hp with hp; subst hp; decide)
    | (rw [Option.map_eq_some_iff] at h; obtain ⟨_, _, rfl⟩ := h; cases hp)
    | (injection h with h; subst h; cases hp)
    | simp at h

theorem comparison?_mem {sign : Symbol} {operator : String} (h : comparison? sign = some operator) :
    operator ∈ Operator.comparisons := by
  cases sign <;> cases h <;> decide

theorem comparison_operator {k : Token.Kind} {p : Power} {operator : String} (h : of? k = some p)
    (hp : p.continuation = .comparison operator) : operator ∈ Operator.comparisons := by
  unfold of? at h
  split at h <;> first
    | (injection h with h; subst h; cases hp)
    | (rw [Option.map_eq_some_iff] at h
       obtain ⟨_, hsign, rfl⟩ := h
       injection hp with hp
       exact hp ▸ comparison?_mem hsign)
    | simp at h

end Power

/-- All tokens of a row are spelled as they should be. -/
def Token.Written (ks : List Token.Kind) : Prop := ∀ k ∈ ks, k.Written

/-- A dotted name that tokens can spell. -/
def IsDotted (text : String) : Prop := ∃ ks, Token.Written ks ∧ Rule.Dotted ks text

/-- The name of a column that tokens can spell. -/
def IsColumn (text : String) : Prop := ∃ ks, Token.Written ks ∧ Rule.Column ks text

/-- An alias that a token can spell, or none. -/
def IsAlias (aliasName : Option String) : Prop := ∀ n ∈ aliasName, Token.IsName n

namespace Expr

/-- The column `*`, which is nothing but an argument. -/
def star : Expr := column "*"

/-- An expression that may stand anywhere: neither the column `*` nor a quantifier over a subquery. -/
def Plain (e : Expr) : Prop :=
  e ≠ star ∧ ∀ op, e = .operation op → op.operator ∉ Operator.quantifiers

theorem plain_query (q : Query Expr) : (Expr.query q).Plain :=
  ⟨nofun, nofun⟩

theorem plain_placeholder : Expr.placeholder.Plain :=
  ⟨nofun, nofun⟩

theorem plain_operation {op : Operation Expr} (h : op.operator ∉ Operator.quantifiers) :
    (Expr.operation op).Plain :=
  ⟨nofun, fun _ heq => by cases heq; exact h⟩

theorem plain_constant {c : Constant} (h : c ≠ ⟨.column, "*"⟩) : (Expr.constant c).Plain :=
  ⟨fun heq => h (by cases heq; rfl), nofun⟩

end Expr

/-- How a constant is spelled. -/
inductive Constant.Form : Constant → Prop
  | star : Form ⟨.column, "*"⟩
  | column {t} : IsColumn t → Form ⟨.column, t⟩
  | null : Form ⟨.null, "NULL"⟩
  | number {t} : Token.IsNumber t → Form ⟨.number, t⟩
  | string {v} : Form ⟨.string, v⟩

open SqlFront.Expr in
/-- What stands under an operator. -/
inductive Operation.Form (r : Registry) : Operation Expr → Prop
  | comparison {o a b} : o ∈ Operator.comparisons → Plain a →
      Plain b ∨ (∃ o' ∈ Operator.quantifiers, ∃ q, b = .unary o' (.query q)) →
      Form r ⟨o, [a, b], false⟩
  | like {o a b} : o ∈ Operator.likes → Plain a → Plain b → Form r ⟨o, [a, b], false⟩
  | range {o a b c} : o ∈ Operator.ranges → Plain a → Plain b → Plain c → Form r ⟨o, [a, b, c], false⟩
  | membership {o a es} : o ∈ Operator.memberships → Plain a → es ≠ [] → (∀ e ∈ es, Plain e) →
      Form r ⟨o, a :: es, false⟩
  | nullTest {o a} : o ∈ Operator.nullTests → Plain a → Form r ⟨o, [a], false⟩
  | not {a} : Plain a → Form r ⟨Operator.not, [a], false⟩
  | sign {a} : Plain a → Form r ⟨Operator.minus, [a], false⟩
  | chain {o es} : o ∈ Operator.chains → 2 ≤ es.length → (∀ e ∈ es, Plain e) → Form r ⟨o, es, false⟩
  | list {es} : 2 ≤ es.length → (∀ e ∈ es, Plain e) → Form r ⟨Operator.list, es, false⟩
  | exists {q} : Form r ⟨Operator.exist, [.query q], false⟩
  | quantifier {o q} : o ∈ Operator.quantifiers → Form r ⟨o, [.query q], false⟩
  | call {name arity args} : Token.IsName name → r.arity? name = some arity →
      arity.accepts args.length = true → (∀ e ∈ args, Plain e ∨ e = star) →
      Form r ⟨Text.upper name, args, true⟩

/-- What an item of a select list is. -/
inductive SelectItem.Form (r : Registry) : SelectItem Expr → Prop
  | all : Form r .wildcard
  | column {t a} : IsColumn t → IsAlias a → Form r ((SelectItem.column t).aliased a)
  | expression {e a} : e.isColumn = false → e.Plain → IsAlias a →
      Form r ((SelectItem.ofExpr r e).aliased a)

/-- What a table of a FROM clause is. -/
inductive QualifiedName.IsSource : QualifiedName → Prop
  | mk {t a} : IsDotted t → IsAlias a → IsSource ((QualifiedName.ofText t .table).aliased a)

/-- What stands in the clauses of a query. -/
structure Query.Form (r : Registry) (q : Query Expr) : Prop where
  items : q.items ≠ []
  item : ∀ i ∈ q.items, i.Form r
  sources : q.sources ≠ []
  source : ∀ s ∈ q.sources, s.IsSource
  condition : ∀ e ∈ q.condition, e.Plain
  group : ∀ g ∈ q.groupBy, g.exprs ≠ [] ∧ (∀ e ∈ g.exprs, e.Plain) ∧ ∀ e ∈ g.having, e.Plain
  set : ∀ op ∈ q.setOperation, ∃ o ∈ Operator.setOperators, ∃ q', op = ⟨o, [.query q'], false⟩
  order : ∀ entry ∈ q.orderBy, entry.expr.Plain

/-- The expressions that stand in the clauses of a query. -/
def Query.parts {ε : Type} (q : Query ε) : List ε :=
  q.items.filterMap (·.expression) ++ q.condition.toList
    ++ (match q.groupBy with
      | some g => g.exprs ++ g.having.toList
      | none => [])
    ++ (match q.setOperation with
      | some op => op.operands
      | none => [])
    ++ q.orderBy.map (·.expr)

theorem Query.mem_parts {ε : Type} {q : Query ε} {e : ε} :
    e ∈ q.parts ↔ (∃ i ∈ q.items, e ∈ i.expression) ∨ e ∈ q.condition ∨
      (∃ g ∈ q.groupBy, e ∈ g.exprs ∨ e ∈ g.having) ∨ (∃ op ∈ q.setOperation, e ∈ op.operands) ∨
      ∃ entry ∈ q.orderBy, entry.expr = e := by
  obtain ⟨_, items, _, condition, group, set, order, _⟩ := q
  cases group <;> cases set <;> simp [parts, or_assoc]

/-- The invariant of expressions that are read. -/
inductive Expr.Formed (r : Registry) : Expr → Prop
  | constant {c} : c.Form → Formed r (.constant c)
  | operation {op} : op.Form r → (∀ e ∈ op.operands, Formed r e) → Formed r (.operation op)
  | query {q} : q.Form r → (∀ e ∈ q.parts, Formed r e) → Formed r (.query q)
  | placeholder : Formed r .placeholder

/-- The invariant of an expression that may stand anywhere. -/
def Expr.Free (r : Registry) (e : Expr) : Prop := e.Formed r ∧ e.Plain

/-- What a COMMIT, ROLLBACK or SET TRANSACTION is. -/
inductive Transaction.Form : Transaction → Prop
  | commit {comment} : Form { Transaction.commit with comment }
  | rollback {comment} : Form { Transaction.rollback with comment }
  | set {readOnly} : Form (Transaction.set readOnly)

/-- The invariant of the rows of an INSERT. -/
inductive InsertSource.Formed (r : Registry) : InsertSource → Prop
  | list {es} : es ≠ [] → (∀ e ∈ es, Expr.Free r e) → Formed r (.list es)
  | query {q} : (Expr.query q).Formed r → Formed r (.query q)

/-- The invariant of statements that are read. -/
inductive Statement.Formed (r : Registry) : Statement → Prop
  | query {q} : (Expr.query q).Formed r → Formed r (.query q)
  | insert {t columns rows} : IsDotted t → (∀ cs ∈ columns, cs ≠ [] ∧ ∀ c ∈ cs, IsDotted c) →
      rows.Formed r → Formed r (.insert ⟨t, columns, rows⟩)
  | update {t a assignments condition} : IsDotted t → IsAlias a → assignments ≠ [] →
      (assignments.map Prod.fst).Nodup → (∀ a ∈ assignments, IsDotted a.1 ∧ Expr.Free r a.2) →
      (∀ e ∈ condition, Expr.Free r e) → Formed r (.update ⟨t, a, assignments, condition⟩)
  | delete {t condition} : IsDotted t → (∀ e ∈ condition, Expr.Free r e) →
      Formed r (.delete ⟨t, condition⟩)
  | lock {tables mode nowait} : tables ≠ [] → (∀ t ∈ tables, IsDotted t) →
      Formed r (.lock ⟨tables, mode, nowait⟩)
  | transaction {t} : t.Form → Formed r (.transaction t)

/-- A name is written as the text it was made of, and has no alias. -/
theorem QualifiedName.ofText_written (text : String) (form : NameForm) :
    (ofText text form).text = text ∧ (ofText text form).aliasName = none := by
  unfold ofText
  split <;> exact ⟨rfl, rfl⟩

namespace SelectItem

theorem expression_aliased (item : SelectItem Expr) (a : Option String) :
    (item.aliased a).expression = item.expression := by
  cases a <;> rfl

theorem expression_column {t : String} {e : Expr} (h : e ∈ (column t).expression) :
    e = .column t := by
  unfold column at h
  dsimp only at h
  split at h
  · cases h
  · exact (Option.some.inj h).symm

theorem expression_ofExpr {r : Registry} {e : Expr} (h : e.isColumn = false) :
    (ofExpr r e).expression = some e := by
  unfold ofExpr
  split
  · cases h
  · rfl

theorem aliasName_ofExpr (r : Registry) (e : Expr) : (ofExpr r e).name.aliasName = none := by
  unfold ofExpr
  split
  · exact (QualifiedName.ofText_written _ _).2
  · dsimp only
    split
    · exact (QualifiedName.ofText_written _ _).2
    · rfl

/-- An item holds its expression, or names its column. -/
theorem ofExpr_cases (r : Registry) (e : Expr) :
    (ofExpr r e).expression = some e ∧ e.isColumn = false ∨
      ∃ t, e = .column t ∧ (ofExpr r e).name.text = t ∧
        ((ofExpr r e).expression = some e ∨ (ofExpr r e).expression = none) := by
  by_cases hcolumn : e.isColumn = true
  · cases e with
    | constant c =>
      obtain ⟨kind, t⟩ := c
      obtain rfl : kind = .column := by simpa [Expr.isColumn] using hcolumn
      refine .inr ⟨t, rfl, (QualifiedName.ofText_written t .column).1, ?_⟩
      change (column t).expression = some (.column t) ∨ (column t).expression = none
      unfold column
      dsimp only
      split
      · exact .inr rfl
      · exact .inl rfl
    | operation | query | placeholder => cases hcolumn
  · exact .inl ⟨expression_ofExpr (by simpa using hcolumn), by simpa using hcolumn⟩

end SelectItem

/-- A column that may stand anywhere is spelled as one. -/
theorem Expr.Formed.column {r : Registry} {e : Expr} (h : e.Formed r) (hplain : e.Plain)
    (hcolumn : e.isColumn = true) : ∃ t, e = .column t ∧ IsColumn t := by
  cases h with
  | constant h =>
    cases h with
    | star => exact absurd rfl hplain.1
    | column h => exact ⟨_, rfl, h⟩
    | null | number | string => cases hcolumn
  | operation | query | placeholder => cases hcolumn

namespace Token

theorem written_append {ks ks' : List Kind} : Written (ks ++ ks') ↔ Written ks ∧ Written ks' := by
  simp [Written, or_imp, forall_and]

theorem written_cons {k : Kind} {ks : List Kind} : Written (k :: ks) ↔ k.Written ∧ Written ks := by
  simp [Written]

end Token

namespace Rule

open Token

variable {α : Type} {r : Registry}

/-- What is read as a part keeps the invariant, if its tokens are spelled as they should be. -/
def formed (r : Registry) : Rules where
  expression _ ks e := Written ks → e.Free r
  query ks q := Written ks → (Expr.query q).Formed r

theorem Listed.all {R : Rule α} {ks : List Kind} {as : List α} {P : α → Prop} (h : Listed R ks as)
    (hP : ∀ ks a, R ks a → Written ks → P a) (hks : Written ks) : ∀ a ∈ as, P a := by
  induction h with
  | one ha => simpa using hP _ _ ha hks
  | more _ ha ih =>
    obtain ⟨hfront, hlast⟩ := written_append.mp hks
    have hlast := hP _ _ ha (written_cons.mp hlast).2
    simp only [List.mem_append, List.mem_singleton]
    rintro a (ha | rfl)
    · exact ih hfront a ha
    · exact hlast

theorem Listed.free {ks : List Kind} {es : List Expr} {power : Nat}
    (h : Listed ((formed r).expression power) ks es) (hks : Written ks) : ∀ e ∈ es, e.Free r :=
  h.all (fun _ _ ha => ha) hks

theorem Enclosed.inside {R : Rule α} {ks : List Kind} {a : α} (h : Enclosed R ks a)
    (hks : Written ks) : ∃ ks', Written ks' ∧ R ks' a := by
  obtain ⟨hR⟩ := h
  rw [List.cons_append, written_cons, written_append] at hks
  exact ⟨_, hks.2.1, hR⟩

theorem Optional.all {R : Rule α} {ks : List Kind} {o : Option α} {P : α → Prop}
    (h : Optional R ks o) (hP : ∀ a, R ks a → P a) : ∀ a ∈ o, P a := by
  cases h with
  | absent => simp
  | present ha => simpa using hP _ ha

theorem Column.ne_star {ks : List Kind} {t : String} (h : Column ks t) (hks : Written ks) :
    t ≠ "*" := by
  intro heq
  have hdot (hmem : '.' ∈ t.toList) : False := by
    rw [heq] at hmem
    revert hmem
    decide
  cases h with
  | all h => exact hdot (by simp)
  | dotted h =>
    cases h with
    | more h => exact hdot (by simp)
    | one =>
      subst heq
      obtain ⟨c, cs, hlist, hfirst⟩ := IsName.first (written_cons.mp hks).1
      obtain ⟨rfl, rfl⟩ := List.cons.inj hlist
      revert hfirst
      decide

/-- An operation of an operator that is no quantifier may stand anywhere. -/
theorem free_operation {o : String} {es : List Expr} {call : Bool}
    (hform : Operation.Form r ⟨o, es, call⟩) (hes : ∀ e ∈ es, e.Formed r)
    (ho : o ∉ Operator.quantifiers := by decide) : (Expr.operation ⟨o, es, call⟩).Free r :=
  ⟨.operation hform hes, Expr.plain_operation ho⟩

theorem free_query {q : Query Expr} (h : (Expr.query q).Formed r) : (Expr.query q).Free r :=
  ⟨h, Expr.plain_query q⟩

theorem Argument.formed {ks : List Kind} {e : Expr} (h : Argument (formed r) ks e)
    (hks : Written ks) : e.Formed r ∧ (e.Plain ∨ e = Expr.star) := by
  cases h with
  | all => exact ⟨.constant .star, .inr rfl⟩
  | expression h => exact ⟨(h hks).1, .inl (h hks).2⟩

theorem Arguments.formed {ks : List Kind} {args : List Expr} (h : Arguments (formed r) ks args)
    (hks : Written ks) : ∀ e ∈ args, e.Formed r ∧ (e.Plain ∨ e = Expr.star) := by
  cases h with
  | none => simp
  | some h => exact h.all (fun _ _ h => h.formed) hks

theorem Primary.free {ks : List Kind} {e : Expr} (h : Primary r (formed r) ks e)
    (hks : Written ks) : e.Free r := by
  cases h with
  | number =>
    exact ⟨.constant (.number (written_cons.mp hks).1), Expr.plain_constant (by simp)⟩
  | string => exact ⟨.constant .string, Expr.plain_constant (by simp)⟩
  | null => exact ⟨.constant .null, Expr.plain_constant (by simp)⟩
  | placeholder => exact ⟨.placeholder, Expr.plain_placeholder⟩
  | «exists» h =>
    obtain ⟨_, hinside, hq⟩ := h.inside (written_cons.mp hks).2
    exact free_operation .exists (by simpa using hq hinside)
  | subquery h =>
    obtain ⟨_, hinside, hq⟩ := h.inside hks
    exact free_query (hq hinside)
  | group h =>
    obtain ⟨_, hinside, hlist⟩ := h.inside hks
    exact hlist.free hinside e (by simp)
  | list h hlength =>
    obtain ⟨_, hinside, hlist⟩ := h.inside hks
    exact free_operation (.list hlength fun e he => (hlist.free hinside e he).2)
      fun e he => (hlist.free hinside e he).1
  | column h =>
    refine ⟨.constant (.column ⟨ks, hks, h⟩), Expr.plain_constant fun heq => ?_⟩
    exact h.ne_star hks (Constant.mk.inj heq).2
  | call harity h haccepts =>
    obtain ⟨hname, hrest⟩ := written_cons.mp hks
    obtain ⟨_, hinside, hargs⟩ := h.inside hrest
    have hargs := hargs.formed hinside
    refine free_operation (.call hname harity haccepts fun e he => (hargs e he).2)
      (fun e he => (hargs e he).1) fun hmem => ?_
    exact hname.upper.not_operator (Operator.quantifiers_subset _ hmem)

theorem Operand.free {ks : List Kind} {e : Expr} (h : Operand r (formed r) ks e)
    (hks : Written ks) : e.Free r := by
  cases h with
  | not h =>
    have h := h (written_cons.mp hks).2
    exact free_operation (.not h.2) (by simpa using h.1)
  | minus h =>
    have h := h (written_cons.mp hks).2
    exact free_operation (.sign h.2) (by simpa using h.1)
  | plus h => exact h (written_cons.mp hks).2
  | primary h => exact h.free hks

theorem Comparand.form {power : Nat} {ks : List Kind} {e : Expr}
    (h : Comparand (formed r) power ks e) (hks : Written ks) :
    e.Formed r ∧
      (e.Plain ∨ ∃ o ∈ Operator.quantifiers, ∃ q, e = .unary o (.query q)) := by
  cases h with
  | quantified hword h =>
    obtain ⟨_, hinside, hq⟩ := h.inside (written_cons.mp hks).2
    have hmem := hword.mem
    exact ⟨.operation (.quantifier hmem) (by simpa using hq hinside), .inr ⟨_, hmem, _, rfl⟩⟩
  | expression h => exact ⟨(h hks).1, .inl (h hks).2⟩

theorem Candidates.free {ks : List Kind} {es : List Expr} (h : Candidates (formed r) ks es)
    (hks : Written ks) : es ≠ [] ∧ ∀ e ∈ es, e.Free r := by
  cases h with
  | subquery h => exact ⟨by simp, by simpa using free_query (h hks)⟩
  | list h => exact ⟨h.ne_nil, h.free hks⟩

theorem Test.free {left : Expr} (hleft : left.Free r) {ks : List Kind} {e : Expr}
    (h : Test (formed r) left ks e) (hks : Written ks) : e.Free r := by
  cases h with
  | between hnot hlow hhigh =>
    simp only [written_append, written_cons] at hks
    have hlow := hlow hks.1.2.2
    have hhigh := hhigh hks.2.2
    have ho : ∀ o ∈ Operator.ranges, o ∉ Operator.quantifiers := by decide
    exact free_operation (.range hnot.mem hleft.2 hlow.2 hhigh.2)
      (by simp [hleft.1, hlow.1, hhigh.1]) (ho _ hnot.mem)
  | like hnot h =>
    simp only [written_append, written_cons] at hks
    have h := h hks.2.2
    have ho : ∀ o ∈ Operator.likes, o ∉ Operator.quantifiers := by decide
    exact free_operation (.like hnot.mem hleft.2 h.2) (by simp [hleft.1, h.1]) (ho _ hnot.mem)
  | membership hnot h =>
    simp only [written_append, written_cons] at hks
    obtain ⟨_, hinside, hlist⟩ := h.inside hks.2.2
    obtain ⟨hne, hes⟩ := hlist.free hinside
    have ho : ∀ o ∈ Operator.memberships, o ∉ Operator.quantifiers := by decide
    exact free_operation (.membership hnot.mem hleft.2 hne fun e he => (hes e he).2)
      (by simpa using ⟨hleft.1, fun e he => (hes e he).1⟩) (ho _ hnot.mem)

theorem NullTest.free {left : Expr} (hleft : left.Free r) {ks : List Kind} {e : Expr}
    (h : NullTest left ks e) : e.Free r := by
  cases h with
  | plain => exact free_operation (.nullTest (by decide) hleft.2) (by simpa using hleft.1)
  | negative => exact free_operation (.nullTest (by decide) hleft.2) (by simpa using hleft.1)

/-- A run of one operator has collected at least two operands. -/
structure ChainFree (r : Registry) (chain : Grammar.Chain) : Prop where
  expr : chain.expr.Free r
  run : ∀ o, chain.run = some o → o ∈ Operator.chains ∧
    ∃ es, chain.expr = .applied o es ∧ 2 ≤ es.length ∧ ∀ e ∈ es, e.Free r

theorem free_chain {o : String} {es : List Expr} (ho : o ∈ Operator.chains) (hlength : 2 ≤ es.length)
    (hes : ∀ e ∈ es, e.Free r) : (Expr.applied o es).Free r := by
  have hno : ∀ o ∈ Operator.chains, o ∉ Operator.quantifiers := by decide
  exact free_operation (.chain ho hlength fun e he => (hes e he).2) (fun e he => (hes e he).1)
    (hno o ho)

/-- A chain without a run. -/
theorem ChainFree.start {e : Expr} {compared : Bool} (h : e.Free r) :
    ChainFree r ⟨e, none, compared⟩ :=
  ⟨h, nofun⟩

theorem ChainFree.join {chain : Grammar.Chain} (h : ChainFree r chain) {o : String}
    (ho : o ∈ Operator.chains) {right : Expr} (hright : right.Free r) :
    ChainFree r (chain.join o right) := by
  have hrow (es : List Expr) (hlength : 2 ≤ es.length) (hes : ∀ e ∈ es, e.Free r) (compared : Bool) :
      ChainFree r ⟨.applied o es, some o, compared⟩ := by
    refine ⟨free_chain ho hlength hes, fun o' ho' => ?_⟩
    obtain rfl := Option.some.inj ho'
    exact ⟨ho, es, rfl, hlength, hes⟩
  by_cases hrun : chain.run = some o
  · obtain ⟨-, es, hexpr, hlength, hes⟩ := h.run o hrun
    have hjoin : chain.join o right = ⟨.applied o (es ++ [right]), some o, chain.compared⟩ := by
      simp [Grammar.Chain.join, hexpr, hrun, Expr.applied]
    rw [hjoin]
    refine hrow _ (by simp; omega) ?_ _
    simpa [or_imp, forall_and] using ⟨hes, hright⟩
  · have hjoin : chain.join o right = ⟨.binary o chain.expr right, some o, chain.compared⟩ := by
      simp [Grammar.Chain.join, hrun]
    rw [hjoin]
    exact hrow [chain.expr, right] (by simp) (by simpa using ⟨h.expr, hright⟩) _

theorem Link.free {power : Nat} {chain next : Grammar.Chain} (hchain : ChainFree r chain)
    {ks : List Kind} (h : Link (formed r) power chain ks next) (hks : Written ks) :
    ChainFree r next := by
  cases h with
  | nullTest h => exact .start (h.free hchain.expr)
  | test h => exact .start (h.free hchain.expr hks)
  | comparison hp _ hoperator _ h =>
    obtain ⟨hformed, hplace⟩ := h.form (written_cons.mp hks).2
    have hmem := Power.comparison_operator hp hoperator
    have hno : ∀ o ∈ Operator.comparisons, o ∉ Operator.quantifiers := by decide
    exact .start (free_operation (.comparison hmem hchain.expr.2 hplace)
      (by simpa using ⟨hchain.expr.1, hformed⟩) (hno _ hmem))
  | chain hp _ hoperator h =>
    exact hchain.join (Power.chain_operator hp hoperator) (h (written_cons.mp hks).2)

theorem Links.free {power : Nat} {start chain : Grammar.Chain} (hstart : ChainFree r start)
    {ks : List Kind} (h : Links (formed r) power start ks chain) (hks : Written ks) :
    ChainFree r chain := by
  induction h with
  | none => exact hstart
  | more _ hlink ih =>
    obtain ⟨hfront, hlast⟩ := written_append.mp hks
    exact hlink.free (ih hfront) hlast

theorem Expression.free {power : Nat} {ks : List Kind} {e : Expr}
    (h : Expression r (formed r) power ks e) (hks : Written ks) : e.Free r := by
  obtain ⟨hfirst, hlinks⟩ := h
  obtain ⟨hfront, hlast⟩ := written_append.mp hks
  exact (hlinks.free (.start (hfirst.free hfront)) hlast).expr

theorem Alias.isName {ks : List Kind} {n : String} (h : Alias ks n) (hks : Written ks) :
    IsName n := by
  cases h with
  | as => exact (written_cons.mp (written_cons.mp hks).2).1
  | bare => exact (written_cons.mp hks).1

theorem Alias.isAlias {ks : List Kind} {a : Option String} (h : Optional Alias ks a)
    (hks : Written ks) : IsAlias a := by
  cases h with
  | absent => simp [IsAlias]
  | present h => simpa [IsAlias] using h.isName hks

theorem Dotted.isDotted {ks : List Kind} {t : String} (h : Dotted ks t) (hks : Written ks) :
    IsDotted t :=
  ⟨ks, hks, h⟩

theorem Source.isSource {ks : List Kind} {s : QualifiedName} (h : Source ks s) (hks : Written ks) :
    s.IsSource := by
  obtain ⟨htable, halias⟩ := h
  obtain ⟨hfront, hlast⟩ := written_append.mp hks
  exact .mk (htable.isDotted hfront) (Alias.isAlias halias hlast)

/-- The item keeps its form, and what it holds the invariant. -/
theorem Item.form {ks : List Kind} {item : SelectItem Expr} (h : Item r (formed r) ks item)
    (hks : Written ks) : item.Form r ∧ ∀ e ∈ item.expression, e.Formed r := by
  cases h with
  | all => exact ⟨.all, nofun⟩
  | @expression _ e _ a h halias =>
    obtain ⟨hfront, hlast⟩ := written_append.mp hks
    obtain ⟨hformed, hplain⟩ := h hfront
    have halias := Alias.isAlias halias hlast
    by_cases hcolumn : e.isColumn = true
    · obtain ⟨t, rfl, ht⟩ := hformed.column hplain hcolumn
      refine ⟨.column ht halias, ?_⟩
      rw [SelectItem.expression_aliased]
      intro e he
      obtain rfl := SelectItem.expression_column he
      exact hformed
    · have hcolumn : e.isColumn = false := by simpa using hcolumn
      refine ⟨.expression hcolumn hplain halias, ?_⟩
      rw [SelectItem.expression_aliased, SelectItem.expression_ofExpr hcolumn]
      simpa using hformed

theorem Condition.free {word : Keyword} {ks : List Kind} {o : Option Expr}
    (h : Optional (Condition (formed r) word) ks o) (hks : Written ks) : ∀ e ∈ o, e.Free r := by
  cases h with
  | absent => simp
  | present h =>
    obtain ⟨h⟩ := h
    simpa using h (written_cons.mp hks).2

theorem Group.free {ks : List Kind} {o : Option (GroupBy Expr)}
    (h : Optional (Group (formed r)) ks o) (hks : Written ks) :
    ∀ g ∈ o, g.exprs ≠ [] ∧ (∀ e ∈ g.exprs, e.Free r) ∧ ∀ e ∈ g.having, e.Free r := by
  cases h with
  | absent => simp
  | present h =>
    obtain ⟨hlist, hhaving⟩ := h
    simp only [List.cons_append, written_cons, written_append] at hks
    simpa using ⟨hlist.ne_nil, hlist.free hks.2.2.1, Condition.free hhaving hks.2.2.2⟩

theorem SetOperator.mem {ks : List Kind} {o : String} (h : SetOperator ks o) :
    o ∈ Operator.setOperators := by
  cases h <;> decide

theorem SetOperation.form {ks : List Kind} {o : Option (Operation Expr)}
    (h : Optional (SetOperation (formed r)) ks o) (hks : Written ks) :
    ∀ op ∈ o, ∃ o ∈ Operator.setOperators, ∃ q, op = ⟨o, [.query q], false⟩ ∧
      (Expr.query q).Formed r := by
  cases h with
  | absent => simp
  | present h =>
    rintro op hop
    obtain rfl := Option.some.inj hop
    cases h with
    | enclosed ho h =>
      obtain ⟨_, hinside, hq⟩ := h.inside (written_append.mp hks).2
      exact ⟨_, ho.mem, _, rfl, hq hinside⟩
    | bare ho hq => exact ⟨_, ho.mem, _, rfl, hq (written_append.mp hks).2⟩

theorem Entry.free {ks : List Kind} {entry : OrderBy Expr} (h : Entry (formed r) ks entry)
    (hks : Written ks) : entry.expr.Free r := by
  obtain ⟨h, -⟩ := h
  exact h (written_append.mp hks).1

theorem Order.free {ks : List Kind} {entries : List (OrderBy Expr)}
    (h : Order (formed r) ks entries) (hks : Written ks) :
    ∀ entry ∈ entries, entry.expr.Free r := by
  cases h with
  | none => simp
  | some h =>
    simp only [written_cons] at hks
    exact h.all (fun _ _ h => h.free) hks.2.2

theorem Select.formed {ks : List Kind} {q : Query Expr} (h : Select r (formed r) ks q)
    (hks : Written ks) : (Expr.query q).Formed r := by
  obtain ⟨-, hitems, hsources, hcondition, hgroup, hset, horder, -⟩ := h
  simp only [List.cons_append, List.append_assoc, written_cons, written_append] at hks
  obtain ⟨-, -, wi, -, ws, wc, wg, wset, wo, -⟩ := hks
  have hitem := hitems.all (fun _ _ h => h.form) wi
  have hcondition := Condition.free hcondition wc
  have hgroup := Group.free hgroup wg
  have hset := SetOperation.form hset wset
  have horder := horder.free wo
  refine .query ?_ ?_
  · exact {
      items := hitems.ne_nil
      item := fun i hi => (hitem i hi).1
      sources := hsources.ne_nil
      source := hsources.all (fun _ _ h => h.isSource) ws
      condition := fun e he => (hcondition e he).2
      group := fun g hg =>
        ⟨(hgroup g hg).1, fun e he => ((hgroup g hg).2.1 e he).2,
          fun e he => ((hgroup g hg).2.2 e he).2⟩
      set := fun op hop => by
        obtain ⟨o, ho, q, hq, -⟩ := hset op hop
        exact ⟨o, ho, q, hq⟩
      order := fun entry hentry => (horder entry hentry).2 }
  · intro e he
    obtain ⟨i, hi, he⟩ | he | ⟨g, hg, he⟩ | ⟨op, hop, he⟩ | ⟨entry, hentry, rfl⟩ := Query.mem_parts.mp he
    · exact (hitem i hi).2 e he
    · exact (hcondition e he).1
    · exact he.elim (fun he => ((hgroup g hg).2.1 e he).1) (fun he => ((hgroup g hg).2.2 e he).1)
    · obtain ⟨o, -, q, rfl, hq⟩ := hset op hop
      obtain rfl := List.mem_singleton.mp he
      exact hq
    · exact (horder entry hentry).1

theorem readers_formed (r : Registry) : (Grammar.readers r).Follow (formed r) :=
  Grammar.readers_follow (fun _ _ _ h hks => h.free hks) (fun _ _ h hks => h.formed hks)

/-! ## Statements -/

theorem Listed.dotted {ks : List Kind} {ts : List String} (h : Listed Dotted ks ts)
    (hks : Written ks) : ∀ t ∈ ts, IsDotted t :=
  h.all (fun _ _ h => h.isDotted) hks

theorem Columns.dotted {ks : List Kind} {o : Option (List String)}
    (h : Optional (Enclosed (Listed Dotted)) ks o) (hks : Written ks) :
    ∀ cs ∈ o, cs ≠ [] ∧ ∀ c ∈ cs, IsDotted c := by
  cases h with
  | absent => simp
  | present h =>
    obtain ⟨_, hinside, hlist⟩ := h.inside hks
    simpa using ⟨hlist.ne_nil, hlist.dotted hinside⟩

theorem Insertion.formed {ks : List Kind} {i : Insert} (h : Insertion (formed r) ks i)
    (hks : Written ks) : (Statement.insert i).Formed r := by
  obtain ⟨htable, hcolumns, hrows⟩ := h
  simp only [List.cons_append, List.append_assoc, written_cons, written_append] at hks
  obtain ⟨-, -, wtable, wcolumns, wrows⟩ := hks
  have htable := htable.isDotted wtable
  have hcolumns := Columns.dotted hcolumns wcolumns
  refine .insert htable hcolumns ?_
  cases hrows with
  | values h =>
    obtain ⟨_, hinside, hlist⟩ := h.inside (written_cons.mp wrows).2
    exact .list hlist.ne_nil (hlist.free hinside)
  | query h => exact .query (h wrows)
  | enclosed h =>
    obtain ⟨_, hinside, hq⟩ := h.inside wrows
    exact .query (hq hinside)

theorem Assignment.free {ks : List Kind} {a : String × Expr} (h : Assignment (formed r) ks a)
    (hks : Written ks) : IsDotted a.1 ∧ a.2.Free r := by
  obtain ⟨hcolumn, h⟩ := h
  rw [written_append, written_cons] at hks
  exact ⟨hcolumn.isDotted hks.1, h hks.2.2⟩

theorem Name.isAlias {ks : List Kind} {a : Option String} (h : Optional Name ks a)
    (hks : Written ks) : IsAlias a := by
  cases h with
  | absent => simp [IsAlias]
  | present h =>
    cases h
    intro n hn
    obtain rfl := Option.some.inj hn
    exact (written_cons.mp hks).1

theorem Change.formed {ks : List Kind} {u : Update} (h : Change (formed r) ks u)
    (hks : Written ks) :
    (Statement.update { u with assignments := Update.merge u.assignments }).Formed r := by
  obtain ⟨htable, halias, hset, hwhere⟩ := h
  simp only [List.cons_append, List.append_assoc, written_cons, written_append] at hks
  obtain ⟨-, wtable, walias, -, wset, wwhere⟩ := hks
  have hassignments := hset.all (fun _ _ h => h.free) wset
  exact .update (htable.isDotted wtable) (Name.isAlias halias walias)
    (Update.merge_ne_nil hset.ne_nil) (Update.nodup_merge _)
    (fun a ha => hassignments a (Update.mem_of_mem_merge ha)) (Condition.free hwhere wwhere)

theorem Deletion.formed {ks : List Kind} {d : Delete} (h : Deletion (formed r) ks d)
    (hks : Written ks) : (Statement.delete d).Formed r := by
  obtain ⟨-, htable, hwhere⟩ := h
  simp only [List.cons_append, List.append_assoc, written_cons, written_append] at hks
  exact .delete (htable.isDotted hks.2.2.1) (Condition.free hwhere hks.2.2.2)

theorem Locking.formed {ks : List Kind} {l : Lock} (h : Locking ks l) (hks : Written ks) :
    (Statement.lock l).Formed r := by
  obtain ⟨-, -, htables, -, -, -⟩ := h
  simp only [List.append_assoc, written_append] at hks
  exact .lock htables.ne_nil (htables.dotted hks.2.2.1)

theorem Ending.form {ks : List Kind} {t : Transaction} (h : Ending ks t) : t.Form := by
  cases h with
  | commit => exact .commit
  | rollback => exact .rollback

theorem Access.form {ks : List Kind} {t : Transaction} (h : Access ks t) : t.Form := by
  cases h with
  | readOnly => exact .set
  | readWrite => exact .set

theorem Sentence.formed {ks : List Kind} {s : Statement} (h : Sentence (formed r) ks s)
    (hks : Written ks) : s.Formed r := by
  cases h with
  | query h => exact .query (h hks)
  | insert h => exact h.formed hks
  | update h => exact h.formed hks
  | delete h => exact h.formed hks
  | lock h => exact h.formed hks
  | ending h => exact .transaction h.form
  | access h => exact .transaction h.form

theorem Next.formed {ks : List Kind} {s : Statement} (h : Next (formed r) ks s) (hks : Written ks) :
    s.Formed r := by
  obtain ⟨-, h, -⟩ := h
  simp only [written_append] at hks
  exact h.formed hks.1.2

theorem Alone.free {ks : List Kind} {e : Expr} (h : Alone (formed r) ks e) (hks : Written ks) :
    e.Free r := by
  obtain ⟨-, h, -⟩ := h
  simp only [written_append] at hks
  exact h hks.1.2

end Rule

namespace Cursor

open Token

theorem written_ofText (text : String) : Written (ofText text).kinds := by
  simp only [Written, kinds, ofText, Token.scan, List.mem_map]
  rintro _ ⟨token, htoken, rfl⟩
  exact Scanner.tokens_written _ _ token htoken

/-- What is moved over anywhere in a text is spelled as it should be. -/
theorem Reaches.written {text : String} {c d : Cursor} {ks : List Kind} (h : (ofText text).Reaches c)
    (hm : c.Moves ks d) : Written ks := by
  obtain ⟨tokens, hpasses⟩ := h
  intro k hk
  have hall := written_ofText text
  rw [hpasses.moves.kinds, hm.kinds] at hall
  exact hall k (List.mem_append_right _ (List.mem_append_left _ hk))

end Cursor

namespace Grammar

variable {r : Registry} {text : String} {c d : Cursor}

theorem statement?_formed (hc : (Cursor.ofText text).Reaches c) {s : Statement}
    (h : statement? r c = (.ok (some s), d)) : s.Formed r := by
  obtain ⟨ks, hm, hnext⟩ := statement?_takes (Rule.readers_formed r) h
  exact hnext.formed (hc.written hm)

theorem statements_formed (hc : (Cursor.ofText text).Reaches c) {ss : List Statement}
    (h : statements r c = (.ok ss, d)) : ∀ s ∈ ss, s.Formed r := by
  obtain ⟨ks, hm, hall⟩ := statements_takes (Rule.readers_formed r) h
  intro s hs
  obtain ⟨ks', hsub, hnext⟩ := hall s hs
  exact hnext.formed fun k hk => hc.written hm k (hsub k hk)

theorem condition_free (hc : (Cursor.ofText text).Reaches c) {e : Expr}
    (h : condition r c = (.ok e, d)) : e.Free r := by
  obtain ⟨ks, hm, halone⟩ := condition_takes (Rule.readers_formed r) h
  exact halone.free (hc.written hm)

end Grammar

end SqlFront
