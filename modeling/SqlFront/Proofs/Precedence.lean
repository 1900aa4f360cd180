import SqlFront.Proofs.Columns
import SqlFront.Proofs.Lockstep

/-! # Looser operators on the left

An operation is inverted if its first operand binds looser than its operator. Without parentheses that
group, such an operand is read in only one way: it has ended by itself, as a test for NULL, a list of
candidates and a quantified subquery do, and is then taken by whatever operator follows.
-/

namespace SqlFront

/-! ## The order of precedence -/

/-- The strengths with which operators bind, from the loosest to the tightest. -/
inductive Precedence where
  | or | and | not | comparison | test | nullTest | sum | product | sign | power
  deriving DecidableEq, Repr

namespace Precedence

/-- The place in the order. Where an operator takes the operand before it, this is the power with which
    it does so. -/
def rank : Precedence → Nat
  | .or => 1
  | .and => 3
  | .not => 5
  | .comparison => 7
  | .test => 9
  | .nullTest => 11
  | .sum => 13
  | .product => 15
  | .sign => 16
  | .power => 17

/-- The operators and how they bind, a minus between two operands. -/
def table : List (String × Precedence) :=
  [(Operator.or, .or), (Operator.and, .and), (Operator.not, .not)]
    ++ Operator.comparisons.map (·, .comparison)
    ++ (Operator.ranges ++ Operator.likes ++ Operator.memberships).map (·, .test)
    ++ Operator.nullTests.map (·, .nullTest)
    ++ [(Operator.plus, .sum), (Operator.minus, .sum), (Operator.concat, .sum),
      (Operator.times, .product), (Operator.divide, .product), (Operator.power, .power)]

end Precedence

namespace Operation

/-- How the operator binds. Calls, EXISTS, quantifiers and lists of values are nothing that an operator
    could split. -/
def precedence? (op : Operation Expr) : Option Precedence :=
  if op.call then none
  else if op.operator = Operator.minus ∧ op.operands.length = 1 then some .sign
  else Precedence.table.lookup op.operator

/-- The operator stands behind its first operand, and that operand binds looser. -/
def Inverted (op : Operation Expr) : Prop :=
  ∃ level, op.precedence? = some level ∧ level ≠ .not ∧ level ≠ .sign ∧
    ∃ first rest inner, op.operands = .operation first :: rest ∧
      first.precedence? = some inner ∧ inner.rank < level.rank

/-- The operation ends by itself: in the word NULL, behind a list of candidates, or behind a quantified
    subquery. -/
def EndsItself (op : Operation Expr) : Prop :=
  op.operator ∈ Operator.nullTests ∨ op.operator ∈ Operator.memberships ∨
    ∃ left right, op.operands = [left, right] ∧ right.IsQuantified

/-- Nothing but what ends by itself makes the operation inverted. -/
def Upright (op : Operation Expr) : Prop :=
  op.Inverted → ∃ first rest, op.operands = .operation first :: rest ∧ first.EndsItself

theorem precedence?_of_many {o : String} {es : List Expr} (h : 2 ≤ es.length) :
    (⟨o, es, false⟩ : Operation Expr).precedence? = Precedence.table.lookup o := by
  have hone : es.length ≠ 1 := by omega
  simp [precedence?, hone]

/-- More operands at the end change nothing. -/
theorem Upright.append {o : String} {es : List Expr} (h : Upright ⟨o, es, false⟩)
    (hlength : 2 ≤ es.length) (more : List Expr) : Upright ⟨o, es ++ more, false⟩ := by
  match es, hlength with
  | first :: second :: rest, hlength =>
    rintro ⟨level, hlevel, hnot, hsign, e, _, inner, hoperands, hinner, hless⟩
    rw [precedence?_of_many (by simp)] at hlevel
    rw [← precedence?_of_many hlength] at hlevel
    obtain ⟨rfl, -⟩ := List.cons.inj hoperands
    obtain ⟨e', rest', hrest, hends⟩ :=
      h ⟨level, hlevel, hnot, hsign, e, second :: rest, inner, rfl, hinner, hless⟩
    obtain ⟨heq, -⟩ := List.cons.inj hrest
    cases heq
    exact ⟨e, _, rfl, hends⟩

end Operation

namespace Power

/-- The power with which an operator takes the operand before it is its place in the order. -/
theorem of?_rank {k : Token.Kind} {p : Power} (h : of? k = some p) :
    p.right = p.left + 1 ∧
      match p.continuation with
      | .nullTest => p.left = Precedence.nullTest.rank
      | .test => p.left = Precedence.test.rank
      | .comparison o | .chain o =>
        ∃ level, Precedence.table.lookup o = some level ∧ p.left = level.rank := by
  have hcomparison : ∀ o ∈ Operator.comparisons,
      Precedence.table.lookup o = some .comparison := by decide
  unfold of? at h
  split at h <;> first
    | (injection h with h; subst h; exact ⟨rfl, _, rfl, rfl⟩)
    | (injection h with h; subst h; exact ⟨rfl, rfl⟩)
    | (rw [Option.map_eq_some_iff] at h
       obtain ⟨o, ho, rfl⟩ := h
       exact ⟨rfl, .comparison, hcomparison o (comparison?_mem ho), rfl⟩)
    | cases h

end Power

namespace Expr

/-- Every operation in the expression is upright. -/
def Upright (e : Expr) : Prop := ∀ op, e.Holds (.operation op) → op.Upright

/-- The token behind the expression is no operator that binds tighter, or the expression has ended by
    itself. -/
def Settled (e : Expr) (next : Token.Kind) : Prop :=
  ∀ op p, e = .operation op → Power.of? next = some p →
    op.EndsItself ∨ ∀ level ∈ op.precedence?, p.left ≤ level.rank

theorem upright_leaf {e : Expr} (hleaf : e.children = []) (he : ∀ op, e ≠ .operation op) :
    e.Upright := by
  intro op hop
  obtain heq | ⟨y, hy, -⟩ := holds_cases hop
  · exact absurd heq.symm (he op)
  · rw [hleaf] at hy
    cases hy

theorem upright_operation {op : Operation Expr} (h : op.Upright)
    (hoperands : ∀ e ∈ op.operands, e.Upright) : (Expr.operation op).Upright := by
  intro op' hop
  obtain heq | ⟨e, he, hop⟩ := holds_cases hop
  · cases heq
    exact h
  · exact hoperands e he op' hop

theorem upright_query {q : Query Expr} (h : ∀ e ∈ q.parts, e.Upright) : (Expr.query q).Upright := by
  intro op hop
  obtain heq | ⟨e, he, hop⟩ := holds_cases hop
  · cases heq
  · exact h e he op hop

theorem Upright.operand {op : Operation Expr} (h : (Expr.operation op).Upright) :
    ∀ e ∈ op.operands, e.Upright := by
  intro e he op' hop
  exact h op' (.of_operand he hop)

/-- An operation without a place in the order, or that of a prefix, is not inverted. -/
theorem upright_of_precedence {op : Operation Expr}
    (h : ∀ level ∈ op.precedence?, level = .not ∨ level = .sign) : op.Upright := by
  rintro ⟨level, hlevel, hnot, hsign, -⟩
  exact ((h level hlevel).elim hnot hsign).elim

/-- An operator behind a settled operand is upright. -/
theorem Settled.operator {left : Expr} {k : Token.Kind} {p : Power} {op : Operation Expr}
    {rest : List Expr} (h : left.Settled k) (hp : Power.of? k = some p)
    (hoperands : op.operands = left :: rest) (hlevel : ∀ level ∈ op.precedence?, level.rank = p.left) :
    op.Upright := by
  rintro ⟨level, hop, -, -, first, rest', inner, hfirst, hinner, hless⟩
  rw [hoperands] at hfirst
  obtain ⟨rfl, -⟩ := List.cons.inj hfirst
  obtain hends | hrank := h first p rfl hp
  · exact ⟨first, rest, hoperands, hends⟩
  · have hle := hrank inner hinner
    have heq := hlevel level hop
    omega

theorem Settled.binary {left right : Expr} {k : Token.Kind} {p : Power} {o : String}
    {level : Precedence} (h : left.Settled k) (hp : Power.of? k = some p)
    (hlevel : Precedence.table.lookup o = some level) (hrank : p.left = level.rank)
    (hleft : left.Upright) (hright : right.Upright) : (binary o left right).Upright := by
  apply upright_operation
  · apply h.operator hp rfl
    rw [Operation.precedence?_of_many (by simp), hlevel]
    rintro _ ⟨⟩
    exact hrank.symm
  · simp [hleft, hright]

end Expr

/-! ## Where expressions end -/

/-- An expression read with some power ends before a token that is no operator of that power. -/
def Readers.Stop (part : Readers) : Prop :=
  ∀ ⦃power c e d⦄, part.expression power c = (.ok e, d) →
    ∀ p, Power.of? d.current.kind = some p → p.left < power

namespace Grammar

open Reading Cursor

variable {registry : Registry} {part : Readers} {c d : Cursor}

theorem settled_of_rank {op : Operation Expr} {level : Precedence} {next : Token.Kind} {power : Nat}
    (hlevel : op.precedence? = some level)
    (hnext : ∀ p, Power.of? next = some p → p.left < power) (hpower : power ≤ level.rank + 1) :
    (Expr.operation op).Settled next := by
  rintro _ p ⟨⟩ hp
  refine .inr fun level' hlevel' => ?_
  rw [hlevel] at hlevel'
  cases hlevel'
  have hless := hnext p hp
  omega

theorem settled_of_ends {op : Operation Expr} (h : op.EndsItself) (next : Token.Kind) :
    (Expr.operation op).Settled next := by
  rintro _ p ⟨⟩ hp
  exact .inl h

theorem test_settled (hpart : part.Stop) {left e : Expr} (h : test part left c = (.ok e, d)) :
    e.Settled d.current.kind := by
  obtain ⟨negated, c₁, -, h⟩ := bind_ok.mp h
  rw [testOf, kind_bind] at h
  split at h
  · simp only [advance_bind, bind_ok, keyword_ok, pure_ok] at h
    obtain ⟨low, _, -, _, _, -, high, _, hhigh, rfl, rfl⟩ := h
    have hlevel : Operation.precedence? ⟨if negated then Operator.notBetween else Operator.between,
        [left, low, high], false⟩ = some .test := by cases negated <;> rfl
    exact settled_of_rank hlevel (hpart hhigh) (by decide)
  · simp only [advance_bind, bind_ok, pure_ok] at h
    obtain ⟨pattern, _, hpattern, rfl, rfl⟩ := h
    have hlevel : Operation.precedence? ⟨if negated then Operator.notLike else Operator.like,
        [left, pattern], false⟩ = some .test := by cases negated <;> rfl
    exact settled_of_rank hlevel (hpart hpattern) (by decide)
  · simp only [advance_bind, bind_ok, symbol_ok, pure_ok] at h
    obtain ⟨_, _, -, es, _, -, _, _, -, rfl, rfl⟩ := h
    have hmem : (if negated then Operator.notIn else Operator.isIn) ∈ Operator.memberships := by
      cases negated <;> decide
    exact settled_of_ends (.inr (.inl hmem)) _
  · exact absurd h (by simp [unexpected_ok])

theorem comparison_settled (hpart : part.Stop) {o : String} {level : Precedence} {power : Nat}
    {left right : Expr} (h : comparand part power c = (.ok right, d))
    (hlevel : Precedence.table.lookup o = some level) (hpower : power ≤ level.rank + 1) :
    (Expr.binary o left right).Settled d.current.kind := by
  have hquantified {operator} (hword : operator ∈ Operator.quantifiers)
      (h : (do
        advance
        return .unary operator (.query (← enclosedQuery part)) : Reading Expr) c = (.ok right, d)) :
      (Expr.binary o left right).Settled d.current.kind := by
    rw [advance_bind] at h
    obtain ⟨q, _, -, h⟩ := bind_ok.mp h
    obtain ⟨rfl, rfl⟩ := pure_ok.mp h
    exact settled_of_ends (.inr (.inr ⟨left, _, rfl, _, rfl, hword⟩)) _
  rw [comparand, kind_bind] at h
  split at h
  · exact hquantified (by decide) h
  · exact hquantified (by decide) h
  · exact hquantified (by decide) h
  · have hplace : Operation.precedence? ⟨o, [left, right], false⟩ = some level :=
      (Operation.precedence?_of_many (by simp)).trans hlevel
    exact settled_of_rank hplace (hpart h) hpower

theorem nullTest_ends {left e : Expr} (hkind : c.current.kind = .keyword .is)
    (h : nullTest left c = (.ok e, d)) : e.Settled d.current.kind := by
  obtain ⟨ks, -, hrule⟩ := nullTest_takes hkind h
  cases hrule with
  | plain | negative => exact settled_of_ends (.inl (by simp [Operator.nullTests])) _

/-- A run of one operator has collected at least two operands. -/
def Chain.Collects (chain : Chain) : Prop :=
  ∀ o, chain.run = some o → ∃ es, chain.expr = .applied o es ∧ 2 ≤ es.length

theorem Chain.Collects.start (e : Expr) (compared : Bool) : Chain.Collects ⟨e, none, compared⟩ := by
  intro o h
  cases h

/-- One more operand is put behind those of the run, or starts a new run with what was there. -/
theorem Chain.join_cases {chain : Chain} (h : chain.Collects) (o : String) (right : Expr) :
    (∃ es, chain.expr = .applied o es ∧ 2 ≤ es.length ∧
      chain.join o right = ⟨.applied o (es ++ [right]), some o, chain.compared⟩) ∨
      chain.join o right = ⟨.binary o chain.expr right, some o, chain.compared⟩ := by
  by_cases hrun : chain.run = some o
  · obtain ⟨es, hexpr, hlength⟩ := h o hrun
    exact .inl ⟨es, hexpr, hlength, by simp [join, hexpr, hrun, Expr.applied]⟩
  · exact .inr (by simp [join, hrun])

theorem Chain.Collects.join {chain : Chain} (h : chain.Collects) (o : String) (right : Expr) :
    (chain.join o right).Collects := by
  obtain ⟨es, -, hlength, hjoin⟩ | hjoin := chain.join_cases h o right
  · rw [hjoin]
    rintro _ ⟨⟩
    exact ⟨_, rfl, by simp; omega⟩
  · rw [hjoin]
    rintro _ ⟨⟩
    exact ⟨[chain.expr, right], rfl, by simp⟩

/-- The operation that a run makes has the place of its operator in the order. -/
theorem Chain.join_expr {chain : Chain} (h : chain.Collects) (o : String) (right : Expr) :
    ∃ es, (chain.join o right).expr = .applied o es ∧ 2 ≤ es.length := by
  obtain ⟨es, -, hlength, hjoin⟩ | hjoin := chain.join_cases h o right
  · exact ⟨es ++ [right], by rw [hjoin], by simp; omega⟩
  · exact ⟨[chain.expr, right], by rw [hjoin]; rfl, by simp⟩

/-- What one operator has made of the operands around it is settled. -/
theorem chainStep_settled (hpart : part.Stop) {power : Nat} {chain next : Chain}
    (hchain : chain.Collects) (h : chainStep part power chain c = (.ok (.yield next), d)) :
    next.expr.Settled d.current.kind ∧ next.Collects := by
  rw [chainStep, kind_bind] at h
  split at h
  · cases (pure_ok.mp h).1
  · rename_i p hp
    obtain ⟨hright, hrank⟩ := Power.of?_rank hp
    split at h
    · cases (pure_ok.mp h).1
    · split at h
      · rename_i hnull
        obtain ⟨e, _, h₁, h₂⟩ := bind_ok.mp h
        obtain ⟨⟨⟩, rfl⟩ := pure_ok.mp h₂
        exact ⟨nullTest_ends (Power.of?_nullTest hp hnull) h₁, .start _ _⟩
      · obtain ⟨e, _, h₁, h₂⟩ := bind_ok.mp h
        obtain ⟨⟨⟩, rfl⟩ := pure_ok.mp h₂
        exact ⟨test_settled hpart h₁, .start _ _⟩
      · rename_i operator hcomparison
        rw [hcomparison] at hrank
        obtain ⟨level, hlevel, hleft⟩ := hrank
        split at h
        · exact absurd h (by simp [span_bind, failAt_ok])
        · rw [advance_bind] at h
          obtain ⟨right, _, h₁, h₂⟩ := bind_ok.mp h
          obtain ⟨⟨⟩, rfl⟩ := pure_ok.mp h₂
          exact ⟨comparison_settled hpart h₁ hlevel (by omega), .start _ _⟩
      · rename_i operator hoperator
        rw [hoperator] at hrank
        obtain ⟨level, hlevel, hleft⟩ := hrank
        rw [advance_bind] at h
        obtain ⟨right, _, h₁, h₂⟩ := bind_ok.mp h
        obtain ⟨⟨⟩, rfl⟩ := pure_ok.mp h₂
        obtain ⟨es, hexpr, hlength⟩ := chain.join_expr hchain operator right
        rw [← Operation.precedence?_of_many hlength] at hlevel
        rw [hexpr]
        exact ⟨settled_of_rank hlevel (hpart h₁) (by omega), hchain.join operator right⟩

/-- A step that stops has found no operator of the given power. -/
theorem chainStep_done {power : Nat} {chain last : Chain}
    (h : chainStep part power chain c = (.ok (.done last), d)) :
    ∀ p, Power.of? d.current.kind = some p → p.left < power := by
  obtain ⟨-, rfl⟩ := chainStep_takes part.follow_trivial h
  intro p hp
  by_contra hpower
  rw [chainStep, kind_bind, hp] at h
  dsimp only at h
  rw [if_neg hpower] at h
  split at h
  · simp [bind_ok, pure_ok] at h
  · simp [bind_ok, pure_ok] at h
  · split at h
    · simp [span_bind, failAt_ok] at h
    · simp [advance_bind, bind_ok, pure_ok] at h
  · simp [advance_bind, bind_ok, pure_ok] at h

theorem expression_stops {power : Nat} {e : Expr}
    (h : expression registry part power c = (.ok e, d)) :
    ∀ p, Power.of? d.current.kind = some p → p.left < power := by
  obtain ⟨first, c₁, -, h⟩ := bind_ok.mp h
  obtain ⟨chain, c₂, hchain, hlast⟩ := bind_ok.mp h
  obtain ⟨-, rfl⟩ := pure_ok.mp hlast
  refine iterate_ends (chainStep_progress part power) (fun _ _ => True)
    (fun _ d => ∀ p, Power.of? d.current.kind = some p → p.left < power) ?_ trivial hchain
  intro _ _ turn _ _ hturn
  cases turn with
  | yield => trivial
  | done => exact chainStep_done hturn

end Grammar

/-! ## Parentheses that group nothing -/

namespace Token

/-- Whether a parenthesis behind the token opens the arguments of a call or the candidates of IN. -/
def Kind.opensList : Kind → Bool
  | .name _ | .keyword .in => true
  | _ => false

/-- Whether parentheses stand only behind the names of calls, behind IN and around subqueries, if the
    tokens stand behind the given one. -/
def ungrouped (last : Kind) : List Kind → Bool
  | [] => true
  | k :: ks =>
    (k != .symbol .leftParen || last.opensList || ks.head?.all (· == .keyword .select))
      && ungrouped k ks

variable {last k : Kind} {ks ks' : List Kind}

theorem ungrouped_cons (h : ungrouped last (k :: ks) = true) : ungrouped k ks = true :=
  (Bool.and_eq_true_iff.mp h).2

theorem ungrouped_append (h : ungrouped last (ks ++ ks') = true) :
    ungrouped last ks = true ∧ ungrouped (ks.getLastD last) ks' = true := by
  induction ks generalizing last with
  | nil => exact ⟨rfl, h⟩
  | cons k ks ih =>
    obtain ⟨hhere, hrest⟩ := Bool.and_eq_true_iff.mp h
    obtain ⟨hks, hks'⟩ := ih hrest
    refine ⟨Bool.and_eq_true_iff.mpr ⟨?_, hks⟩, ?_⟩
    · cases ks with
      | nil => simp
      | cons => exact hhere
    · rwa [List.getLastD_cons]

end Token

/-- No parenthesis that opens a list stands behind an operator but IN. -/
theorem Power.not_opensList {k : Token.Kind} {p : Power} (h : of? k = some p)
    (hp : p.continuation ≠ .test) : k.opensList = false := by
  unfold Token.Kind.opensList
  split
  · cases h
  · cases h
    exact absurd rfl hp
  · rfl

namespace Rule

open Token

variable {α : Type} {r : Registry} {last : Kind} {ks : List Kind}

/-- The tokens do not start like a query. -/
def NoQuery (ks : List Kind) : Prop := ∃ k rest, ks = k :: rest ∧ k ≠ .keyword .select

/-- What is read as a part without parentheses that group is upright. -/
def standing : Rules where
  expression _ ks e := NoQuery ks ∧
    ∀ last, last.opensList = false → ungrouped last ks = true → e.Upright
  query ks q := ∀ last, ungrouped last ks = true → (Expr.query q).Upright

theorem Listed.each {R : Rule α} {P : α → Prop} {as : List α} (h : Listed R ks as)
    (hP : ∀ last ks a, R ks a → last.opensList = false → ungrouped last ks = true → P a)
    (hlast : last.opensList = false) (hks : ungrouped last ks = true) : ∀ a ∈ as, P a := by
  induction h with
  | one ha => simpa using hP _ _ _ ha hlast hks
  | more _ ha ih =>
    obtain ⟨hfront, hback⟩ := ungrouped_append hks
    have hback := hP _ _ _ ha rfl (ungrouped_cons hback)
    simp only [List.mem_append, List.mem_singleton]
    rintro a (ha | rfl)
    · exact ih hfront a ha
    · exact hback

theorem Listed.upright {es : List Expr} {power : Nat}
    (h : Listed (standing.expression power) ks es) (hlast : last.opensList = false)
    (hks : ungrouped last ks = true) : ∀ e ∈ es, e.Upright :=
  h.each (fun _ _ _ he => he.2 _) hlast hks

theorem Listed.noQuery {es : List Expr} {power : Nat}
    (h : Listed (standing.expression power) ks es) : NoQuery ks := by
  induction h with
  | one he => exact he.1
  | more _ _ ih =>
    obtain ⟨k, rest, rfl, hk⟩ := ih
    exact ⟨k, _, rfl, hk⟩

/-- What stands between parentheses. -/
theorem Enclosed.opened {R : Rule α} {a : α} (h : Enclosed R ks a)
    (hks : ungrouped last ks = true) : ∃ inner, R inner a ∧
      Token.ungrouped (.symbol .leftParen) inner = true ∧ (last.opensList = true ∨ ¬ NoQuery inner) := by
  obtain ⟨hR⟩ := h
  rename_i inner
  obtain ⟨hopen, hinner⟩ := Bool.and_eq_true_iff.mp hks
  refine ⟨inner, hR, (ungrouped_append hinner).1, ?_⟩
  by_cases hlast : last.opensList = true
  · exact .inl hlast
  · refine .inr ?_
    rintro ⟨k, rest, rfl, hk⟩
    simp [hlast, hk] at hopen

/-- No list of values and no group stands without parentheses. -/
theorem Enclosed.no_group {es : List Expr} {power : Nat}
    (h : Enclosed (Listed (standing.expression power)) ks es) (hlast : last.opensList = false)
    (hks : ungrouped last ks = true) : False := by
  obtain ⟨inner, hinner, -, hopens | hquery⟩ := h.opened hks
  · simp [hlast] at hopens
  · exact hquery hinner.noQuery

theorem Enclosed.upright {q : Query Expr} (h : Enclosed standing.query ks q)
    (hks : ungrouped last ks = true) : (Expr.query q).Upright := by
  obtain ⟨inner, hq, hinner, -⟩ := h.opened hks
  exact hq _ hinner

theorem Argument.upright {e : Expr} (h : Argument standing ks e) (hlast : last.opensList = false)
    (hks : ungrouped last ks = true) : e.Upright := by
  cases h with
  | all => exact Expr.upright_leaf rfl nofun
  | expression h => exact h.2 _ hlast hks

/-- An operand is upright. If it is no sign and no NOT, no operator could split it. -/
theorem Primary.upright {e : Expr} (h : Primary r standing ks e) (hlast : last.opensList = false)
    (hks : ungrouped last ks = true) :
    e.Upright ∧ ∀ op, e = .operation op → op.precedence? = none := by
  have hquery {q : Query Expr} (hq : (Expr.query q).Upright) : ∀ e ∈ [Expr.query q], e.Upright := by
    simpa using hq
  cases h with
  | number | string | null | placeholder | column => exact ⟨Expr.upright_leaf rfl nofun, nofun⟩
  | @«exists» ks q h =>
    have hnone : Operation.precedence? ⟨Operator.exist, [.query q], false⟩ = none := rfl
    refine ⟨Expr.upright_operation (Expr.upright_of_precedence ?_)
      (hquery (h.upright (ungrouped_cons hks))), ?_⟩
    · rw [hnone]
      nofun
    · rintro _ ⟨⟩
      exact hnone
  | subquery h => exact ⟨h.upright hks, nofun⟩
  | group h => exact (h.no_group hlast hks).elim
  | list h => exact (h.no_group hlast hks).elim
  | @call name arity ks args harity h haccepts =>
    have hnone : Operation.precedence? ⟨Text.upper name, args, true⟩ = none := rfl
    obtain ⟨inner, hargs, hinner, -⟩ := h.opened (ungrouped_cons hks)
    refine ⟨Expr.upright_operation (Expr.upright_of_precedence ?_) ?_, ?_⟩
    · rw [hnone]
      nofun
    · cases hargs with
      | none => nofun
      | some hargs => exact hargs.each (fun _ _ _ h => h.upright) rfl hinner
    · rintro _ ⟨⟩
      exact hnone

theorem Primary.noQuery {e : Expr} (h : Primary r standing ks e) : NoQuery ks := by
  cases h with
  | subquery h | group h | list h => cases h; exact ⟨_, _, rfl, nofun⟩
  | column h =>
    obtain ⟨n, rest, rfl, -⟩ := Grammar.column_cons h
    exact ⟨_, _, rfl, nofun⟩
  | number | string | null | placeholder | «exists» | call => exact ⟨_, _, rfl, nofun⟩

theorem Operand.noQuery {e : Expr} (h : Operand r standing ks e) : NoQuery ks := by
  cases h with
  | not | minus | plus => exact ⟨_, _, rfl, nofun⟩
  | primary h => exact h.noQuery

theorem Operand.upright {e : Expr} (h : Operand r standing ks e) (hlast : last.opensList = false)
    (hks : ungrouped last ks = true) : e.Upright := by
  have hprefix {o : String} {level : Precedence} {a : Expr} (ha : a.Upright)
      (hlevel : Operation.precedence? ⟨o, [a], false⟩ = some level)
      (hlevels : level = .not ∨ level = .sign) : (Expr.unary o a).Upright := by
    apply Expr.upright_operation
    · apply Expr.upright_of_precedence
      rw [hlevel]
      rintro _ ⟨⟩
      exact hlevels
    · simpa using ha
  cases h with
  | not h => exact hprefix (h.2 _ rfl (ungrouped_cons hks)) rfl (.inl rfl)
  | minus h => exact hprefix (h.2 _ rfl (ungrouped_cons hks)) rfl (.inr rfl)
  | plus h => exact h.2 _ rfl (ungrouped_cons hks)
  | primary h => exact (h.upright hlast hks).1

theorem Comparand.upright {power : Nat} {e : Expr} (h : Comparand standing power ks e)
    (hlast : last.opensList = false) (hks : ungrouped last ks = true) : e.Upright := by
  cases h with
  | @quantified word operator ks q hword h =>
    have hquantifiers : ∀ o ∈ Operator.quantifiers, o ≠ Operator.minus ∧
        Precedence.table.lookup o = none := by decide
    obtain ⟨hminus, hlookup⟩ := hquantifiers _ hword.mem
    have hnone : Operation.precedence? ⟨operator, [.query q], false⟩ = none := by
      simp [Operation.precedence?, hminus, hlookup]
    apply Expr.upright_operation
    · apply Expr.upright_of_precedence
      rw [hnone]
      nofun
    · simpa using h.upright (ungrouped_cons hks)
  | expression h => exact h.2 _ hlast hks

theorem Candidates.upright {es : List Expr} (h : Candidates standing ks es)
    (hlast : last.opensList = false) (hks : ungrouped last ks = true) : ∀ e ∈ es, e.Upright := by
  cases h with
  | subquery h => simpa using h _ hks
  | list h => exact h.upright hlast hks

theorem Candidates.ne_nil {es : List Expr} (h : Candidates standing ks es) : es ≠ [] := by
  cases h with
  | subquery => simp
  | list h => exact h.ne_nil

theorem Test.upright {left e : Expr} (hleft : left.Upright)
    (hsettled : left.Settled (ks.headD .eof)) (h : Test standing left ks e)
    (hks : ungrouped last ks = true) : e.Upright := by
  have hoperation {not : List Kind} {o plain negative : String} {word : Keyword} {es : List Expr}
      (hnot : Negation plain negative not o)
      (hword : ∃ rest, ks = not ++ .keyword word :: rest)
      (hp : Power.of? (.keyword word) = some ⟨9, Power.testOperand, .test⟩)
      (hlevel : ∀ o ∈ [plain, negative], Precedence.table.lookup o = some .test)
      (hne : es ≠ []) (hes : ∀ e ∈ es, e.Upright) : (Expr.applied o (left :: es)).Upright := by
    obtain ⟨rest, hword⟩ := hword
    have hpower : Power.of? (ks.headD .eof) = some ⟨9, Power.testOperand, .test⟩ := by
      rw [hword]
      cases hnot with
      | plain => exact hp
      | negative => rfl
    apply Expr.upright_operation
    · apply hsettled.operator hpower rfl
      have hlength : 2 ≤ (left :: es).length := by
        have hpos := List.length_pos_iff.mpr hne
        simp only [List.length_cons]
        omega
      rw [Operation.precedence?_of_many hlength, hlevel o hnot.mem]
      rintro _ ⟨⟩
      rfl
    · exact List.forall_mem_cons.mpr ⟨hleft, hes⟩
  cases h with
  | between hnot hlow hhigh =>
    obtain ⟨hfront, hback⟩ := ungrouped_append hks
    have hlow := hlow.2 _ rfl (ungrouped_cons (ungrouped_append hfront).2)
    have hhigh := hhigh.2 _ rfl (ungrouped_cons hback)
    apply hoperation hnot ⟨_, List.append_assoc _ _ _⟩ rfl (by decide) (by simp)
    simp [hlow, hhigh]
  | like hnot h =>
    have h := h.2 _ rfl (ungrouped_cons (ungrouped_append hks).2)
    apply hoperation hnot ⟨_, rfl⟩ rfl (by decide) (by simp)
    simpa using h
  | membership hnot h =>
    obtain ⟨inner, hlist, hinner, -⟩ := h.opened (ungrouped_cons (ungrouped_append hks).2)
    exact hoperation hnot ⟨_, rfl⟩ rfl (by decide) hlist.ne_nil (hlist.upright rfl hinner)

theorem NullTest.upright {left e : Expr} (hleft : left.Upright)
    (hsettled : left.Settled (ks.headD .eof)) (h : NullTest left ks e) : e.Upright := by
  have hoperation {o : String} (ho : o ∈ Operator.nullTests)
      (hpower : Power.of? (ks.headD .eof) = some ⟨11, 12, .nullTest⟩) :
      (Expr.unary o left).Upright := by
    have hlevels : ∀ o ∈ Operator.nullTests, o ≠ Operator.minus ∧
        Precedence.table.lookup o = some .nullTest := by decide
    obtain ⟨hminus, hlookup⟩ := hlevels o ho
    apply Expr.upright_operation
    · apply hsettled.operator hpower rfl
      simp [Operation.precedence?, hminus, hlookup, Precedence.rank]
    · simpa using hleft
  cases h with
  | plain => exact hoperation (by decide) rfl
  | negative => exact hoperation (by decide) rfl

/-- One operator behind what is upright and settled makes something upright. -/
theorem Link.upright {power : Nat} {chain next : Grammar.Chain}
    (h : Link standing power chain ks next) (hchain : chain.expr.Upright)
    (hcollects : chain.Collects) (hsettled : chain.expr.Settled (ks.headD .eof))
    (hks : ungrouped last ks = true) : next.expr.Upright := by
  cases h with
  | nullTest h => exact h.upright hchain hsettled
  | test h => exact h.upright hchain hsettled hks
  | comparison hp _ hoperator _ h =>
    have hrank := (Power.of?_rank hp).2
    rw [hoperator] at hrank
    obtain ⟨level, hlevel, hleft⟩ := hrank
    have hno := Power.not_opensList hp (by rw [hoperator]; nofun)
    exact hsettled.binary hp hlevel hleft hchain (h.upright hno (ungrouped_cons hks))
  | @chain k p operator ks right hp _ hoperator h =>
    have hrank := (Power.of?_rank hp).2
    rw [hoperator] at hrank
    obtain ⟨level, hlevel, hleft⟩ := hrank
    have hno := Power.not_opensList hp (by rw [hoperator]; nofun)
    have hright := h.2 _ hno (ungrouped_cons hks)
    obtain ⟨es, hexpr, hlength, hjoin⟩ | hjoin := chain.join_cases hcollects operator right
    · rw [hjoin]
      rw [hexpr] at hchain
      apply Expr.upright_operation ((hchain _ .self).append hlength [right])
      simp only [List.mem_append, List.mem_singleton]
      rintro e (he | rfl)
      · exact hchain.operand e he
      · exact hright
    · rw [hjoin]
      exact hsettled.binary hp hlevel hleft hchain hright

/-! ### Queries -/

theorem Condition.upright {word : Keyword} {o : Option Expr}
    (h : Optional (Condition standing word) ks o) (hword : word ≠ .in)
    (hks : ungrouped last ks = true) : ∀ e ∈ o, e.Upright := by
  cases h with
  | absent => nofun
  | present h =>
    obtain ⟨h⟩ := h
    have hno : (Kind.keyword word).opensList = false := by
      unfold Kind.opensList
      split <;> simp_all
    rintro _ ⟨⟩
    exact h.2 _ hno (ungrouped_cons hks)

theorem Item.upright {item : SelectItem Expr} (h : Item r standing ks item)
    (hlast : last.opensList = false) (hks : ungrouped last ks = true) :
    ∀ e ∈ item.expression, e.Upright := by
  cases h with
  | all => nofun
  | @expression ks e _ _ h _ =>
    have h := h.2 _ hlast (ungrouped_append hks).1
    rw [SelectItem.expression_aliased]
    obtain ⟨hsome, -⟩ | ⟨-, -, -, hsome | hnone⟩ := SelectItem.ofExpr_cases r e
    · rw [hsome]
      rintro _ ⟨⟩
      exact h
    · rw [hsome]
      rintro _ ⟨⟩
      exact h
    · rw [hnone]
      nofun

theorem Group.upright {o : Option (GroupBy Expr)} (h : Optional (Group standing) ks o)
    (hks : ungrouped last ks = true) :
    ∀ g ∈ o, (∀ e ∈ g.exprs, e.Upright) ∧ ∀ e ∈ g.having, e.Upright := by
  cases h with
  | absent => nofun
  | present h =>
    obtain ⟨hlist, hhaving⟩ := h
    obtain ⟨hfront, hback⟩ := ungrouped_append (ungrouped_cons (ungrouped_cons hks))
    rintro _ ⟨⟩
    exact ⟨hlist.upright rfl hfront, Condition.upright hhaving (by decide) hback⟩

theorem SetOperation.upright {o : Option (Operation Expr)} (h : Optional (SetOperation standing) ks o)
    (hks : ungrouped last ks = true) : ∀ op ∈ o, ∀ e ∈ op.operands, e.Upright := by
  cases h with
  | absent => nofun
  | present h =>
    cases h with
    | enclosed _ h =>
      rintro _ ⟨⟩
      simpa using h.upright (ungrouped_append hks).2
    | bare _ h =>
      rintro _ ⟨⟩
      simpa using h _ (ungrouped_append hks).2

theorem Order.upright {entries : List (OrderBy Expr)} (h : Order standing ks entries)
    (hks : ungrouped last ks = true) : ∀ entry ∈ entries, entry.expr.Upright := by
  cases h with
  | none => nofun
  | some h =>
    refine h.each ?_ rfl (ungrouped_cons (ungrouped_cons hks))
    rintro last ks _ ⟨he, -⟩ hlast hks
    exact he.2 _ hlast (ungrouped_append hks).1

theorem Select.upright {q : Query Expr} (h : Select r standing ks q)
    (hks : ungrouped last ks = true) : (Expr.query q).Upright := by
  obtain ⟨hdistinct, hitems, -, hcondition, hgroup, hset, horder, -⟩ := h
  rename_i distinct _ _ _ _ _ _ _ _ _ _ _ _ _ _ _
  have hno : (distinct.getLastD (.keyword .select)).opensList = false := by
    cases hdistinct with
    | distinct | all | none => rfl
  simp only [List.cons_append, List.append_assoc] at hks
  obtain ⟨-, hks⟩ := ungrouped_append (ungrouped_cons hks)
  obtain ⟨wi, hks⟩ := ungrouped_append hks
  obtain ⟨-, hks⟩ := ungrouped_append (ungrouped_cons hks)
  obtain ⟨wc, hks⟩ := ungrouped_append hks
  obtain ⟨wg, hks⟩ := ungrouped_append hks
  obtain ⟨wset, hks⟩ := ungrouped_append hks
  obtain ⟨wo, -⟩ := ungrouped_append hks
  apply Expr.upright_query
  intro e he
  obtain ⟨i, hi, he⟩ | he | ⟨g, hg, he⟩ | ⟨op, hop, he⟩ | ⟨entry, hentry, rfl⟩ :=
    Query.mem_parts.mp he
  · exact hitems.each (fun _ _ _ h => h.upright) hno wi i hi e he
  · exact Condition.upright hcondition (by decide) wc e he
  · obtain ⟨hexprs, hhaving⟩ := Group.upright hgroup wg g hg
    exact he.elim (hexprs e) (hhaving e)
  · exact SetOperation.upright hset wset op hop e he
  · exact horder.upright wo entry hentry

end Rule

/-! ## Readings -/

/-- Expressions without parentheses that group are upright and settled where they end. -/
structure Readers.Ordered (part : Readers) : Prop where
  follow : part.Follow Rule.standing
  stop : part.Stop
  settled : ∀ ⦃power c e d ks last⦄, part.expression power c = (.ok e, d) → c.Moves ks d →
    last.opensList = false → Token.ungrouped last ks = true → e.Settled d.current.kind

namespace Grammar

open Reading Cursor

variable {registry : Registry} {part : Readers} {c d : Cursor} {e : Expr} {ks : List Token.Kind}
  {last : Token.Kind}

theorem operand_settled (hpart : part.Ordered) (h : operand registry part c = (.ok e, d))
    (hm : c.Moves ks d) (hlast : last.opensList = false)
    (hks : Token.ungrouped last ks = true) : e.Settled d.current.kind := by
  rw [operand, kind_bind] at h
  split at h
  · rw [advance_bind] at h
    obtain ⟨a, _, h₁, h₂⟩ := bind_ok.mp h
    obtain ⟨rfl, rfl⟩ := pure_ok.mp h₂
    have hlevel : Operation.precedence? ⟨Operator.not, [a], false⟩ = some .not := rfl
    exact settled_of_rank hlevel (hpart.stop h₁) (by decide)
  · rw [advance_bind] at h
    obtain ⟨a, _, h₁, h₂⟩ := bind_ok.mp h
    obtain ⟨rfl, rfl⟩ := pure_ok.mp h₂
    have hlevel : Operation.precedence? ⟨Operator.minus, [a], false⟩ = some .sign := rfl
    exact settled_of_rank hlevel (hpart.stop h₁) (by decide)
  · rename_i hplus
    rw [advance_bind] at h
    obtain ⟨ks', hm'⟩ := (part.expression Power.signOperand).moves c.advance
    rw [h] at hm'
    obtain rfl := hm.kinds_unique ((current_moves hplus (by simp)).trans hm')
    exact hpart.settled h hm' rfl (Token.ungrouped_cons hks)
  · obtain ⟨ks', hm', hprimary⟩ := primary_takes hpart.follow h
    obtain rfl := hm.kinds_unique hm'
    have hnone := (hprimary.upright hlast hks).2
    intro op p he hp
    rw [hnone op he]
    exact .inr (by simp)

theorem expression_ordered (hpart : part.Ordered) {power : Nat}
    (h : expression registry part power c = (.ok e, d)) :
    ∃ ks, c.Moves ks d ∧ Rule.NoQuery ks ∧ ∀ last, last.opensList = false →
      Token.ungrouped last ks = true → e.Upright ∧ e.Settled d.current.kind := by
  obtain ⟨first, c₁, hfirst, h⟩ := bind_ok.mp h
  obtain ⟨chain, c₂, hchain, hlast⟩ := bind_ok.mp h
  obtain ⟨rfl, rfl⟩ := pure_ok.mp hlast
  -- What is kept turn by turn: the run of operands, and what holds of the chain where it stands.
  let Going (chain : Chain) (at' : Cursor) : Prop := chain.Collects ∧
    ∃ ks, c.Moves ks at' ∧ Rule.NoQuery ks ∧ ∀ last, last.opensList = false →
      Token.ungrouped last ks = true → chain.expr.Upright ∧ chain.expr.Settled at'.current.kind
  have hstart : Going ⟨first, none, false⟩ c₁ := by
    obtain ⟨ks, hm, hoperand⟩ := operand_takes hpart.follow hfirst
    refine ⟨.start _ _, ks, hm, hoperand.noQuery, fun last hlast hks => ?_⟩
    exact ⟨hoperand.upright hlast hks, operand_settled hpart hfirst hm hlast hks⟩
  refine (iterate_ends (chainStep_progress part power) Going Going ?_ hstart hchain).2
  rintro chain at' turn next ⟨hcollects, ks, hm, hno, hkept⟩ hturn
  have htakes := chainStep_takes hpart.follow hturn
  cases turn with
  | done last =>
    obtain ⟨rfl, rfl⟩ := htakes
    exact ⟨hcollects, ks, hm, hno, hkept⟩
  | yield joined =>
    obtain ⟨ks', hm', hlink⟩ := htakes
    obtain ⟨hsettled, hjoined⟩ := chainStep_settled hpart.stop hcollects hturn
    obtain ⟨k, rest, rfl⟩ := List.exists_cons_of_ne_nil hlink.ne_nil
    obtain ⟨k', rest', rfl, hk'⟩ := hno
    refine ⟨hjoined, _, hm.trans hm', ⟨k', _, rfl, hk'⟩, fun last hlast hks => ?_⟩
    obtain ⟨hfront, hback⟩ := Token.ungrouped_append hks
    obtain ⟨hupright, hbefore⟩ := hkept last hlast hfront
    rw [hm'.current_cons] at hbefore
    exact ⟨hlink.upright hupright hcollects hbefore hback, hsettled⟩

theorem readersOfDepth_ordered (registry : Registry) (depth : Nat) :
    (readersOfDepth registry depth).Ordered := by
  induction depth with
  | zero =>
    constructor
    · constructor
      · intro power c e d h
        exact absurd h (by simp [readersOfDepth, unexpected_ok])
      · intro c q d h
        exact absurd h (by simp [readersOfDepth, unexpected_ok])
    · intro power c e d h
      exact absurd h (by simp [readersOfDepth, unexpected_ok])
    · intro power c e d ks last h
      exact absurd h (by simp [readersOfDepth, unexpected_ok])
  | succ depth ih =>
    constructor
    · constructor
      · intro power c e d h
        obtain ⟨ks, hm, hno, hkept⟩ := expression_ordered ih h
        exact ⟨ks, hm, hno, fun last hlast hks => (hkept last hlast hks).1⟩
      · exact (query_takes ih.follow).weaken fun _ _ h _ => h.upright
    · intro power c e d h
      exact expression_stops h
    · intro power c e d ks last h hm hlast hks
      obtain ⟨ks', hm', -, hkept⟩ := expression_ordered ih h
      obtain rfl := hm.kinds_unique hm'
      exact (hkept last hlast hks).2

theorem readers_upright (registry : Registry) : (readers registry).Follow Rule.standing where
  expression power _ _ _ h := (readersOfDepth_ordered registry _).follow.expression power h
  query _ _ _ h := (readersOfDepth_ordered registry _).follow.query h

end Grammar

theorem Rule.Alone.upright {ks : List Token.Kind} {e : Expr} (h : Rule.Alone Rule.standing ks e)
    (hks : Token.ungrouped .eof ks = true) : e.Upright := by
  obtain ⟨hwhere, h, -⟩ := h
  obtain ⟨hfront, -⟩ := Token.ungrouped_append hks
  obtain ⟨-, hks⟩ := Token.ungrouped_append hfront
  cases hwhere with
  | absent => exact h.2 _ rfl hks
  | present => exact h.2 _ rfl hks

/-- If the parentheses of an expression stand only behind the names of calls, behind IN and around
    subqueries, then in its tree the first operand of an infix or postfix operation binds looser only
    if it has ended by itself: as a test for NULL, a list of candidates or a comparison with a
    quantified subquery. -/
theorem left_operand_binds_tighter (r : Registry) (c d : Cursor) (e : Expr) (ks : List Token.Kind)
    (hread : Grammar.condition r c = (.ok e, d)) (hm : c.Moves ks d)
    (hks : Token.ungrouped .eof ks = true) :
    ∀ op, e.Holds (.operation op) → op.Inverted →
      ∃ first rest, op.operands = .operation first :: rest ∧ first.EndsItself := by
  obtain ⟨ks', hm', halone⟩ := Grammar.condition_takes (Grammar.readers_upright r) hread
  obtain rfl := hm.kinds_unique hm'
  exact halone.upright hks

theorem left_operand_binds_tighter_mixed :
    ∃ e, (Grammar.condition Registry.builtin
        (Cursor.ofText "not a + sum(b) ** -2 in (1, c) = d and ? is null or e = any (select f from g)")).1 =
          .ok e ∧
      ∀ op, e.Holds (.operation op) → op.Inverted →
        ∃ first rest, op.operands = .operation first :: rest ∧ first.EndsItself := by
  have hread : (Grammar.condition Registry.builtin (Cursor.ofText
      "not a + sum(b) ** -2 in (1, c) = d and ? is null or e = any (select f from g)")).1.toOption.isSome =
        true := by decide +kernel
  obtain ⟨e, he⟩ := Option.isSome_iff_exists.mp hread
  have he := ok_of_toOption he
  obtain ⟨ks, hm⟩ := (Grammar.condition Registry.builtin).moves (Cursor.ofText
    "not a + sum(b) ** -2 in (1, c) = d and ? is null or e = any (select f from g)")
  have hall : Token.ungrouped .eof (Cursor.ofText
      "not a + sum(b) ** -2 in (1, c) = d and ? is null or e = any (select f from g)").kinds = true := by
    decide +kernel
  rw [hm.kinds] at hall
  exact ⟨e, he, left_operand_binds_tighter _ _ _ e ks (Prod.ext he rfl) hm
    (Token.ungrouped_append hall).1⟩

/-- A sum is read that has a test for NULL as its first operand, although no parenthesis groups. -/
theorem sum_of_nullTest_inverted :
    ∃ e op, (Grammar.condition Registry.builtin (Cursor.ofText "a IS NULL + b")).1 = .ok e ∧
      Token.ungrouped .eof (Cursor.ofText "a IS NULL + b").kinds = true ∧
      e.Holds (.operation op) ∧ op.Inverted := by
  have hread : (Grammar.condition Registry.builtin (Cursor.ofText "a IS NULL + b")).1.toOption =
      some (.binary Operator.plus (Expr.column "a").isNull (.column "b")) := by decide +kernel
  refine ⟨_, _, ok_of_toOption hread, by decide +kernel, .self, ?_⟩
  exact ⟨.sum, rfl, nofun, nofun, _, _, .nullTest, rfl, rfl, by decide⟩

end SqlFront
